import FourInRow.Board.Grid
import FourInRow.Board.Text
import FourInRow.Bot.Launch
import FourInRow.Diagnosis
import FourInRow.Lobby.Book
import FourInRow.Lobby.Foyer
import FourInRow.Main
import FourInRow.Match.Text
import FourInRow.Proofs.Arena.Rest
import FourInRow.Proofs.Board.Grid
import FourInRow.Proofs.Board.Guarded
import FourInRow.Proofs.Board.History
import FourInRow.Proofs.Board.Text
import FourInRow.Proofs.Client.Closing
import FourInRow.Proofs.CommandLine.Layers
import FourInRow.Proofs.Hall.Closing
import FourInRow.Proofs.Hall.Descent
import FourInRow.Proofs.Hall.Handover
import FourInRow.Proofs.Hall.Isolation
import FourInRow.Proofs.Hall.Mirror
import FourInRow.Proofs.Hall.Order
import FourInRow.Proofs.Hall.Places
import FourInRow.Proofs.Hall.Rejection
import FourInRow.Proofs.Hall.Requests
import FourInRow.Proofs.Hall.Session
import FourInRow.Proofs.Json.Grammar
import FourInRow.Proofs.Json.Reading
import FourInRow.Proofs.Lobby.Book
import FourInRow.Proofs.Lobby.Guarded
import FourInRow.Proofs.Lobby.Rematch
import FourInRow.Proofs.Match.Ending
import FourInRow.Proofs.Match.Guarded
import FourInRow.Proofs.Match.Record
import FourInRow.Proofs.Match.Rules
import FourInRow.Proofs.Match.Winner
import FourInRow.Proofs.Relay.Commands
import FourInRow.Proofs.Relay.Draining
import FourInRow.Proofs.Relay.Overflow
import FourInRow.Proofs.Relay.Silence
import FourInRow.Proofs.Relay.Transparency
import FourInRow.Proofs.Relay.Writing
import FourInRow.Proofs.Settings.Document
import FourInRow.Proofs.Wire.Cut
import FourInRow.Proofs.Wire.Normal
import FourInRow.Service.Loopback
import FourInRow.Wire.Stream
