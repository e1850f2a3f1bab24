import FourInRow.Draws
import FourInRow.Lobby.Basic

/-!
# Matches in a lobby

A match begins as soon as every seat is taken and every member is ready; chance decides who moves
first.  Turns are passed on to the match and their outcomes told to the members.  The match ends
when it is over, or is broken off when a member leaves or the lobby closes.  When it has ended
nobody is ready any more: saying so again is how the members ask for another match.

Component: `Lobby`, its `on_ready`, `on_take_turn`, `on_disconnect` and `close`.
-/

namespace FourInRow

namespace Lobby

/-! ## Announcements -/

/-- Tells every member, in the order of the seats. -/
def tellAll (l : Lobby) (announce : Peer → Mail) : Mail := l.members.flatMap announce

/-- Asks the member with the given number for its turn. -/
def requestTurn (l : Lobby) (player : Player) : Mail :=
  l.tellAll fun p => p.turnRequested player

/-- Tells the members the outcome of a player's turn. -/
def announceTurn (l : Lobby) (player : Player) (column : UInt8) (result : TurnResult) : Mail :=
  l.tellAll fun p => p.turnTaken player column result

/-! ## Beginning and end of a match -/

/-- Begins a match with a first player chosen by chance.  On a board size that is not playable no
match begins, and the choice is used up all the same. -/
def beginMatch (l : Lobby) (d : Draws) : Lobby × Draws × Mail :=
  let (choice, d) := d.choose l.capacity
  let players := UInt8.ofNat l.capacity
  let first := UInt8.ofNat (choice + 1)
  match Match.new players first l.columns l.rows with
  | .error _ => (l, d, [])
  | .ok game =>
    let size := game.board.size
    ({ l with phase := .playing game false }, d,
      l.tellAll (fun p => p.matchBegins players size.columns size.rows first) ++
        l.requestTurn first)

/-- Ends the running match: the lobby gathers again, and nobody is ready any more. -/
def endMatch (l : Lobby) (winner : Player) : Lobby × Mail :=
  ({ l with
      phase := .gathering
      readied := 0
      seats := l.seats.map (Option.map fun p => { p with ready := false }) },
    l.tellAll fun p => p.matchEnds winner)

/-! ## What members do -/

/-- A member says that it is ready, which counts once; between matches only. -/
def ready (l : Lobby) (d : Draws) (id : ConnectionId) : Lobby × Draws × Mail :=
  if l.isPlaying then (l, d, [])
  else
    match l.member? id with
    | none => (l, d, [])
    | some p =>
      if p.ready then (l, d, [])
      else
        let l' := { l.updateMember id (fun p => { p with ready := true }) with
          readied := l.readied + 1 }
        if l'.readied = l'.players ∧ l'.isFull then l'.beginMatch d
        else (l', d, [])

/-- A member takes its turn. -/
def turn (l : Lobby) (id : ConnectionId) (column : UInt8) : Lobby × Mail :=
  match l.member? id with
  | none => (l, [])
  | some p =>
    match l.phase with
    | .playing game accepting =>
      match game.turn p.player column with
      | .ok (game', result) =>
        let l' := { l with phase := .playing game' accepting }
        let outcome := l'.announceTurn p.player column result
        if game'.isOver then
          let (l'', mail) := l'.endMatch (game'.winner.getD nobody)
          (l'', outcome ++ mail)
        else if result = .success then
          (l', outcome ++ l'.requestTurn game'.current)
        else
          (l', outcome)
      | .error _ =>
        let (l', mail) := l.endMatch nobody
        (l', l.announceTurn p.player column .error ++ mail)
    | _ => (l, l.announceTurn p.player column .error)

/-- A member leaves; the running match is broken off.  There is no answer if the connection
belongs to no member. -/
def leave (l : Lobby) (id : ConnectionId) : Option (Peer × Lobby × Mail) :=
  match l.member? id with
  | none => none
  | some p =>
    let l' := { l with
      seats := l.seats.map fun s => if s.any (fun q => q.id = id) then none else s
      players := l.players - 1
      readied := if p.ready then l.readied - 1 else l.readied }
    if l.isPlaying then
      let (l'', mail) := l'.endMatch nobody
      some (p, l'', mail)
    else
      some (p, l', [])

/-- Closes the lobby: the running match is broken off and all members are released. -/
def close (l : Lobby) : List Peer × Lobby × Mail :=
  let (l', mail) := if l.isPlaying then l.endMatch nobody else (l, [])
  (l'.members,
    { l' with
      phase := .closed
      players := 0
      readied := 0
      seats := l'.seats.map fun _ => none },
    mail)

end Lobby

end FourInRow
