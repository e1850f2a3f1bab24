import FourInRow.Lobby.Foyer

/-!
# The book of a lobby

A lobby as it is kept: seats, tallies in bytes, a match that may be there or not, and three flags, for
whether the lobby is open, lets newcomers in, and plays.  Each operation writes what it changes and
leaves the rest, so nothing but the operations themselves keeps seats, tallies, match and flags in
step.  A ledger is a book together with the peers outside the lobby and the choices that chance has
left, and `Ledger.step` is everything that can happen to it.

Component: `Lobby`, with its fields `open`, `accepting`, `playing` and `game` and its two counts.
-/

namespace FourInRow

/-- What is written down about a lobby. -/
@[ext]
structure Lobby.Book where
  number : Nat
  /-- The seats in order. -/
  seats : List (Option Peer)
  /-- The number of taken seats. -/
  players : UInt8
  /-- The number of taken seats whose peer is ready. -/
  readied : UInt8
  /-- The running match. -/
  game : Option Match
  columns : UInt8
  rows : UInt8
  /-- Is the lobby open? -/
  isOpen : Bool
  /-- Would the lobby let somebody in if it had a free seat? -/
  isAccepting : Bool
  /-- Is a match running? -/
  isPlaying : Bool
deriving Repr

namespace Lobby.Book

/-- The book of a closed lobby with empty seats. -/
def new (number : Nat) (capacity columns rows : UInt8) : Book where
  number := number
  seats := List.replicate capacity.toNat none
  players := 0
  readied := 0
  game := none
  columns := columns
  rows := rows
  isOpen := false
  isAccepting := false
  isPlaying := false

/-! ## Looking things up -/

/-- Are all seats taken? -/
def isFull (k : Book) : Bool := k.players.toNat == k.seats.length

/-- Can a newcomer be seated right now? -/
def hasFreeSeat (k : Book) : Bool := k.isAccepting && !k.isFull

/-- The peers in the lobby, in the order of their seats. -/
def members (k : Book) : List Peer := k.seats.filterMap fun s => s

/-- The first seat of a member with the given connection, and the member. -/
def find? (k : Book) (id : ConnectionId) : Option (Nat × Peer) :=
  match k.seats.findIdx? fun s => s.any fun p => p.id = id with
  | none => none
  | some i =>
    match k.seats[i]? with
    | some (some p) => some (i, p)
    | _ => none

/-! ## Announcements -/

/-- Tells every member, in the order of the seats. -/
def tellAll (k : Book) (announce : Peer → Mail) : Mail := k.members.flatMap announce

/-- Asks the member with the given number for its turn. -/
def requestTurn (k : Book) (player : Player) : Mail :=
  k.tellAll fun p => p.turnRequested player

/-- Tells the members the outcome of a player's turn. -/
def announceTurn (k : Book) (player : Player) (column : UInt8) (result : TurnResult) : Mail :=
  k.tellAll fun p => p.turnTaken player column result

/-! ## Doors and seats -/

/-- Opens the doors. -/
def openDoors (k : Book) : Book := { k with isOpen := true, isAccepting := true }

/-- Seats a newcomer in the first free seat, if newcomers are let in. -/
def seat (k : Book) (p : Peer) : Option (Player × Book × Mail) :=
  if k.hasFreeSeat then
    match k.seats.findIdx? Option.isNone with
    | none => none
    | some i =>
      let player := UInt8.ofNat i + 1
      let (p', mail) := { p with ready := false }.assign player
      some (player, { k with seats := k.seats.set i (some p'), players := k.players + 1 }, mail)
  else
    none

/-- The receiving end of a member's messages goes away. -/
def hangUp (k : Book) (id : ConnectionId) : Book :=
  { k with seats := k.seats.map (Option.map fun p => if p.id = id then p.hangUp else p) }

/-! ## Beginning and end of a match -/

/-- Begins a match with a first player chosen by chance.  Where no match can begin nothing is
written. -/
def beginMatch (k : Book) (d : Draws) : Book × Draws × Mail :=
  let players := UInt8.ofNat k.seats.length
  let (choice, d) := d.choose players.toNat
  let first := UInt8.ofNat (choice + 1)
  match Match.new players first k.columns k.rows with
  | .error _ => (k, d, [])
  | .ok game =>
    let size := game.board.size
    let k' := { k with game := some game, isPlaying := true, isAccepting := false }
    (k', d, k'.tellAll (fun p => p.matchBegins players size.columns size.rows first) ++
      k'.requestTurn first)

/-- Ends the running match.  Newcomers are let in again if the lobby is open. -/
def endMatch (k : Book) (winner : Player) : Book × Mail :=
  ({ k with
      isPlaying := false
      readied := 0
      game := none
      isAccepting := k.isOpen
      seats := k.seats.map (Option.map fun p => { p with ready := false }) },
    k.tellAll fun p => p.matchEnds winner)

/-! ## What members do -/

/-- Writes down that the member in a seat is ready. -/
def noteReady (k : Book) (i : Nat) (p : Peer) : Book :=
  { k with seats := k.seats.set i (some { p with ready := true }), readied := k.readied + 1 }

/-- A member says that it is ready, which counts once; between matches only. -/
def ready (k : Book) (d : Draws) (id : ConnectionId) : Book × Draws × Mail :=
  if k.isPlaying then (k, d, [])
  else
    match k.find? id with
    | none => (k, d, [])
    | some (i, p) =>
      if p.ready then (k, d, [])
      else
        let k' := k.noteReady i p
        if k'.readied = k'.players ∧ k'.isFull then k'.beginMatch d
        else (k', d, [])

/-- Writes down how the running match stands. -/
def withGame (k : Book) (game : Match) : Book := { k with game := some game }

/-- A member takes its turn. -/
def turn (k : Book) (id : ConnectionId) (column : UInt8) : Book × Mail :=
  match k.find? id with
  | none => (k, [])
  | some (_, p) =>
    if !k.isPlaying then (k, k.announceTurn p.player column .error)
    else
      match k.game with
      | none => (k, k.announceTurn p.player column .error)
      | some game =>
        match game.turn p.player column with
        | .ok (game', result) =>
          let k' := k.withGame game'
          let outcome := k'.announceTurn p.player column result
          if game'.isOver then
            let (k'', mail) := k'.endMatch (game'.winner.getD nobody)
            (k'', outcome ++ mail)
          else if result = .success then
            (k', outcome ++ k'.requestTurn game'.current)
          else
            (k', outcome)
        | .error _ =>
          let (k', mail) := k.endMatch nobody
          (k', k.announceTurn p.player column .error ++ mail)

/-- Strikes out the member in a seat. -/
def vacate (k : Book) (i : Nat) (p : Peer) : Book :=
  { k with
    seats := k.seats.set i none
    players := k.players - 1
    readied := if p.ready ∧ 0 < k.readied then k.readied - 1 else k.readied }

/-- A member leaves; the running match is broken off. -/
def leave (k : Book) (id : ConnectionId) : Option (Peer × Book × Mail) :=
  match k.find? id with
  | none => none
  | some (i, p) =>
    let k' := k.vacate i p
    if k'.isPlaying then
      let (k'', mail) := k'.endMatch nobody
      some (p, k'', mail)
    else
      some (p, k', [])

/-- Closes the lobby: the running match is broken off and all members are released. -/
def close (k : Book) : List Peer × Book × Mail :=
  let (k', mail) := if k.isPlaying then k.endMatch nobody else (k, [])
  (k'.members,
    { k' with
      isOpen := false
      isAccepting := false
      players := 0
      readied := 0
      seats := k'.seats.map fun _ => none },
    mail)

end Lobby.Book

/-- The book of a lobby, the peers outside it, and the choices that chance has left. -/
structure Ledger where
  book : Lobby.Book
  outside : List Peer
  draws : Draws
deriving Repr

namespace Ledger

/-- The peer outside with the given connection, or a new one. -/
def comer (r : Ledger) (id : ConnectionId) : Peer :=
  (r.outside.find? fun p => p.id = id).getD (Peer.new id)

/-- The peers outside without the given one. -/
def others (r : Ledger) (id : ConnectionId) : List Peer :=
  r.outside.filter fun p => p.id ≠ id

/-- A peer from outside, or a new one, wants to come in. -/
def enter (r : Ledger) (id : ConnectionId) : Ledger × Foyer.Reply × Mail :=
  match r.book.find? id with
  | some _ => (r, .present, [])
  | none =>
    match r.book.seat (r.comer id) with
    | none => ({ r with outside := r.others id ++ [r.comer id] }, .rejected, [])
    | some (player, book, mail) =>
      ({ r with book := book, outside := r.others id }, .seated player, mail)

/-- One event: the ledger after it, its reply, and the messages sent. -/
def step (r : Ledger) : Foyer.Event → Ledger × Foyer.Reply × Mail
  | .openDoors => ({ r with book := r.book.openDoors }, .nothing, [])
  | .enter id => r.enter id
  | .ready id =>
    let (book, draws, mail) := r.book.ready r.draws id
    ({ r with book := book, draws := draws }, .nothing, mail)
  | .turn id column =>
    let (book, mail) := r.book.turn id column
    ({ r with book := book }, .nothing, mail)
  | .leave id =>
    match r.book.leave id with
    | none => (r, .nothing, [])
    | some (p, book, mail) =>
      ({ r with book := book, outside := r.outside ++ [p] }, .left p, mail)
  | .close =>
    let (released, book, mail) := r.book.close
    ({ r with book := book, outside := r.outside ++ released }, .released released, mail)
  | .hangUp id =>
    ({ r with
        book := r.book.hangUp id
        outside := r.outside.map fun p => if p.id = id then p.hangUp else p },
      .nothing, [])

/-- A run of events, with all messages sent. -/
def run (r : Ledger) : List Foyer.Event → Ledger × Mail
  | [] => (r, [])
  | e :: es =>
    let (r', _, mail) := r.step e
    let (r'', more) := r'.run es
    (r'', mail ++ more)

end Ledger

end FourInRow
