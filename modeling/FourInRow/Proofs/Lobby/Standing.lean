import FourInRow.Proofs.Bot.Outlook
import FourInRow.Proofs.Lobby.Mirror

/-!
# How the members of a lobby stand

A lobby waits for its members: to say ready between matches, and for their turns during a match.
This module follows a single member through the operations on its lobby: what it pays, what it is
told, and what is due then.  As long as it pays only what is due it hears only what it may hear.

Main results:

- Theorem `Readied.follows`: what a member is told when somebody says ready.
- Theorem `Turned.follows`: what a member is told when somebody takes a turn.
- Theorem `Turned.answers`: a turn that is due is answered.
- Theorem `Left.follows`: what the others are told when a member leaves.
- Theorem `seat_welcomes`: what a newcomer is told.
-/

namespace FourInRow

/-- How a client stands with the hall. -/
structure Standing where
  player : Player
  /-- The board of the match that it takes part in. -/
  board : Option Board
  /-- What the hall waits for, in order. -/
  owes : List Due
  listening : Bool
deriving DecidableEq, Repr

namespace Standing

/-- How somebody stands who has just connected. -/
def new : Standing := ⟨nobody, none, [], true⟩

/-- What is known to a client that has heard everything. -/
def outlook (st : Standing) : Outlook where
  player := st.player
  board := st.board
  request :=
    if .turn ∈ st.owes then if st.board.isSome then .asked else .abandoned
    else .idle

/-- As long as no turn is due no request is open. -/
theorem outlook_of_notMem {st : Standing} (h : .turn ∉ st.owes) :
    st.outlook = ⟨st.player, st.board, .idle⟩ := by
  rw [outlook, if_neg h]

/-- As long as a turn is due in a match the request for it is open. -/
theorem outlook_of_mem {st : Standing} (h : .turn ∈ st.owes) {board : Board}
    (hboard : st.board = some board) : st.outlook = ⟨st.player, some board, .asked⟩ := by
  rw [outlook, if_pos h, hboard]
  rfl

/-- A client pays something and is told something, and stands differently then. -/
structure Leads (st : Standing) (paid : List Due) (told : List Message) (st' : Standing) :
    Prop where
  listening_eq : st'.listening = st.listening
  /-- What it is told it may hear. -/
  course : st.listening = true → st.outlook.Course told st'.outlook
  silent : st.listening = false → told = []
  /-- What was due, and what has become due by what it is told, is paid or still due. -/
  owes : ∃ due, st.owes ++ due = paid ++ st'.owes ∧
    (st.listening = true → due = told.filterMap Message.due?)
  /-- As long as a turn is due no match begins. -/
  idle : .turn ∈ st.owes → st.board = none → st'.board = none
  /-- Nor does anybody else drop a piece. -/
  still : paid = [] → .turn ∈ st.owes → st'.board = st.board ∨ st'.board = none

theorem Leads.refl (st : Standing) : st.Leads [] [] st where
  listening_eq := rfl
  course _ := .nil _
  silent _ := rfl
  owes := ⟨[], List.append_nil _, fun _ => rfl⟩
  idle _ h := h
  still _ _ := Or.inl rfl

/-- Somebody that listens is told what may be heard, and others are told nothing. -/
theorem Leads.of_course {st st' : Standing} {paid : List Due} {told heard : List Message}
    (htold : told = if st.listening = true then heard else [])
    (hlistening : st'.listening = st.listening) (hcourse : st.outlook.Course heard st'.outlook)
    (howes : st.owes ++ heard.filterMap Message.due? = paid ++ st'.owes)
    (hidle : .turn ∈ st.owes → st.board = none → st'.board = none)
    (hstill : paid = [] → .turn ∈ st.owes → st'.board = st.board ∨ st'.board = none) :
    st.Leads paid told st' where
  listening_eq := hlistening
  course h := by
    rw [htold, if_pos h]
    exact hcourse
  silent h := by
    rw [htold, h]
    rfl
  owes := by
    refine ⟨heard.filterMap Message.due?, howes, fun h => ?_⟩
    rw [htold, if_pos h]
  idle := hidle
  still := hstill

/-- A client is told its number or its place in the queue, which it has not caused. -/
structure Settles (st : Standing) (told : List Message) (st' : Standing) : Prop where
  leads : st.Leads [] told st'
  board_eq : st'.board = st.board
  kinds : ∀ m ∈ told, m.kind ∈ [.connected, .inQueue]

theorem Settles.refl (st : Standing) : st.Settles [] st :=
  ⟨.refl st, rfl, fun m hm => by cases hm⟩

/-- What a client is told afterwards, without doing anything about it, adds up. -/
theorem Leads.trans {st st₁ st' : Standing} {paid : List Due} {told told' : List Message}
    (h : st.Leads paid told st₁) (h' : st₁.Settles told' st') :
    st.Leads paid (told ++ told') st' where
  listening_eq := h'.leads.listening_eq.trans h.listening_eq
  course hst := (h.course hst).append (h'.leads.course (h.listening_eq.trans hst))
  silent hst := by
    rw [h.silent hst, h'.leads.silent (h.listening_eq.trans hst), List.append_nil]
  owes := by
    rcases h.owes with ⟨due, howes, hdue⟩
    rcases h'.leads.owes with ⟨due', howes', hdue'⟩
    rw [List.nil_append] at howes'
    refine ⟨due ++ due', ?_, fun hst => ?_⟩
    · rw [← List.append_assoc, howes, List.append_assoc, howes']
    · rw [hdue hst, hdue' (h.listening_eq.trans hst), List.filterMap_append]
  idle hturn hnone := h'.board_eq.trans (h.idle hturn hnone)
  still hpaid hturn := by
    rw [h'.board_eq]
    exact h.still hpaid hturn

theorem Settles.trans {st st₁ st' : Standing} {told told' : List Message}
    (h : st.Settles told st₁) (h' : st₁.Settles told' st') : st.Settles (told ++ told') st' :=
  ⟨h.leads.trans h', h'.board_eq.trans h.board_eq,
    fun m hm => (List.mem_append.1 hm).elim (h.kinds m) (h'.kinds m)⟩

/-- Places in the queue are told to those who listen and change nothing. -/
theorem Settles.of_queued {st : Standing} {told : List Message}
    (hqueued : ∀ m ∈ told, m.kind = .inQueue) (hsilent : st.listening = false → told = []) :
    st.Settles told st := by
  have hplaces : told.filterMap Message.due? = [] ∧ st.outlook.Course told st.outlook := by
    clear hsilent
    induction told with
    | nil => exact ⟨rfl, .nil _⟩
    | cons m ms ih =>
        rcases ih fun m' hm' => hqueued m' (List.mem_cons_of_mem _ hm') with ⟨hdue, hcourse⟩
        have hkind := hqueued m List.mem_cons_self
        cases m with
        | inQueue position => exact ⟨hdue, .cons (.queued position) hcourse⟩
        | _ => cases hkind
  rcases hplaces with ⟨hdue, hcourse⟩
  exact ⟨⟨rfl, fun _ => hcourse, hsilent, ⟨[], List.append_nil _, fun _ => hdue.symm⟩,
    fun _ h => h, fun _ _ => Or.inl rfl⟩, rfl, fun m hm => by simp [hqueued m hm]⟩

end Standing

/-! ## What a peer hears -/

namespace Peer

/-- Messages to a peer, as far as it listens. -/
def hears (p : Peer) (ms : List Message) : List Message := if p.listening = true then ms else []

theorem hears_nil (p : Peer) : p.hears [] = [] := ite_self _

theorem hears_append (p : Peer) (ms ms' : List Message) :
    p.hears (ms ++ ms') = p.hears ms ++ p.hears ms' := by
  unfold hears
  split <;> rfl

/-- The request for a player's turn, if the peer is that player. -/
def request (p : Peer) (player : Player) : List Message :=
  if player = p.player then [.turnRequest player] else []

theorem map_snd_turnRequested (p : Peer) (player : Player) :
    (p.turnRequested player).map Prod.snd = p.hears (p.request player) := by
  unfold turnRequested request
  split
  · exact p.map_snd_tell _
  · exact p.hears_nil.symm

/-- What a peer hears of a player's piece. -/
def news (p : Peer) (player : Player) (column : UInt8) : Message :=
  if player = p.player then .turnResult .success column else .update player column

theorem due?_news (p : Peer) (player : Player) (column : UInt8) :
    [p.news player column].filterMap Message.due? = [] := by
  unfold news
  split <;> rfl

theorem map_snd_turnTaken_success (p : Peer) (player : Player) (column : UInt8) :
    (p.turnTaken player column .success).map Prod.snd = p.hears [p.news player column] := by
  unfold turnTaken news
  split
  · exact p.map_snd_tell _
  · exact p.map_snd_tell _

/-- The others hear nothing of a turn that has failed. -/
theorem map_snd_turnTaken_failure (p : Peer) (player : Player) (column : UInt8)
    {result : TurnResult} (hne : result ≠ .success) :
    (p.turnTaken player column result).map Prod.snd =
      p.hears (if player = p.player then [.turnResult result column] else []) := by
  unfold turnTaken
  rw [if_neg hne]
  split
  · exact p.map_snd_tell _
  · exact p.hears_nil.symm

end Peer

namespace Lobby

/-! ## What a lobby waits for -/

/-- What a lobby waits for from a member. -/
inductive Awaits (l : Lobby) (p : Peer) : List Due → Prop
  /-- During a match it waits for a turn of the player whose turn it is. -/
  | playing {game : Match} {accepting : Bool} (hphase : l.phase = .playing game accepting) :
      Awaits l p (if game.current = p.player then [.turn] else [])
  /-- Between matches it waits for nothing from those who are ready, -/
  | ready (hidle : l.isPlaying = false) (hready : p.ready = true) : Awaits l p []
  /-- and for the others to say so. -/
  | unready (hidle : l.isPlaying = false) (hready : p.ready = false) : Awaits l p [.ready]
  /-- A turn may come late, when the match has been broken off. -/
  | late (hidle : l.isPlaying = false) (hready : p.ready = false) : Awaits l p [.turn, .ready]

/-- How a member stands from which some things are due. -/
def standing (l : Lobby) (p : Peer) (owes : List Due) : Standing :=
  ⟨p.player, l.game?.map Match.board, owes, p.listening⟩

/-- A member pays something and is told something while a lobby changes. -/
def Follows (l l' : Lobby) (p : Peer) (owes paid : List Due) (told : List Message) : Prop :=
  ∃ p' ∈ l'.members, p'.id = p.id ∧ ∃ owes', l'.Awaits p' owes' ∧
    (l.standing p owes).Leads paid told (l'.standing p' owes')

/-- How a member stands depends on the match and on the member's number. -/
theorem standing_congr {l l' : Lobby} {p q : Peer} (hphase : l'.phase = l.phase)
    (hplayer : q.player = p.player) (hlistening : q.listening = p.listening) (owes : List Due) :
    l'.standing q owes = l.standing p owes := by
  simp only [standing, game?, hphase, hplayer, hlistening]

theorem game?_of_playing {l : Lobby} {game : Match} {accepting : Bool}
    (hphase : l.phase = .playing game accepting) : l.game? = some game := by
  simp [game?, hphase]

theorem game?_of_idle {l : Lobby} (hidle : l.isPlaying = false) : l.game? = none := by
  simpa [isPlaying] using hidle

theorem standing_of_playing {l : Lobby} {game : Match} {accepting : Bool}
    (hphase : l.phase = .playing game accepting) (p : Peer) (owes : List Due) :
    l.standing p owes = ⟨p.player, some game.board, owes, p.listening⟩ := by
  rw [standing, game?_of_playing hphase]
  rfl

theorem standing_of_idle {l : Lobby} (hidle : l.isPlaying = false) (p : Peer) (owes : List Due) :
    l.standing p owes = ⟨p.player, none, owes, p.listening⟩ := by
  rw [standing, game?_of_idle hidle]
  rfl

/-- Between matches a lobby waits for those who are not ready. -/
theorem Awaits.of_idle {l : Lobby} {p : Peer} {owes : List Due} (h : l.Awaits p owes)
    (hidle : l.isPlaying = false) : p.ready = true ∧ owes = [] ∨
      p.ready = false ∧ (owes = [.ready] ∨ owes = [.turn, .ready]) := by
  cases h with
  | playing hphase => exact absurd hphase (phase_ne_of_idle hidle _ _)
  | ready _ hready => exact Or.inl ⟨hready, rfl⟩
  | unready _ hready => exact Or.inr ⟨hready, Or.inl rfl⟩
  | late _ hready => exact Or.inr ⟨hready, Or.inr rfl⟩

/-- During a match a lobby waits for one turn. -/
theorem Awaits.of_playing {l : Lobby} {p : Peer} {owes : List Due} (h : l.Awaits p owes)
    {game : Match} {accepting : Bool} (hphase : l.phase = .playing game accepting) :
    owes = if game.current = p.player then [.turn] else [] := by
  have hplaying : l.isPlaying = true := isPlaying_iff.2 ⟨game, accepting, hphase⟩
  cases h with
  | playing hphase' =>
      rw [hphase] at hphase'
      cases hphase'
      rfl
  | ready hidle => exact absurd (hidle.symm.trans hplaying) (by decide)
  | unready hidle => exact absurd (hidle.symm.trans hplaying) (by decide)
  | late hidle => exact absurd (hidle.symm.trans hplaying) (by decide)

/-- Readiness is due first only between matches, and then nothing else is. -/
theorem Awaits.of_ready {l : Lobby} {p : Peer} {rest : List Due}
    (h : l.Awaits p (.ready :: rest)) :
    l.isPlaying = false ∧ p.ready = false ∧ rest = [] := by
  generalize howes : Due.ready :: rest = owes at h
  cases h with
  | playing => split at howes <;> cases howes
  | ready => cases howes
  | unready hidle hready =>
      cases howes
      exact ⟨hidle, hready, rfl⟩
  | late => cases howes

/-- A turn is due first during a match, or late. -/
theorem Awaits.of_turn {l : Lobby} {p : Peer} {rest : List Due} (h : l.Awaits p (.turn :: rest)) :
    (∃ game accepting, l.phase = .playing game accepting ∧ game.current = p.player ∧ rest = []) ∨
      l.isPlaying = false ∧ p.ready = false ∧ rest = [.ready] := by
  generalize howes : Due.turn :: rest = owes at h
  cases h with
  | @playing game accepting hphase =>
      split at howes
      · next hcurrent =>
          cases howes
          exact Or.inl ⟨game, accepting, hphase, hcurrent, rfl⟩
      · cases howes
  | ready => cases howes
  | unready => cases howes
  | late hidle hready =>
      cases howes
      exact Or.inr ⟨hidle, hready, rfl⟩

/-- What is due depends on the match, and on who is ready. -/
theorem Awaits.congr {l l' : Lobby} {p p' : Peer} {owes : List Due} (h : l.Awaits p owes)
    (hphase : l'.phase = l.phase) (hplayer : p'.player = p.player) (hready : p'.ready = p.ready) :
    l'.Awaits p' owes := by
  have hidle : l.isPlaying = false → l'.isPlaying = false := by
    unfold isPlaying game?
    rw [hphase]
    exact id
  cases h with
  | playing hphase' =>
      rw [← hplayer]
      exact .playing (hphase.trans hphase')
  | ready hidle' hready' => exact .ready (hidle hidle') (hready.trans hready')
  | unready hidle' hready' => exact .unready (hidle hidle') (hready.trans hready')
  | late hidle' hready' => exact .late (hidle hidle') (hready.trans hready')

/-- A member that nothing happens to stands as before. -/
theorem follows_refl {l : Lobby} {p : Peer} (hp : p ∈ l.members) {owes : List Due}
    (hawaits : l.Awaits p owes) : l.Follows l p owes [] [] :=
  ⟨p, hp, rfl, owes, hawaits, .refl _⟩

/-- When a player's turn comes a member is asked if it is that player, and may hear so. -/
theorem exists_awaits_request {l : Lobby} {p : Peer} {game : Match} {accepting : Bool}
    (hphase : l.phase = .playing game accepting) (hroom : game.board.openColumns ≠ []) :
    ∃ owes, l.Awaits p owes ∧ (p.request game.current).filterMap Message.due? = owes ∧
      Outlook.Course ⟨p.player, some game.board, .idle⟩ (p.request game.current)
        (l.standing p owes).outlook := by
  have hgame := game?_of_playing hphase
  refine ⟨_, .playing hphase, ?_⟩
  unfold Peer.request
  by_cases hplayer : game.current = p.player
  · simp only [Standing.outlook, standing, hgame, hplayer]
    refine ⟨rfl, Outlook.Hears.course ?_⟩
    exact .asked (o := ⟨p.player, some game.board, .idle⟩) rfl rfl hroom
  · simp only [if_neg hplayer, Standing.outlook, standing, hgame]
    exact ⟨rfl, .nil _⟩

/-! ## Saying ready -/

/-- When a match begins a member is told so, and asked for its turn if it is the first one. -/
theorem messagesTo_openingMail {l : Lobby} (hnodup : (l.members.map Peer.id).Nodup)
    (first : Player) (size : Board.Size) {p : Peer} (hp : p ∈ l.members) :
    (l.openingMail first size).messagesTo p.id =
      p.hears (.gameStart (UInt8.ofNat l.capacity) size.columns size.rows first ::
        p.request first) := by
  rw [openingMail, requestTurn, Mail.messagesTo_append,
    messagesTo_tellAll (Peer.matchBegins_addressed _ _ _ _) hnodup hp,
    messagesTo_tellAll (Peer.turnRequested_addressed _) hnodup hp, Peer.map_snd_turnRequested,
    Peer.matchBegins, Peer.map_snd_tell]
  exact (p.hears_append _ _).symm

/-- The first player that is drawn takes part in the match. -/
theorem current_start {capacity : Nat} (hcapacity : capacity ≤ 255) (hseats : 0 < capacity)
    (d : Draws) (size : Board.Size) :
    (Match.start (UInt8.ofNat capacity) (UInt8.ofNat ((d.choose capacity).1 + 1)) size).current =
      UInt8.ofNat ((d.choose capacity).1 + 1) := by
  have hlt := Draws.choose_lt hseats d
  have hfirst : (UInt8.ofNat ((d.choose capacity).1 + 1)).toNat = (d.choose capacity).1 + 1 :=
    UInt8.toNat_ofNat_of_lt' (by simp only [UInt8.size]; omega)
  have hplayers : (UInt8.ofNat capacity).toNat = capacity :=
    UInt8.toNat_ofNat_of_lt' (by simp only [UInt8.size]; omega)
  refine if_pos ⟨?_, ?_⟩
  · rw [UInt8.le_iff_toNat_le, hfirst]
    exact Nat.succ_le_succ (Nat.zero_le _)
  · have hle : UInt8.ofNat ((d.choose capacity).1 + 1) ≤ UInt8.ofNat capacity := by
      rw [UInt8.le_iff_toNat_le, hfirst, hplayers]
      exact hlt
    exact Match.le_max_of_le hle

/-- What a member hears when a match begins that the given player begins. -/
theorem exists_awaits_withMatch {l : Lobby} {first : Player} {size : Board.Size}
    (hfirst : (Match.start (UInt8.ofNat l.capacity) first size).current = first) (p : Peer) :
    ∃ owes, (l.withMatch first size).Awaits p owes ∧
      (Message.gameStart (UInt8.ofNat l.capacity) size.columns size.rows first ::
        p.request first).filterMap Message.due? = owes ∧
      Outlook.Course ⟨p.player, none, .idle⟩
        (.gameStart (UInt8.ofNat l.capacity) size.columns size.rows first :: p.request first)
        ((l.withMatch first size).standing p owes).outlook := by
  have hnew : Board.new size.columns size.rows = .ok (Board.empty size) := by
    rw [Board.new, Board.Size.check_columns_rows]
    rfl
  have hgoing := Match.isOver_start (UInt8.ofNat l.capacity) first size
  have hroom := Board.openColumns_ne_nil (Bool.or_eq_false_iff.1 hgoing).2
  have hphase : (l.withMatch first size).phase =
      .playing (Match.start (UInt8.ofNat l.capacity) first size) false := rfl
  rcases exists_awaits_request (p := p) hphase hroom with ⟨owes, hawaits, hdue, hcourse⟩
  rw [hfirst] at hdue hcourse
  exact ⟨owes, hawaits, hdue, .cons (.begins rfl hnew) hcourse⟩

/-- A member's readiness is noted, and the others remain as they are. -/
theorem exists_noted {l : Lobby} (id : ConnectionId) {p : Peer} (hp : p ∈ l.members) :
    ∃ q ∈ (l.noteReady id).members, q.id = p.id ∧ q.player = p.player ∧
      q.listening = p.listening ∧ q.ready = (p.ready || decide (p.id = id)) := by
  rw [members_noteReady]
  refine ⟨_, List.mem_map_of_mem hp, ?_⟩
  by_cases hid : p.id = id
  · simp [hid]
  · simp [hid]

/-- A member whose readiness is noted has paid; the others have not. -/
theorem noteReady_follows {l : Lobby} (hidle : l.isPlaying = false) {id : ConnectionId} {p : Peer}
    (hp : p ∈ l.members) {owes : List Due} (hawaits : l.Awaits p owes)
    (howed : p.id = id → ∃ rest, owes = .ready :: rest) :
    l.Follows (l.noteReady id) p owes (if p.id = id then [.ready] else []) [] := by
  have hidle' : (l.noteReady id).isPlaying = false := hidle
  rcases exists_noted id hp with ⟨q, hq, hid', hplayer, hlistening, hready⟩
  by_cases hid : p.id = id
  · rw [if_pos hid]
    rcases howed hid with ⟨rest, rfl⟩
    rcases hawaits.of_ready with ⟨-, -, rfl⟩
    refine ⟨q, hq, hid', [], .ready hidle' (by simp [hready, hid]), ?_⟩
    rw [standing_congr rfl hplayer hlistening]
    exact .of_course (ite_self _).symm rfl (.nil _) rfl (fun _ h => h) (fun h => by cases h)
  · rw [if_neg hid]
    refine ⟨q, hq, hid', owes, hawaits.congr rfl hplayer (by simp [hready, hid]), ?_⟩
    rw [standing_congr rfl hplayer hlistening]
    exact .refl _

/-- Saying ready begins a match only when nobody owes anything any more. -/
theorem Readied.follows {l l' : Lobby} {d d' : Draws} {id : ConnectionId} {mail : Mail}
    (hs : l.Sound) (h : Readied l d id l' d' mail) {p : Peer} (hp : p ∈ l.members)
    {owes : List Due} (hawaits : l.Awaits p owes)
    (howed : p.id = id → ∃ rest, owes = .ready :: rest) :
    l.Follows l' p owes (if p.id = id then [.ready] else []) (mail.messagesTo p.id) := by
  cases h with
  | ignored hignored =>
      have hne : p.id ≠ id := by
        intro hid
        rcases howed hid with ⟨rest, rfl⟩
        rcases hawaits.of_ready with ⟨hidle, hready, -⟩
        rcases hignored with hplaying | hall
        · exact absurd (hidle.symm.trans hplaying) (by decide)
        · have hmember := (member?_eq_some_iff hs.nodup).2 ⟨hp, hid⟩
          exact absurd (hready.symm.trans (hall p hmember)) (by decide)
      rw [if_neg hne]
      exact follows_refl hp hawaits
  | noted hidle => exact noteReady_follows hidle hp hawaits howed
  | unplayable hidle => exact noteReady_follows hidle hp hawaits howed
  | @begun q size hidle hq hready hall hfull hsize =>
      have hnoted := hs.noteReady hidle hq hready
      have hseats : 0 < l.capacity :=
        (List.length_pos_of_mem hp).trans_le (length_seated_le l.seats)
      rcases exists_noted id hp with ⟨p', hp', hid', hplayer, hlistening, hready'⟩
      -- whoever says ready pays by that, and the others have paid before
      have howes : owes = if p.id = id then [.ready] else [] := by
        by_cases hid : p.id = id
        · rcases howed hid with ⟨rest, rfl⟩
          rw [if_pos hid, hawaits.of_ready.2.2]
        · rw [if_neg hid]
          have hall' := hs.all_ready hq hready hall p' hp'
          rw [hready', decide_eq_false hid, Bool.or_false] at hall'
          rcases hawaits.of_idle hidle with ⟨-, hnil⟩ | ⟨hnot, -⟩
          · exact hnil
          · exact absurd (hnot.symm.trans hall') (by decide)
      have hturn : .turn ∉ owes := by
        rw [howes]
        split <;> decide
      have hfirst := current_start hs.capacity_le hseats d size
      rw [← capacity_noteReady l id] at hfirst ⊢
      rcases exists_awaits_withMatch hfirst p' with ⟨owes', hawaits', hdue, hcourse⟩
      refine ⟨p', hp', hid', owes', hawaits', ?_⟩
      have htold := messagesTo_openingMail hnoted.nodup
        (UInt8.ofNat ((d.choose (l.noteReady id).capacity).1 + 1)) size hp'
      rw [hid', Peer.hears, hlistening] at htold
      refine .of_course htold hlistening ?_ ?_ (fun h => absurd h hturn) fun _ h => absurd h hturn
      · rw [standing_of_idle hidle, Standing.outlook_of_notMem hturn, ← hplayer]
        exact hcourse
      · rw [hdue, ← howes]
        rfl

/-! ## Turns -/

/-- A member has the number of another one only if it is the same. -/
theorem player_eq_iff {l : Lobby} (hs : l.Sound) (hn : l.Numbered) {id : ConnectionId} {p q : Peer}
    (hq : l.member? id = some q) (hp : p ∈ l.members) : q.player = p.player ↔ p.id = id := by
  rcases mem_of_member? hq with ⟨hmem, rfl⟩
  constructor
  · intro hplayer
    rw [hn.eq_of_player_eq hs hmem hp hplayer]
  · intro hid
    have hsame := (member?_eq_some_iff hs.nodup).2 ⟨hp, hid⟩
    rw [hq] at hsame
    rw [Option.some.inj hsame]

/-- Nobody else hears of a turn that has failed. -/
theorem messagesTo_failure {l : Lobby} (hnodup : (l.members.map Peer.id).Nodup) (player : Player)
    (column : UInt8) {result : TurnResult} (hne : result ≠ .success) {p : Peer}
    (hp : p ∈ l.members) : (l.announceTurn player column result).messagesTo p.id =
      p.hears (if player = p.player then [.turnResult result column] else []) := by
  rw [announceTurn, messagesTo_tellAll (Peer.turnTaken_addressed _ _ _) hnodup hp,
    Peer.map_snd_turnTaken_failure _ _ _ hne]

theorem messagesTo_success {l : Lobby} (hnodup : (l.members.map Peer.id).Nodup) (player : Player)
    (column : UInt8) {p : Peer} (hp : p ∈ l.members) :
    (l.announceTurn player column .success).messagesTo p.id = p.hears [p.news player column] := by
  rw [announceTurn, messagesTo_tellAll (Peer.turnTaken_addressed _ _ _) hnodup hp,
    Peer.map_snd_turnTaken_success]

theorem messagesTo_requestTurn {l : Lobby} (hnodup : (l.members.map Peer.id).Nodup)
    (player : Player) {p : Peer} (hp : p ∈ l.members) :
    (l.requestTurn player).messagesTo p.id = p.hears (p.request player) := by
  rw [requestTurn, messagesTo_tellAll (Peer.turnRequested_addressed _) hnodup hp,
    Peer.map_snd_turnRequested]

theorem messagesTo_matchEnd {l : Lobby} (hnodup : (l.members.map Peer.id).Nodup) (winner : Player)
    {p : Peer} (hp : p ∈ l.members) :
    (l.endMatch winner).2.messagesTo p.id = p.hears [.gameEnd winner] := by
  change (l.tellAll fun q => q.matchEnds winner).messagesTo p.id = _
  rw [messagesTo_tellAll (Peer.matchEnds_addressed _) hnodup hp]
  exact p.map_snd_tell _

/-- All members may hear of a piece that has landed, and then nobody owes a turn. -/
theorem Awaits.hears_news {l : Lobby} {p : Peer} {owes : List Due} (hawaits : l.Awaits p owes)
    {game game' : Match} {accepting : Bool} (hphase : l.phase = .playing game accepting)
    {player : Player} {column : UInt8}
    (hturned : Match.Turned game player column game' .success) :
    owes = (if player = p.player then [.turn] else []) ∧
      (l.standing p owes).outlook.Hears (p.news player column)
        ⟨p.player, some game'.board, .idle⟩ := by
  have hdrop := drop_of_turned hturned
  have hmover : player = game.current := by
    cases hturned with
    | success hgoing hmover => exact hmover
  have howes := hawaits.of_playing hphase
  rw [← hmover] at howes
  have hboard : (l.standing p owes).board = some game.board := by
    rw [standing, game?_of_playing hphase]
    rfl
  refine ⟨howes, ?_⟩
  unfold Peer.news
  by_cases hplayer : player = p.player
  · rw [if_pos hplayer] at howes ⊢
    have hturn : .turn ∈ (l.standing p owes).owes := by
      rw [howes]
      exact List.mem_singleton_self _
    rw [Standing.outlook_of_mem hturn hboard]
    rw [hplayer] at hdrop
    exact .landed rfl rfl hdrop
  · rw [if_neg hplayer] at howes ⊢
    have hturn : .turn ∉ (l.standing p owes).owes := by
      rw [howes]
      exact List.not_mem_nil
    rw [Standing.outlook_of_notMem hturn, hboard]
    exact .updated rfl rfl hdrop

/-- A turn that is due lands in an open column, or comes late. -/
theorem Awaits.not_rejected {l : Lobby} (hs : l.Sound) {p : Peer} {rest : List Due}
    (hawaits : l.Awaits p (.turn :: rest)) {game game' : Match} {accepting : Bool}
    (hphase : l.phase = .playing game accepting) {column : UInt8}
    (hopen : column ∈ game.board.openColumns) {result : TurnResult}
    (hturned : Match.Turned game p.player column game' result) : result = .success := by
  have hcurrent : game.current = p.player := by
    have howes := hawaits.of_playing hphase
    by_contra hother
    rw [if_neg hother] at howes
    cases howes
  rcases Board.mem_openColumns_iff.1 hopen with ⟨hi, hroom⟩
  have hgoing := (Bool.or_eq_false_iff.1 (hs.running game accepting hphase).going).1
  cases hturned with
  | gameFinished hwon => exact absurd (hgoing.symm.trans hwon) (by decide)
  | wrongPlayer _ hother => exact absurd hcurrent.symm hother
  | badColumn _ _ hmissing => exact absurd hi (not_lt.2 hmissing)
  | columnFull _ _ _ hfull => exact absurd hfull hroom.ne
  | success => rfl

/-- A turn that comes late is refused, and nobody else hears of it. -/
theorem refused_follows {l : Lobby} {id : ConnectionId} (column : UInt8) (hs : l.Sound)
    (hn : l.Numbered) {q : Peer} (hq : l.member? id = some q) (hidle : l.isPlaying = false)
    {p : Peer} (hp : p ∈ l.members) {owes : List Due} (hawaits : l.Awaits p owes)
    (howed : p.id = id → ∃ rest, owes = .turn :: rest) :
    l.Follows l p owes (if p.id = id then [.turn] else [])
      ((l.announceTurn q.player column .error).messagesTo p.id) := by
  rw [messagesTo_failure hs.nodup _ _ (by decide) hp]
  simp only [player_eq_iff hs hn hq hp]
  by_cases hid : p.id = id
  · rw [if_pos hid, if_pos hid]
    rcases howed hid with ⟨rest, rfl⟩
    rcases hawaits.of_turn with ⟨game, accepting, hphase, -⟩ | ⟨-, hready, rfl⟩
    · exact absurd hphase (phase_ne_of_idle hidle game accepting)
    · refine ⟨p, hp, rfl, [.ready], .unready hidle hready, ?_⟩
      refine .of_course rfl rfl ?_ rfl (fun _ h => h) (fun h => by cases h)
      rw [standing_of_idle hidle, standing_of_idle hidle]
      exact Outlook.Hears.course (.refused column rfl)
  · rw [if_neg hid, if_neg hid, Peer.hears_nil]
    exact follows_refl hp hawaits

/-- What a member is told when somebody takes a turn, as long as turns are only taken when they are
due and where there is room. -/
theorem Turned.follows {l l' : Lobby} {id : ConnectionId} {column : UInt8} {mail : Mail}
    (hs : l.Sound) (hn : l.Numbered) (h : Turned l id column l' mail) {p : Peer}
    (hp : p ∈ l.members) {owes : List Due} (hawaits : l.Awaits p owes)
    (howed : p.id = id → ∃ rest, owes = .turn :: rest)
    (hopen : p.id = id → ∀ game accepting, l.phase = .playing game accepting →
      column ∈ game.board.openColumns) :
    l.Follows l' p owes (if p.id = id then [.turn] else []) (mail.messagesTo p.id) := by
  cases h with
  | stranger hq =>
      have hne : p.id ≠ id := by
        rintro rfl
        exact member?_eq_none_iff.1 hq (List.mem_map_of_mem hp)
      rw [if_neg hne]
      exact follows_refl hp hawaits
  | idle hq hidle => exact refused_follows column hs hn hq hidle hp hawaits howed
  | @rejected q game accepting result hq hphase hturned hne =>
      have hid : p.id ≠ id := by
        intro hid
        rcases howed hid with ⟨rest, rfl⟩
        rw [(player_eq_iff hs hn hq hp).2 hid] at hturned
        exact hne (hawaits.not_rejected hs hphase (hopen hid game accepting hphase) hturned)
      rw [messagesTo_failure hs.nodup _ _ hne hp]
      simp only [player_eq_iff hs hn hq hp]
      rw [if_neg hid, if_neg hid, Peer.hears_nil]
      exact follows_refl hp hawaits
  | @moved q game game' accepting hq hphase hturned hgoing =>
      rcases hawaits.hears_news hphase hturned with ⟨howes, hnews⟩
      simp only [player_eq_iff hs hn hq hp] at howes
      have hroom := Board.openColumns_ne_nil (Bool.or_eq_false_iff.1 hgoing).2
      let l' : Lobby := { l with phase := .playing game' accepting }
      have hphase' : l'.phase = .playing game' accepting := rfl
      rcases exists_awaits_request (p := p) hphase' hroom with ⟨owes', hawaits', hdue, hcourse⟩
      refine ⟨p, hp, rfl, owes', hawaits', ?_⟩
      rw [Mail.messagesTo_append, messagesTo_success hs.nodup _ _ hp,
        messagesTo_requestTurn hs.nodup _ hp, ← Peer.hears_append, ← howes]
      refine .of_course rfl rfl (hnews.course.append hcourse) ?_ (fun _ h => ?_) fun h hturn => ?_
      · rw [List.filterMap_append, hdue, Peer.due?_news]
        rfl
      · rw [standing_of_playing hphase] at h
        cases h
      · rw [h] at hturn
        cases hturn
  | @finished q game game' accepting hq hphase hturned hover =>
      rcases hawaits.hears_news hphase hturned with ⟨howes, hnews⟩
      simp only [player_eq_iff hs hn hq hp] at howes
      have hp' : { p with ready := false } ∈
          (l.endMatch (game'.winner.getD nobody)).1.members := by
        rw [members_endMatch]
        exact List.mem_map_of_mem hp
      refine ⟨_, hp', rfl, [.ready], .unready rfl rfl, ?_⟩
      rw [Mail.messagesTo_append, messagesTo_success hs.nodup _ _ hp,
        messagesTo_matchEnd hs.nodup _ hp, ← Peer.hears_append, ← howes]
      refine .of_course rfl rfl (hnews.course.append ?_) ?_ (fun _ _ => rfl) fun _ _ => Or.inr rfl
      · exact Outlook.Hears.course (.ended _ rfl rfl)
      · rw [List.filterMap_append, Peer.due?_news]
        rfl

/-- What becomes of a turn that is due. -/
def outcome (l : Lobby) : TurnResult := if l.isPlaying then .success else .error

/-- Whoever takes the turn that is due hears once what became of it, and first of all. -/
theorem Turned.answers {l l' : Lobby} {column : UInt8} {mail : Mail} {p : Peer} {rest : List Due}
    (hs : l.Sound) (hn : l.Numbered) (h : Turned l p.id column l' mail) (hp : p ∈ l.members)
    (hawaits : l.Awaits p (.turn :: rest))
    (hopen : ∀ game accepting, l.phase = .playing game accepting →
      column ∈ game.board.openColumns) :
    ∃ more, mail.messagesTo p.id = p.hears (.turnResult l.outcome column :: more) ∧
      ∀ m ∈ more, m.kind ≠ .turnResult := by
  have hrequest : ∀ player, ∀ m ∈ p.request player, m.kind ≠ .turnResult := by
    intro player m hm
    unfold Peer.request at hm
    split at hm
    · rw [List.mem_singleton.1 hm]
      exact Wire.Kind.noConfusion
    · cases hm
  cases h with
  | stranger hq => exact absurd (List.mem_map_of_mem hp) (member?_eq_none_iff.1 hq)
  | @idle q hq hidle =>
      refine ⟨[], ?_, fun m hm => by cases hm⟩
      rw [messagesTo_failure hs.nodup _ _ (by decide) hp,
        if_pos ((player_eq_iff hs hn hq hp).2 rfl), outcome, hidle]
      rfl
  | @rejected q game accepting result hq hphase hturned hne =>
      rw [(player_eq_iff hs hn hq hp).2 rfl] at hturned
      exact absurd (hawaits.not_rejected hs hphase (hopen game accepting hphase) hturned) hne
  | @moved q game game' accepting hq hphase =>
      refine ⟨p.request game'.current, ?_, hrequest game'.current⟩
      rw [Mail.messagesTo_append, messagesTo_success hs.nodup _ _ hp,
        messagesTo_requestTurn hs.nodup _ hp, ← Peer.hears_append, Peer.news,
        if_pos ((player_eq_iff hs hn hq hp).2 rfl), outcome, isPlaying_iff.2 ⟨_, _, hphase⟩]
      rfl
  | @finished q game game' accepting hq hphase =>
      refine ⟨[.gameEnd (game'.winner.getD nobody)], ?_, fun m hm => ?_⟩
      · rw [Mail.messagesTo_append, messagesTo_success hs.nodup _ _ hp,
          messagesTo_matchEnd hs.nodup _ hp, ← Peer.hears_append, Peer.news,
          if_pos ((player_eq_iff hs hn hq hp).2 rfl), outcome, isPlaying_iff.2 ⟨_, _, hphase⟩]
        rfl
      · rw [List.mem_singleton.1 hm]
        exact Wire.Kind.noConfusion

/-! ## Coming and going -/

/-- When a member leaves, the match ends for the others, and a turn that was awaited comes late. -/
theorem Left.follows {l l' : Lobby} {id : ConnectionId} {q : Peer} {mail : Mail} (hs : l.Sound)
    (h : Left l id q l' mail) {p : Peer} (hp : p ∈ l.members) (hne : p.id ≠ id) {owes : List Due}
    (hawaits : l.Awaits p owes) : l.Follows l' p owes [] (mail.messagesTo p.id) := by
  have hremains : p ∈ (l.vacate id q).members := by
    rw [members_vacate]
    exact List.mem_filter.2 ⟨hp, decide_eq_true hne⟩
  cases h with
  | idle hq hidle =>
      refine ⟨p, hremains, rfl, owes, hawaits.congr rfl rfl rfl, ?_⟩
      exact .refl _
  | @brokenOff game accepting hq hphase =>
      have hp' : { p with ready := false } ∈ ((l.vacate id q).endMatch nobody).1.members := by
        rw [members_endMatch]
        exact List.mem_map_of_mem hremains
      have hidle : ((l.vacate id q).endMatch nobody).1.isPlaying = false := rfl
      have howes := hawaits.of_playing hphase
      rw [messagesTo_matchEnd (hs.nodup_vacate id q) _ hremains]
      by_cases hcurrent : game.current = p.player
      · rw [if_pos hcurrent] at howes
        subst howes
        refine ⟨_, hp', rfl, [.turn, .ready], .late hidle rfl, ?_⟩
        refine .of_course rfl rfl ?_ rfl (fun _ _ => rfl) fun _ _ => Or.inr rfl
        rw [standing_of_playing hphase, standing_of_idle hidle]
        exact Outlook.Hears.course (.brokenOff rfl rfl)
      · rw [if_neg hcurrent] at howes
        subst howes
        refine ⟨_, hp', rfl, [.ready], .unready hidle rfl, ?_⟩
        refine .of_course rfl rfl ?_ rfl (fun _ _ => rfl) fun _ _ => Or.inr rfl
        rw [standing_of_playing hphase, standing_of_idle hidle]
        exact Outlook.Hears.course (.ended nobody rfl rfl)

/-- When a newcomer is seated the others stand as before. -/
theorem seat_keeps {l l' : Lobby} {q : Peer} {player : Player} {mail : Mail}
    (hseat : l.seat q = some (player, l', mail)) {p : Peer} (hp : p ∈ l.members)
    {owes : List Due} (hawaits : l.Awaits p owes) :
    p ∈ l'.members ∧ l'.Awaits p owes ∧ l'.standing p owes = l.standing p owes := by
  have hp' : p ∈ l'.members := (perm_members_seat hseat).mem_iff.2 (List.mem_cons_of_mem _ hp)
  rcases seat_eq_some_iff.1 hseat with ⟨-, i, -, -, rfl, -⟩
  exact ⟨hp', hawaits.congr rfl rfl rfl, standing_congr rfl rfl rfl owes⟩

/-- Nobody else hears of a newcomer's seat. -/
theorem messagesTo_seat_of_ne {l l' : Lobby} {q : Peer} {player : Player} {mail : Mail}
    (hseat : l.seat q = some (player, l', mail)) {id : ConnectionId} (hne : q.id ≠ id) :
    mail.messagesTo id = [] :=
  Mail.messagesTo_eq_nil fun _ he heq => hne ((recipient_of_seat hseat he).symm.trans heq)

/-- A newcomer is told its number, and has to say that it is ready. -/
theorem seat_welcomes {l l' : Lobby} {q : Peer} {player : Player} {mail : Mail} (hs : l.Sound)
    (hseat : l.seat q = some (player, l', mail)) (hplayer : q.player = nobody) :
    ∃ p ∈ l'.members, p.id = q.id ∧ l'.Awaits p [.ready] ∧
      Standing.Settles ⟨nobody, none, [], q.listening⟩ (mail.messagesTo q.id)
        (l'.standing p [.ready]) := by
  have hmember := (perm_members_seat hseat).mem_iff.2 List.mem_cons_self
  have hfree := (seat_eq_some_iff.1 hseat).1
  have hkinds : ∀ m ∈ mail.messagesTo q.id, m.kind ∈ [.connected, .inQueue] := by
    intro m hm
    rw [List.mem_singleton.1 ((ofKinds_seat hseat).kind_mem hm)]
    exact List.mem_cons_self
  have hidle : l'.isPlaying = false := by
    have hphase := (hs.hasFreeSeat_iff.1 hfree).1
    rcases seat_eq_some_iff.1 hseat with ⟨-, i, -, -, rfl, -⟩
    simp [isPlaying, game?, hphase]
  rcases seat_eq_some_iff.1 hseat with ⟨-, i, -, rfl, -, rfl⟩
  rw [assign_of_nobody (p := { q with ready := false }) hplayer] at hmember hkinds ⊢
  refine ⟨_, hmember, rfl, .unready hidle rfl, ?_⟩
  rw [standing_of_idle hidle]
  refine ⟨.of_course ?_ rfl (Outlook.Hears.course (.connected (UInt8.ofNat (i + 1)) rfl rfl)) rfl
    (fun _ _ => rfl) fun _ _ => Or.inl rfl, rfl, hkinds⟩
  unfold Peer.tell
  split
  · simp [Mail.messagesTo]
  · rfl

/-- Whoever stops listening stands otherwise as before. -/
theorem Awaits.hangUp {l : Lobby} {p : Peer} (hp : p ∈ l.members) {owes : List Due}
    (hawaits : l.Awaits p owes) (id : ConnectionId) :
    ∃ p' ∈ (l.hangUp id).members, p'.id = p.id ∧ (l.hangUp id).Awaits p' owes ∧
      (l.hangUp id).standing p' owes =
        { l.standing p owes with listening := p.listening && p.id ≠ id } := by
  rw [members_hangUp]
  refine ⟨_, List.mem_map_of_mem hp, ?_⟩
  by_cases hid : p.id = id
  · rw [if_pos hid]
    exact ⟨rfl, hawaits.congr rfl rfl rfl, by simp [standing, hid, game?, Lobby.hangUp,
      updateMember, Peer.hangUp]⟩
  · rw [if_neg hid]
    exact ⟨rfl, hawaits.congr rfl rfl rfl, by simp [standing, hid, game?, Lobby.hangUp,
      updateMember]⟩

end Lobby

end FourInRow
