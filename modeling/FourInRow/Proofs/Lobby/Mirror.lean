import FourInRow.Proofs.Bot.Mirror
import FourInRow.Proofs.Lobby.Numbered

/-!
# What the members of a lobby see

Every member of a lobby hears of the pieces that land, each in its own words: the mover as the
outcome of its turn, the others as an update.  This module shows that all members can follow the
match by what they hear, up to its end.

Main results:

- Theorems `Mirrored.seat`, `Mirrored.readied`, `Mirrored.turned`, `Mirrored.left`: the members'
  views follow the lobby.
- Theorems `Turned.ends`, `Left.ends`, `ends_close`: when the members hear of the end of a match
  their views show the final board, and the winner is the one that owns a line on it.
-/

namespace FourInRow

/-! ## Views -/

/-- What connections make of the messages they hear. -/
abbrev Views := ConnectionId → Mirror

/-- The views after some mail. -/
def Views.after (views : Views) (mail : Mail) : Views :=
  fun id => (views id).hearAll (mail.messagesTo id)

namespace Views

@[simp] theorem after_append (views : Views) (mail mail' : Mail) :
    views.after (mail ++ mail') = (views.after mail).after mail' := by
  funext id
  simp [after]

/-- The kinds of message that leave a mirror as it is. -/
def idle : List Wire.Kind := [.inQueue, .gameEnd, .takeTurn]

/-- Idle mail leaves all views as they are. -/
theorem after_of_idle {kinds : List Wire.Kind} {mail : Mail} (h : mail.OfKinds kinds)
    (hkinds : kinds ⊆ idle) (views : Views) : views.after mail = views := by
  funext id
  refine Mirror.hearAll_idle (fun message hmem m => ?_) (views id)
  have hkind : ∀ kind, kind ∉ idle → message.kind ≠ kind := fun kind hnot =>
    h.kind_ne (fun hmem' => hnot (hkinds hmem')) hmem
  cases message with
  | connected => exact absurd rfl (hkind .connected (by decide))
  | gameStart => exact absurd rfl (hkind .gameStart (by decide))
  | turnResult => exact absurd rfl (hkind .turnResult (by decide))
  | update => exact absurd rfl (hkind .update (by decide))
  | _ => rfl

/-- Nobody's number changes but by being told. -/
theorem player_hearAll {ms : List Message} (h : ∀ m ∈ ms, m.kind ≠ .connected) (view : Mirror) :
    (view.hearAll ms).player = view.player := by
  induction ms generalizing view with
  | nil => rfl
  | cons m ms ih =>
      change ((view.hear m).hearAll ms).player = view.player
      rw [ih fun m' hm' => h m' (List.mem_cons_of_mem m hm')]
      cases m with
      | connected => exact absurd rfl (h _ List.mem_cons_self)
      | turnResult result column =>
          simp only [Mirror.hear]
          split <;> rfl
      | _ => rfl

/-- A member's view changes by what it is told. -/
theorem after_tellAll {l : Lobby} {announce : Peer → Mail} (haddr : Peer.Addressed announce)
    (hnodup : (l.members.map Peer.id).Nodup) {p : Peer} (hp : p ∈ l.members) (views : Views) :
    views.after (l.tellAll announce) p.id =
      (views p.id).hearAll ((announce p).map Prod.snd) := by
  rw [after, Lobby.messagesTo_tellAll haddr hnodup hp]

end Views

namespace Lobby

/-! ## Following a match -/

/-- Have all members that listen heard of the same pieces, and do these make up a board? -/
def Shows (l : Lobby) (views : Views) (board : Board) : Prop :=
  ∃ moves, ((Board.empty board.size).dropAll moves).1 = board ∧
    ∀ p ∈ l.members, p.listening = true →
      (views p.id).size = some board.size ∧ (views p.id).moves = moves

/-- What the views of the members have to do with a lobby. -/
structure Mirrored (l : Lobby) (views : Views) : Prop where
  player_eq : ∀ p ∈ l.members, p.listening = true → (views p.id).player = p.player
  shows : ∀ game accepting, l.phase = .playing game accepting → l.Shows views game.board

/-- A view that shows a board is a mirror of it. -/
theorem Shows.board_eq {l : Lobby} {views : Views} {board : Board} (h : l.Shows views board)
    {p : Peer} (hp : p ∈ l.members) (hlistening : p.listening = true) :
    (views p.id).board = some board := by
  rcases h with ⟨moves, hboard, hviews⟩
  rcases hviews p hp hlistening with ⟨hsize, hmoves⟩
  rw [Mirror.board, hsize, hmoves, Option.map_some, hboard]

/-- A lobby is mirrored by views that the listening members do not tell apart. -/
theorem Mirrored.congr {l : Lobby} {views views' : Views} (h : l.Mirrored views)
    (hsame : ∀ p ∈ l.members, p.listening = true → views' p.id = views p.id) :
    l.Mirrored views' := by
  constructor
  · intro p hp hlistening
    rw [hsame p hp hlistening]
    exact h.player_eq p hp hlistening
  · intro game accepting hphase
    rcases h.shows game accepting hphase with ⟨moves, hboard, hviews⟩
    refine ⟨moves, hboard, fun p hp hlistening => ?_⟩
    rw [hsame p hp hlistening]
    exact hviews p hp hlistening

/-- Members that remain keep their numbers, whatever they hear but a new one. -/
theorem Mirrored.player_after {l l' : Lobby} {views : Views} (h : l.Mirrored views)
    {kinds : List Wire.Kind} {mail : Mail} (hmail : mail.OfKinds kinds)
    (hkinds : .connected ∉ kinds)
    (hremain : ∀ p ∈ l'.members, ∃ q ∈ l.members,
      q.id = p.id ∧ q.player = p.player ∧ q.listening = p.listening) :
    ∀ p ∈ l'.members, p.listening = true → (views.after mail p.id).player = p.player := by
  intro p hp hlistening
  rcases hremain p hp with ⟨q, hq, hid, hplayer, hsame⟩
  rw [Views.after, Views.player_hearAll fun m hm => hmail.kind_ne hkinds hm, ← hid, ← hplayer]
  exact h.player_eq q hq (hsame.trans hlistening)

/-! ## Turns -/

/-- The members hear of a piece that has landed, each in its own words. -/
theorem after_announceTurn_success {l : Lobby} {views : Views} (hs : l.Sound)
    (h : l.Mirrored views) (player : Player) (column : UInt8) {p : Peer} (hp : p ∈ l.members)
    (hlistening : p.listening = true) :
    views.after (l.announceTurn player column .success) p.id =
      (views p.id).add column player := by
  have hplayer := h.player_eq p hp hlistening
  rw [announceTurn, Views.after_tellAll (Peer.turnTaken_addressed _ _ _) hs.nodup hp]
  unfold Peer.turnTaken
  by_cases hmover : player = p.player
  · rw [if_pos hmover, Peer.map_snd_tell, if_pos hlistening, Mirror.hearAll_singleton,
      Mirror.hear, if_pos rfl, hplayer, hmover]
  · rw [if_neg hmover, if_pos rfl, Peer.map_snd_tell, if_pos hlistening]
    rfl

/-- Nobody learns of a piece from a turn that breaks a rule. -/
theorem after_announceTurn_failure {l : Lobby} (hs : l.Sound) (views : Views) (player : Player)
    (column : UInt8) {result : TurnResult} (hne : result ≠ .success) {p : Peer}
    (hp : p ∈ l.members) :
    views.after (l.announceTurn player column result) p.id = views p.id := by
  rw [announceTurn, Views.after_tellAll (Peer.turnTaken_addressed _ _ _) hs.nodup hp]
  refine Mirror.hearAll_idle (fun message hmem m => ?_) (views p.id)
  unfold Peer.turnTaken at hmem
  rw [if_neg hne] at hmem
  split at hmem
  · rw [Peer.map_snd_tell] at hmem
    split at hmem
    · rw [List.mem_singleton.1 hmem, Mirror.hear, if_neg hne]
    · cases hmem
  · cases hmem

/-- A successful turn drops a piece on the board of the match. -/
theorem drop_of_turned {m m' : Match} {p : Player} {column : UInt8}
    (h : Match.Turned m p column m' .success) : m.board.drop column p = .ok (some m'.board) := by
  cases h with
  | success hgoing hmover hi room winner hwinner => rw [Board.drop, dif_pos hi, dif_pos room]

theorem size_of_turned {m m' : Match} {p : Player} {column : UInt8} {result : TurnResult}
    (h : Match.Turned m p column m' result) : m'.board.size = m.board.size := by
  cases h <;> rfl

/-- The views follow a piece that has landed. -/
theorem Shows.announceTurn {l : Lobby} {views : Views} (hs : l.Sound) (h : l.Mirrored views)
    {game game' : Match} (hshows : l.Shows views game.board) {player : Player} {column : UInt8}
    (hturned : Match.Turned game player column game' .success) :
    l.Shows (views.after (l.announceTurn player column .success)) game'.board := by
  rcases hshows with ⟨moves, hboard, hviews⟩
  refine ⟨moves ++ [(column, player)], ?_, fun p hp hlistening => ?_⟩
  · rw [size_of_turned hturned, Board.dropAll_append, hboard,
      Board.dropAll_singleton_of_drop (drop_of_turned hturned)]
  · rcases hviews p hp hlistening with ⟨hsize, hmoves⟩
    rw [after_announceTurn_success hs h player column hp hlistening, size_of_turned hturned]
    refine ⟨hsize, ?_⟩
    rw [← hmoves]
    rfl

theorem Mirrored.turned {l l' : Lobby} {views : Views} {id : ConnectionId} {column : UInt8}
    {mail : Mail} (hs : l.Sound) (h : l.Mirrored views) (ht : Turned l id column l' mail) :
    l'.Mirrored (views.after mail) := by
  have hplayer := h.player_after ht.ofKinds (by decide)
    fun p hp => mem_of_lineup_eq ht.lineup_eq hp
  cases ht with
  | stranger => exact h
  | idle =>
      exact h.congr fun p hp _ => after_announceTurn_failure hs views _ _ (by decide) hp
  | rejected hp hphase hturned hne =>
      exact h.congr fun p hp _ => after_announceTurn_failure hs views _ _ hne hp
  | @moved p game game' accepting hp hphase hturned hgoing =>
      refine ⟨hplayer, fun game'' accepting' hphase' => ?_⟩
      cases hphase'
      rw [Views.after_append, Views.after_of_idle (ofKinds_requestTurn l _) (by decide)]
      exact (h.shows game accepting hphase).announceTurn hs h hturned
  | finished =>
      refine ⟨hplayer, fun game'' accepting' hphase' => ?_⟩
      cases hphase'

/-! ## Beginning and end of a match -/

/-- A match begins in the members' views as it does in the lobby. -/
theorem after_openingMail {l : Lobby} (hs : l.Sound) (views : Views) (first : Player)
    (size : Board.Size) {p : Peer} (hp : p ∈ l.members) (hlistening : p.listening = true) :
    views.after (l.openingMail first size) p.id =
      { views p.id with size := some size, moves := [] } := by
  rw [openingMail, Views.after_append,
    Views.after_of_idle (ofKinds_requestTurn l first) (by decide),
    Views.after_tellAll (Peer.matchBegins_addressed _ _ _ _) hs.nodup hp, Peer.matchBegins,
    Peer.map_snd_tell, if_pos hlistening, Mirror.hearAll_singleton, Mirror.hear,
    Board.Size.check_columns_rows]
  rfl

theorem Mirrored.readied {l l' : Lobby} {views : Views} {d d' : Draws} {id : ConnectionId}
    {mail : Mail} (hs : l.Sound) (h : l.Mirrored views) (hr : Readied l d id l' d' mail) :
    l'.Mirrored (views.after mail) := by
  have hplayer := h.player_after hr.ofKinds (by decide)
    fun p hp => mem_of_lineup_eq hr.lineup_eq hp
  cases hr with
  | ignored => exact h
  | noted hidle =>
      refine ⟨hplayer, fun game accepting hphase => ?_⟩
      exact absurd hphase (phase_ne_of_idle hidle game accepting)
  | unplayable hidle =>
      refine ⟨hplayer, fun game accepting hphase => ?_⟩
      exact absurd hphase (phase_ne_of_idle hidle game accepting)
  | @begun p size hidle hp hready hall hfull hsize =>
      refine ⟨hplayer, fun game accepting hphase => ?_⟩
      cases hphase
      refine ⟨[], rfl, fun q hq hlistening => ?_⟩
      have hs' := hs.noteReady hidle hp hready
      rw [after_openingMail hs' views _ size hq hlistening]
      exact ⟨rfl, rfl⟩

theorem Mirrored.left {l l' : Lobby} {views : Views} {id : ConnectionId} {p : Peer}
    {mail : Mail} (h : l.Mirrored views) (hl : Left l id p l' mail) :
    l'.Mirrored (views.after mail) := by
  have hremain : ∀ q ∈ (l.vacate id p).members, q ∈ l.members := by
    intro q hq
    rw [members_vacate] at hq
    exact List.mem_of_mem_filter hq
  have hkinds := hl.ofKinds
  cases hl with
  | idle hp hidle =>
      refine ⟨h.player_after hkinds (by decide) fun q hq => ⟨q, hremain q hq, rfl, rfl, rfl⟩, ?_⟩
      exact fun game accepting hphase => absurd hphase (phase_ne_of_idle hidle game accepting)
  | brokenOff =>
      refine ⟨h.player_after hkinds (by decide) fun q hq => ?_, ?_⟩
      · rcases mem_of_lineup_eq (lineup_endMatch _ _) hq with ⟨r, hr, hsame⟩
        exact ⟨r, hremain r hr, hsame⟩
      · intro game accepting hphase
        cases hphase

/-! ## Coming and going -/

theorem Mirrored.seat {l l' : Lobby} {views : Views} {p : Peer} {player : Player} {mail : Mail}
    (hs : l.Sound) (h : l.Mirrored views) (hseat : l.seat p = some (player, l', mail))
    (hplayer : p.player = nobody) (hp : p.id ∉ l.members.map Peer.id) :
    l'.Mirrored (views.after mail) := by
  have hperm := perm_members_seat hseat
  rcases seat_eq_some_iff.1 hseat with ⟨hfree, i, -, -, rfl, rfl⟩
  have hphase := (hs.hasFreeSeat_iff.1 hfree).1
  constructor
  · intro q hq hlistening
    have hassign := assign_of_nobody (p := { p with ready := false }) hplayer player
    rcases List.mem_cons.1 (hperm.subset hq) with hnew | hold
    · rw [hassign] at hnew ⊢
      subst hnew
      simp only at hlistening
      simp [Views.after, Peer.tell, hlistening, Mail.messagesTo, Mirror.hear]
    · rw [Views.after, Mail.messagesTo_eq_nil fun e he heq => ?_]
      · exact h.player_eq q hold hlistening
      · rw [recipient_of_seat hseat he] at heq
        exact hp (heq ▸ List.mem_map_of_mem hold)
  · intro game accepting hplaying
    rw [hphase] at hplaying
    cases hplaying

theorem mirrored_of_members_eq_nil {l : Lobby} (h : l.members = [])
    (hphase : ∀ game accepting, l.phase ≠ .playing game accepting) (views : Views) :
    l.Mirrored views := by
  refine ⟨fun p hp => ?_, fun game accepting hplaying => absurd hplaying (hphase _ _)⟩
  rw [h] at hp
  cases hp

/-- Whoever still listens after somebody has hung up listened before. -/
theorem mem_of_listening_hangUp {l : Lobby} {id : ConnectionId} {p : Peer}
    (hp : p ∈ (l.hangUp id).members) (hlistening : p.listening = true) : p ∈ l.members := by
  rw [members_hangUp] at hp
  rcases List.mem_map.1 hp with ⟨q, hq, rfl⟩
  split at hlistening
  · cases hlistening
  · next hne =>
      rw [if_neg hne]
      exact hq

theorem Mirrored.hangUp {l : Lobby} {views : Views} (h : l.Mirrored views) (id : ConnectionId) :
    (l.hangUp id).Mirrored views := by
  constructor
  · intro p hp hlistening
    exact h.player_eq p (mem_of_listening_hangUp hp hlistening) hlistening
  · intro game accepting hphase
    rcases h.shows game accepting hphase with ⟨moves, hboard, hviews⟩
    exact ⟨moves, hboard, fun p hp hlistening =>
      hviews p (mem_of_listening_hangUp hp hlistening) hlistening⟩

/-! ## The end of a match -/

/-- The end of a match among messages: everybody that listens and that `hears` picks hears once
who has won, and by then its view shows the final board. -/
structure Ends (l : Lobby) (views : Views) (hears : Peer → Prop)
    (heard : ConnectionId → List Message) (winner : Player) (board : Board) : Prop where
  each : ∀ p ∈ l.members, p.listening = true → hears p → ∃ before after,
    heard p.id = before ++ .gameEnd winner :: after ∧
      (∀ m ∈ before ++ after, m.kind ≠ .gameEnd) ∧
        ((views p.id).hearAll before).board = some board
  /-- The winner is whoever owns a line on the final board. -/
  hasLine_iff : ∀ v, v ≠ nobody → (board.HasLine v ↔ winner = v)

/-- A member that listens hears of the end of a match. -/
theorem messagesTo_endMatch {l : Lobby} (hnodup : (l.members.map Peer.id).Nodup)
    (winner : Player) {p : Peer} (hp : p ∈ l.members) (hlistening : p.listening = true) :
    (l.endMatch winner).2.messagesTo p.id = [.gameEnd winner] := by
  change (l.tellAll fun p => p.matchEnds winner).messagesTo p.id = _
  rw [messagesTo_tellAll (Peer.matchEnds_addressed winner) hnodup hp, Peer.matchEnds,
    Peer.map_snd_tell, if_pos hlistening]

/-- Only members that listen hear of the end of a match. -/
theorem exists_of_messagesTo_endMatch {l : Lobby} {winner : Player} {id : ConnectionId}
    {m : Message} (hm : m ∈ (l.endMatch winner).2.messagesTo id) :
    ∃ p ∈ l.members, p.id = id ∧ p.listening = true := by
  rcases List.mem_filterMap.1 hm with ⟨e, he, hsome⟩
  rcases List.mem_flatMap.1 he with ⟨p, hp, hep⟩
  have hid := Peer.matchEnds_addressed winner p e hep
  refine ⟨p, hp, ?_, ?_⟩
  · split at hsome
    · next heq => exact hid.symm.trans heq
    · cases hsome
  · unfold Peer.matchEnds Peer.tell at hep
    split at hep
    · assumption
    · cases hep

/-- The player that a match names in the end is whoever owns a line. -/
theorem hasLine_iff_winner {m : Match} (hs : m.Sound) {v : Player} (hv : v ≠ nobody) :
    m.board.HasLine v ↔ m.winner.getD nobody = v := by
  have hiff := hs.winner_iff v
  rw [and_iff_right hv] at hiff
  rw [← hiff]
  cases m.winner with
  | none => simp [Ne.symm hv]
  | some w => simp

/-- On the board of a match that goes on nobody owns a line. -/
theorem Running.hasLine_iff {l : Lobby} {game : Match} (h : l.Running game) {v : Player}
    (hv : v ≠ nobody) : game.board.HasLine v ↔ nobody = v := by
  have hnone : game.winner = none := by
    have hgoing := h.going
    rw [Match.isOver, Bool.or_eq_false_iff] at hgoing
    simpa [Match.isWon] using hgoing.1
  rw [hasLine_iff_winner h.sound hv, hnone]
  rfl

/-- A match that is over and names no winner has filled its board. -/
theorem isFull_of_isOver {m : Match} (hs : m.Sound) (hover : m.isOver = true)
    (hnobody : m.winner.getD nobody = nobody) : m.board.isFull = true := by
  rw [Match.isOver, Bool.or_eq_true] at hover
  refine hover.resolve_left fun hwon => ?_
  rcases Option.isSome_iff_exists.1 hwon with ⟨w, hw⟩
  rw [hw, Option.getD_some] at hnobody
  exact ((hs.winner_iff w).1 hw).1 hnobody

/-- A match that is broken off ends for those among whom it is announced. -/
theorem ends_endMatch {l k : Lobby} {views : Views} (hm : l.Mirrored views) (hs : l.Sound)
    {game : Match} {accepting : Bool} (hphase : l.phase = .playing game accepting)
    {hears : Peer → Prop} (hnodup : (k.members.map Peer.id).Nodup)
    (hmembers : ∀ p ∈ l.members, hears p → p ∈ k.members) :
    l.Ends views hears (k.endMatch nobody).2.messagesTo nobody game.board := by
  refine ⟨fun p hp hlistening hhears => ?_, ?_⟩
  · have hheard := messagesTo_endMatch hnodup nobody (hmembers p hp hhears) hlistening
    refine ⟨[], [], hheard, ?_, (hm.shows game accepting hphase).board_eq hp hlistening⟩
    intro m hmem
    cases hmem
  · exact fun v hv => (hs.running game accepting hphase).hasLine_iff hv

/-- When a lobby closes, the match ends for all its members. -/
theorem ends_close {l : Lobby} {views : Views} {i : ConnectionId} {m : Message}
    (hm : l.Mirrored views) (hs : l.Sound) (hmem : m ∈ l.close.2.2.messagesTo i) :
    ∃ game accepting, l.phase = .playing game accepting ∧
      (∃ q ∈ l.members, q.id = i ∧ q.listening = true) ∧
        l.Ends views (fun _ => True) l.close.2.2.messagesTo nobody game.board := by
  rw [close_mail] at hmem ⊢
  by_cases hplaying : l.isPlaying = true
  · rw [if_pos hplaying] at hmem ⊢
    rcases isPlaying_iff.1 hplaying with ⟨game, accepting, hphase⟩
    exact ⟨game, accepting, hphase, exists_of_messagesTo_endMatch hmem,
      ends_endMatch hm hs hphase hs.nodup fun p hp _ => hp⟩
  · rw [if_neg hplaying] at hmem
    cases hmem

/-- When a member leaves, the match ends for all the others. -/
theorem Left.ends {l l' : Lobby} {views : Views} {id i : ConnectionId} {p : Peer} {mail : Mail}
    {m : Message} (hl : Left l id p l' mail) (hm : l.Mirrored views) (hs : l.Sound)
    (hmem : m ∈ mail.messagesTo i) :
    ∃ game accepting, l.phase = .playing game accepting ∧
      (∃ q ∈ l.members, q.id = i ∧ q.listening = true ∧ q.id ≠ id) ∧
        l.Ends views (fun q => q.id ≠ id) mail.messagesTo nobody game.board := by
  cases hl with
  | idle => cases hmem
  | @brokenOff game accepting hp hphase =>
      rcases exists_of_messagesTo_endMatch hmem with ⟨q, hq, hid, hlistening⟩
      rw [members_vacate] at hq
      rcases List.mem_filter.1 hq with ⟨hq, hne⟩
      refine ⟨game, accepting, hphase, ⟨q, hq, hid, hlistening, of_decide_eq_true hne⟩, ?_⟩
      refine ends_endMatch hm hs hphase (hs.nodup_vacate id p) fun r hr hne => ?_
      rw [members_vacate]
      exact List.mem_filter.2 ⟨hr, decide_eq_true hne⟩

/-- A match that is played to its end ends for all members; without a winner its board is full. -/
theorem Turned.ends {l l' : Lobby} {views : Views} {id i : ConnectionId} {column : UInt8}
    {mail : Mail} {m : Message} (ht : Turned l id column l' mail) (hm : l.Mirrored views)
    (hs : l.Sound) (hmem : m ∈ mail.messagesTo i) (hkind : m.kind = .gameEnd) :
    ∃ game accepting winner board, l.phase = .playing game accepting ∧
      (∃ q ∈ l.members, q.id = i ∧ q.listening = true) ∧
        l.Ends views (fun _ => True) mail.messagesTo winner board ∧
          (winner = nobody → board.isFull = true) := by
  have hnot : ∀ (player : Player) (result : TurnResult) (j : ConnectionId),
      ∀ m' ∈ (l.announceTurn player column result).messagesTo j, m'.kind ≠ .gameEnd :=
    fun player result j m' hm' =>
      (ofKinds_announceTurn l player column result).kind_ne (by decide) hm'
  cases ht with
  | stranger => cases hmem
  | idle => exact absurd hkind (hnot _ _ i m hmem)
  | rejected => exact absurd hkind (hnot _ _ i m hmem)
  | moved =>
      rw [Mail.messagesTo_append, List.mem_append] at hmem
      rcases hmem with hmem | hmem
      · exact absurd hkind (hnot _ _ i m hmem)
      · exact absurd hkind ((ofKinds_requestTurn l _).kind_ne (by decide) hmem)
  | @finished p game game' accepting hp hphase hturned hover =>
      have hgame' := (hs.running game accepting hphase).sound.turn hturned
      have hshows := (hm.shows game accepting hphase).announceTurn hs hm hturned
      rw [Mail.messagesTo_append, List.mem_append] at hmem
      have hmember := exists_of_messagesTo_endMatch
        (hmem.resolve_left fun hmem => hnot _ _ i m hmem hkind)
      refine ⟨game, accepting, game'.winner.getD nobody, game'.board, hphase, hmember, ⟨?_, ?_⟩,
        isFull_of_isOver hgame' hover⟩
      · intro q hq hlistening _
        refine ⟨(l.announceTurn p.player column .success).messagesTo q.id, [], ?_, ?_,
          hshows.board_eq hq hlistening⟩
        · rw [Mail.messagesTo_append, messagesTo_endMatch hs.nodup _ hq hlistening]
        · rw [List.append_nil]
          exact hnot _ _ _
      · exact fun v hv => hasLine_iff_winner hgame' hv

/-- What is heard after the end of a match, but for the end of another one, does not matter. -/
theorem Ends.append_right {l : Lobby} {views : Views} {hears : Peer → Prop}
    {heard rest : ConnectionId → List Message} {winner : Player} {board : Board}
    (h : l.Ends views hears heard winner board) (hrest : ∀ id, ∀ m ∈ rest id, m.kind ≠ .gameEnd) :
    l.Ends views hears (fun id => heard id ++ rest id) winner board := by
  refine ⟨fun p hp hlistening hhears => ?_, h.hasLine_iff⟩
  rcases h.each p hp hlistening hhears with ⟨before, after, hheard, hquiet, hboard⟩
  refine ⟨before, after ++ rest p.id, ?_, ?_, hboard⟩
  · simp only [hheard, List.append_assoc, List.cons_append]
  · intro m hm
    rw [← List.append_assoc] at hm
    rcases List.mem_append.1 hm with hm | hm
    · exact hquiet m hm
    · exact hrest p.id m hm

theorem Ends.mono {l : Lobby} {views : Views} {hears hears' : Peer → Prop}
    {heard : ConnectionId → List Message} {winner : Player} {board : Board}
    (h : l.Ends views hears heard winner board) (himp : ∀ p, hears' p → hears p) :
    l.Ends views hears' heard winner board :=
  ⟨fun p hp hlistening hhears => h.each p hp hlistening (himp p hhears), h.hasLine_iff⟩

/-- Where a message of a kind comes only once there is one way to part the messages at it. -/
theorem eq_of_append_cons_eq {before after before' after' : List Message} {m m' : Message}
    (h : before ++ m :: after = before' ++ m' :: after')
    (hquiet : ∀ x ∈ before' ++ after', x.kind ≠ m.kind) : before = before' ∧ m = m' := by
  rcases List.append_eq_append_iff.1 h with ⟨mid, rfl, hmid⟩ | ⟨mid, rfl, hmid⟩
  · cases mid with
    | nil =>
        rw [List.nil_append] at hmid
        cases hmid
        exact ⟨(List.append_nil before).symm, rfl⟩
    | cons x mid =>
        rw [List.cons_append] at hmid
        cases hmid
        exact absurd rfl (hquiet m (by simp))
  · cases mid with
    | nil =>
        rw [List.nil_append] at hmid
        cases hmid
        exact ⟨List.append_nil _, rfl⟩
    | cons x mid =>
        rw [List.cons_append] at hmid
        cases hmid
        exact absurd rfl (hquiet m (by simp))

/-- Whoever hears of the end of a match hears of this one. -/
theorem Ends.eq_of_heard {l : Lobby} {views : Views} {hears : Peer → Prop}
    {heard : ConnectionId → List Message} {winner w : Player} {board : Board}
    (h : l.Ends views hears heard winner board) {p : Peer} (hp : p ∈ l.members)
    (hlistening : p.listening = true) (hhears : hears p) {before after : List Message}
    (hheard : heard p.id = before ++ .gameEnd w :: after) :
    w = winner ∧ ((views p.id).hearAll before).board = some board := by
  rcases h.each p hp hlistening hhears with ⟨before', after', hheard', hquiet, hboard⟩
  rcases eq_of_append_cons_eq (hheard.symm.trans hheard') hquiet with ⟨rfl, hend⟩
  cases hend
  exact ⟨rfl, hboard⟩

end Lobby

end FourInRow
