import FourInRow.Proofs.Hall.Advance
import FourInRow.Proofs.Hall.Mirror

/-!
# Shutting a hall

A hall can be shut at any moment: while some lobbies gather, others play, and peers wait in the
queue.  Every running match is broken off, so that its members hear once that nobody has won, and
nobody else hears anything.  All connections are let go, and what remains are closed lobbies with
empty seats, which a further shutting does not change.

Main results:

- Theorem `Lobby.close_emptied`: to close a lobby again does nothing.
- Theorem `effects_shutDown`: all that shutting brings about, lobby by lobby.
- Theorem `releases_shutDown`: every connection that is held is let go once.
- Theorem `dissolved_shutDown`: what shutting comes to, in every state that can be reached.
-/

namespace FourInRow

namespace Lobby

/-! ## Closing a lobby -/

/-- Is the lobby closed, with nothing left of what went on in it? -/
structure IsShut (l : Lobby) : Prop where
  not_open : l.isOpen = false
  not_accepting : l.isAccepting = false
  not_playing : l.isPlaying = false
  game_eq : l.game? = none
  members_eq : l.members = []
  players_eq : l.players = 0
  readied_eq : l.readied = 0

theorem isShut_emptied (l : Lobby) : l.emptied.IsShut where
  not_open := rfl
  not_accepting := rfl
  not_playing := rfl
  game_eq := rfl
  members_eq := l.members_emptied
  players_eq := rfl
  readied_eq := rfl

/-- Those who are released are the members. -/
theorem map_id_released (l : Lobby) : l.close.1.map Peer.id = l.members.map Peer.id := by
  by_cases hplaying : l.isPlaying = true
  · simp only [close, hplaying, if_true, members_endMatch, List.map_map]
    rfl
  · simp only [close, hplaying]
    rfl

/-- To close a lobby again does nothing. -/
theorem close_emptied (l : Lobby) : l.emptied.close = ([], l.emptied, []) := by
  have hreleased : l.emptied.close.1 = [] := by
    rw [← List.map_eq_nil_iff (f := Peer.id), map_id_released, members_emptied, List.map_nil]
  have hlobby : l.emptied.close.2.1 = l.emptied := by simp [emptied]
  have hmail : l.emptied.close.2.2 = [] := l.emptied.close_mail
  exact Prod.ext hreleased (Prod.ext hlobby hmail)

end Lobby

namespace Hall

/-! ## What shutting brings about -/

/-- The connections that are let go among some effects, in order. -/
def releases (effects : List Effect) : List ConnectionId :=
  effects.filterMap fun e =>
    match e with
    | .send .. => none
    | .release id => some id

@[simp] theorem releases_append (effects effects' : List Effect) :
    releases (effects ++ effects') = releases effects ++ releases effects' :=
  List.filterMap_append

@[simp] theorem releases_sends (mail : Mail) : releases (sends mail) = [] := by
  simp [releases, sends]

@[simp] theorem releases_release (ids : List ConnectionId) : releases (ids.map .release) = ids := by
  simp [releases, List.filterMap_map]

/-- All that comes of closing a lobby: the members hear that their match has ended, if one is
running, and are let go. -/
def closingEffects (l : Lobby) : List Effect :=
  sends (if l.isPlaying then l.tellAll fun p => p.matchEnds nobody else []) ++
    (l.members.map Peer.id).map .release

theorem closeAll_effects (ls : List Lobby) : (closeAll ls).2 = ls.flatMap closingEffects := by
  induction ls with
  | nil => rfl
  | cons l ls ih =>
      simp only [closeAll, ih, List.flatMap_cons, closingEffects, Lobby.close_mail,
        ← Lobby.map_id_released, List.map_map]
      rfl

/-- All that shutting brings about, lobby by lobby, and then along the queue. -/
theorem effects_shutDown (h : Hall) :
    h.shutDown.2 = h.lobbies.flatMap closingEffects ++ (h.queue.map Peer.id).map .release := by
  change (closeAll h.lobbies).2 ++ h.queue.map (fun p => .release p.id) = _
  rw [closeAll_effects, List.map_map]
  rfl

/-- The members of the lobbies with a running match are told, and nobody else is. -/
theorem mailOf_shutDown_eq (h : Hall) : mailOf h.shutDown.2 =
    ((h.lobbies.filter Lobby.isPlaying).flatMap Lobby.members).flatMap
      fun p => p.tell (.gameEnd nobody) := by
  rw [mailOf_shutDown]
  induction h.lobbies with
  | nil => rfl
  | cons l ls ih =>
      rw [List.flatMap_cons, ih, Lobby.close_mail]
      by_cases hplaying : l.isPlaying = true
      · rw [if_pos hplaying, List.filter_cons_of_pos hplaying, List.flatMap_cons,
          List.flatMap_append]
        rfl
      · rw [if_neg hplaying, List.filter_cons_of_neg hplaying, List.nil_append]

/-- Every connection that is held is let go once, and no other one. -/
theorem releases_shutDown (h : Hall) : releases h.shutDown.2 = h.held.map Peer.id := by
  have hlobbies : ∀ ls : List Lobby,
      releases (ls.flatMap closingEffects) = (ls.flatMap Lobby.members).map Peer.id := by
    intro ls
    induction ls with
    | nil => rfl
    | cons l ls ih =>
        rw [List.flatMap_cons, releases_append, closingEffects, releases_append, releases_sends,
          releases_release, ih, List.flatMap_cons, List.map_append, List.nil_append]
  rw [effects_shutDown, releases_append, releases_release, hlobbies, held, List.map_append]

/-! ## Who hears of it -/

/-- A member of a lobby hears once that nobody has won, if a match is running. -/
theorem Sound.messagesTo_shutDown_member {h : Hall} (hs : h.Sound) {l : Lobby}
    (hl : l ∈ h.lobbies) {p : Peer} (hp : p ∈ l.members) :
    messagesTo h.shutDown.2 p.id =
      if l.isPlaying = true ∧ p.listening = true then [.gameEnd nobody] else [] := by
  obtain ⟨n, hn⟩ := List.getElem?_of_mem hl
  have hnodup := hs.nodup_held
  rw [held, List.map_append] at hnodup
  rw [messagesTo_shutDown, flatMap_messagesTo_close (List.nodup_append.1 hnodup).1 hl
    (List.mem_map_of_mem hp), Lobby.close_mail]
  by_cases hplaying : l.isPlaying = true
  · rw [if_pos hplaying, Lobby.messagesTo_tellAll (Peer.matchEnds_addressed nobody)
      (hs.lodges n l hn).sound.nodup hp]
    simp [Peer.matchEnds, hplaying]
  · simp [hplaying]

/-- Nobody hears anything who is not a member of a lobby with a running match. -/
theorem messagesTo_shutDown_other {h : Hall} {id : ConnectionId}
    (hid : ∀ l ∈ h.lobbies, l.isPlaying = true → id ∉ l.members.map Peer.id) :
    messagesTo h.shutDown.2 id = [] := by
  rw [messagesTo_shutDown, List.flatMap_eq_nil_iff]
  intro l hl
  by_cases hplaying : l.isPlaying = true
  · exact messagesTo_close_eq_nil (hid l hl hplaying)
  · rw [Lobby.close_mail, if_neg hplaying, Mail.messagesTo_nil]

/-! ## What remains -/

/-- To shut a hall again does nothing. -/
theorem shutDown_shutDown (h : Hall) : h.shutDown.1.shutDown = (h.shutDown.1, []) := by
  have hclosed : ∀ ls : List Lobby,
      closeAll (ls.map Lobby.emptied) = (ls.map Lobby.emptied, []) := by
    intro ls
    induction ls with
    | nil => rfl
    | cons l ls ih => simp [closeAll, Lobby.close_emptied, ih, sends]
  have hshut : h.shutDown.1 =
      { h with lobbies := h.lobbies.map Lobby.emptied, index := [], queue := [] } := by
    rw [← closeAll_lobbies]
    rfl
  rw [hshut]
  simp only [shutDown, hclosed, List.map_nil, List.append_nil]

/-- What shutting a hall comes to. -/
structure Dissolved (h h' : Hall) (effects : List Effect) : Prop where
  /-- Each lobby tells its members what there is to tell and lets them go; the queue is let go
  last. -/
  effects_eq : effects =
    h.lobbies.flatMap closingEffects ++ (h.queue.map Peer.id).map .release
  /-- Every member of a running match is told once, whether it listens or not, that nobody has won;
  nobody else is told anything. -/
  mail_eq : mailOf effects =
    ((h.lobbies.filter Lobby.isPlaying).flatMap Lobby.members).flatMap
      fun p => p.tell (.gameEnd nobody)
  /-- So the members of a running match hear once that nobody has won. -/
  members_hear : ∀ l ∈ h.lobbies, l.isPlaying = true → ∀ p ∈ l.members,
    messagesTo effects p.id = if p.listening = true then [.gameEnd nobody] else []
  /-- Nobody else hears anything, in a seat or in the queue. -/
  others_silent : ∀ id, (∀ l ∈ h.lobbies, l.isPlaying = true → id ∉ l.members.map Peer.id) →
    messagesTo effects id = []
  /-- Every connection that was held is let go once, and none is held any more. -/
  releases_eq : releases effects = h.held.map Peer.id
  nodup_releases : (releases effects).Nodup
  not_holds : ∀ id, ¬ h'.Holds id
  /-- What remains are the lobbies, closed and with their seats empty. -/
  lobbies_eq : h'.lobbies = h.lobbies.map Lobby.emptied
  isShut : ∀ l ∈ h'.lobbies, l.IsShut
  index_eq : h'.index = []
  queue_eq : h'.queue = []
  settings_eq : h'.settings = h.settings
  draws_eq : h'.draws = h.draws
  announced_eq : h'.announced = h.announced
  /-- To shut it again does nothing. -/
  again : h'.step (.command .shutDown) = (h', [])

/-- In every state that a hall can reach in a run in which no connection is made twice, whatever the
settings are, shutting it comes to this: the members of running matches hear once that nobody has won
and nobody else hears anything; all connections are let go; the lobbies are closed, and nothing is
left of what went on in them, in the queue or in the index; and to shut it again does nothing. -/
theorem dissolved_shutDown (s : Settings) (d : Draws) (es : List Event)
    (hfresh : (arrivals es).Nodup) :
    Dissolved ((Hall.new s d).run es).1
      (((Hall.new s d).run es).1.step (.command .shutDown)).1
      (((Hall.new s d).run es).1.step (.command .shutDown)).2 := by
  have hs := sound_run s d hfresh
  generalize ((Hall.new s d).run es).1 = h at hs
  change Dissolved h h.shutDown.1 h.shutDown.2
  exact
    { effects_eq := effects_shutDown h
      mail_eq := mailOf_shutDown_eq h
      members_hear := fun l hl hplaying p hp => by
        simpa [hplaying] using hs.messagesTo_shutDown_member hl hp
      others_silent := fun id hid => messagesTo_shutDown_other hid
      releases_eq := releases_shutDown h
      nodup_releases := by
        rw [releases_shutDown]
        exact hs.nodup_held
      not_holds := not_holds_shutDown h
      lobbies_eq := closeAll_lobbies h.lobbies
      isShut := fun l hl => by
        rw [show h.shutDown.1.lobbies = _ from closeAll_lobbies h.lobbies] at hl
        rcases List.mem_map.1 hl with ⟨k, -, rfl⟩
        exact k.isShut_emptied
      index_eq := rfl
      queue_eq := rfl
      settings_eq := rfl
      draws_eq := rfl
      announced_eq := rfl
      again := shutDown_shutDown h }

/-- Two lobbies, of which one plays and in the other one member of two is ready, and somebody in the
queue; one of the players has stopped listening. -/
theorem dissolved_of_playing :
    let s : Settings := { Settings.default with maxLobbies := 2 }
    let es : List Event :=
      [.command (.connect ⟨1⟩), .command (.connect ⟨2⟩), .command (.connect ⟨3⟩),
        .command (.connect ⟨4⟩), .command (.connect ⟨5⟩), .command (.ready ⟨1⟩),
        .command (.ready ⟨2⟩), .command (.ready ⟨3⟩), .hangUp ⟨2⟩]
    let h := ((Hall.new s []).run es).1
    (arrivals es).Nodup ∧ h.lobbies.map Lobby.isPlaying = [true, false] ∧
      h.lobbies.map Lobby.readied = [2, 1] ∧ h.queue.map Peer.id = [⟨5⟩] ∧
      messagesTo (h.step (.command .shutDown)).2 ⟨1⟩ = [.gameEnd nobody] ∧
      Dissolved h (h.step (.command .shutDown)).1 (h.step (.command .shutDown)).2 := by
  intro s es h
  have hfresh : (arrivals es).Nodup := by decide
  exact ⟨hfresh, by decide +kernel, by decide +kernel, by decide +kernel, by decide +kernel,
    dissolved_shutDown s [] es hfresh⟩

end Hall

end FourInRow
