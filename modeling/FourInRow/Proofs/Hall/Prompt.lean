import FourInRow.Proofs.Hall.Advance
import FourInRow.Proofs.Lobby.Prompt

/-!
# Settings that let matches begin

The settings of a server are checked once, before it begins to serve.  This module shows that the
check is sufficient: in no lobby the beginning of a match ever fails, so that a lobby in which
everybody is ready always plays, and what it plays is what the settings say.

Main results:

- Theorem `playable_of_check`: settings that pass their check give every lobby seats and a board.
- Theorem `prompt_run`: no lobby ever leaves a match waiting.
- Theorem `matches_begin`: a lobby plays exactly if everybody is ready, and its members know what.
-/

namespace FourInRow

namespace Hall

/-- Settings that pass their check have a playable board and players enough. -/
theorem size_of_check {s : Settings} (hs : s.check = .ok ()) :
    Match.minPlayers ≤ s.playersPerLobby ∧
      ∃ size, Board.Size.check s.boardColumns s.boardRows = .ok size := by
  unfold Settings.check at hs
  split at hs
  · cases hs
  · split at hs
    · cases hs
    · next hmany =>
        split at hs
        · cases hs
        · refine ⟨UInt8.not_lt.1 hmany, ?_⟩
          cases hsize : Board.Size.check s.boardColumns s.boardRows with
          | error e => simp [hsize, Except.map, Except.mapError] at hs
          | ok size => exact ⟨size, rfl⟩

/-- Settings that pass their check give every lobby seats and a board. -/
theorem playable_of_check {s : Settings} (hs : s.check = .ok ()) {n : Nat} {l : Lobby}
    (hl : Lodges s n l) : l.Playable := by
  rcases size_of_check hs with ⟨hplayers, hsize⟩
  refine ⟨?_, ?_⟩
  · rw [hl.capacity_eq]
    exact UInt8.le_iff_toNat_le.1 hplayers
  · rw [hl.columns_eq, hl.rows_eq]
    exact hsize

/-- A lobby without members does not leave a match waiting. -/
theorem prompt_freshLobby {s : Settings} (hs : s.check = .ok ()) (n : Nat) :
    (freshLobby s n).Prompt := by
  intro hall
  have hfull := (Lobby.allReady_iff.1 hall).1
  rw [members_freshLobby] at hfull
  exact absurd hfull (playable_of_check hs (lodges_freshLobby s n)).capacity_pos.ne

/-- With settings that pass their check no lobby leaves a match waiting. -/
theorem kept_prompt {s : Settings} (hs : s.check = .ok ()) : Kept s fun l _ => l.Prompt where
  fresh n _ := prompt_freshLobby hs n
  advance hl hadvanced hprompt :=
    hadvanced.advances.prompt hl.sound (playable_of_check hs hl) hprompt

/-- The members of a lobby know which match is running. -/
theorem kept_announced (s : Settings) : Kept s fun l log => l.Announced (messagesTo log) where
  fresh n _ := Lobby.announced_of_idle rfl _
  advance {n l l' log effects mail} hl hadvanced hannounced := by
    intro game accepting hphase
    rcases hadvanced.advances.announced hl.sound hannounced game accepting hphase with
      ⟨first, hstems, htold⟩
    refine ⟨first, hstems, fun p hp hlistening => ?_⟩
    rw [messagesTo_append, hadvanced.messagesTo_eq (Or.inr (List.mem_map_of_mem hp))]
    exact htold p hp hlistening

theorem prompt_run {s : Settings} (hs : s.check = .ok ()) (d : Draws) {es : List Event}
    (hfresh : (arrivals es).Nodup) {n : Nat} {l : Lobby}
    (hl : ((Hall.new s d).run es).1.lobbies[n]? = some l) : l.Prompt :=
  lobbies_run (kept_prompt hs) d hfresh n l hl

theorem announced_run (s : Settings) (d : Draws) {es : List Event} (hfresh : (arrivals es).Nodup)
    {n : Nat} {l : Lobby} (hl : ((Hall.new s d).run es).1.lobbies[n]? = some l) :
    l.Announced (messagesTo ((Hall.new s d).run es).2) :=
  lobbies_run (kept_announced s) d hfresh n l hl

/-- When a match is announced it has just begun in the lobby of the one who hears of it. -/
theorem step_announces {h : Hall} (hs : h.Sound) (hcheck : h.settings.check = .ok ()) {e : Event}
    (hnew : ∀ id, e = .command (.connect id) → ¬ h.Holds id) {id : ConnectionId} {m : Message}
    (hm : m ∈ messagesTo (h.step e).2 id) (hkind : m.kind = .gameStart) :
    ∃ l ∈ (h.step e).1.lobbies, ∃ game accepting, l.phase = .playing game accepting ∧
      game.turns = 0 ∧ (∃ p ∈ l.members, p.id = id ∧ p.listening = true) ∧
        m = .gameStart game.players game.board.size.columns game.board.size.rows game.current := by
  have hkinds : .gameStart ∈ e.kinds := by
    rw [← messagesTo_mailOf] at hm
    rw [← hkind]
    exact (step_moves hs hnew).ofKinds.kind_mem hm
  cases e with
  | command c =>
      cases c with
      | ready i =>
          have hreadied := Readied.of_ready h i
          change m ∈ messagesTo (sends (h.ready i).2) id at hm
          rw [messagesTo_sends] at hm
          change ∃ l ∈ (h.ready i).1.lobbies, _
          generalize (h.ready i).1 = h', (h.ready i).2 = mail at hreadied hm
          cases hreadied with
          | unseated => cases hm
          | @seated n l l' d' _ hl hreadied =>
              have hlodges := hs.lodges n l hl
              refine ⟨l', ?_, hreadied.announces hlodges.sound (playable_of_check hcheck hlodges)
                hm hkind⟩
              refine List.mem_of_getElem? (i := n) ?_
              exact (getElem?_setLobby hl l' n).trans (if_pos rfl)
      | _ => exact absurd hkinds (by simp [Event.kinds])
  | _ => exact absurd hkinds (by simp [Event.kinds])

/-- In every run in which no connection is made twice, of a hall with settings that pass their
check: a lobby plays exactly if every seat is taken by a peer that is ready.  To begin a match never
fails, whoever is drawn to begin.  The running match has the number of players and the board of the
settings, and came about from a new match with just the numbers that all members who listen were
told last.  Whenever anybody is told of a match it has just begun, with these numbers. -/
theorem matches_begin {s : Settings} (hs : s.check = .ok ()) (d : Draws) (es : List Event)
    (hfresh : (arrivals es).Nodup) :
    let h := ((Hall.new s d).run es).1
    let log := ((Hall.new s d).run es).2
    (∀ l ∈ h.lobbies, (l.isPlaying = true ↔ l.AllReady) ∧
      (∀ id d', ((l.noteReady id).beginMatch d').1.isPlaying = true) ∧
      ∀ game accepting, l.phase = .playing game accepting →
        game.HasDimensions s.playersPerLobby s.boardColumns s.boardRows ∧
          ∃ first, game.Stems s.playersPerLobby first s.boardColumns s.boardRows ∧
            ∀ p ∈ l.members, p.listening = true → newestStart (messagesTo log p.id) =
              some (.gameStart s.playersPerLobby s.boardColumns s.boardRows first)) ∧
    ∀ e id m, (arrivals (es ++ [e])).Nodup → m ∈ messagesTo (h.step e).2 id →
      m.kind = .gameStart →
        ∃ l ∈ (h.step e).1.lobbies, ∃ game accepting, l.phase = .playing game accepting ∧
          game.turns = 0 ∧ (∃ p ∈ l.members, p.id = id ∧ p.listening = true) ∧
            m = .gameStart game.players game.board.size.columns game.board.size.rows
              game.current := by
  intro h log
  have hsound : h.Sound := sound_run s d hfresh
  have hsettings : h.settings = s := settings_run s d hfresh
  refine ⟨fun l hl => ?_, fun e id m hfresh' hm hkind => ?_⟩
  · rcases List.getElem?_of_mem hl with ⟨n, hn⟩
    have hlodges := hsound.lodges n l hn
    rw [hsettings] at hlodges
    refine ⟨⟨fun hplaying => ?_, prompt_run hs d hfresh hn⟩, fun id d' => ?_,
      fun game accepting hphase => ?_⟩
    · rcases Lobby.isPlaying_iff.1 hplaying with ⟨game, accepting, hphase⟩
      have hrunning := hlodges.sound.running game accepting hphase
      exact Lobby.allReady_iff.2 ⟨hrunning.full, hrunning.ready⟩
    · rcases (playable_of_check hs hlodges).exists_size with ⟨size, hsize⟩
      rw [Lobby.beginMatch_of_ok (l := l.noteReady id) hsize]
      rfl
    · rcases announced_run s d hfresh hn game accepting hphase with ⟨first, hstems, htold⟩
      have hcapacity : UInt8.ofNat l.capacity = s.playersPerLobby := by
        rw [hlodges.capacity_eq]
        exact UInt8.ofNat_toNat
      simp only [Lobby.announcement, hcapacity, hlodges.columns_eq, hlodges.rows_eq] at hstems htold
      exact ⟨hstems.hasDimensions (size_of_check hs).1, first, hstems, htold⟩
  · have hcheck : h.settings.check = .ok () := by
      rw [hsettings]
      exact hs
    exact step_announces hsound hcheck (fun _ he => not_holds_of_connect hfresh' he) hm hkind

/-- Two connections say ready, and both are told of the match that the second one begins. -/
theorem matches_begin_of_two :
    let es : List Event :=
      [.command (.connect ⟨1⟩), .command (.connect ⟨2⟩), .command (.ready ⟨1⟩),
        .command (.ready ⟨2⟩)]
    let run := (Hall.new Settings.default [5]).run es
    Settings.default.check = .ok () ∧ (arrivals es).Nodup ∧
      ∃ l ∈ run.1.lobbies, l.isPlaying = true ∧ l.AllReady ∧
        newestStart (messagesTo run.2 ⟨1⟩) = some (.gameStart 2 7 6 2) := by
  intro es run
  have hs : Settings.default.check = .ok () := by decide
  have hfresh : (arrivals es).Nodup := by decide
  obtain ⟨l, hl, hplaying⟩ : ∃ l ∈ run.1.lobbies, l.isPlaying = true := by decide +kernel
  have hbegin := matches_begin hs [5] es hfresh
  refine ⟨hs, hfresh, l, hl, hplaying, (hbegin.1 l hl).1.1 hplaying, ?_⟩
  decide +kernel

end Hall

end FourInRow
