import FourInRow.Proofs.Arena.FairPlay
import FourInRow.Proofs.Hall.Prompt

/-!
# When the arena comes to rest

Bots do nothing on their own: they only answer what they hear.  So the arena would stand still if a
full lobby waited for something that is on its way to nobody.  It does not: a full lobby waits for
a turn or for somebody to say ready, whoever that is has still to be told or to be heard, and so
something is under way.

Main results:

- Theorem `Prompt.exists_due`: a full lobby always waits for something from one of its members.
- Theorem `Sound.hall_run`: what every step of the hall keeps holds after every course of events.
- Theorem `Sound.awaits_nil`: at rest nothing is due from anybody who is still there.
- Theorem `rests_waiting`: at rest no lobby is full, and every bot waits for one to fill up.
-/

namespace FourInRow

/-! ## What a full lobby waits for -/

namespace Lobby

/-- A full lobby always waits for something from one of its members: for a turn during a match, and
otherwise for somebody to say ready. -/
theorem Prompt.exists_due {l : Lobby} (hprompt : l.Prompt) (hs : l.Sound) (hn : l.Numbered)
    (hplayers : ∀ game accepting, l.phase = .playing game accepting →
      game.players.toNat = l.capacity)
    (hfull : l.members.length = l.capacity) : ∃ p ∈ l.members, ¬ l.Awaits p [] := by
  by_cases hplaying : l.isPlaying = true
  · rcases isPlaying_iff.1 hplaying with ⟨game, accepting, hphase⟩
    have hgame := (hs.running game accepting hphase).sound
    have hle := UInt8.le_iff_toNat_le.1 hgame.current_le_players
    rw [hplayers game accepting hphase] at hle
    -- the player whose turn it is has a seat
    rcases hn.exists_member hs hfull hgame.current_ne_nobody hle with ⟨p, hp, hplayer⟩
    refine ⟨p, hp, fun hawaits => ?_⟩
    have hdue := hawaits.of_playing hphase
    rw [if_pos hplayer.symm] at hdue
    cases hdue
  · have hidle := Bool.eq_false_iff.2 hplaying
    have hnot : ¬ ∀ p ∈ l.members, p.ready = true := fun hready =>
      hplaying (hprompt (allReady_iff.2 ⟨hfull, hready⟩))
    rcases not_forall.1 hnot with ⟨p, hnot⟩
    rcases Classical.not_imp.1 hnot with ⟨hp, hunready⟩
    refine ⟨p, hp, fun hawaits => ?_⟩
    rcases hawaits.of_idle hidle with ⟨hready, -⟩ | ⟨-, hdue | hdue⟩
    · exact hunready hready
    · cases hdue
    · cases hdue

/-- A lobby that is not full has a free seat. -/
theorem Sound.free_seat {l : Lobby} (hs : l.Sound) (hnot : l.members.length ≠ l.capacity) :
    l.isFull = false ∧ none ∈ l.seats := by
  constructor
  · rw [isFull, hs.players_eq]
    exact beq_eq_false_iff_ne.2 hnot
  · have hlt : l.members.length < l.seats.length :=
      lt_of_le_of_ne (length_seated_le l.seats) hnot
    rcases exists_free_seat hlt with ⟨i, hi⟩
    exact List.mem_of_getElem? (getElem?_of_findIdx? hi)

end Lobby

/-- A bot that has nothing under way is gone and not held any more, or stands with the hall so that
nothing is due from it. -/
theorem Contestant.Stage.of_rest {c : Contestant} {h : Hall} {log : List Message}
    (hstage : c.Stage h log) (hrest : c.asked = [] ∧ (c.gone = true ∨ c.told = [])) :
    c.gone = true ∧ ¬ h.Holds c.id ∨
      c.gone = false ∧ ∃ st, h.Stands c.id st ∧ st.owes = [] := by
  rcases hrest with ⟨hnothing, htold⟩
  cases hstage with
  | arriving _ _ hasked =>
      rw [hnothing] at hasked
      cases hasked
  | @present st requests hst hasked hengaged =>
      rw [hnothing] at hasked
      rcases List.append_eq_nil_iff.1 hasked.symm with ⟨rfl, hfarewell⟩
      have hstays : c.gone = false := by
        unfold Contestant.farewell at hfarewell
        split at hfarewell
        · cases hfarewell
        · next hgone => exact Bool.eq_false_iff.2 hgone
      rcases hengaged.owes with ⟨unpaid, howes, hunpaid⟩
      have hnone : c.told = [] := htold.resolve_left (by simp [hstays])
      refine Or.inr ⟨hstays, st, hst, ?_⟩
      rw [howes, hunpaid hstays, hnone]
      rfl
  | away hout hgone => exact Or.inl ⟨hgone, hout⟩

namespace Arena

theorem isAtRest_iff {a : Arena} : a.isAtRest = true ↔
    ∀ c ∈ a.contestants, c.asked = [] ∧ (c.gone = true ∨ c.told = []) := by
  simp [isAtRest]

/-- Settings that pass their check allow a lobby. -/
theorem lobbies_of_check {s : Settings} (hs : s.check = .ok ()) : 0 < s.maxLobbies.toNat := by
  unfold Settings.check at hs
  split at hs
  · cases hs
  · next hnone => exact Nat.pos_of_ne_zero fun hzero => hnone (UInt64.toNat_inj.1 hzero)

/-! ## What the hall keeps -/

/-- In one event of the arena nothing happens to the hall, or it makes a step, by which nobody
connects twice and it is not shut. -/
theorem Sound.hall_step {a : Arena} {log : List Hall.Effect} (h : a.Sound log) (e : Event) :
    (a.step e).1.hall = a.hall ∧ (a.step e).2 = [] ∨
      ∃ e' : Hall.Event, (a.step e).1.hall = (a.hall.step e').1 ∧
        (a.step e).2 = (a.hall.step e').2 ∧
          (∀ id, e' = .command (.connect id) → ¬ a.hall.Holds id) ∧ e' ≠ .command .shutDown := by
  have hstepped := Stepped.of_step a e
  generalize a.step e = r at hstepped
  cases hstepped with
  | idle => exact Or.inl ⟨rfl, rfl⟩
  | entered => exact Or.inl ⟨rfl, rfl⟩
  | @served c command rest hc hasked =>
      have hmem : command ∈ c.asked := by
        rw [hasked]
        exact List.mem_cons_self
      rw [act_eq]
      refine Or.inr ⟨.command command, rfl, rfl, ?_, ?_⟩
      · rintro i ⟨⟩
        exact (h.each c hc).stage.not_holds hmem
      · rintro ⟨⟩
        have hsender := (h.each c hc).stage.sender_eq hmem
        cases hsender
  | heard => exact Or.inl ⟨rfl, rfl⟩
  | departed => exact Or.inl ⟨rfl, rfl⟩
  | @hungUp c =>
      rw [act_eq]
      exact Or.inr ⟨.hangUp c.id, rfl, rfl, fun _ => Hall.Event.noConfusion,
        Hall.Event.noConfusion⟩
  | reviewed =>
      rw [act_eq]
      exact Or.inr ⟨.review, rfl, rfl, fun _ => Hall.Event.noConfusion, Hall.Event.noConfusion⟩

/-- What every step of the hall keeps that can be made in an arena holds after every course of
events. -/
theorem Sound.hall_run {P : Hall → List Hall.Effect → Prop}
    (hstep : ∀ {h : Hall} {log : List Hall.Effect} {e : Hall.Event}, h.Sound → P h log →
      (∀ id, e = .command (.connect id) → ¬ h.Holds id) → e ≠ .command .shutDown →
        P (h.step e).1 (log ++ (h.step e).2))
    {a : Arena} {log : List Hall.Effect} (h : a.Sound log) (ha : P a.hall log)
    (es : List Event) : P (a.run es).1.hall (log ++ (a.run es).2) := by
  induction es generalizing a log with
  | nil =>
      change P a.hall (log ++ [])
      rw [List.append_nil]
      exact ha
  | cons e es ih =>
      have hnext : P (a.step e).1.hall (log ++ (a.step e).2) := by
        rcases h.hall_step e with ⟨hhall, heffects⟩ | ⟨e', hhall, heffects, hnew, hopen⟩
        · rw [hhall, heffects, List.append_nil]
          exact ha
        · rw [hhall, heffects]
          exact hstep h.hall ha hnew hopen
      have hrest := ih (h.step e) hnext
      rw [List.append_assoc] at hrest
      exact hrest

/-- What holds of the hall of an arena whose settings pass their check. -/
structure Furnished (s : Settings) (h : Hall) (log : List Hall.Effect) : Prop where
  settings_eq : h.settings = s
  conserves : h.Conserves
  prompt : ∀ (n : Nat) (l : Lobby), h.lobbies[n]? = some l → l.Prompt
  announced : ∀ (n : Nat) (l : Lobby), h.lobbies[n]? = some l →
    l.Announced (Hall.messagesTo log)

/-- The hall of an arena is furnished after every course of events. -/
theorem furnished_run {s : Settings} (hs : s.check = .ok ()) (d : Draws) (es : List Event) :
    Furnished s ((Arena.new s d).run es).1.hall ((Arena.new s d).run es).2 := by
  refine (sound_new s d).hall_run (P := Furnished s) ?_ ?_ es
  · rintro h log e hsound ⟨hsettings, hconserves, hprompt, hannounced⟩ hnew hopen
    subst hsettings
    have hmoves := Hall.step_moves hsound hnew
    exact ⟨hmoves.settings_eq, hconserves.step hsound (Hall.seats_of_check hs) hnew hopen,
      (Hall.kept_prompt hs).moves hsound hmoves log hprompt,
      (Hall.kept_announced h.settings).moves hsound hmoves log hannounced⟩
  · refine ⟨rfl, ⟨⟨Nat.zero_le _, fun n l hl => ?_⟩, fun hwait => absurd rfl hwait⟩,
      fun n l hl => ?_, fun n l hl => ?_⟩
    · cases hl
    · cases hl
    · cases hl

/-! ## At rest -/

/-- When nothing is under way nothing is due from anybody who has a seat. -/
theorem Sound.awaits_nil {a : Arena} {log : List Hall.Effect} (h : a.Sound log)
    (hrest : a.isAtRest = true) {n : Nat} {l : Lobby} (hl : a.hall.lobbies[n]? = some l) {p : Peer}
    (hp : p ∈ l.members) : l.Awaits p [] := by
  have hheld : a.hall.Holds p.id := h.hall.holds_of_mem hl (List.mem_map_of_mem hp)
  have hknown : p.id ∈ a.contestants.map Contestant.id := by
    by_contra hout
    exact (h.strangers p.id hout).1 hheld
  rcases List.mem_map.1 hknown with ⟨c, hc, hid⟩
  rcases (h.each c hc).stage.of_rest (isAtRest_iff.1 hrest c hc) with
    ⟨-, hout⟩ | ⟨-, st, hst, howes⟩
  · exact absurd (hid ▸ hheld) hout
  · rw [hid] at hst
    cases hst with
    | waiting hq hqid =>
        have hout := h.hall.not_mem_members_of_queue hq hl
        rw [hqid] at hout
        exact absurd (List.mem_map_of_mem hp) hout
    | @seated m k q owes hk hq hqid hawaits =>
        have hmem : p.id ∈ k.members.map Peer.id := hqid ▸ List.mem_map_of_mem hq
        obtain rfl := h.hall.lobby_unique hk hl hmem (List.mem_map_of_mem hp)
        rw [hl] at hk
        cases hk
        rw [List.inj_on_of_nodup_map (h.hall.lodges m l hl).sound.nodup hp hq hqid.symm]
        change owes = [] at howes
        rw [← howes]
        exact hawaits

/-- When nothing is under way no lobby is full. -/
theorem Sound.not_full {s : Settings} (hs : s.check = .ok ()) {a : Arena}
    {log : List Hall.Effect} (h : a.Sound log) (hf : Furnished s a.hall log)
    (hrest : a.isAtRest = true) {n : Nat} {l : Lobby} (hl : a.hall.lobbies[n]? = some l) :
    l.members.length ≠ l.capacity := by
  intro hfull
  have hlodges := h.hall.lodges n l hl
  rw [hf.settings_eq] at hlodges
  have hplayable := Hall.playable_of_check hs hlodges
  have hplayers : ∀ game accepting, l.phase = .playing game accepting →
      game.players.toNat = l.capacity := by
    intro game accepting hphase
    rcases hf.announced n l hl game accepting hphase with ⟨first, hstems, -⟩
    have hcapacity := hlodges.sound.capacity_le
    rw [(hstems.hasDimensions (hplayable.minPlayers_le hlodges.sound)).1]
    exact UInt8.toNat_ofNat_of_lt' (by simp only [UInt8.size]; omega)
  rcases (hf.prompt n l hl).exists_due hlodges.sound hlodges.numbered hplayers hfull with
    ⟨p, hp, hdue⟩
  exact hdue (h.awaits_nil hrest hl hp)

/-- When nothing is under way nobody waits for a seat. -/
theorem Sound.queue_nil {s : Settings} (hs : s.check = .ok ()) {a : Arena}
    {log : List Hall.Effect} (h : a.Sound log) (hf : Furnished s a.hall log)
    (hrest : a.isAtRest = true) : a.hall.queue = [] := by
  by_contra hwait
  rcases hf.conserves.filled hwait with ⟨hlength, hfilled⟩
  have hroom : 0 < a.hall.lobbies.length := by
    rw [hlength, hf.settings_eq]
    exact lobbies_of_check hs
  have hl : a.hall.lobbies[0]? = some a.hall.lobbies[0] := List.getElem?_eq_getElem hroom
  exact h.not_full hs hf hrest hl ((h.hall.lodges 0 _ hl).sound.full_of_no_free_seat
    (hf.conserves.isOpen.isOpen 0 _ hl) (hfilled 0 _ hl))

/-- How a bot is placed when the arena is at rest. -/
inductive Placed (a : Arena) (c : Contestant) : Prop
  /-- It has dropped its connection, and the hall has let go of it. -/
  | gone (hgone : c.gone = true) (hout : ¬ a.hall.Holds c.id)
  /-- It is ready, and waits for its lobby to fill up. -/
  | waits {l : Lobby} {p : Peer} (hstays : c.gone = false) (hl : l ∈ a.hall.lobbies)
      (hp : p ∈ l.members) (hid : p.id = c.id) (hready : p.ready = true)
      (hidle : l.isPlaying = false) (hfree : none ∈ l.seats)

theorem Sound.placed {s : Settings} (hs : s.check = .ok ()) {a : Arena}
    {log : List Hall.Effect} (h : a.Sound log) (hf : Furnished s a.hall log)
    (hrest : a.isAtRest = true) {c : Contestant} (hc : c ∈ a.contestants) : a.Placed c := by
  rcases (h.each c hc).stage.of_rest (isAtRest_iff.1 hrest c hc) with
    ⟨hgone, hout⟩ | ⟨hstays, st, hst, howes⟩
  · exact .gone hgone hout
  · cases hst with
    | waiting hq =>
        rw [h.queue_nil hs hf hrest] at hq
        cases hq
    | @seated n l p owes hl hp hid hawaits =>
        have hsound := (h.hall.lodges n l hl).sound
        have hnot := h.not_full hs hf hrest hl
        have hidle : l.isPlaying = false := by
          by_contra hplaying
          rcases Lobby.isPlaying_iff.1 (Bool.not_eq_false _ ▸ hplaying) with
            ⟨game, accepting, hphase⟩
          exact hnot (hsound.running game accepting hphase).full
        refine .waits hstays (List.mem_of_getElem? hl) hp hid ?_ hidle (hsound.free_seat hnot).2
        change owes = [] at howes
        subst howes
        rcases hawaits.of_idle hidle with ⟨hready, -⟩ | ⟨-, hdue | hdue⟩
        · exact hready
        · cases hdue
        · cases hdue

/-- A hall in which only bots play, with settings that pass their check, comes to rest only when no
lobby is full, nobody waits in the queue, and every bot that is still there is ready and waits for
its lobby to fill up. -/
theorem rests_waiting {s : Settings} (hs : s.check = .ok ()) (d : Draws) (es : List Event)
    (hrest : ((Arena.new s d).run es).1.isAtRest = true) :
    let a := ((Arena.new s d).run es).1
    (∀ l ∈ a.hall.lobbies, l.isFull = false ∧ none ∈ l.seats) ∧ a.hall.queue = [] ∧
      ∀ c ∈ a.contestants, a.Placed c := by
  intro a
  have h := (sound_new s d).run es
  have hf := furnished_run hs d es
  refine ⟨fun l hl => ?_, h.queue_nil hs hf hrest, fun c hc => h.placed hs hf hrest hc⟩
  rcases List.getElem?_of_mem hl with ⟨n, hn⟩
  exact (h.hall.lodges n l hn).sound.free_seat (h.not_full hs hf hrest hn)

/-- The second of three bots leaves in the middle of a match, and the third one, which gets its seat
in the only lobby, leaves before it is ready: the first one remains, ready for another match. -/
theorem rests_waiting_of_departed :
    let s : Settings := { Settings.default with maxLobbies := 1 }
    let es : List Event :=
      [.enter ⟨1⟩ 5 [], .enter ⟨2⟩ 5 [], .enter ⟨3⟩ 5 [], .serve ⟨1⟩, .serve ⟨2⟩, .serve ⟨3⟩,
        .hear ⟨1⟩, .hear ⟨2⟩, .serve ⟨1⟩, .serve ⟨2⟩, .hear ⟨1⟩, .hear ⟨1⟩, .depart ⟨2⟩,
        .serve ⟨2⟩, .hear ⟨1⟩, .serve ⟨1⟩, .serve ⟨1⟩, .hear ⟨1⟩, .depart ⟨3⟩, .serve ⟨3⟩]
    let a := ((Arena.new s []).run es).1
    s.check = .ok () ∧ a.isAtRest = true ∧ ∃ c ∈ a.contestants, c.gone = false ∧ a.Placed c := by
  intro s es a
  have hs : s.check = .ok () := by decide
  have hrest : a.isAtRest = true := by decide +kernel
  obtain ⟨c, hc, hstays⟩ : ∃ c ∈ a.contestants, c.gone = false := by decide +kernel
  exact ⟨hs, hrest, c, hc, hstays, (rests_waiting hs [] es hrest).2.2 c hc⟩

end Arena

end FourInRow
