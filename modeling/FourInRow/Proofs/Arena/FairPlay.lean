import FourInRow.Proofs.Arena.Contestant

/-!
# Bots play fair

A bot only knows what it has heard, and what it says takes its time.  Still it never breaks a rule:
whatever it hears fits the board that it keeps, and its piece still fits the board of its match when
the hall comes to it.  Only if the match has been broken off meanwhile its turn comes to nothing,
and no turn is ever taken in another match than the one in which the bot was asked for it.

Main results:

- Theorem `Stepped.of_step`: what an event comes to.
- Theorem `Sound.step`: what is under way fits, whatever happens.
- Theorem `Sound.boardOf_run`: as long as a turn is under way its match goes on unchanged, or is
  broken off, and no other match begins.
- Theorem `fair_play`: bots play fair in every course of events.
-/

namespace FourInRow

namespace Arena

/-! ## Who is told what -/

/-- Everybody is told the messages that are for it. -/
theorem deliver_eq (a : Arena) (effects : List Hall.Effect) :
    a.deliver effects =
      { a with
        contestants := a.contestants.map fun c => c.learn (Hall.messagesTo effects c.id) } := by
  induction effects generalizing a with
  | nil => simp [deliver, Contestant.learn_nil]
  | cons e effects ih =>
      cases e with
      | release id => exact ih a
      | send recipient m =>
          have hfirst : a.deliver (.send recipient m :: effects) =
              (a.modify recipient fun c => c.tell m).deliver effects := rfl
          rw [hfirst, ih]
          simp only [modify, List.map_map]
          refine congrArg _ (List.map_congr_left fun c _ => ?_)
          by_cases hid : c.id = recipient
          · simp [hid, Hall.messagesTo, Hall.Effect.messageTo, Contestant.learn_cons]
          · simp [hid, Ne.symm hid, Hall.messagesTo, Hall.Effect.messageTo]

theorem act_eq (a : Arena) (e : Hall.Event) :
    a.act e =
      (⟨(a.hall.step e).1,
        a.contestants.map fun c => c.learn (Hall.messagesTo (a.hall.step e).2 c.id)⟩,
        (a.hall.step e).2) := by
  simp only [act, deliver_eq]

/-! ## What can happen -/

/-- The contestant with a connection, if it is found. -/
theorem mem_of_find? {a : Arena} {id : ConnectionId} {c : Contestant} (h : a.find? id = some c) :
    c ∈ a.contestants ∧ c.id = id := by
  have hid := List.find?_some h
  exact ⟨List.mem_of_find?_eq_some h, by simpa using hid⟩

theorem find?_eq_none_iff {a : Arena} {id : ConnectionId} :
    a.find? id = none ↔ id ∉ a.contestants.map Contestant.id := by
  simp [find?]

/-- What an event comes to. -/
inductive Stepped (a : Arena) : Event → Arena × List Hall.Effect → Prop
  /-- There is nobody to whom it could happen, or nothing to do. -/
  | idle (e : Event) : Stepped a e (a, [])
  | entered {id : ConnectionId} (hnew : id ∉ a.contestants.map Contestant.id) (goal : Nat)
      (d : Draws) :
      Stepped a (.enter id goal d)
        ({ a with contestants := a.contestants ++ [Contestant.new id goal d] }, [])
  | served {c : Contestant} {command : Command} {rest : List Command} (hc : c ∈ a.contestants)
      (hasked : c.asked = command :: rest) :
      Stepped a (.serve c.id)
        ((a.modify c.id fun c => { c with asked := rest }).act (.command command))
  | heard (id : ConnectionId) : Stepped a (.hear id) (a.modify id Contestant.hear, [])
  | departed (id : ConnectionId) : Stepped a (.depart id) (a.modify id Contestant.depart, [])
  | hungUp {c : Contestant} (hc : c ∈ a.contestants) (hgone : c.gone = true) :
      Stepped a (.hangUp c.id) (a.act (.hangUp c.id))
  | reviewed : Stepped a .review (a.act .review)

/-- An event comes to one of the outcomes of `Stepped`. -/
theorem Stepped.of_step (a : Arena) (e : Event) : Stepped a e (a.step e) := by
  cases e with
  | enter id goal d =>
      cases hfind : a.find? id with
      | none =>
          simp only [Arena.step, hfind]
          exact .entered (find?_eq_none_iff.1 hfind) goal d
      | some c =>
          simp only [Arena.step, hfind]
          exact .idle _
  | serve id =>
      cases hfind : a.find? id with
      | none =>
          simp only [Arena.step, Arena.serve, hfind]
          exact .idle _
      | some c =>
          rcases mem_of_find? hfind with ⟨hc, rfl⟩
          cases hasked : c.asked with
          | nil =>
              simp only [Arena.step, Arena.serve, hfind, hasked]
              exact .idle _
          | cons command rest =>
              simp only [Arena.step, Arena.serve, hfind, hasked]
              exact .served hc hasked
  | hear id => exact .heard id
  | depart id => exact .departed id
  | hangUp id =>
      cases hfind : a.find? id with
      | none =>
          simp only [Arena.step, Arena.hangUp, hfind]
          exact .idle _
      | some c =>
          rcases mem_of_find? hfind with ⟨hc, rfl⟩
          by_cases hgone : c.gone = true
          · simp only [Arena.step, Arena.hangUp, hfind, if_pos hgone]
            exact .hungUp hc hgone
          · simp only [Arena.step, Arena.hangUp, hfind, if_neg hgone]
            exact .idle _
  | review => exact .reviewed

/-! ## What holds in an arena -/

/-- What holds in an arena in which some things have been said so far. -/
structure Sound (a : Arena) (log : List Hall.Effect) : Prop where
  hall : a.hall.Sound
  nodup : (a.contestants.map Contestant.id).Nodup
  /-- The hall knows nobody but the contestants. -/
  strangers : ∀ id, id ∉ a.contestants.map Contestant.id →
    ¬ a.hall.Holds id ∧ Hall.messagesTo log id = []
  each : ∀ c ∈ a.contestants, c.Sound a.hall (Hall.messagesTo log c.id)

theorem sound_new (s : Settings) (d : Draws) : (Arena.new s d).Sound [] where
  hall := Hall.sound_new s d
  nodup := List.nodup_nil
  strangers id _ := ⟨Hall.not_holds_new s d id, rfl⟩
  each c hc := by cases hc

/-- An arena remains sound when every contestant does. -/
theorem Sound.of_map {a a' : Arena} {log log' : List Hall.Effect} (h : a.Sound log)
    {f : Contestant → Contestant} (hid : ∀ c, (f c).id = c.id)
    (hcontestants : a'.contestants = a.contestants.map f) (hhall : a'.hall.Sound)
    (hstrangers : ∀ id, id ∉ a.contestants.map Contestant.id →
      ¬ a'.hall.Holds id ∧ Hall.messagesTo log' id = [])
    (heach : ∀ c ∈ a.contestants, (f c).Sound a'.hall (Hall.messagesTo log' c.id)) :
    a'.Sound log' := by
  have hids : a'.contestants.map Contestant.id = a.contestants.map Contestant.id := by
    rw [hcontestants, List.map_map]
    exact List.map_congr_left fun c _ => hid c
  refine ⟨hhall, hids ▸ h.nodup, fun id hout => hstrangers id (hids ▸ hout), fun c' hc' => ?_⟩
  rw [hcontestants] at hc'
  rcases List.mem_map.1 hc' with ⟨c, hc, rfl⟩
  rw [hid]
  exact heach c hc

/-- A contestant is found under its connection. -/
theorem Sound.find?_eq_some {a : Arena} {log : List Hall.Effect} (h : a.Sound log) {c : Contestant}
    (hc : c ∈ a.contestants) : a.find? c.id = some c := by
  cases hfind : a.find? c.id with
  | none => exact absurd (List.mem_map_of_mem hc) (find?_eq_none_iff.1 hfind)
  | some c' =>
      rcases mem_of_find? hfind with ⟨hc', hid⟩
      rw [List.inj_on_of_nodup_map h.nodup hc' hc hid]

/-- What happens to one contestant leaves the arena sound if the contestant remains so. -/
theorem Sound.modify {a : Arena} {log : List Hall.Effect} (h : a.Sound log) (id : ConnectionId)
    {f : Contestant → Contestant} (hid : ∀ c, (f c).id = c.id)
    (hf : ∀ {c : Contestant} {ms : List Message}, c.Sound a.hall ms → (f c).Sound a.hall ms) :
    (a.modify id f).Sound log := by
  refine h.of_map (f := fun c => if c.id = id then f c else c) (fun c => ?_) rfl h.hall h.strangers
    fun c hc => ?_
  · split
    · exact hid c
    · rfl
  · have hsound := h.each c hc
    split
    · exact hf hsound
    · exact hsound

/-- A newcomer is about to connect. -/
theorem sound_enter {h : Hall} {id : ConnectionId} (hout : ¬ h.Holds id) (goal : Nat) (d : Draws) :
    (Contestant.new id goal d).Sound h [] := by
  have hengaged : Contestant.Engaged ⟨id, Bot.new goal d, [.connect id], [], false⟩ [] .new [] :=
    { course := fun _ => .nil _
      owes := ⟨[], rfl, fun _ => rfl⟩
      fits := fun r hr => absurd hr List.not_mem_nil
      listening := fun _ => rfl
      shares := fun _ => ⟨Outlook.new, ⟨rfl, rfl, rfl⟩, .nil _⟩ }
  have hsound : Contestant.Sound ⟨id, Bot.new goal d, [.connect id], [], false⟩ h [] :=
    ⟨⟨_, .nil _⟩, .arriving hout rfl rfl hengaged⟩
  unfold Contestant.new Contestant.departIfDone
  split
  · exact hsound.depart
  · exact hsound

theorem id_new (id : ConnectionId) (goal : Nat) (d : Draws) :
    (Contestant.new id goal d).id = id := by
  unfold Contestant.new Contestant.departIfDone
  split
  · exact Contestant.id_depart _
  · rfl

theorem Sound.enter {a : Arena} {log : List Hall.Effect} (h : a.Sound log) {id : ConnectionId}
    (hnew : id ∉ a.contestants.map Contestant.id) (goal : Nat) (d : Draws) :
    Sound { a with contestants := a.contestants ++ [Contestant.new id goal d] } log := by
  rcases h.strangers id hnew with ⟨hout, hnothing⟩
  constructor
  · exact h.hall
  · rw [List.map_append, List.map_singleton, id_new, List.nodup_append]
    refine ⟨h.nodup, List.nodup_singleton id, ?_⟩
    rintro i hi j hj rfl
    rw [List.mem_singleton] at hj
    exact hnew (hj ▸ hi)
  · intro i hi
    rw [List.map_append, List.mem_append, not_or] at hi
    exact h.strangers i hi.1
  · intro c hc
    rcases List.mem_append.1 hc with hc | hc
    · exact h.each c hc
    · rw [List.mem_singleton.1 hc, id_new, hnothing]
      exact sound_enter hout goal d

/-- When something happens to the hall the arena remains sound if every contestant does. -/
theorem Sound.act {a : Arena} {log : List Hall.Effect} (h : a.Sound log) {e : Hall.Event}
    {f : Contestant → Contestant} (hid : ∀ c, (f c).id = c.id)
    (hnew : ∀ i, e = .command (.connect i) → ¬ a.hall.Holds i ∧ i ∈ a.contestants.map Contestant.id)
    (hopen : e ≠ .command .shutDown)
    (heach : ∀ c ∈ a.contestants,
      Contestant.Sound ((f c).learn (Hall.messagesTo (a.hall.step e).2 c.id)) (a.hall.step e).1
        (Hall.messagesTo log c.id ++ Hall.messagesTo (a.hall.step e).2 c.id)) :
    (act { a with contestants := a.contestants.map f } e).1.Sound (log ++ (a.hall.step e).2) := by
  have hmoves := Hall.step_moves h.hall fun i he => (hnew i he).1
  rw [act_eq]
  refine h.of_map (f := fun c => (f c).learn (Hall.messagesTo (a.hall.step e).2 c.id))
    (fun c => ?_) ?_ (h.hall.moves hmoves) (fun i hi => ?_) fun c hc => ?_
  · rw [Contestant.id_learn, hid]
  · simp only [List.map_map]
    refine List.map_congr_left fun c _ => ?_
    simp only [Function.comp_apply, hid]
  · rcases h.strangers i hi with ⟨hout, hnothing⟩
    have hforeign : e ≠ .command (.connect i) := fun he => hi (hnew i he).2
    rcases hmoves.silent h.hall hout hforeign hopen with ⟨hsilent, hout'⟩
    rw [Hall.messagesTo_append, hnothing, hsilent]
    exact ⟨hout', rfl⟩
  · rw [Hall.messagesTo_append]
    exact heach c hc

/-- The same for what no contestant has asked for. -/
theorem Sound.act_alone {a : Arena} {log : List Hall.Effect} (h : a.Sound log) {e : Hall.Event}
    (hnew : ∀ i, e ≠ .command (.connect i)) (hopen : e ≠ .command .shutDown)
    (heach : ∀ c ∈ a.contestants,
      Contestant.Sound (c.learn (Hall.messagesTo (a.hall.step e).2 c.id)) (a.hall.step e).1
        (Hall.messagesTo log c.id ++ Hall.messagesTo (a.hall.step e).2 c.id)) :
    (a.act e).1.Sound (log ++ (a.act e).2) := by
  have hsound := h.act (f := fun c => c) (fun _ => rfl) (fun i he => absurd he (hnew i)) hopen heach
  rw [List.map_id'] at hsound
  exact hsound

/-- The hall carries out a contestant's oldest command. -/
theorem Sound.serve {a : Arena} {log : List Hall.Effect} (h : a.Sound log) {c : Contestant}
    (hc : c ∈ a.contestants) {command : Command} {rest : List Command}
    (hasked : c.asked = command :: rest) :
    ((a.modify c.id fun c => { c with asked := rest }).act (.command command)).1.Sound
      (log ++ (a.hall.handle command).2) := by
  have hmem : command ∈ c.asked := by
    rw [hasked]
    exact List.mem_cons_self
  have hsender := (h.each c hc).stage.sender_eq hmem
  have hnew : ∀ i, Hall.Event.command command = .command (.connect i) → ¬ a.hall.Holds i := by
    rintro i ⟨⟩
    exact (h.each c hc).stage.not_holds hmem
  refine h.act (f := fun c' => if c'.id = c.id then { c' with asked := rest } else c')
    (fun c' => ?_) (fun i he => ⟨hnew i he, ?_⟩) ?_ fun c' hc' => ?_
  · split <;> rfl
  · cases he
    cases hsender
    exact List.mem_map_of_mem hc
  · rintro ⟨⟩
    cases hsender
  · by_cases hid : c'.id = c.id
    · obtain rfl := List.inj_on_of_nodup_map h.nodup hc' hc hid
      simp only [if_true]
      exact (h.each c' hc').serve h.hall hasked
    · simp only [if_neg hid]
      refine (h.each c' hc').overhear h.hall ⟨?_, fun i => Hall.Event.noConfusion⟩ hnew
      rintro _ ⟨⟩
      exact ⟨c.id, fun heq => hid heq.symm, hsender⟩

/-- What is under way fits, whatever happens. -/
theorem Sound.step {a : Arena} {log : List Hall.Effect} (h : a.Sound log) (e : Event) :
    (a.step e).1.Sound (log ++ (a.step e).2) := by
  have hstepped := Stepped.of_step a e
  generalize a.step e = r at hstepped
  cases hstepped with
  | idle =>
      rw [List.append_nil]
      exact h
  | entered hnew goal d =>
      rw [List.append_nil]
      exact h.enter hnew goal d
  | served hc hasked => exact h.serve hc hasked
  | heard id =>
      rw [List.append_nil]
      exact h.modify id Contestant.id_hear fun hc => hc.hear
  | departed id =>
      rw [List.append_nil]
      exact h.modify id Contestant.id_depart fun hc => hc.depart
  | @hungUp c hc hgone =>
      refine h.act_alone (e := .hangUp c.id) (fun i => Hall.Event.noConfusion)
        Hall.Event.noConfusion fun c' hc' => ?_
      change Contestant.Sound (c'.learn []) (a.hall.hangUp c.id)
        (Hall.messagesTo log c'.id ++ [])
      rw [Contestant.learn_nil, List.append_nil]
      refine (h.each c' hc').hangUp fun hid => ?_
      rw [List.inj_on_of_nodup_map h.nodup hc' hc hid]
      exact hgone
  | reviewed =>
      exact h.act_alone (fun i => Hall.Event.noConfusion) Hall.Event.noConfusion fun c hc =>
        (h.each c hc).overhear h.hall (Hall.Event.foreign_review c.id) fun i =>
          Hall.Event.noConfusion

theorem Sound.run {a : Arena} {log : List Hall.Effect} (h : a.Sound log) (es : List Event) :
    (a.run es).1.Sound (log ++ (a.run es).2) := by
  induction es generalizing a log with
  | nil =>
      change a.Sound (log ++ [])
      rw [List.append_nil]
      exact h
  | cons e es ih =>
      have hrest := ih (h.step e)
      rw [List.append_assoc] at hrest
      exact hrest

/-! ## Turns under way -/

/-- Is a turn of a contestant on its way to the hall? -/
def TurnUnderWay (a : Arena) (id : ConnectionId) : Prop :=
  ∃ c ∈ a.contestants, c.id = id ∧ ∃ column, .turn id column ∈ c.asked

/-- Once the hall has come to it a turn is not under way any more. -/
theorem not_turnUnderWay_act (a : Arena) (id : ConnectionId) {rest : List Command}
    (hrest : ∀ column, .turn id column ∉ rest) (e : Hall.Event) :
    ¬ ((a.modify id fun c => { c with asked := rest }).act e).1.TurnUnderWay id := by
  rintro ⟨c, hc, hid, column, hturn⟩
  rw [act_eq] at hc
  rcases List.mem_map.1 hc with ⟨c', hc', rfl⟩
  rcases List.mem_map.1 hc' with ⟨k, -, rfl⟩
  rw [Contestant.id_learn] at hid
  rw [Contestant.asked_learn] at hturn
  by_cases hk : k.id = id
  · rw [if_pos hk] at hturn
    exact hrest column hturn
  · rw [if_neg hk] at hid
    exact hk hid

/-- As long as a turn is under way its match goes on unchanged, or is broken off. -/
theorem Sound.boardOf_step {a : Arena} {log : List Hall.Effect} (h : a.Sound log)
    {id : ConnectionId} {e : Event} (hbefore : a.TurnUnderWay id)
    (hafter : (a.step e).1.TurnUnderWay id) :
    (a.step e).1.hall.boardOf id = a.hall.boardOf id ∨ (a.step e).1.hall.boardOf id = none := by
  rcases hbefore with ⟨c, hc, rfl, column, hmem⟩
  rcases (h.each c hc).stage.exists_turn hmem with
    ⟨-, st, requests, hst, -, ⟨rest, howes⟩, hasked, hbehind⟩
  have hstepped := Stepped.of_step a e
  generalize a.step e = r at hstepped hafter
  cases hstepped with
  | idle => exact Or.inl rfl
  | entered => exact Or.inl rfl
  | @served c' command others hc' hasked' =>
      by_cases hid : c'.id = c.id
      · -- the turn itself is carried out, and no other one is left
        obtain rfl := List.inj_on_of_nodup_map h.nodup hc' hc hid
        rw [hasked] at hasked'
        cases hasked'
        exact absurd hafter (not_turnUnderWay_act a c'.id hbehind _)
      · have hcommand : command ∈ c'.asked := by
          rw [hasked']
          exact List.mem_cons_self
        rw [act_eq]
        refine h.hall.boardOf_foreign hst howes ⟨?_, fun i => Hall.Event.noConfusion⟩ ?_
        · rintro _ ⟨⟩
          exact ⟨c'.id, hid, (h.each c' hc').stage.sender_eq hcommand⟩
        · rintro i ⟨⟩
          exact (h.each c' hc').stage.not_holds hcommand
  | heard => exact Or.inl rfl
  | departed => exact Or.inl rfl
  | @hungUp c' =>
      left
      rw [act_eq]
      change (a.hall.hangUp c'.id).boardOf c.id = _
      rw [(hst.hangUp c'.id).boardOf_eq (h.hall.hangUp c'.id), hst.boardOf_eq h.hall]
  | reviewed =>
      rw [act_eq]
      exact h.hall.boardOf_foreign hst howes (Hall.Event.foreign_review c.id) fun i =>
        Hall.Event.noConfusion

theorem run_concat (a : Arena) (es : List Event) (e : Event) :
    (a.run (es ++ [e])).1 = ((a.run es).1.step e).1 := by
  rw [run_append]
  rfl

/-- As long as a turn is under way its match goes on unchanged, or is broken off, and no other
match begins. -/
theorem Sound.boardOf_run {a : Arena} {log : List Hall.Effect} (h : a.Sound log)
    {id : ConnectionId} {es : List Event}
    (hunderWay : ∀ pre, pre <+: es → (a.run pre).1.TurnUnderWay id) :
    (a.run es).1.hall.boardOf id = a.hall.boardOf id ∨ (a.run es).1.hall.boardOf id = none := by
  induction es using List.reverseRecOn with
  | nil => exact Or.inl rfl
  | append_singleton es e ih =>
      have hpre := List.prefix_append es [e]
      have hafter := hunderWay (es ++ [e]) (List.prefix_refl _)
      rw [run_concat] at hafter ⊢
      rcases (h.run es).boardOf_step (hunderWay es hpre) hafter with hsame | hnone
      · rw [hsame]
        exact ih fun pre hsub => hunderWay pre (hsub.trans hpre)
      · exact Or.inr hnone

/-- What a contestant has said stays on the line until the hall comes to it. -/
theorem exists_asked_prefix (a : Arena) (e : Event) {c : Contestant} (hc : c ∈ a.contestants)
    (he : e ≠ .serve c.id) :
    ∃ c' ∈ (a.step e).1.contestants, c'.id = c.id ∧ c.asked <+: c'.asked := by
  have hact : ∀ (b : Arena) (e' : Hall.Event), c ∈ b.contestants →
      ∃ c' ∈ (b.act e').1.contestants, c'.id = c.id ∧ c.asked <+: c'.asked := by
    intro b e' hb
    rw [act_eq]
    refine ⟨_, List.mem_map_of_mem hb, Contestant.id_learn _ _, ?_⟩
    rw [Contestant.asked_learn]
  have hmodify : ∀ (id : ConnectionId) (f : Contestant → Contestant), (f c).id = c.id →
      c.asked <+: (f c).asked →
        ∃ c' ∈ (a.modify id f).contestants, c'.id = c.id ∧ c.asked <+: c'.asked := by
    intro id f hid hpre
    refine ⟨_, List.mem_map_of_mem hc, ?_⟩
    split
    · exact ⟨hid, hpre⟩
    · exact ⟨rfl, List.prefix_refl _⟩
  have hstepped := Stepped.of_step a e
  generalize a.step e = r at hstepped
  cases hstepped with
  | idle => exact ⟨c, hc, rfl, List.prefix_refl _⟩
  | entered => exact ⟨c, List.mem_append_left _ hc, rfl, List.prefix_refl _⟩
  | @served c' command rest =>
      have hne : c.id ≠ c'.id := by
        intro hid
        rw [hid] at he
        exact he rfl
      exact hact _ _ (List.mem_map.2 ⟨c, hc, if_neg hne⟩)
  | heard id => exact hmodify id _ c.id_hear c.asked_prefix_hear
  | departed id => exact hmodify id _ c.id_depart c.asked_prefix_depart
  | hungUp => exact hact a _ hc
  | reviewed => exact hact a .review hc

/-! ## Fair play -/

/-- How a contestant plays in an arena in which some things have been said so far. -/
structure FairPlay (a : Arena) (log : List Hall.Effect) (c : Contestant) : Prop where
  /-- The bot can do what is to be done about whatever it hears next. -/
  hears : c.gone = false → ∀ m rest, c.told = m :: rest → ∃ b out, c.bot.hear m = .ok (b, out)
  /-- Where it is asked for its turn there is room on its board, and it drops its piece there. -/
  chooses : c.gone = false → ∀ player rest, c.told = .turnRequest player :: rest →
    ∃ board column b, c.bot.board = some board ∧ column ∈ board.openColumns ∧
      c.bot.hear (.turnRequest player) = .ok (b, [.takeTurn c.bot.client.player column])
  /-- What a bot says stays on the line until the hall comes to it. -/
  kept : ∀ e, e ≠ .serve c.id →
    ∃ c' ∈ (a.step e).1.contestants, c'.id = c.id ∧ c.asked <+: c'.asked
  /-- When the hall comes to a turn the bot sits in a lobby, and in a match it is the bot's turn and
  there is room for the piece. -/
  legal : ∀ i column rest, c.asked = .turn i column :: rest → i = c.id ∧
    ∃ l ∈ a.hall.lobbies, ∃ p ∈ l.members, p.id = c.id ∧ ∀ game, l.game? = some game →
      game.current = p.player ∧ column ∈ game.board.openColumns
  /-- The turn is then answered at once and once: it succeeds, unless no match is running. -/
  answers : c.gone = false → ∀ column rest, c.asked = .turn c.id column :: rest →
    ∃ more, Hall.messagesTo (a.serve c.id).2 c.id =
        .turnResult (if (a.hall.boardOf c.id).isSome then .success else .error) column :: more ∧
      ∀ m ∈ more, m.kind ≠ .turnResult
  /-- Nothing else has become of a turn so far. -/
  results : ∀ result column, .turnResult result column ∈ Hall.messagesTo log c.id →
    result = .success ∨ result = .error
  /-- A turn has succeeded only in the match in which the bot was asked for it. -/
  succeeded : ∀ before column after,
    Hall.messagesTo log c.id = before ++ .turnResult .success column :: after →
      ∃ earlier player between, before = earlier ++ .turnRequest player :: between ∧
        ∀ m ∈ between, m.kind ∉ .gameEnd :: Outlook.settling
  /-- A turn has failed only after that match had been broken off. -/
  failed : ∀ before column after,
    Hall.messagesTo log c.id = before ++ .turnResult .error column :: after →
      ∃ earlier player between, before = earlier ++ .turnRequest player :: between ∧
        .gameEnd nobody ∈ between ∧ ∀ m ∈ between, m.kind ∉ Outlook.settling
  /-- As long as a turn is under way its match goes on unchanged, or is broken off, and no other
  match begins. -/
  steady : ∀ es, (∀ pre, pre <+: es → (a.run pre).1.TurnUnderWay c.id) →
    (a.run es).1.hall.boardOf c.id = a.hall.boardOf c.id ∨ (a.run es).1.hall.boardOf c.id = none

/-- What a bot hears next it may hear, as far as it knows. -/
theorem Sound.exists_hears {a : Arena} {log : List Hall.Effect} (h : a.Sound log) {c : Contestant}
    (hc : c ∈ a.contestants) (hgone : c.gone = false) {m : Message} {rest : List Message}
    (htold : c.told = m :: rest) : ∃ o o', c.bot.Shares o ∧ o.Hears m o' := by
  rcases (h.each c hc).stage.exists_shares hgone with ⟨o, o', hshares, hcourse⟩
  rw [htold] at hcourse
  cases hcourse with
  | cons hfirst => exact ⟨o, _, hshares, hfirst⟩

/-- A turn that the hall comes to is due, and there is room for the piece. -/
theorem Sound.exists_due {a : Arena} {log : List Hall.Effect} (h : a.Sound log) {c : Contestant}
    (hc : c ∈ a.contestants) {i : ConnectionId} {column : UInt8} {rest : List Command}
    (hasked : c.asked = .turn i column :: rest) :
    i = c.id ∧ ∃ st due, a.hall.Stands c.id st ∧ st.owes = .turn :: due ∧
      (∀ b, st.board = some b → column ∈ b.openColumns) ∧
        (c.gone = false → st.listening = true) := by
  have hmem : .turn i column ∈ c.asked := by
    rw [hasked]
    exact List.mem_cons_self
  rcases (h.each c hc).stage.exists_turn hmem with
    ⟨hi, st, requests, hst, hengaged, ⟨due, howes⟩, -, -⟩
  refine ⟨hi, st, due, hst, howes, ?_, hengaged.listening⟩
  cases hengaged.fits _ List.mem_cons_self with
  | turn _ hroom => exact hroom

/-- Contestants in a sound arena play fair. -/
theorem Sound.fairPlay {a : Arena} {log : List Hall.Effect} (h : a.Sound log) {c : Contestant}
    (hc : c ∈ a.contestants) : FairPlay a log c where
  hears hgone m rest htold := by
    rcases h.exists_hears hc hgone htold with ⟨o, o', hshares, hhears⟩
    rcases Bot.exists_hear hshares hhears with ⟨b, out, hhear, -⟩
    exact ⟨b, out, hhear⟩
  chooses hgone player rest htold := by
    rcases h.exists_hears hc hgone htold with ⟨o, o', hshares, hhears⟩
    cases hhears with
    | @asked board hrequest hboard hroom =>
        have hmirror := hshares.board_eq.trans hboard
        rcases Bot.exists_chooseColumn hmirror hroom with ⟨column, draws, hchoose, hopen⟩
        refine ⟨board, column, { c.bot with draws := draws }, hmirror, hopen, ?_⟩
        change c.bot.react (.turnRequest o.player) = _
        simp only [Bot.react, hchoose]
        exact Bot.send_eq_ok { c.bot with draws := draws } hshares.connected _
  legal i column rest hasked := by
    rcases h.exists_due hc hasked with ⟨hi, st, due, hst, howes, hroom, -⟩
    rcases hst.exists_seat howes with ⟨n, l, p, hl, hp, hid, hawaits, rfl⟩
    refine ⟨hi, l, List.mem_of_getElem? hl, p, hp, hid, fun game hgame => ?_⟩
    refine ⟨?_, hroom game.board (congrArg (Option.map Match.board) hgame)⟩
    rcases hawaits.of_turn with ⟨game', accepting, hphase, hcurrent, -⟩ | ⟨hidle, -⟩
    · rw [Lobby.game?_of_playing hphase] at hgame
      cases hgame
      exact hcurrent
    · rw [Lobby.game?_of_idle hidle] at hgame
      cases hgame
  kept e he := exists_asked_prefix a e hc he
  answers hgone column rest hasked := by
    rcases h.exists_due hc hasked with ⟨-, st, due, hst, howes, hroom, hlistening⟩
    have hserve : (a.serve c.id).2 = (a.hall.turn c.id column).2 := by
      unfold Arena.serve
      simp only [h.find?_eq_some hc, hasked, act_eq]
      rfl
    rw [hserve, hst.boardOf_eq h.hall]
    exact h.hall.answers hst howes hroom (hlistening hgone)
  results result column hmem := by
    rcases (h.each c hc).course with ⟨o, hcourse⟩
    exact hcourse.result hmem
  succeeded before column after hlog := by
    rcases (h.each c hc).course with ⟨o, hcourse⟩
    rw [hlog] at hcourse
    exact hcourse.success
  failed before column after hlog := by
    rcases (h.each c hc).course with ⟨o, hcourse⟩
    rw [hlog] at hcourse
    exact hcourse.error
  steady es hunderWay := h.boardOf_run hunderWay

/-- Bots play fair in every course of events: what they hear fits the boards they keep, and what
they say is in accordance with the rules when the hall comes to it, or comes to nothing since their
match has been broken off. -/
theorem fair_play (s : Settings) (d : Draws) (es : List Event) :
    ∀ c ∈ ((Arena.new s d).run es).1.contestants,
      FairPlay ((Arena.new s d).run es).1 ((Arena.new s d).run es).2 c :=
  fun _ hc => ((sound_new s d).run es).fairPlay hc

/-- The second bot leaves while the first one takes its turn, which comes to nothing then. -/
theorem fair_play_of_brokenOff :
    let es : List Event :=
      [.enter ⟨1⟩ 1 [], .enter ⟨2⟩ 1 [], .serve ⟨1⟩, .serve ⟨2⟩, .hear ⟨1⟩, .hear ⟨2⟩, .serve ⟨1⟩,
        .serve ⟨2⟩, .hear ⟨1⟩, .hear ⟨1⟩, .depart ⟨2⟩, .serve ⟨2⟩, .serve ⟨1⟩]
    let run := (Arena.new Settings.default []).run es
    ∃ c ∈ run.1.contestants, Hall.messagesTo run.2 c.id =
        [.connected 1, .gameStart 2 7 6 1, .turnRequest 1, .gameEnd nobody, .turnResult .error 0] ∧
      FairPlay run.1 run.2 c := by
  intro es run
  obtain ⟨c, hc, hheard⟩ : ∃ c ∈ run.1.contestants, Hall.messagesTo run.2 c.id =
      [.connected 1, .gameStart 2 7 6 1, .turnRequest 1, .gameEnd nobody,
        .turnResult .error 0] := by
    decide +kernel
  exact ⟨c, hc, hheard, fair_play Settings.default [] es c hc⟩

end Arena

end FourInRow
