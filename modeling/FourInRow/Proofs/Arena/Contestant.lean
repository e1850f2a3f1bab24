import FourInRow.Arena
import FourInRow.Proofs.Hall.Standing

/-!
# What is under way between a bot and the hall

Messages and commands may be on the lines between a bot and the hall while the hall goes on.  The
two lines account for everything that is due: what the hall waits for from a bot is on its way to
the hall, or the bot has still to be told of it.  What is on the way fits the match that is running,
since no other match begins and nobody drops a piece before it arrives.

Main results:

- Theorem `Sound.hear`: a bot goes on whatever it hears.
- Theorem `Sound.serve`: the hall carries out a bot's own command.
- Theorem `Sound.overhear`: something else happens to the hall.
-/

namespace FourInRow

/-- The requests of a bot that fit its match: it says ready, or drops a piece where there is room. -/
inductive Command.Fits (id : ConnectionId) (board : Option Board) : Command → Prop
  | ready : Fits id board (.ready id)
  | turn (column : UInt8) (hroom : ∀ b, board = some b → column ∈ b.openColumns) :
      Fits id board (.turn id column)

namespace Contestant

/-! ## The two lines -/

/-- Several messages are put on the line to the bot. -/
def learn (c : Contestant) (ms : List Message) : Contestant :=
  if c.gone then c else { c with told := c.told ++ ms }

theorem learn_nil (c : Contestant) : c.learn [] = c := by
  unfold learn
  split
  · rfl
  · rw [List.append_nil]

theorem learn_cons (c : Contestant) (m : Message) (ms : List Message) :
    (c.tell m).learn ms = c.learn (m :: ms) := by
  unfold learn tell
  by_cases hgone : c.gone = true
  · simp [hgone]
  · simp [hgone]

@[simp] theorem id_tell (c : Contestant) (m : Message) : (c.tell m).id = c.id := by
  unfold tell
  split <;> rfl

@[simp] theorem id_learn (c : Contestant) (ms : List Message) : (c.learn ms).id = c.id := by
  unfold learn
  split <;> rfl

@[simp] theorem bot_learn (c : Contestant) (ms : List Message) : (c.learn ms).bot = c.bot := by
  unfold learn
  split <;> rfl

@[simp] theorem asked_learn (c : Contestant) (ms : List Message) :
    (c.learn ms).asked = c.asked := by
  unfold learn
  split <;> rfl

@[simp] theorem gone_learn (c : Contestant) (ms : List Message) : (c.learn ms).gone = c.gone := by
  unfold learn
  split <;> rfl

theorem told_learn (c : Contestant) (ms : List Message) (hgone : c.gone = false) :
    (c.learn ms).told = c.told ++ ms := by
  unfold learn
  rw [hgone]
  rfl

/-- What a bot that is gone has still to say. -/
def farewell (c : Contestant) : List Command := if c.gone then [.disconnect c.id] else []

@[simp] theorem farewell_learn (c : Contestant) (ms : List Message) :
    (c.learn ms).farewell = c.farewell := by
  rw [farewell, gone_learn, id_learn, farewell]

theorem id_depart (c : Contestant) : c.depart.id = c.id := by
  unfold depart
  split <;> rfl

theorem depart_eq_self {c : Contestant} (hgone : c.gone = true) : c.depart = c := if_pos hgone

theorem told_depart (c : Contestant) : c.depart.told = c.told := by
  unfold depart
  split <;> rfl

/-- Whoever departs has nothing more to say than farewell. -/
theorem asked_depart {c : Contestant} {requests : List Command}
    (hasked : c.asked = requests ++ c.farewell) :
    c.depart.asked = requests ++ c.depart.farewell := by
  unfold depart
  by_cases hgone : c.gone = true
  · rw [if_pos hgone]
    exact hasked
  · rw [if_neg hgone]
    simp [hasked, farewell, hgone]

theorem gone_depart (c : Contestant) : c.depart.gone = true := by
  unfold depart
  by_cases hgone : c.gone = true
  · rw [if_pos hgone]
    exact hgone
  · rw [if_neg hgone]

theorem asked_prefix_depart (c : Contestant) : c.asked <+: c.depart.asked := by
  unfold depart
  split
  · exact List.prefix_refl _
  · exact List.prefix_append _ _

theorem id_hear (c : Contestant) : c.hear.id = c.id := by
  unfold Contestant.hear departIfDone
  split
  · simp only
    split
    · exact id_depart _
    · split
      · exact id_depart _
      · rfl
  · rfl

/-- Whatever a bot says comes after what it has said before. -/
theorem asked_prefix_hear (c : Contestant) : c.asked <+: c.hear.asked := by
  unfold Contestant.hear departIfDone
  split
  · simp only
    split
    · refine List.IsPrefix.trans ?_ (asked_prefix_depart _)
      exact List.prefix_refl _
    · split
      · refine List.IsPrefix.trans ?_ (asked_prefix_depart _)
        exact List.prefix_append _ _
      · exact List.prefix_append _ _
  · exact List.prefix_refl _

/-! ## Accounts -/

/-- What is under way between a contestant and the hall, in which it stands as given and which has
told it some messages so far.  The requests are those on their way to the hall. -/
structure Engaged (c : Contestant) (log : List Message) (st : Standing)
    (requests : List Command) : Prop where
  course : st.listening = true → Outlook.new.Course log st.outlook
  /-- What is due is on its way to the hall, or the bot has still to be told. -/
  owes : ∃ unpaid, st.owes = requests.filterMap Command.due? ++ unpaid ∧
    (c.gone = false → unpaid = c.told.filterMap Message.due?)
  fits : ∀ r ∈ requests, r.Fits c.id st.board
  listening : c.gone = false → st.listening = true
  /-- A bot will know as much as the hall when it has heard everything. -/
  shares : c.gone = false → ∃ o, c.bot.Shares o ∧ o.Course c.told st.outlook

/-- Once a bot is gone it does not matter what it knows. -/
theorem Engaged.of_gone {c c' : Contestant} {log : List Message} {st : Standing}
    {requests : List Command} (h : c.Engaged log st requests) (hid : c'.id = c.id)
    (hgone : c'.gone = true) : c'.Engaged log st requests where
  course := h.course
  owes := by
    rcases h.owes with ⟨unpaid, howes, -⟩
    exact ⟨unpaid, howes, fun hstays => absurd (hgone.symm.trans hstays) (by decide)⟩
  fits r hr := hid ▸ h.fits r hr
  listening hstays := absurd (hgone.symm.trans hstays) (by decide)
  shares hstays := absurd (hgone.symm.trans hstays) (by decide)

theorem Engaged.depart {c : Contestant} {log : List Message} {st : Standing}
    {requests : List Command} (h : c.Engaged log st requests) :
    c.depart.Engaged log st requests :=
  h.of_gone c.id_depart c.gone_depart

/-- All requests pay something. -/
theorem due?_isSome_of_fits {r : Command} {id : ConnectionId} {board : Option Board}
    (h : r.Fits id board) : r.due?.isSome = true := by
  cases h <;> rfl

/-- Where nothing is paid nothing is under way. -/
theorem Engaged.eq_nil_of_dues {c : Contestant} {log : List Message} {st : Standing}
    {paying requests : List Command} (h : c.Engaged log st (paying ++ requests))
    (hdues : requests.filterMap Command.due? = []) : requests = [] := by
  cases requests with
  | nil => rfl
  | cons r rest =>
      have hfits := h.fits r (List.mem_append_right _ List.mem_cons_self)
      have hnone := List.filterMap_eq_nil_iff.1 hdues r List.mem_cons_self
      have hsome := due?_isSome_of_fits hfits
      rw [hnone] at hsome
      cases hsome

/-- No turn is under way behind another request. -/
theorem Engaged.turn_notMem {c : Contestant} {log : List Message} {st : Standing} {r : Command}
    {requests : List Command} (h : c.Engaged log st (r :: requests))
    (htail : .turn ∉ st.owes.tail) (column : UInt8) : .turn c.id column ∉ requests := by
  intro hmem
  rcases h.owes with ⟨unpaid, howes, -⟩
  rcases Option.isSome_iff_exists.1 (due?_isSome_of_fits (h.fits r List.mem_cons_self)) with
    ⟨due, hdue⟩
  rw [howes, List.filterMap_cons_some hdue] at htail
  exact htail (List.mem_append_left _ (List.mem_filterMap.2 ⟨_, hmem, rfl⟩))

/-- The accounts remain right when the hall does something about the oldest requests, or about
something else. -/
theorem Engaged.leads {c : Contestant} {log told : List Message} {st st' : Standing}
    {paying requests : List Command} (h : c.Engaged log st (paying ++ requests))
    (htail : .turn ∉ st.owes.tail)
    (hleads : st.Leads (paying.filterMap Command.due?) told st') :
    Engaged ({ c with asked := requests ++ c.farewell }.learn told) (log ++ told) st'
      requests := by
  rcases h.owes with ⟨unpaid, howes, hunpaid⟩
  rw [List.filterMap_append, List.append_assoc] at howes
  constructor
  · intro hlistening
    have hbefore := hleads.listening_eq.symm.trans hlistening
    exact (h.course hbefore).append (hleads.course hbefore)
  · rcases hleads.owes with ⟨due, hdue, htold⟩
    rw [howes, List.append_assoc, List.append_cancel_left_eq, List.append_assoc] at hdue
    refine ⟨unpaid ++ due, hdue.symm, fun hstays => ?_⟩
    rw [gone_learn] at hstays
    rw [told_learn _ _ hstays, List.filterMap_append, hunpaid hstays, htold (h.listening hstays)]
  · intro r hr
    rw [id_learn]
    cases h.fits r (List.mem_append_right _ hr) with
    | ready => exact .ready
    | turn column hroom =>
        refine .turn column fun b hb => ?_
        have hmem : Due.turn ∈ requests.filterMap Command.due? ++ unpaid :=
          List.mem_append_left _ (List.mem_filterMap.2 ⟨_, hr, rfl⟩)
        -- a turn that is still under way is the only thing that is due, or comes first
        have hpaid : paying.filterMap Command.due? = [] := by
          cases hpaying : paying.filterMap Command.due? with
          | nil => rfl
          | cons due dues =>
              rw [howes, hpaying] at htail
              exact absurd (List.mem_append_right dues hmem) htail
        have hturn : .turn ∈ st.owes := by
          rw [howes]
          exact List.mem_append_right _ hmem
        rcases hleads.still hpaid hturn with hsame | hnone
        · exact hroom b (hsame.symm.trans hb)
        · rw [hnone] at hb
          cases hb
  · intro hstays
    rw [gone_learn] at hstays
    exact hleads.listening_eq.trans (h.listening hstays)
  · intro hstays
    rw [gone_learn] at hstays
    rcases h.shares hstays with ⟨o, hshares, hcourse⟩
    rw [bot_learn, told_learn _ _ hstays]
    exact ⟨o, hshares, hcourse.append (hleads.course (h.listening hstays))⟩

/-- What a contestant is told can all be heard. -/
theorem Engaged.exists_course {c : Contestant} {log told : List Message} {st st' : Standing}
    {requests : List Command} {paid : List Due} (h : c.Engaged log st requests)
    (hleads : st.Leads paid told st') (hlog : ∃ o, Outlook.new.Course log o) :
    ∃ o, Outlook.new.Course (log ++ told) o := by
  cases hlistening : st.listening with
  | true => exact ⟨_, (h.course hlistening).append (hleads.course hlistening)⟩
  | false =>
      rw [hleads.silent hlistening, List.append_nil]
      exact hlog

/-! ## What a bot does -/

/-- What a bot says about a message that it may hear pays what is due, and fits its match. -/
theorem Engaged.reply {c : Contestant} {log rest : List Message} {st : Standing}
    {requests : List Command} (h : c.Engaged log st requests) (htail : .turn ∉ st.owes.tail)
    (hgone : c.gone = false) {m : Message} (htold : c.told = m :: rest) {o : Outlook}
    (hcourse : o.Course rest st.outlook) {b : Bot} (hshares : b.Shares o) {out : List Message}
    (hreply : o.Reply m out) (asked : List Command) :
    Engaged { c with told := rest, bot := b, asked := asked } log st
      (requests ++ out.filterMap fun m => Relay.request? c.id m) := by
  rcases h.owes with ⟨unpaid, howes, hunpaid⟩
  have hdues := hunpaid hgone
  rw [htold] at hdues
  refine ⟨h.course, ⟨rest.filterMap Message.due?, ?_, fun _ => rfl⟩, ?_, h.listening,
    fun _ => ⟨o, hshares, hcourse⟩⟩
  · rw [howes, hdues, List.filterMap_append]
    cases hreply with
    | silent hdue => simp [hdue]
    | ready hdue => simp [hdue, Relay.request?, Command.due?]
    | turn hdue => simp [hdue, Relay.request?, Command.due?]
  · intro r hr
    rcases List.mem_append.1 hr with hold | hnew
    · exact h.fits r hold
    · cases hreply with
      | silent => cases hnew
      | ready hdue =>
          rw [List.mem_singleton.1 hnew]
          exact .ready
      | @turn board column hdue hboard hopen =>
          rw [List.mem_singleton.1 hnew]
          refine .turn column fun b hb => ?_
          rw [List.filterMap_cons_some hdue] at hdues
          have hturn : .turn ∈ st.owes := by
            rw [howes, hdues]
            exact List.mem_append_right _ List.mem_cons_self
          -- one turn is due at most, so that nothing has happened to the board since
          have hlater : .turn ∉ rest.filterMap Message.due? := by
            intro hmem
            rw [howes, hdues] at htail
            cases hpaying : requests.filterMap Command.due? with
            | nil =>
                rw [hpaying] at htail
                exact htail hmem
            | cons due dues =>
                rw [hpaying] at htail
                exact htail (List.mem_append_right dues List.mem_cons_self)
          rw [Standing.outlook_of_mem hturn hb] at hcourse
          have hsame := (hcourse.still rfl hlater).2
          rw [hboard] at hsame
          cases hsame
          exact hopen

theorem hear_eq {c : Contestant} {m : Message} {rest : List Message} (hgone : c.gone = false)
    (htold : c.told = m :: rest) {b : Bot} {out : List Message}
    (hhear : c.bot.hear m = .ok (b, out)) :
    c.hear = departIfDone { c with
      told := rest, bot := b, asked := c.asked ++ out.filterMap fun m => Relay.request? c.id m } := by
  rcases c with ⟨id, bot, asked, told, gone⟩
  change told = _ at htold
  change gone = _ at hgone
  subst told gone
  simp only [Contestant.hear, hhear]

/-- Nothing is heard by a bot that is gone, or when there is nothing to hear. -/
theorem hear_eq_self {c : Contestant} (h : c.gone = true ∨ c.told = []) : c.hear = c := by
  rcases c with ⟨id, bot, asked, told, gone⟩
  rcases h with hgone | htold
  · change gone = _ at hgone
    subst gone
    rfl
  · change told = _ at htold
    subst told
    cases gone <;> rfl

/-- A bot goes on whatever it hears. -/
theorem Engaged.hear {c : Contestant} {log : List Message} {st : Standing}
    {requests : List Command} (h : c.Engaged log st requests) (htail : .turn ∉ st.owes.tail)
    (hasked : c.asked = requests ++ c.farewell) :
    ∃ requests', c.hear.asked = requests' ++ c.hear.farewell ∧
      c.hear.Engaged log st requests' := by
  by_cases hquiet : c.gone = true ∨ c.told = []
  · rw [hear_eq_self hquiet]
    exact ⟨requests, hasked, h⟩
  · rcases not_or.1 hquiet with ⟨hstays, hsome⟩
    have hgone := Bool.eq_false_iff.2 hstays
    rcases List.exists_cons_of_ne_nil hsome with ⟨m, rest, htold⟩
    rcases h.shares hgone with ⟨o, hshares, hcourse⟩
    rw [htold] at hcourse
    cases hcourse with
    | @cons _ o' _ _ _ hfirst hrest =>
        rcases Bot.exists_hear hshares hfirst with ⟨b, out, hhear, hshares', hout⟩
        rw [hear_eq hgone htold hhear]
        have hnothing : c.farewell = [] := by simp [farewell, hgone]
        rw [hnothing, List.append_nil] at hasked
        rw [hasked]
        unfold departIfDone
        rcases hout with hreply | ⟨hdone, rfl⟩
        · have hengaged := h.reply htail hgone htold hrest hshares' hreply
            (requests ++ out.filterMap fun m => Relay.request? c.id m)
          refine ⟨requests ++ out.filterMap fun m => Relay.request? c.id m, ?_⟩
          split
          · exact ⟨asked_depart (by simp [farewell, hgone]), hengaged.depart⟩
          · exact ⟨by simp [farewell, hgone], hengaged⟩
        · rw [if_pos hdone]
          refine ⟨requests, asked_depart ?_, h.of_gone (id_depart _) (gone_depart _)⟩
          simp [farewell, hgone]

/-! ## Stages -/

/-- How far a contestant has got with the hall, which has told it some messages so far. -/
inductive Stage (c : Contestant) (h : Hall) (log : List Message) : Prop
  /-- It is about to connect. -/
  | arriving (hout : ¬ h.Holds c.id) (htold : c.told = [])
      (hasked : c.asked = .connect c.id :: c.farewell) (hengaged : c.Engaged log .new [])
  /-- The hall holds it. -/
  | present {st : Standing} {requests : List Command} (hst : h.Stands c.id st)
      (hasked : c.asked = requests ++ c.farewell) (hengaged : c.Engaged log st requests)
  /-- The hall has let go of it. -/
  | away (hout : ¬ h.Holds c.id) (hgone : c.gone = true)
      (hasked : c.asked = [] ∨ c.asked = [.disconnect c.id])

/-- What holds of a contestant in an arena. -/
structure Sound (c : Contestant) (h : Hall) (log : List Message) : Prop where
  /-- Whatever it has been told could be heard. -/
  course : ∃ o, Outlook.new.Course log o
  stage : c.Stage h log

/-- A contestant speaks for itself only. -/
theorem Stage.sender_eq {c : Contestant} {h : Hall} {log : List Message} (hstage : c.Stage h log)
    {command : Command} (hmem : command ∈ c.asked) : command.sender? = some c.id := by
  have hfarewell : ∀ r ∈ c.farewell, r.sender? = some c.id := by
    intro r hr
    unfold farewell at hr
    split at hr
    · rw [List.mem_singleton.1 hr]
      rfl
    · cases hr
  cases hstage with
  | arriving _ _ hasked =>
      rw [hasked] at hmem
      rcases List.mem_cons.1 hmem with rfl | hmem
      · rfl
      · exact hfarewell command hmem
  | present _ hasked hengaged =>
      rw [hasked] at hmem
      rcases List.mem_append.1 hmem with hmem | hmem
      · cases hengaged.fits command hmem <;> rfl
      · exact hfarewell command hmem
  | away _ _ hasked =>
      rcases hasked with hasked | hasked
      · rw [hasked] at hmem
        cases hmem
      · rw [hasked] at hmem
        rw [List.mem_singleton.1 hmem]
        rfl

/-- Whoever is about to connect is not held. -/
theorem Stage.not_holds {c : Contestant} {h : Hall} {log : List Message} (hstage : c.Stage h log)
    {i : ConnectionId} (hmem : .connect i ∈ c.asked) : ¬ h.Holds i := by
  have hsender : some i = some c.id := hstage.sender_eq hmem
  cases hsender
  have hfarewell : .connect c.id ∉ c.farewell := by
    unfold farewell
    split <;> simp
  cases hstage with
  | arriving hout => exact hout
  | present _ hasked hengaged =>
      rw [hasked] at hmem
      rcases List.mem_append.1 hmem with hmem | hmem
      · cases hengaged.fits _ hmem
      · exact absurd hmem hfarewell
  | away hout => exact hout

/-- A bot that is still there knows something by which it may hear all it has been told. -/
theorem Stage.exists_shares {c : Contestant} {h : Hall} {log : List Message}
    (hstage : c.Stage h log) (hgone : c.gone = false) :
    ∃ o o', c.bot.Shares o ∧ o.Course c.told o' := by
  cases hstage with
  | arriving _ _ _ hengaged =>
      rcases hengaged.shares hgone with ⟨o, hshares, hcourse⟩
      exact ⟨o, _, hshares, hcourse⟩
  | present _ _ hengaged =>
      rcases hengaged.shares hgone with ⟨o, hshares, hcourse⟩
      exact ⟨o, _, hshares, hcourse⟩
  | away _ haway =>
      rw [hgone] at haway
      cases haway

/-- A turn is on its way to the hall only by itself, and it fits. -/
theorem Stage.exists_turn {c : Contestant} {h : Hall} {log : List Message}
    (hstage : c.Stage h log) {i : ConnectionId} {column : UInt8}
    (hmem : .turn i column ∈ c.asked) :
    i = c.id ∧ ∃ st requests, h.Stands c.id st ∧
      c.Engaged log st (.turn c.id column :: requests) ∧ (∃ rest, st.owes = .turn :: rest) ∧
        c.asked = .turn c.id column :: (requests ++ c.farewell) ∧
          ∀ column', .turn c.id column' ∉ requests ++ c.farewell := by
  have hsender : some i = some c.id := hstage.sender_eq hmem
  cases hsender
  have hfarewell : ∀ column', .turn c.id column' ∉ c.farewell := by
    intro column'
    unfold farewell
    split <;> simp
  cases hstage with
  | arriving _ _ hasked =>
      rw [hasked] at hmem
      rcases List.mem_cons.1 hmem with heq | hmem
      · cases heq
      · exact absurd hmem (hfarewell column)
  | @present st requests hst hasked hengaged =>
      rw [hasked] at hmem
      have hmem' := (List.mem_append.1 hmem).resolve_right (hfarewell column)
      cases requests with
      | nil => cases hmem'
      | cons r requests =>
          have hbehind := hengaged.turn_notMem hst.turn_notMem_tail
          rcases List.mem_cons.1 hmem' with rfl | hlater
          · rcases hengaged.owes with ⟨unpaid, howes, -⟩
            refine ⟨rfl, st, requests, hst, hengaged, ⟨_, howes⟩, hasked, fun column' hturn => ?_⟩
            exact (List.mem_append.1 hturn).elim (hbehind column') (hfarewell column')
          · exact absurd hlater (hbehind column)
  | away _ _ hasked =>
      rcases hasked with hasked | hasked
      · rw [hasked] at hmem
        cases hmem
      · rw [hasked] at hmem
        cases List.mem_singleton.1 hmem

theorem Sound.hear {c : Contestant} {h : Hall} {log : List Message} (hc : c.Sound h log) :
    c.hear.Sound h log := by
  refine ⟨hc.course, ?_⟩
  cases hc.stage with
  | arriving hout htold hasked hengaged =>
      rw [hear_eq_self (Or.inr htold)]
      exact hc.stage
  | present hst hasked hengaged =>
      rcases hengaged.hear hst.turn_notMem_tail hasked with ⟨requests', hasked', hengaged'⟩
      exact .present (c.id_hear ▸ hst) hasked' hengaged'
  | away hout hgone hasked =>
      rw [hear_eq_self (Or.inl hgone)]
      exact hc.stage

theorem Sound.depart {c : Contestant} {h : Hall} {log : List Message} (hc : c.Sound h log) :
    c.depart.Sound h log := by
  refine ⟨hc.course, ?_⟩
  cases hc.stage with
  | arriving hout htold hasked hengaged =>
      have hasked' : c.asked = [.connect c.id] ++ c.farewell := hasked
      refine .arriving (c.id_depart ▸ hout) (c.told_depart.trans htold) ?_ hengaged.depart
      rw [id_depart]
      exact asked_depart hasked'
  | present hst hasked hengaged =>
      exact .present (c.id_depart ▸ hst) (asked_depart hasked) hengaged.depart
  | away hout hgone hasked =>
      rw [depart_eq_self hgone]
      exact hc.stage

/-! ## What the hall does -/

/-- A contestant that the hall holds is still held, or was gone and is let go of. -/
theorem Engaged.fares {c : Contestant} {h' : Hall} {log told : List Message} {st : Standing}
    (paying : List Command) {requests : List Command} (h : c.Engaged log st (paying ++ requests))
    (htail : .turn ∉ st.owes.tail) (hlog : ∃ o, Outlook.new.Course log o)
    (hfares : h'.Fares c.id st (paying.filterMap Command.due?) told) :
    Sound ({ c with asked := requests ++ c.farewell }.learn told) h' (log ++ told) := by
  cases hfares with
  | stays hst' hleads =>
      refine ⟨h.exists_course hleads hlog, .present ?_ ?_ (h.leads htail hleads)⟩
      · rw [id_learn]
        exact hst'
      · rw [asked_learn, farewell_learn]
        rfl
  | released hout htold hdeaf howes =>
      subst htold
      rw [learn_nil, List.append_nil]
      rcases h.owes with ⟨unpaid, howes', -⟩
      rcases howes with ⟨due, hdue⟩
      rw [howes', List.filterMap_append, List.append_assoc, List.append_assoc,
        List.append_right_eq_self] at hdue
      have hrequests := h.eq_nil_of_dues (List.append_eq_nil_iff.1 hdue).1
      have hgone : c.gone = true := by
        by_contra hstays
        have hlistening := h.listening (Bool.eq_false_iff.2 hstays)
        rw [hdeaf] at hlistening
        cases hlistening
      refine ⟨hlog, .away hout hgone (Or.inr ?_)⟩
      simp [hrequests, farewell, hgone]

/-- Whoever has gone is away when the hall comes to its farewell. -/
theorem Sound.away {c : Contestant} {h h' : Hall} {effects : List Hall.Effect}
    {log : List Message} (hc : c.Sound h log) (hs : h.Sound) (hgone : c.gone = true)
    (hdisconnected : Hall.Disconnected h c.id h' effects) :
    Sound ({ c with asked := [] }.learn (Hall.messagesTo effects c.id)) h'
      (log ++ Hall.messagesTo effects c.id) := by
  rcases hdisconnected.departs hs with ⟨hnothing, hout⟩
  rw [hnothing, learn_nil, List.append_nil]
  exact ⟨hc.course, .away hout hgone (Or.inl rfl)⟩

/-- The farewell of a bot is its last command. -/
theorem eq_of_farewell {c : Contestant} {command : Command} {rest : List Command}
    (h : c.farewell = command :: rest) :
    c.gone = true ∧ command = .disconnect c.id ∧ rest = [] := by
  unfold farewell at h
  split at h
  · next hgone =>
      cases h
      exact ⟨hgone, rfl, rfl⟩
  · cases h

/-- The hall carries out a contestant's own command. -/
theorem Sound.serve {c : Contestant} {h : Hall} {log : List Message} (hc : c.Sound h log)
    (hs : h.Sound) {command : Command} {rest : List Command} (hasked : c.asked = command :: rest) :
    Sound ({ c with asked := rest }.learn (Hall.messagesTo (h.handle command).2 c.id))
      (h.handle command).1 (log ++ Hall.messagesTo (h.handle command).2 c.id) := by
  cases hc.stage with
  | arriving hout htold hasked' hengaged =>
      rw [hasked'] at hasked
      cases hasked
      have hconnected := Hall.Connected.of_connect hs c.id
      rcases hconnected.welcomes hs with ⟨st', hst', hsettles⟩
      have hfares : (h.connect c.id).1.Fares c.id .new [] ((h.connect c.id).2.messagesTo c.id) :=
        .stays hst' hsettles.leads
      change Sound (learn _ (Hall.messagesTo (Hall.sends (h.connect c.id).2) c.id))
        (h.connect c.id).1 (log ++ Hall.messagesTo (Hall.sends (h.connect c.id).2) c.id)
      rw [Hall.messagesTo_sends]
      exact hengaged.fares [] List.not_mem_nil hc.course hfares
  | @present st requests hst hasked' hengaged =>
      rw [hasked'] at hasked
      cases requests with
      | nil =>
          rcases eq_of_farewell hasked with ⟨hgone, rfl, rfl⟩
          exact hc.away hs hgone (Hall.Disconnected.of_disconnect hs c.id)
      | cons r requests =>
          cases hasked
          rcases hengaged.owes with ⟨unpaid, howes, -⟩
          have hfits := hengaged.fits command List.mem_cons_self
          refine hengaged.fares [command] hst.turn_notMem_tail hc.course ?_
          cases hfits with
          | ready =>
              have hfares := hs.fares_ready hst c.id fun _ => ⟨_, howes⟩
              rw [if_pos rfl] at hfares
              change Hall.Fares _ c.id st [.ready]
                (Hall.messagesTo (Hall.sends (h.ready c.id).2) c.id)
              rw [Hall.messagesTo_sends]
              exact hfares
          | turn column hroom =>
              have hfares := hs.fares_turn hst c.id column (fun _ => ⟨_, howes⟩) fun _ => hroom
              rw [if_pos rfl] at hfares
              exact hfares
  | away hout hgone hasked' =>
      rcases hasked' with hasked' | hasked'
      · rw [hasked'] at hasked
        cases hasked
      · rw [hasked'] at hasked
        cases hasked
        exact hc.away hs hgone (Hall.Disconnected.of_disconnect hs c.id)

/-- Something happens to the hall that is not the contestant's doing. -/
theorem Sound.overhear {c : Contestant} {h : Hall} {log : List Message} (hc : c.Sound h log)
    (hs : h.Sound) {e : Hall.Event} (hforeign : e.Foreign c.id)
    (hnew : ∀ i, e = .command (.connect i) → ¬ h.Holds i) :
    Sound (c.learn (Hall.messagesTo (h.step e).2 c.id)) (h.step e).1
      (log ++ Hall.messagesTo (h.step e).2 c.id) := by
  have hsilent : ¬ h.Holds c.id →
      Hall.messagesTo (h.step e).2 c.id = [] ∧ ¬ (h.step e).1.Holds c.id := fun hout =>
    (Hall.step_moves hs hnew).silent hs hout (hforeign.ne_command rfl) hforeign.ne_shutDown
  cases hc.stage with
  | arriving hout htold hasked hengaged =>
      rcases hsilent hout with ⟨hnothing, hout'⟩
      rw [hnothing, learn_nil, List.append_nil]
      exact ⟨hc.course, .arriving hout' htold hasked hengaged⟩
  | present hst hasked hengaged =>
      have hfares := hs.fares hst hforeign hnew
      have hsound := hengaged.fares [] hst.turn_notMem_tail hc.course hfares
      rw [← hasked] at hsound
      exact hsound
  | away hout hgone hasked =>
      rcases hsilent hout with ⟨hnothing, hout'⟩
      rw [hnothing, learn_nil, List.append_nil]
      exact ⟨hc.course, .away hout' hgone hasked⟩

/-- The line to a contestant breaks, which is so only if it is gone. -/
theorem Sound.hangUp {c : Contestant} {h : Hall} {log : List Message} (hc : c.Sound h log)
    {i : ConnectionId} (hgone : c.id = i → c.gone = true) : c.Sound (h.hangUp i) log := by
  have hout' : ¬ h.Holds c.id → ¬ (h.hangUp i).Holds c.id := fun hout =>
    (Hall.holds_hangUp h i c.id).not.2 hout
  refine ⟨hc.course, ?_⟩
  cases hc.stage with
  | arriving hout htold hasked hengaged => exact .arriving (hout' hout) htold hasked hengaged
  | @present st requests hst hasked hengaged =>
      have hlistening : c.gone = false → (st.listening && c.id ≠ i) = true := by
        intro hstays
        have hne : c.id ≠ i := fun hid => by
          rw [hgone hid] at hstays
          cases hstays
        simp [hengaged.listening hstays, hne]
      refine .present (hst.hangUp i) hasked ⟨fun h => ?_, hengaged.owes, hengaged.fits, hlistening,
        hengaged.shares⟩
      exact hengaged.course (Bool.and_eq_true_iff.1 h).1
  | away hout hgone' hasked => exact .away (hout' hout) hgone' hasked

end Contestant

end FourInRow
