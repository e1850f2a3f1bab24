import FourInRow.Proofs.Hall.Admission
import FourInRow.Proofs.Hall.Custody
import FourInRow.Proofs.Hall.Mail

/-!
# First come, first served

Nobody is seated before somebody who came earlier and still waits.  The queue is kept in the order
of arrival and is served from its front only, and a newcomer passes it by only when it is empty,
since a free seat is never kept from those who wait.

Main results:

- Theorem `Orderly.move`: every move of a hall respects the order of arrival.
- Theorem `orderly_run`: so does every run.
- Theorem `no_overtaking`: whoever sits has passed nobody by that still waits.
-/

namespace FourInRow

namespace Hall

/-- Does a connection have a seat? -/
def Seated (h : Hall) (id : ConnectionId) : Prop :=
  ∃ (n : Nat) (l : Lobby), h.lobbies[n]? = some l ∧ id ∈ l.members.map Peer.id

/-- Has a connection been given a seat, some time in a log?  It is told its number then. -/
def Welcomed (log : List Effect) (id : ConnectionId) : Prop :=
  ∃ player, .send id (.connected player) ∈ log

theorem Sound.seated_iff {h : Hall} (hs : h.Sound) (id : ConnectionId) :
    h.Seated id ↔ ∃ n, h.index.find? id = some n :=
  exists_congr fun n => (hs.index_iff id n).symm

theorem Welcomed.append {log : List Effect} {id : ConnectionId} (h : Welcomed log id)
    (effects : List Effect) : Welcomed (log ++ effects) id :=
  h.imp fun _ hmem => List.mem_append_left effects hmem

/-- Whoever has been given a seat was given it before, or just now. -/
theorem welcomed_append {log effects : List Effect} {id : ConnectionId} :
    Welcomed (log ++ effects) id ↔ Welcomed log id ∨ Welcomed effects id := by
  simp only [Welcomed, List.mem_append, exists_or]

/-- Somebody who is given a seat is told so, and nobody else hears of it. -/
theorem sends_of_seat {l l' : Lobby} {p : Peer} {player : Player} {mail : Mail}
    (hseat : l.seat p = some (player, l', mail)) (hplayer : p.player = nobody)
    (hlistening : p.listening = true) : sends mail = [.send p.id (.connected player)] := by
  rcases Lobby.seat_eq_some_iff.1 hseat with ⟨-, i, -, rfl, -, rfl⟩
  rw [Lobby.assign_of_nobody (p := { p with ready := false }) hplayer, Peer.tell]
  simp [hlistening, sends]

/-! ## The order of arrival -/

/-- What the order of arrival says about a hall and about what it has brought about so far. -/
structure Orderly (order : List ConnectionId) (h : Hall) (log : List Effect) : Prop where
  /-- Those who wait stand in the order in which they came. -/
  waiting : (h.queue.map Peer.id).Sublist order
  /-- Whoever has come waits, unless it has been welcomed or let go. -/
  accounted : ∀ x ∈ order, x ∈ h.queue.map Peer.id ∨ Welcomed log x ∨ .release x ∈ log
  /-- Whoever sits has been welcomed. -/
  seated : ∀ x n, h.index.find? x = some n → Welcomed log x
  /-- Nobody has been welcomed that has not come. -/
  arrived : ∀ x, Welcomed log x → x ∈ order
  /-- Whoever has been welcomed came before all those who wait. -/
  ahead : ∀ x, Welcomed log x → ∀ y ∈ h.queue.map Peer.id, [x, y].Sublist order
  /-- When somebody was welcomed nobody who came earlier was still waiting. -/
  inTurn : ∀ before y player after, log = before ++ .send y (.connected player) :: after →
    ∀ x, [x, y].Sublist order → Welcomed before x ∨ .release x ∈ before

/-- Where nobody occurs twice, nobody is before and behind somebody else. -/
theorem not_sublist_swap {order : List ConnectionId} (hnodup : order.Nodup) {x y : ConnectionId}
    (hxy : [x, y].Sublist order) : ¬ [y, x].Sublist order := by
  induction order with
  | nil => cases hxy
  | cons z order ih =>
      rcases List.nodup_cons.1 hnodup with ⟨hz, hnodup⟩
      intro hyx
      rcases List.cons_sublist_cons'.1 hxy with hrest | ⟨rfl, hy⟩
      · rcases List.cons_sublist_cons'.1 hyx with hrest' | ⟨rfl, -⟩
        · exact ih hnodup hrest hrest'
        · exact hz (hrest.subset (List.mem_cons_of_mem x List.mem_cons_self))
      · rcases List.cons_sublist_cons'.1 hyx with hrest' | ⟨rfl, -⟩
        · exact hz (hrest'.subset (List.mem_cons_of_mem y List.mem_cons_self))
        · exact hz (List.singleton_sublist.1 hy)

/-- Whoever came before somebody in the first part of an order is there itself. -/
theorem sublist_of_mem_left {order later : List ConnectionId}
    (hnodup : (order ++ later).Nodup) {x y : ConnectionId} (hy : y ∈ order)
    (hxy : [x, y].Sublist (order ++ later)) : [x, y].Sublist order := by
  have hout : y ∉ later := fun hlate => (List.nodup_append.1 hnodup).2.2 y hy y hlate rfl
  rcases List.sublist_append_iff.1 hxy with ⟨first, rest, hsplit, hfirst, hrest⟩
  rcases List.eq_nil_or_concat' rest with rfl | ⟨rest, z, rfl⟩
  · rw [List.append_nil] at hsplit
    rwa [hsplit]
  · have hsplit : [x] ++ [y] = (first ++ rest) ++ [z] := by
      rw [List.append_assoc]
      exact hsplit
    have hlast : y = z := List.singleton_inj.1 (List.append_inj' hsplit rfl).2
    exact absurd (hrest.subset (by simp [hlast])) hout

/-- An effect in a log came before the latest ones, or is one of them. -/
theorem eq_append_cons_cases {log effects before after : List Effect} {x : Effect}
    (h : log ++ effects = before ++ x :: after) :
    (∃ after', log = before ++ x :: after') ∨
      ∃ before', before = log ++ before' ∧ effects = before' ++ x :: after := by
  rcases List.append_eq_append_iff.1 h with ⟨mid, hbefore, heffects⟩ | ⟨mid, hlog, hmid⟩
  · exact Or.inr ⟨mid, hbefore, heffects⟩
  · rcases List.cons_eq_append_iff.1 hmid with ⟨rfl, heffects⟩ | ⟨after', rfl, -⟩
    · exact Or.inr ⟨[], by simpa using hlog.symm, heffects⟩
    · exact Or.inl ⟨after', hlog⟩

/-- Nothing changes about the order while nobody is welcomed and nobody comes. -/
theorem Orderly.quiet {order : List ConnectionId} {h h' : Hall} {log effects : List Effect}
    (ho : Orderly order h log) (hsublist : (h'.queue.map Peer.id).Sublist (h.queue.map Peer.id))
    (hgone : ∀ x ∈ h.queue.map Peer.id, x ∈ h'.queue.map Peer.id ∨ .release x ∈ effects)
    (hindex : ∀ x n, h'.index.find? x = some n → h.index.find? x = some n)
    (hquiet : ∀ x, ¬ Welcomed effects x) : Orderly order h' (log ++ effects) where
  waiting := hsublist.trans ho.waiting
  accounted x hx := by
    rcases ho.accounted x hx with hqueue | hwelcomed | hreleased
    · rcases hgone x hqueue with hstill | hreleased
      · exact Or.inl hstill
      · exact Or.inr (Or.inr (List.mem_append_right log hreleased))
    · exact Or.inr (Or.inl (hwelcomed.append effects))
    · exact Or.inr (Or.inr (List.mem_append_left effects hreleased))
  seated x n hx := (ho.seated x n (hindex x n hx)).append effects
  arrived x hx := ho.arrived x ((welcomed_append.1 hx).resolve_right (hquiet x))
  ahead x hx y hy :=
    ho.ahead x ((welcomed_append.1 hx).resolve_right (hquiet x)) y (hsublist.subset hy)
  inTurn before y player after hlog x hxy := by
    rcases eq_append_cons_cases hlog with ⟨after', hlog⟩ | ⟨before', -, heffects⟩
    · exact ho.inTurn before y player after' hlog x hxy
    · exact absurd ⟨player, by rw [heffects]; simp⟩ (hquiet y)

/-- A newcomer lines up behind all those who came before. -/
theorem Orderly.arrives {order : List ConnectionId} {h : Hall} {log : List Effect}
    (ho : Orderly order h log) {id : ConnectionId} (hnodup : (order ++ [id]).Nodup) :
    Orderly (order ++ [id]) (h.enqueue (Peer.new id)).1 log := by
  have hqueue : (h.enqueue (Peer.new id)).1.queue.map Peer.id = h.queue.map Peer.id ++ [id] := by
    rw [queue_enqueue, List.map_append]
    rfl
  constructor
  · rw [hqueue]
    exact ho.waiting.append (List.Sublist.refl [id])
  · intro x hx
    rw [hqueue, List.mem_append]
    rcases List.mem_append.1 hx with hold | hlast
    · exact (ho.accounted x hold).imp_left Or.inl
    · exact Or.inl (Or.inr hlast)
  · exact ho.seated
  · exact fun x hx => List.mem_append_left [id] (ho.arrived x hx)
  · intro x hx y hy
    rw [hqueue] at hy
    rcases List.mem_append.1 hy with hold | hlast
    · exact (ho.ahead x hx y hold).trans (List.sublist_append_left order [id])
    · obtain rfl := List.mem_singleton.1 hlast
      exact (List.singleton_sublist.2 (ho.arrived x hx)).append (List.Sublist.refl [y])
  · intro before y player after hlog x hxy
    -- the newcomer has not been welcomed yet, so both had come before
    have hy : y ∈ order := ho.arrived y ⟨player, by rw [hlog]; simp⟩
    exact ho.inTurn before y player after hlog x (sublist_of_mem_left hnodup hy hxy)

/-- The first one that waits is welcomed; whoever came before has left the queue. -/
theorem Orderly.welcomes {order : List ConnectionId} {h h' : Hall} {log : List Effect}
    (ho : Orderly order h log) (hnodup : order.Nodup) {p : Peer} {rest : List Peer}
    (hqueue : h.queue = p :: rest) (hrest : h'.queue = rest)
    (hindex : ∀ x n, h'.index.find? x = some n → x = p.id ∨ h.index.find? x = some n)
    (player : Player) :
    Orderly order h' (log ++ [Effect.send p.id (.connected player)]) := by
  have hwaiting : (p.id :: rest.map Peer.id).Sublist order := by
    have := ho.waiting
    rwa [hqueue] at this
  have hnew : ∀ x, Welcomed (log ++ [Effect.send p.id (.connected player)]) x ↔
      Welcomed log x ∨ x = p.id := by
    intro x
    rw [welcomed_append]
    simp [Welcomed]
  constructor
  · rw [hrest]
    exact (List.sublist_cons_self _ _).trans hwaiting
  · intro x hx
    rw [hnew, hrest, List.mem_append]
    have := ho.accounted x hx
    rw [hqueue, List.map_cons, List.mem_cons] at this
    tauto
  · intro x n hx
    rw [hnew]
    exact (hindex x n hx).symm.imp_left (ho.seated x n)
  · intro x hx
    rcases (hnew x).1 hx with hold | rfl
    · exact ho.arrived x hold
    · exact hwaiting.subset List.mem_cons_self
  · intro x hx y hy
    rw [hrest] at hy
    rcases (hnew x).1 hx with hold | rfl
    · refine ho.ahead x hold y ?_
      rw [hqueue]
      exact List.mem_cons_of_mem p.id hy
    · exact ((List.singleton_sublist.2 hy).cons_cons p.id).trans hwaiting
  · intro before y k after hlog x hxy
    rcases eq_append_cons_cases hlog with ⟨after', hlog⟩ | ⟨before', rfl, heffects⟩
    · exact ho.inTurn before y k after' hlog x hxy
    · rcases List.singleton_eq_append_iff.1 heffects with ⟨rfl, heq⟩ | ⟨-, hnil⟩
      · cases heq
        rw [List.append_nil]
        have hout : x ∉ h.queue.map Peer.id := by
          intro hx
          rw [hqueue, List.map_cons, List.mem_cons] at hx
          rcases hx with rfl | hx
          · exact not_sublist_swap hnodup hxy hxy
          · have hbehind := ((List.singleton_sublist.2 hx).cons_cons p.id).trans hwaiting
            exact not_sublist_swap hnodup hxy hbehind
        exact (ho.accounted x (hxy.subset List.mem_cons_self)).resolve_left hout
      · cases hnil

/-! ## Moves and steps -/

theorem not_welcomed_sends {kinds : List Wire.Kind} {mail : Mail} (h : mail.OfKinds kinds)
    (hkinds : .connected ∉ kinds) (id : ConnectionId) : ¬ Welcomed (sends mail) id := by
  rintro ⟨player, hmem⟩
  rcases List.mem_map.1 hmem with ⟨e, he, heq⟩
  have hkind := h e he
  rw [(Effect.send.inj heq).2] at hkind
  exact hkinds hkind

/-- Letting somebody go from the queue welcomes nobody. -/
theorem Orderly.removed {order : List ConnectionId} {h : Hall} {log : List Effect}
    (ho : Orderly order h log) {before after : List Peer} {p : Peer}
    (hqueue : h.queue = before ++ p :: after) :
    Orderly order { h with queue := before ++ after } (log ++ [Effect.release p.id]) := by
  refine ho.quiet ((removed_sublist hqueue).map Peer.id) ?_ (fun _ _ hx => hx) ?_
  · intro x hx
    rw [hqueue, (List.perm_middle.map Peer.id).mem_iff, List.map_cons, List.mem_cons] at hx
    rcases hx with rfl | hx
    · exact Or.inr (List.mem_singleton_self _)
    · exact Or.inl hx
  · rintro x ⟨player, hmem⟩
    cases List.mem_singleton.1 hmem

/-- Every move respects the order of arrival, unless somebody arrives. -/
theorem Orderly.move {order : List ConnectionId} {e : Event} {h h' : Hall}
    {log effects : List Effect} (hs : h.Sound) (hnodup : order.Nodup)
    (ho : Orderly order h log) (hmove : Move e h effects h')
    (hold : ∀ id, e ≠ .command (.connect id)) (hopen : e ≠ .command .shutDown) :
    Orderly order h' (log ++ effects) := by
  have hstays : ∀ x ∈ h.queue.map Peer.id, x ∈ h.queue.map Peer.id ∨ .release x ∈ effects :=
    fun _ hx => Or.inl hx
  have hnothing : ∀ x, ¬ Welcomed [] x := by
    rintro x ⟨player, hmem⟩
    cases hmem
  cases hmove with
  | opened => exact ho.quiet (.refl _) hstays (fun _ _ hx => hx) hnothing
  | welcomed he => exact absurd he (hold _)
  | queuedUp he => exact absurd he (hold _)
  | @promoted p rest n l l' player mail hqueue hlistening hl hseat =>
      have hp : p ∈ h.queue := by
        rw [hqueue]
        exact List.mem_cons_self
      rw [sends_of_seat hseat (hs.queue_plain p hp).1 hlistening]
      refine ho.welcomes hnodup hqueue rfl ?_ player
      intro x m hx
      change (h.index.insert p.id n).find? x = some m at hx
      rw [Index.find?_insert] at hx
      split at hx
      · next heq => exact Or.inl heq
      · exact Or.inr hx
  | dropped hqueue => exact ho.removed hqueue
  | withdrawn he hqueue => exact ho.removed hqueue
  | announced =>
      exact ho.quiet (.refl _) hstays (fun _ _ hx => hx)
        (not_welcomed_sends (ofKinds_announceQueue h) (by decide))
  | forgotten => exact ho.quiet (.refl _) hstays (fun _ _ hx => hx) hnothing
  | @left id n l l' p mail he hl hleft =>
      refine ho.quiet (.refl _) hstays ?_ ?_
      · intro x m hx
        change (h.index.remove id).find? x = some m at hx
        rw [Index.find?_remove] at hx
        split at hx
        · cases hx
        · exact hx
      · intro x hx
        rcases welcomed_append.1 hx with hmail | ⟨player, hmem⟩
        · exact not_welcomed_sends hleft.ofKinds (by decide) x hmail
        · cases List.mem_singleton.1 hmem
  | readied he hl hreadied =>
      exact ho.quiet (.refl _) hstays (fun _ _ hx => hx)
        (not_welcomed_sends hreadied.ofKinds (by decide))
  | turned he hl hturned =>
      exact ho.quiet (.refl _) hstays (fun _ _ hx => hx)
        (not_welcomed_sends hturned.ofKinds (by decide))
  | shut he => exact absurd he hopen
  | @hungUp id he =>
      have hsame : (h.hangUp id).queue.map Peer.id = h.queue.map Peer.id :=
        map_id_queue_hangUp h id
      refine ho.quiet ?_ ?_ (fun _ _ hx => hx) hnothing
      · rw [hsame]
      · rw [hsame]
        exact hstays

theorem Orderly.moves {order : List ConnectionId} {e : Event} {h h' : Hall}
    {log effects : List Effect} (hs : h.Sound) (hnodup : order.Nodup)
    (ho : Orderly order h log) (hmoves : Moves e h effects h')
    (hold : ∀ id, e ≠ .command (.connect id)) (hopen : e ≠ .command .shutDown) :
    Orderly order h' (log ++ effects) := by
  induction hmoves generalizing log with
  | refl =>
      rw [List.append_nil]
      exact ho
  | step hmove _ ih =>
      rw [← List.append_assoc]
      exact ih (hs.move hmove) (ho.move hs hnodup hmove hold hopen)

/-- A newcomer that is seated at once is welcomed as if it had been alone in the queue. -/
theorem Orderly.seatsNewcomer {order : List ConnectionId} {h h' : Hall} {log : List Effect}
    (ho : Orderly order h log) {id : ConnectionId} (hnodup : (order ++ [id]).Nodup)
    (hempty : h.queue = []) (hempty' : h'.queue = []) {n : Nat}
    (hindex : h'.index = h.index.insert id n) (player : Player) :
    Orderly (order ++ [id]) h' (log ++ [.send id (.connected player)]) := by
  have hqueue : (h.enqueue (Peer.new id)).1.queue = [Peer.new id] := by
    rw [queue_enqueue, hempty]
    rfl
  refine (ho.arrives hnodup).welcomes hnodup hqueue hempty' ?_ player
  intro x m hx
  rw [hindex, Index.find?_insert] at hx
  split at hx
  · next heq => exact Or.inl heq
  · exact Or.inr hx

/-- A newcomer passes nobody by, since it is seated at once only where nobody waits. -/
theorem Orderly.admitted {order : List ConnectionId} {h h' : Hall} {log : List Effect}
    {id : ConnectionId} {mail : Mail} (hc : h.Conserves) (ho : Orderly order h log)
    (hnodup : (order ++ [id]).Nodup) (hadmitted : Admitted h id h' mail) :
    Orderly (order ++ [id]) h' (log ++ sends mail) := by
  cases hadmitted with
  | @found n l l' player mail hfirst hl hseat =>
      have hempty : h.queue = [] := by
        by_contra hwait
        rcases getElem?_of_findIdx?_hasFreeSeat hfirst with ⟨k, hk, hfree⟩
        rw [(hc.filled hwait).2 n k hk] at hfree
        cases hfree
      rw [sends_of_seat hseat rfl rfl]
      refine ho.seatsNewcomer hnodup hempty ?_ (n := n) ?_ player
      · exact hempty
      · rfl
  | @opened k l' player mail hfull hroom hk hseat =>
      have hempty : h.queue = [] := by
        by_contra hwait
        exact hroom.ne (hc.filled hwait).1
      rw [sends_of_seat hseat rfl rfl]
      refine ho.seatsNewcomer hnodup hempty ?_ (n := h.lobbies.length) ?_ player
      · rw [hk]
        exact hempty
      · rfl
  | queued hfull hroom =>
      refine (ho.arrives hnodup).quiet (.refl _) (fun x hx => Or.inl hx) (fun _ _ hx => hx) ?_
      exact not_welcomed_sends (ofKinds_enqueue h _) (by decide)

/-! ## Runs -/

/-- Every run respects the order of arrival. -/
theorem orderly_run {s : Settings} (hs : s.check = .ok ()) (d : Draws) {es : List Event}
    (hfresh : (arrivals es).Nodup) (hopen : .command .shutDown ∉ es) :
    Orderly (arrivals es) ((Hall.new s d).run es).1 ((Hall.new s d).run es).2 := by
  induction es using List.reverseRecOn with
  | nil =>
      have hnobody : ∀ x, ¬ Welcomed [] x := by
        rintro x ⟨player, hmem⟩
        cases hmem
      refine ⟨.refl [], fun x hx => ?_, fun x n hx => ?_, fun x hx => absurd hx (hnobody x),
        fun x hx => absurd hx (hnobody x), fun before y player after hlog => ?_⟩
      · cases hx
      · cases hx
      · simp [run] at hlog
  | append_singleton es e ih =>
      have hbefore := nodup_arrivals_of_concat hfresh
      have hopen' : e ≠ .command .shutDown := by
        rintro rfl
        exact hopen (by simp)
      have hopenBefore : .command .shutDown ∉ es := fun hmem => hopen (List.mem_append_left _ hmem)
      have ho := ih hbefore hopenBefore
      have hsound := sound_run s d hbefore
      rw [run_concat]
      by_cases hconnect : ∃ id, e = .command (.connect id)
      · rcases hconnect with ⟨id, rfl⟩
        have hseats := seats_of_check hs
        rw [← settings_run s d hbefore] at hseats
        rw [arrivals_append] at hfresh ⊢
        exact ho.admitted (conserves_run hs d hbefore hopenBefore) hfresh
          (.of_connect hsound hseats id)
      · have hold : ∀ id, e ≠ .command (.connect id) := fun id he => hconnect ⟨id, he⟩
        have hsame : arrivals (es ++ [e]) = arrivals es := by
          rw [arrivals_append, List.append_right_eq_self, List.eq_nil_iff_forall_not_mem]
          intro id hid
          exact hold id (List.mem_singleton.1 (mem_arrivals.1 hid)).symm
        rw [hsame]
        exact ho.moves hsound hbefore (run_moves s d hfresh) hold hopen'

/-- Connections arrive in the order in which they are made. -/
theorem InOrder.arrivals_sublist {es : List Event} {a b : ConnectionId}
    (h : InOrder (.command (.connect a)) (.command (.connect b)) es) :
    [a, b].Sublist (arrivals es) := by
  have hsub : (arrivals [.command (.connect a), .command (.connect b)]).Sublist (arrivals es) :=
    h.filterMap _
  exact hsub

/-- In every run in which no connection is made twice, until the hall is shut: when somebody sits,
whoever came earlier sits as well, unless it has been disconnected or dropped from the queue since
it hung up.  What is more, whenever somebody was given a seat, whoever came earlier had been given
one or let go before. -/
theorem no_overtaking {s : Settings} (hs : s.check = .ok ()) (d : Draws) (es : List Event)
    (hfresh : (arrivals es).Nodup) (hopen : .command .shutDown ∉ es) {a b : ConnectionId}
    (hab : InOrder (.command (.connect a)) (.command (.connect b)) es) :
    (∀ before, before <+: es → ((Hall.new s d).run before).1.Seated b →
      ((Hall.new s d).run before).1.Seated a ∨
        InOrder (.command (.connect a)) (.command (.disconnect a)) before ∨
          Dropped (Hall.new s d) before a) ∧
    ∀ before player after,
      ((Hall.new s d).run es).2 = before ++ .send b (.connected player) :: after →
        Welcomed before a ∨ .release a ∈ before := by
  constructor
  · intro before hpre hb
    have hfreshBefore := nodup_arrivals_of_isPrefix hpre hfresh
    have hopenBefore : .command .shutDown ∉ before := fun hmem => hopen (hpre.subset hmem)
    have hsound := sound_run s d hfreshBefore
    have ho := orderly_run hs d hfreshBefore hopenBefore
    rcases (hsound.seated_iff b).1 hb with ⟨n, hn⟩
    have hwelcomed := ho.seated b n hn
    -- as `b` has come by now, so has `a`
    have hcame : [a, b].Sublist (arrivals before) := by
      rcases hpre with ⟨later, rfl⟩
      have hsub := hab.arrivals_sublist
      rw [arrivals_append] at hfresh hsub
      exact sublist_of_mem_left hfresh (ho.arrived b hwelcomed) hsub
    have hout : a ∉ ((Hall.new s d).run before).1.queue.map Peer.id := fun ha =>
      not_sublist_swap hfreshBefore hcame (ho.ahead b hwelcomed a ha)
    have hheld := holds_run_iff s d hfreshBefore hopenBefore a
    by_cases ha : ((Hall.new s d).run before).1.Holds a
    · exact Or.inl ((hsound.seated_iff a).2 (ha.resolve_right hout))
    · have ha' : a ∈ arrivals before := hcame.subset List.mem_cons_self
      rw [hheld] at ha
      tauto
  · intro before player after hlog
    exact (orderly_run hs d hfresh hopen).inTurn before b player after hlog a
      hab.arrivals_sublist

/-- In a hall with a single lobby for two, the third connection waits and hangs up, and the fourth
one is seated before it, after it has been dropped. -/
theorem no_overtaking_of_dropped :
    let s : Settings := { Settings.default with maxLobbies := 1 }
    let es : List Event :=
      [.command (.connect ⟨1⟩), .command (.connect ⟨2⟩), .command (.connect ⟨3⟩),
        .command (.connect ⟨4⟩), .hangUp ⟨3⟩, .command (.disconnect ⟨1⟩)]
    let before : List Effect :=
      [.send ⟨1⟩ (.connected 1), .send ⟨2⟩ (.connected 2), .send ⟨3⟩ (.inQueue 1),
        .send ⟨4⟩ (.inQueue 2), .release ⟨1⟩, .release ⟨3⟩]
    let a : ConnectionId := ⟨3⟩
    let b : ConnectionId := ⟨4⟩
    s.check = .ok () ∧ (arrivals es).Nodup ∧ .command .shutDown ∉ es ∧
      InOrder (.command (.connect a)) (.command (.connect b)) es ∧
        ((Hall.new s []).run es).2 = before ++ .send b (.connected 1) :: [] ∧
          (Welcomed before a ∨ .release a ∈ before) := by
  intro s es before a b
  have hs : s.check = .ok () := by decide
  have hfresh : (arrivals es).Nodup := by decide
  have hopen : .command .shutDown ∉ es := by decide
  have hab : InOrder (.command (.connect a)) (.command (.connect b)) es := by
    unfold InOrder
    decide
  have hlog : ((Hall.new s []).run es).2 = before ++ .send b (.connected 1) :: [] := by
    decide +kernel
  exact ⟨hs, hfresh, hopen, hab, hlog, (no_overtaking hs [] es hfresh hopen hab).2 before 1 [] hlog⟩

end Hall

end FourInRow
