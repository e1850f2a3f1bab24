import FourInRow.Proofs.Hall.Step

/-!
# Who gets which seat

As long as somebody waits no seat is free, in any lobby that there may be.  So a newcomer that
finds a free seat passes nobody: it gets the first one, lobby by lobby and seat by seat, where
lobbies that are not opened yet count as empty.

Main results:

- Theorem `seatFrom_filled`: a lobby is filled up until the queue is empty or no seat is free.
- Theorem `Admitted.of_connect`: which seat a newcomer gets.
- Theorem `Conserves.step`: while a hall is open, nobody waits in vain.
- Theorem `admission`: in every run somebody waits only if all seats are taken, and a newcomer gets
  the first free seat or else the last place in the queue.
-/

namespace FourInRow

namespace Lobby

/-! ## Open lobbies -/

theorem isOpen_iff {l : Lobby} : l.isOpen = true ↔ l.phase ≠ .closed := by
  simp [isOpen]

theorem isOpen_of_playing {l : Lobby} {game : Match} {accepting : Bool}
    (hphase : l.phase = .playing game accepting) : l.isOpen = true := by
  simp [isOpen, hphase]

/-- Seating somebody does not close a lobby. -/
theorem isOpen_seat {l l' : Lobby} {p : Peer} {player : Player} {mail : Mail}
    (hseat : l.seat p = some (player, l', mail)) : l'.isOpen = l.isOpen := by
  rcases seat_eq_some_iff.1 hseat with ⟨-, i, -, -, rfl, -⟩
  rfl

/-- Nor does anybody that says ready, -/
theorem Readied.isOpen {l l' : Lobby} {d d' : Draws} {id : ConnectionId} {mail : Mail}
    (h : Readied l d id l' d' mail) (hopen : l.isOpen = true) : l'.isOpen = true := by
  cases h with
  | ignored => exact hopen
  | noted => exact hopen
  | unplayable => exact hopen
  | begun => exact isOpen_of_playing rfl

/-- takes a turn, -/
theorem Turned.isOpen {l l' : Lobby} {id : ConnectionId} {column : UInt8} {mail : Mail}
    (h : Turned l id column l' mail) (hopen : l.isOpen = true) : l'.isOpen = true := by
  cases h with
  | stranger => exact hopen
  | idle => exact hopen
  | rejected => exact hopen
  | moved => exact isOpen_of_playing rfl
  | finished => rfl

/-- or leaves. -/
theorem Left.isOpen {l l' : Lobby} {id : ConnectionId} {p : Peer} {mail : Mail}
    (h : Left l id p l' mail) (hopen : l.isOpen = true) : l'.isOpen = true := by
  cases h with
  | idle => exact hopen
  | brokenOff => rfl

/-- In an open lobby without a free seat every seat is taken. -/
theorem Sound.full_of_no_free_seat {l : Lobby} (h : l.Sound) (hopen : l.isOpen = true)
    (hfree : l.hasFreeSeat = false) : l.members.length = l.capacity := by
  have hle : l.members.length ≤ l.capacity := length_seated_le l.seats
  have hnot : ¬ (l.phase = .gathering ∧ l.members.length < l.capacity) := by
    rw [← h.hasFreeSeat_iff, hfree]
    decide
  cases hphase : l.phase with
  | closed => exact absurd hphase (isOpen_iff.1 hopen)
  | gathering =>
      rw [not_and] at hnot
      exact le_antisymm hle (not_lt.1 (hnot hphase))
  | playing game accepting => exact (h.running game accepting hphase).full

/-- Where every seat is taken none is free. -/
theorem Sound.no_free_seat_of_full {l : Lobby} (h : l.Sound)
    (hfull : l.members.length = l.capacity) : l.hasFreeSeat = false := by
  rw [← Bool.not_eq_true, h.hasFreeSeat_iff, hfull]
  exact fun hlt => lt_irrefl _ hlt.2

/-- As long as everybody stays in place no seat becomes free. -/
theorem Sound.no_free_seat_of_lineup {l l' : Lobby} (h : l.Sound) (h' : l'.Sound)
    (hopen : l.isOpen = true) (hlineup : l'.lineup = l.lineup) (hfree : l.hasFreeSeat = false) :
    l'.hasFreeSeat = false := by
  apply h'.no_free_seat_of_full
  rw [length_members_of_lineup_eq hlineup, capacity_of_lineup_eq hlineup]
  exact h.full_of_no_free_seat hopen hfree

end Lobby

namespace Hall

/-! ## Filling up -/

/-- Filling up a lobby changes no other one. -/
theorem getElem?_seatFrom_of_ne {n m : Nat} (hm : m ≠ n) (h : Hall) (queue : List Peer) :
    (seatFrom n h queue).1.lobbies[m]? = h.lobbies[m]? := by
  induction queue generalizing h with
  | nil => rfl
  | cons p rest ih =>
      unfold seatFrom
      by_cases hfree : h.hasFreeSeat n = true
      · rw [if_pos hfree]
        by_cases hlistening : p.listening = true
        · rw [if_pos hlistening]
          cases hplace : h.place n p with
          | none => rfl
          | some r =>
              rcases r with ⟨h', mail⟩
              rcases place_eq_some_iff.1 hplace with ⟨l, player, l', hl, -, rfl⟩
              refine (ih _).trans ?_
              change (h.setLobby n l').lobbies[m]? = _
              rw [getElem?_setLobby hl, if_neg hm]
        · rw [if_neg hlistening]
          exact ih h
      · rw [if_neg hfree]

/-- Filling up a lobby opens no other one. -/
theorem length_lobbies_seatFrom (n : Nat) (h : Hall) (queue : List Peer) :
    (seatFrom n h queue).1.lobbies.length = h.lobbies.length := by
  induction queue generalizing h with
  | nil => rfl
  | cons p rest ih =>
      unfold seatFrom
      by_cases hfree : h.hasFreeSeat n = true
      · rw [if_pos hfree]
        by_cases hlistening : p.listening = true
        · rw [if_pos hlistening]
          cases hplace : h.place n p with
          | none => rfl
          | some r =>
              rcases r with ⟨h', mail⟩
              rcases place_eq_some_iff.1 hplace with ⟨l, player, l', hl, -, rfl⟩
              exact (ih _).trans (List.length_set ..)
        · rw [if_neg hlistening]
          exact ih h
      · rw [if_neg hfree]

/-- A lobby is filled up until the queue is empty or no seat is free. -/
theorem seatFrom_filled (n : Nat) (queue : List Peer) {h : Hall}
    (hs : Sound { h with queue := queue }) (hrest : (seatFrom n h queue).2.1 ≠ []) :
    (seatFrom n h queue).1.hasFreeSeat n = false := by
  induction queue generalizing h with
  | nil => exact absurd rfl hrest
  | cons p rest ih =>
      unfold seatFrom at hrest ⊢
      by_cases hfree : h.hasFreeSeat n = true
      · by_cases hlistening : p.listening = true
        · rw [if_pos hfree, if_pos hlistening] at hrest ⊢
          rcases (Option.any_eq_true _ _).1 hfree with ⟨l, hl, hlobby⟩
          rcases (hs.lodges n l hl).sound.exists_seat hlobby p with ⟨player, l', mail, hseat⟩
          have hplace : h.place n p =
              some ({ h.setLobby n l' with index := h.index.insert p.id n }, mail) :=
            place_eq_some_iff.2 ⟨l, player, l', hl, hseat, rfl⟩
          have hmove : Move .review { h with queue := p :: rest } (sends mail)
              { h.setLobby n l' with index := h.index.insert p.id n, queue := rest } :=
            .promoted rfl hlistening hl hseat
          simp only [hplace] at hrest ⊢
          exact ih (hs.move hmove) hrest
        · rw [if_pos hfree, if_neg hlistening] at hrest ⊢
          exact ih (hs.withQueue (List.sublist_cons_self p rest)) hrest
      · rw [if_neg hfree]
        exact Bool.eq_false_iff.2 hfree

theorem lobbies_reviewQueue (h : Hall) : h.reviewQueue.1.lobbies = h.lobbies := by
  simp only [reviewQueue]
  split
  · rfl
  · split <;> rfl

theorem queue_reviewQueue (h : Hall) :
    h.reviewQueue.1.queue = h.queue.filter fun p => p.listening := by
  simp only [reviewQueue]
  split
  · rfl
  · split <;> rfl

theorem lobbies_backfill (h : Hall) (n : Nat) :
    (h.backfill n).1.lobbies = (seatFrom n h h.queue).1.lobbies := by
  unfold backfill
  simp only
  split <;> rfl

theorem queue_backfill (h : Hall) (n : Nat) :
    (h.backfill n).1.queue = (seatFrom n h h.queue).2.1 := by
  unfold backfill
  simp only
  split <;> rfl

/-! ## Nobody waits in vain -/

/-- No move changes the settings. -/
theorem Move.settings_eq {e : Event} {h h' : Hall} {effects : List Effect}
    (hmove : Move e h effects h') : h'.settings = h.settings := by
  cases hmove <;> rfl

theorem Moves.settings_eq {e : Event} {h h' : Hall} {effects : List Effect}
    (hmoves : Moves e h effects h') : h'.settings = h.settings := by
  induction hmoves with
  | refl => rfl
  | step hmove _ ih => exact ih.trans hmove.settings_eq

/-- Are all lobbies open, and no more than the settings allow? -/
structure Open (h : Hall) : Prop where
  length_le : h.lobbies.length ≤ h.settings.maxLobbies.toNat
  isOpen : ∀ (n : Nat) (l : Lobby), h.lobbies[n]? = some l → l.isOpen = true

theorem Open.setLobby {h : Hall} (ho : h.Open) {n : Nat} {l l' : Lobby}
    (hl : h.lobbies[n]? = some l) (hopen : l'.isOpen = true) : (h.setLobby n l').Open := by
  constructor
  · exact (List.length_set ..).trans_le ho.length_le
  · intro m k hk
    rw [getElem?_setLobby hl] at hk
    split at hk
    · cases hk
      exact hopen
    · exact ho.isOpen m k hk

/-- No move closes a lobby unless the hall is shut. -/
theorem Open.move {e : Event} {h h' : Hall} {effects : List Effect} (ho : h.Open)
    (hmove : Move e h effects h') (hopen : e ≠ .command .shutDown) : h'.Open := by
  have hopen' := fun n l (hl : h.lobbies[n]? = some l) => ho.isOpen n l hl
  cases hmove with
  | opened hroom =>
      constructor
      · change (h.lobbies ++ [_]).length ≤ _
        rw [List.length_append]
        exact hroom
      · intro n l hl
        rcases getElem?_opened.1 hl with hold | ⟨-, rfl⟩
        · exact hopen' n l hold
        · rfl
  | welcomed he hnew hl hseat =>
      have hset := ho.setLobby hl ((Lobby.isOpen_seat hseat).trans (hopen' _ _ hl))
      exact ⟨hset.length_le, hset.isOpen⟩
  | promoted hqueue hlistening hl hseat =>
      have hset := ho.setLobby hl ((Lobby.isOpen_seat hseat).trans (hopen' _ _ hl))
      exact ⟨hset.length_le, hset.isOpen⟩
  | left he hl hleft =>
      have hset := ho.setLobby hl (hleft.isOpen (hopen' _ _ hl))
      exact ⟨hset.length_le, hset.isOpen⟩
  | readied he hl hreadied =>
      have hset := ho.setLobby hl (hreadied.isOpen (hopen' _ _ hl))
      exact ⟨hset.length_le, hset.isOpen⟩
  | turned he hl hturned => exact ho.setLobby hl (hturned.isOpen (hopen' _ _ hl))
  | shut he => exact absurd he hopen
  | hungUp =>
      constructor
      · exact (List.length_map _).trans_le ho.length_le
      · intro n l hl
        rcases getElem?_hangUp.1 hl with ⟨k, hk, rfl⟩
        exact hopen' n k hk
  | _ => exact ⟨ho.length_le, ho.isOpen⟩

theorem Open.moves {e : Event} {h h' : Hall} {effects : List Effect} (ho : h.Open)
    (hmoves : Moves e h effects h') (hopen : e ≠ .command .shutDown) : h'.Open := by
  induction hmoves with
  | refl => exact ho
  | step hmove _ ih => exact ih (ho.move hmove hopen)

/-- Is no seat free, but perhaps in one lobby? -/
def FilledBut (h : Hall) (n : Nat) : Prop :=
  h.lobbies.length = h.settings.maxLobbies.toNat ∧
    ∀ (m : Nat) (l : Lobby), m ≠ n → h.lobbies[m]? = some l → l.hasFreeSeat = false

/-- Have all lobbies been opened, and is no seat free in any of them? -/
def Filled (h : Hall) : Prop :=
  h.lobbies.length = h.settings.maxLobbies.toNat ∧
    ∀ (m : Nat) (l : Lobby), h.lobbies[m]? = some l → l.hasFreeSeat = false

/-- Filling up the lobby that may have free seats leaves none, as long as somebody waits. -/
theorem FilledBut.backfill {h : Hall} (hs : h.Sound) {n : Nat}
    (hfilled : h.queue ≠ [] → h.FilledBut n) (hwait : (h.backfill n).1.queue ≠ []) :
    (h.backfill n).1.Filled := by
  have hbefore : h.queue ≠ [] := by
    intro hempty
    apply hwait
    rw [queue_backfill, hempty]
    rfl
  rcases hfilled hbefore with ⟨hlength, hothers⟩
  have hsettings := (backfill_moves .review h n).settings_eq
  constructor
  · rw [lobbies_backfill, length_lobbies_seatFrom, hlength, hsettings]
  · intro m l hl
    rw [lobbies_backfill] at hl
    by_cases hm : m = n
    · subst hm
      rw [queue_backfill] at hwait
      have hfull := seatFrom_filled m h.queue (h := h) hs hwait
      simpa [hasFreeSeat, hl] using hfull
    · rw [getElem?_seatFrom_of_ne hm] at hl
      exact hothers m l hm hl

theorem Filled.setLobby {h : Hall} (hfilled : h.Filled) {n : Nat} {l : Lobby}
    (hl : h.lobbies[n]? = some l) (l' : Lobby) : (h.setLobby n l').FilledBut n := by
  constructor
  · exact (List.length_set ..).trans hfilled.1
  · intro m k hm hk
    rw [getElem?_setLobby hl, if_neg hm] at hk
    exact hfilled.2 m k hk

/-! ## Newcomers -/

/-- What becomes of a newcomer. -/
inductive Admitted (h : Hall) (id : ConnectionId) : Hall → Mail → Prop
  /-- The newcomer gets a seat in the first lobby with a free one. -/
  | found {n : Nat} {l l' : Lobby} {player : Player} {mail : Mail}
      (hfirst : h.lobbies.findIdx? Lobby.hasFreeSeat = some n) (hl : h.lobbies[n]? = some l)
      (hseat : l.seat (Peer.new id) = some (player, l', mail)) :
      Admitted h id { h.setLobby n l' with index := h.index.insert id n } mail
  /-- No lobby has a free seat, so one more is opened. -/
  | opened {k : Hall} {l' : Lobby} {player : Player} {mail : Mail}
      (hfull : ∀ l ∈ h.lobbies, l.hasFreeSeat = false)
      (hroom : h.lobbies.length < h.settings.maxLobbies.toNat)
      (hk : k = { h with lobbies := h.lobbies ++ [freshLobby h.settings h.lobbies.length] })
      (hseat : (freshLobby h.settings h.lobbies.length).seat (Peer.new id) =
        some (player, l', mail)) :
      Admitted h id
        { k.setLobby h.lobbies.length l' with index := h.index.insert id h.lobbies.length } mail
  /-- There is no free seat, and no room for another lobby. -/
  | queued (hfull : ∀ l ∈ h.lobbies, l.hasFreeSeat = false)
      (hroom : h.settings.maxLobbies.toNat ≤ h.lobbies.length) :
      Admitted h id (h.enqueue (Peer.new id)).1 (h.enqueue (Peer.new id)).2

theorem hasFreeSeat_freshLobby {s : Settings} (hseats : 0 < s.playersPerLobby.toNat) (n : Nat) :
    (freshLobby s n).hasFreeSeat = true := by
  have hlodges := lodges_freshLobby s n
  rw [hlodges.sound.hasFreeSeat_iff, members_freshLobby, hlodges.capacity_eq]
  exact ⟨rfl, hseats⟩

/-- Connecting comes to one of the outcomes of `Admitted`, where lobbies have seats at all. -/
theorem Admitted.of_connect {h : Hall} (hs : h.Sound)
    (hseats : 0 < h.settings.playersPerLobby.toNat) (id : ConnectionId) :
    Admitted h id (h.connect id).1 (h.connect id).2 := by
  unfold connect
  cases hfind : h.lobbies.findIdx? Lobby.hasFreeSeat with
  | some n =>
      rcases getElem?_of_findIdx?_hasFreeSeat hfind with ⟨l, hl, hfree⟩
      rcases exists_place hs hl hfree (Peer.new id) with ⟨h', mail, hplace⟩
      rcases place_eq_some_iff.1 hplace with ⟨l, player, l', hl, hseat, rfl⟩
      simp only [hplace]
      exact .found hfind hl hseat
  | none =>
      have hfull : ∀ l ∈ h.lobbies, l.hasFreeSeat = false := List.findIdx?_eq_none_iff.1 hfind
      simp only
      cases hopen : h.openLobby with
      | none =>
          refine .queued hfull (not_lt.1 fun hroom => ?_)
          rw [openLobby_eq_some_iff.2 ⟨hroom, rfl, rfl⟩] at hopen
          cases hopen
      | some r =>
          rcases r with ⟨k, n⟩
          rcases openLobby_eq_some_iff.1 hopen with ⟨hroom, rfl, hk⟩
          have hfresh : k.lobbies[h.lobbies.length]? =
              some (freshLobby h.settings h.lobbies.length) := by
            rw [hk]
            exact getElem?_opened.2 (Or.inr ⟨rfl, rfl⟩)
          have hsound : k.Sound := by
            rw [hk]
            exact hs.opened
          rcases exists_place hsound hfresh (hasFreeSeat_freshLobby hseats _) (Peer.new id) with
            ⟨h', mail, hplace⟩
          rcases place_eq_some_iff.1 hplace with ⟨l, player, l', hl, hseat, rfl⟩
          rw [hfresh] at hl
          cases hl
          simp only [hplace]
          have hindex : k.index = h.index := by rw [hk]
          rw [hindex]
          exact .opened hfull hroom hk hseat

/-! ## Step by step -/

/-- What an open hall keeps true about its seats: as long as somebody waits none is free. -/
structure Conserves (h : Hall) : Prop where
  isOpen : h.Open
  filled : h.queue ≠ [] → h.Filled

/-- A newcomer waits only where all seats are taken. -/
theorem Conserves.admitted {h h' : Hall} {id : ConnectionId} {mail : Mail} (hc : h.Conserves)
    (hadmitted : Admitted h id h' mail) : h'.queue ≠ [] → h'.Filled := by
  intro hwait
  cases hadmitted with
  | found hfirst hl hseat =>
      rcases getElem?_of_findIdx?_hasFreeSeat hfirst with ⟨l, hl, hfree⟩
      have := (hc.filled hwait).2 _ l hl
      rw [hfree] at this
      cases this
  | opened hfull hroom hk hseat =>
      rw [hk] at hwait
      exact absurd (hc.filled hwait).1 hroom.ne
  | queued hfull hroom =>
      exact ⟨le_antisymm hc.isOpen.length_le hroom, fun m l hl =>
        hfull l (List.mem_of_getElem? hl)⟩

theorem Conserves.disconnected {h h' : Hall} {id : ConnectionId} {effects : List Effect}
    (hs : h.Sound) (hc : h.Conserves) (hdisconnected : Disconnected h id h' effects) :
    h'.queue ≠ [] → h'.Filled := by
  intro hwait
  cases hdisconnected with
  | stranger => exact hc.filled hwait
  | left hl hleft =>
      refine FilledBut.backfill (hs.left hl hleft) (fun hbefore => ?_) hwait
      exact (hc.filled hbefore).setLobby hl _
  | withdrawn hid hqueue =>
      refine hc.filled fun hempty => ?_
      rw [hempty] at hqueue
      simp at hqueue

/-- A lobby without a free seat has none after somebody has said ready. -/
theorem Conserves.readied {h h' : Hall} {id : ConnectionId} {mail : Mail} (hs : h.Sound)
    (hc : h.Conserves) (hreadied : Readied h id h' mail) : h'.queue ≠ [] → h'.Filled := by
  intro hwait
  cases hreadied with
  | unseated => exact hc.filled hwait
  | @seated n l l' d mail hl hreadied =>
      have hfilled := hc.filled hwait
      have hlobby := (hs.lodges n l hl).sound
      refine ⟨(List.length_set ..).trans hfilled.1, fun m k hk => ?_⟩
      change (h.setLobby n l').lobbies[m]? = some k at hk
      rw [getElem?_setLobby hl] at hk
      split at hk
      · cases hk
        exact hlobby.no_free_seat_of_lineup (hlobby.ready hreadied) (hc.isOpen.isOpen n l hl)
          hreadied.lineup_eq (hfilled.2 n l hl)
      · exact hfilled.2 m k hk

theorem Conserves.turned {h h' : Hall} {id : ConnectionId} {column : UInt8}
    {effects : List Effect} (hs : h.Sound) (hc : h.Conserves)
    (hturned : Turned h id column h' effects) : h'.queue ≠ [] → h'.Filled := by
  intro hwait
  cases hturned with
  | unseated => exact hc.filled hwait
  | seated hl hturned =>
      have hmove : Move (.command (.turn id column)) h _ _ := .turned rfl hl hturned
      refine FilledBut.backfill (hs.move hmove) (fun hbefore => ?_) hwait
      exact (hc.filled hbefore).setLobby hl _

/-- While a hall is open, every step keeps it so that nobody waits in vain. -/
theorem Conserves.step {h : Hall} (hs : h.Sound) (hc : h.Conserves)
    (hseats : 0 < h.settings.playersPerLobby.toNat) {e : Event}
    (hnew : ∀ id, e = .command (.connect id) → ¬ h.Holds id) (hopen : e ≠ .command .shutDown) :
    (h.step e).1.Conserves := by
  refine ⟨hc.isOpen.moves (step_moves hs hnew) hopen, ?_⟩
  cases e with
  | command c =>
      cases c with
      | connect id => exact hc.admitted (.of_connect hs hseats id)
      | disconnect id => exact hc.disconnected hs (.of_disconnect hs id)
      | ready id => exact hc.readied hs (.of_ready h id)
      | turn id column => exact hc.turned hs (.of_turn hs id column)
      | shutDown => exact absurd rfl hopen
  | hangUp id =>
      intro hwait
      have hfilled := hc.filled fun hempty => hwait (by simp [Hall.step, Hall.hangUp, hempty])
      refine ⟨(List.length_map _).trans hfilled.1, fun m l hl => ?_⟩
      rcases getElem?_hangUp.1 hl with ⟨k, hk, rfl⟩
      rw [← hfilled.2 m k hk]
      simp [Lobby.hasFreeSeat, Lobby.isFull, Lobby.capacity, Lobby.hangUp, Lobby.updateMember,
        Lobby.isAccepting]
  | review =>
      intro hwait
      change h.reviewQueue.1.queue ≠ [] at hwait
      have hfilled := hc.filled fun hempty => hwait (by rw [queue_reviewQueue, hempty]; rfl)
      have hsettings := (reviewQueue_moves .review h).settings_eq
      change h.reviewQueue.1.Filled
      rw [Filled, lobbies_reviewQueue, hsettings]
      exact hfilled

/-! ## Seats one by one -/

/-- The peer in seat `i` of lobby `n`; nobody sits in a lobby that is not opened yet. -/
def seatAt (h : Hall) (n i : Nat) : Option Peer := (h.lobbies[n]?.bind fun l => l.seats[i]?).join

/-- The free seats that there are or may still be, in the order of lobbies and seats. -/
def freeSeats (h : Hall) : Set (Nat ×ₗ Nat) :=
  { x | (ofLex x).1 < h.settings.maxLobbies.toNat ∧
    (ofLex x).2 < h.settings.playersPerLobby.toNat ∧ h.seatAt (ofLex x).1 (ofLex x).2 = none }

theorem mem_freeSeats {h : Hall} {n i : Nat} :
    toLex (n, i) ∈ h.freeSeats ↔ n < h.settings.maxLobbies.toNat ∧
      i < h.settings.playersPerLobby.toNat ∧ h.seatAt n i = none :=
  Iff.rfl

theorem seatAt_of_lobby {h : Hall} {n : Nat} {l : Lobby} (hl : h.lobbies[n]? = some l) (i : Nat) :
    h.seatAt n i = l.seats[i]?.join := by
  rw [seatAt, hl, Option.bind_some]

theorem seatAt_of_unopened {h : Hall} {n : Nat} (hn : h.lobbies.length ≤ n) (i : Nat) :
    h.seatAt n i = none := by
  rw [seatAt, List.getElem?_eq_none hn]
  rfl

/-- A lobby without a free seat has none to offer. -/
theorem Sound.notMem_freeSeats {h : Hall} (hs : h.Sound) (ho : h.Open) {n : Nat} {l : Lobby}
    (hl : h.lobbies[n]? = some l) (hfree : l.hasFreeSeat = false) (i : Nat) :
    toLex (n, i) ∉ h.freeSeats := by
  rw [mem_freeSeats]
  rintro ⟨-, hi, hnone⟩
  have hlodges := hs.lodges n l hl
  have hfull := hlodges.sound.full_of_no_free_seat (ho.isOpen n l hl) hfree
  rw [← hlodges.capacity_eq] at hi
  rcases Lobby.exists_seat_of_full hfull hi with ⟨p, hp⟩
  rw [seatAt_of_lobby hl, hp] at hnone
  cases hnone

/-- Where no lobby has a free seat the free seats are in lobbies still to be opened. -/
theorem Sound.length_le_of_mem_freeSeats {h : Hall} (hs : h.Sound) (ho : h.Open)
    (hfull : ∀ l ∈ h.lobbies, l.hasFreeSeat = false) {n i : Nat}
    (hmem : toLex (n, i) ∈ h.freeSeats) : h.lobbies.length ≤ n := by
  refine not_lt.1 fun hn => ?_
  have hl := List.getElem?_eq_getElem hn
  exact hs.notMem_freeSeats ho hl (hfull _ (List.getElem_mem hn)) i hmem

/-- Where all lobbies have been opened and none has a free seat, all seats are taken. -/
theorem Sound.freeSeats_eq_empty {h : Hall} (hs : h.Sound) (ho : h.Open)
    (hfull : ∀ l ∈ h.lobbies, l.hasFreeSeat = false)
    (hroom : h.settings.maxLobbies.toNat ≤ h.lobbies.length) : h.freeSeats = ∅ := by
  rw [Set.eq_empty_iff_forall_notMem]
  rintro ⟨n, i⟩ hmem
  have hn := hs.length_le_of_mem_freeSeats ho hfull hmem
  exact absurd hmem.1 (not_lt.2 (hroom.trans hn))

/-- The first free seat of a lobby, and what sits before it. -/
theorem findIdx?_isNone {seats : List (Option Peer)} {i : Nat}
    (hi : seats.findIdx? Option.isNone = some i) :
    i < seats.length ∧ seats[i]?.join = none ∧
      ∀ j, j < i → seats[j]?.join ≠ none := by
  rcases List.findIdx?_eq_some_iff_getElem.1 hi with ⟨hlt, hnone, hbefore⟩
  refine ⟨hlt, ?_, fun j hj => ?_⟩
  · rw [Lobby.getElem?_of_findIdx? hi]
    rfl
  · have hj' := hbefore j hj
    rw [List.getElem?_eq_getElem (hj.trans hlt), Option.join_some]
    simpa using hj'

/-- The first free seat of the first lobby with a free seat is the first one of all. -/
theorem Sound.isLeast_of_found {h : Hall} (hs : h.Sound) (ho : h.Open) {n i : Nat} {l : Lobby}
    (hfirst : h.lobbies.findIdx? Lobby.hasFreeSeat = some n) (hl : h.lobbies[n]? = some l)
    (hi : l.seats.findIdx? Option.isNone = some i) : IsLeast h.freeSeats (toLex (n, i)) := by
  rcases List.findIdx?_eq_some_iff_getElem.1 hfirst with ⟨hn, -, hbefore⟩
  rcases findIdx?_isNone hi with ⟨hlt, hnone, hsit⟩
  constructor
  · refine mem_freeSeats.2 ⟨hn.trans_le ho.length_le, ?_, ?_⟩
    · rw [← (hs.lodges n l hl).capacity_eq]
      exact hlt
    · rw [seatAt_of_lobby hl]
      exact hnone
  · rintro ⟨m, j⟩ hmem
    change toLex (n, i) ≤ toLex (m, j)
    rw [Prod.Lex.toLex_le_toLex]
    rcases lt_trichotomy m n with hm | rfl | hm
    · have hm' := List.getElem?_eq_getElem (hm.trans hn)
      have hfree := Bool.not_eq_true _ ▸ hbefore m hm
      exact absurd hmem (hs.notMem_freeSeats ho hm' hfree j)
    · refine Or.inr ⟨rfl, not_lt.1 fun hj => hsit j hj ?_⟩
      rw [← seatAt_of_lobby hl]
      exact hmem.2.2
    · exact Or.inl hm

/-- The first seat of the next lobby is the first free one where the others have none. -/
theorem Sound.isLeast_of_opened {h : Hall} (hs : h.Sound) (ho : h.Open)
    (hseats : 0 < h.settings.playersPerLobby.toNat)
    (hfull : ∀ l ∈ h.lobbies, l.hasFreeSeat = false)
    (hroom : h.lobbies.length < h.settings.maxLobbies.toNat) :
    IsLeast h.freeSeats (toLex (h.lobbies.length, 0)) := by
  constructor
  · exact mem_freeSeats.2 ⟨hroom, hseats, seatAt_of_unopened le_rfl 0⟩
  · rintro ⟨m, j⟩ hmem
    have hm := hs.length_le_of_mem_freeSeats ho hfull hmem
    change toLex (h.lobbies.length, 0) ≤ toLex (m, j)
    rw [Prod.Lex.toLex_le_toLex]
    rcases hm.lt_or_eq with hlt | heq
    · exact Or.inl hlt
    · exact Or.inr ⟨heq, Nat.zero_le j⟩

/-- When somebody is seated, one seat changes. -/
theorem seatAt_setLobby {h : Hall} {n i : Nat} {l : Lobby} (hl : h.lobbies[n]? = some l)
    (hi : i < l.seats.length) (p : Peer) {l' : Lobby} (hl' : l'.seats = l.seats.set i (some p))
    (m j : Nat) :
    (h.setLobby n l').seatAt m j = if (m, j) = (n, i) then some p else h.seatAt m j := by
  rw [seatAt, getElem?_setLobby hl]
  by_cases hm : m = n
  · subst hm
    rw [if_pos rfl, Option.bind_some, hl', seatAt_of_lobby hl]
    by_cases hj : j = i
    · subst hj
      rw [List.getElem?_set_self hi, if_pos rfl]
      rfl
    · rw [List.getElem?_set_ne (Ne.symm hj), if_neg (by simp [hj])]
  · rw [if_neg hm, if_neg (by simp [hm])]
    rfl

/-- Nobody sits in a fresh lobby. -/
theorem join_seats_freshLobby (s : Settings) (n i : Nat) :
    (freshLobby s n).seats[i]?.join = none := by
  rw [Option.eq_none_iff_forall_ne_some]
  intro p hp
  rw [Option.join_eq_some_iff] at hp
  have hmem := Lobby.mem_of_seat hp
  rw [members_freshLobby] at hmem
  cases hmem

/-- Opening one more lobby fills no seat. -/
theorem seatAt_opened (h : Hall) (n i : Nat) :
    seatAt { h with lobbies := h.lobbies ++ [freshLobby h.settings h.lobbies.length] } n i =
      h.seatAt n i := by
  rcases lt_trichotomy n h.lobbies.length with hlt | rfl | hgt
  · simp only [seatAt, List.getElem?_append_left hlt]
  · rw [seatAt_of_unopened le_rfl, seatAt_of_lobby (getElem?_opened.2 (Or.inr ⟨rfl, rfl⟩))]
    exact join_seats_freshLobby _ _ i
  · rw [seatAt_of_unopened hgt.le, seatAt_of_unopened]
    rw [List.length_append]
    exact hgt

/-! ## First come, first seated -/

/-- What becomes of a newcomer: it gets the first free seat, with the seat's number, or else the
last place in the queue.  Nothing else changes. -/
structure FirstFit (h : Hall) (id : ConnectionId) (h' : Hall) : Prop where
  queued_iff : id ∈ h'.queue.map Peer.id ↔ h.freeSeats = ∅
  queued : h.freeSeats = ∅ →
    h'.queue = h.queue ++ [Peer.new id] ∧ ∀ n i, h'.seatAt n i = h.seatAt n i
  seated : h.freeSeats ≠ ∅ → h'.queue = h.queue ∧ ∃ n i p, IsLeast h.freeSeats (toLex (n, i)) ∧
    p.id = id ∧ p.player.toNat = i + 1 ∧
      ∀ m j, h'.seatAt m j = if (m, j) = (n, i) then some p else h.seatAt m j

/-- The peer that a newcomer becomes in a seat bears the number of the seat. -/
theorem exists_newcomer {l l' : Lobby} {id : ConnectionId} {player : Player} {mail : Mail}
    (hsound : l.Sound) (hseat : l.seat (Peer.new id) = some (player, l', mail)) :
    ∃ i p, l.seats.findIdx? Option.isNone = some i ∧ l'.seats = l.seats.set i (some p) ∧
      p.id = id ∧ p.player.toNat = i + 1 := by
  rcases Lobby.seat_eq_some_iff.1 hseat with ⟨-, i, hi, rfl, rfl, -⟩
  have hlt := (findIdx?_isNone hi).1
  refine ⟨i, _, hi, rfl, Lobby.assign_id _ _, ?_⟩
  rw [Lobby.assign_of_nobody rfl]
  exact hsound.toNat_seat hlt

/-- A newcomer in the first free seat is where it should be. -/
theorem FirstFit.of_seat {h h' k : Hall} {id : ConnectionId} {n i : Nat} {l l' : Lobby} {p : Peer}
    (hnew : ¬ h.Holds id) (hleast : IsLeast h.freeSeats (toLex (n, i)))
    (hl : k.lobbies[n]? = some l) (hsame : ∀ m j, k.seatAt m j = h.seatAt m j)
    (hi : l.seats.findIdx? Option.isNone = some i) (hl' : l'.seats = l.seats.set i (some p))
    (hid : p.id = id) (hplayer : p.player.toNat = i + 1) (hqueue : h'.queue = h.queue)
    (hlobbies : h'.lobbies = (k.setLobby n l').lobbies) : FirstFit h id h' := by
  have hne : h.freeSeats ≠ ∅ := Set.nonempty_iff_ne_empty.1 ⟨_, hleast.1⟩
  constructor
  · rw [hqueue]
    exact iff_of_false (not_or.1 hnew).2 hne
  · exact fun hempty => absurd hempty hne
  · refine fun _ => ⟨hqueue, n, i, p, hleast, hid, hplayer, fun m j => ?_⟩
    rw [← hsame, ← seatAt_setLobby hl (findIdx?_isNone hi).1 p hl', seatAt, hlobbies]
    rfl

/-- Every newcomer gets the first free seat, or else the last place in the queue. -/
theorem Conserves.firstFit {h h' : Hall} {id : ConnectionId} {mail : Mail} (hs : h.Sound)
    (hc : h.Conserves) (hseats : 0 < h.settings.playersPerLobby.toNat) (hnew : ¬ h.Holds id)
    (hadmitted : Admitted h id h' mail) : FirstFit h id h' := by
  have ho := hc.isOpen
  cases hadmitted with
  | @found n l l' player mail hfirst hl hseat =>
      rcases exists_newcomer (hs.lodges n l hl).sound hseat with ⟨i, p, hi, hl', hid, hplayer⟩
      exact .of_seat hnew (hs.isLeast_of_found ho hfirst hl hi) hl (fun _ _ => rfl) hi hl' hid
        hplayer rfl rfl
  | @opened k l' player mail hfull hroom hk hseat =>
      have hsound := (lodges_freshLobby h.settings h.lobbies.length).sound
      rcases exists_newcomer hsound hseat with ⟨i, p, hi, hl', hid, hplayer⟩
      have hfresh : k.lobbies[h.lobbies.length]? =
          some (freshLobby h.settings h.lobbies.length) := by
        rw [hk]
        exact getElem?_opened.2 (Or.inr ⟨rfl, rfl⟩)
      -- the first seat of a fresh lobby is free
      obtain rfl : i = 0 := by
        refine Nat.eq_zero_of_not_pos fun hpos => (findIdx?_isNone hi).2.2 0 hpos ?_
        exact join_seats_freshLobby _ _ 0
      refine .of_seat hnew (hs.isLeast_of_opened ho hseats hfull hroom) hfresh ?_ hi hl' hid
        hplayer ?_ rfl
      · rw [hk]
        exact seatAt_opened h
      · rw [hk]
        rfl
  | queued hfull hroom =>
      have hempty := hs.freeSeats_eq_empty ho hfull hroom
      refine ⟨iff_of_true ?_ hempty, fun _ => ⟨rfl, fun _ _ => rfl⟩, fun hne => absurd hempty hne⟩
      rw [queue_enqueue, List.map_append]
      exact List.mem_append_right _ (List.mem_singleton_self id)

/-! ## Runs -/

/-- Settings that pass their check give every lobby a seat. -/
theorem seats_of_check {s : Settings} (hs : s.check = .ok ()) : 0 < s.playersPerLobby.toNat := by
  unfold Settings.check at hs
  split at hs
  · cases hs
  · split at hs
    · cases hs
    · next hmany =>
        have := UInt8.le_iff_toNat_le.1 (UInt8.not_lt.1 hmany)
        exact lt_of_lt_of_le (by decide) this

theorem settings_run (s : Settings) (d : Draws) {es : List Event} (hfresh : (arrivals es).Nodup) :
    ((Hall.new s d).run es).1.settings = s := by
  induction es using List.reverseRecOn with
  | nil => rfl
  | append_singleton es e ih =>
      rw [run_concat]
      exact (run_moves s d hfresh).settings_eq.trans (ih (nodup_arrivals_of_concat hfresh))

/-- Nobody waits in vain in any run until the hall is shut, where lobbies have seats at all. -/
theorem conserves_run_of_seats {s : Settings} (hseats : 0 < s.playersPerLobby.toNat) (d : Draws)
    {es : List Event} (hfresh : (arrivals es).Nodup) (hopen : .command .shutDown ∉ es) :
    ((Hall.new s d).run es).1.Conserves := by
  induction es using List.reverseRecOn with
  | nil =>
      refine ⟨⟨Nat.zero_le _, fun n l hl => ?_⟩, fun hwait => absurd rfl hwait⟩
      cases hl
  | append_singleton es e ih =>
      have hbefore := nodup_arrivals_of_concat hfresh
      rw [← settings_run s d hbefore] at hseats
      rw [run_concat]
      refine (ih hbefore fun hmem => hopen (List.mem_append_left _ hmem)).step
        (sound_run s d hbefore) hseats (fun id he => not_holds_of_connect hfresh he) ?_
      rintro rfl
      exact hopen (by simp)

/-- Settings that pass their check have seats. -/
theorem conserves_run {s : Settings} (hs : s.check = .ok ()) (d : Draws) {es : List Event}
    (hfresh : (arrivals es).Nodup) (hopen : .command .shutDown ∉ es) :
    ((Hall.new s d).run es).1.Conserves :=
  conserves_run_of_seats (seats_of_check hs) d hfresh hopen

/-- In every run in which no connection is made twice, until the hall is shut: as long as somebody
waits all lobbies have been opened and all their seats are taken.  A newcomer queues up exactly if
all seats are taken, at the end of the queue, and otherwise gets the first free seat, lobby by lobby
and seat by seat, together with the number of the seat. -/
theorem admission {s : Settings} (hs : s.check = .ok ()) (d : Draws) (es : List Event)
    (hfresh : (arrivals es).Nodup) (hopen : .command .shutDown ∉ es) :
    let h := ((Hall.new s d).run es).1
    (h.queue ≠ [] → h.lobbies.length = s.maxLobbies.toNat ∧
      ∀ n i, n < s.maxLobbies.toNat → i < s.playersPerLobby.toNat → (h.seatAt n i).isSome) ∧
    h.settings = s ∧
    ∀ id, id ∉ arrivals es → FirstFit h id (h.step (.command (.connect id))).1 := by
  intro h
  have hsound : h.Sound := sound_run s d hfresh
  have hc : h.Conserves := conserves_run hs d hfresh hopen
  have hsettings : h.settings = s := settings_run s d hfresh
  refine ⟨fun hwait => ?_, hsettings, fun id hid => ?_⟩
  · rcases hc.filled hwait with ⟨hlength, hfull⟩
    have hall : ∀ l ∈ h.lobbies, l.hasFreeSeat = false := by
      intro l hl
      rcases List.getElem?_of_mem hl with ⟨n, hn⟩
      exact hfull n l hn
    have hempty := hsound.freeSeats_eq_empty hc.isOpen hall hlength.ge
    rw [hsettings] at hlength
    refine ⟨hlength, fun n i hn hi => ?_⟩
    rw [Option.isSome_iff_ne_none]
    intro hnone
    have hmem : toLex (n, i) ∈ h.freeSeats := by
      rw [mem_freeSeats, hsettings]
      exact ⟨hn, hi, hnone⟩
    rw [hempty] at hmem
    exact hmem
  · have hseats : 0 < h.settings.playersPerLobby.toNat := by
      rw [hsettings]
      exact seats_of_check hs
    have hnew : ¬ h.Holds id := fun hheld => hid (mem_arrivals_of_holds hfresh hheld)
    exact hc.firstFit hsound hseats hnew (.of_connect hsound hseats id)

/-- In a hall with a single lobby for two, the third connection waits, and the fourth one has to
wait behind it. -/
theorem admission_of_full :
    let s : Settings := { Settings.default with maxLobbies := 1 }
    let es : List Event :=
      [.command (.connect ⟨1⟩), .command (.connect ⟨2⟩), .command (.connect ⟨3⟩)]
    let h := ((Hall.new s []).run es).1
    s.check = .ok () ∧ (arrivals es).Nodup ∧ .command .shutDown ∉ es ∧
      h.queue = [Peer.new ⟨3⟩] ∧ h.lobbies.length = 1 ∧ (h.seatAt 0 1).isSome ∧
        FirstFit h ⟨4⟩ (h.step (.command (.connect ⟨4⟩))).1 := by
  intro s es h
  have hs : s.check = .ok () := by decide
  have hfresh : (arrivals es).Nodup := by decide
  have hopen : .command .shutDown ∉ es := by decide
  have hqueue : h.queue = [Peer.new ⟨3⟩] := by decide +kernel
  rcases admission hs [] es hfresh hopen with ⟨hwait, -, hnewcomer⟩
  rcases hwait (by rw [hqueue]; exact List.cons_ne_nil _ _) with ⟨hlength, htaken⟩
  exact ⟨hs, hfresh, hopen, hqueue, hlength, htaken 0 1 (by decide) (by decide),
    hnewcomer ⟨4⟩ (by decide)⟩

end Hall

end FourInRow
