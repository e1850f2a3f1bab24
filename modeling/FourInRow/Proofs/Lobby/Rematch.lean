import FourInRow.Proofs.Lobby.Readiness

/-!
# Matches leave nothing behind

What a match changes in a lobby is taken back by hand when it ends: the phase, the tally of those
who are ready, and their flags.  Saying ready and taking turns change nothing else, however often it
is done and by whomever, so that a match that has been played to its end might never have been.

`Lobby.cleared` forgets what a match may change.  Every call keeps what is left, and the call that
ends a match leaves just that.

Main results:

- Theorem `called_step`: what a single call may change, and what the members hear of it.
- Theorem `PlayedOut.of_playsOut`: what has changed when a match has been played to its end.
- Theorem `restored_of_playsOut`: it is as if there had been no match.
-/

namespace FourInRow

/-! ## Beginnings and ends -/

/-- What is told about the beginning and the end of matches, among some messages. -/
def Message.brackets (ms : List Message) : List Wire.Kind :=
  (ms.map Message.kind).filter fun kind => kind = .gameStart ∨ kind = .gameEnd

namespace Message

theorem brackets_append (ms ms' : List Message) :
    brackets (ms ++ ms') = brackets ms ++ brackets ms' := by
  rw [brackets, List.map_append, List.filter_append]
  rfl

theorem brackets_hears (p : Peer) (ms : List Message) :
    brackets (p.hears ms) = if p.listening = true then brackets ms else [] := by
  unfold Peer.hears
  split <;> rfl

/-- A request belongs to neither. -/
theorem brackets_gameStart_request (players columns rows : UInt8) (first : Player) (p : Peer) :
    brackets (.gameStart players columns rows first :: p.request first) = [.gameStart] := by
  unfold Peer.request
  split <;> rfl

end Message

/-- Mail about other things tells nobody of a beginning or an end. -/
theorem Mail.OfKinds.brackets_eq_nil {kinds : List Wire.Kind} {mail : Mail}
    (h : mail.OfKinds kinds) (hstart : .gameStart ∉ kinds) (hend : .gameEnd ∉ kinds)
    (id : ConnectionId) : Message.brackets (mail.messagesTo id) = [] := by
  refine List.filter_eq_nil_iff.2 fun kind hkind => ?_
  rcases List.mem_map.1 hkind with ⟨m, hm, rfl⟩
  simpa using And.intro (h.kind_ne hstart hm) (h.kind_ne hend hm)

namespace Lobby

/-- What is to be told where a match runs afterwards or not, and did before or did not. -/
def bracket : Bool → Bool → List Wire.Kind
  | false, true => [.gameStart]
  | true, false => [.gameEnd]
  | _, _ => []

theorem bracket_self (playing : Bool) : bracket playing playing = [] := by
  cases playing <;> rfl

/-- Whoever listens hears of a match exactly when it begins. -/
theorem Readied.brackets {l l' : Lobby} {d d' : Draws} {id : ConnectionId} {mail : Mail}
    (h : l.Sound) (hr : Readied l d id l' d' mail) {p : Peer} (hp : p ∈ l.members) :
    Message.brackets (mail.messagesTo p.id) =
      if p.listening = true then bracket l.isPlaying l'.isPlaying else [] := by
  cases hr with
  | ignored =>
      rw [bracket_self, ite_self]
      rfl
  | noted hidle =>
      have hsame : (l.noteReady id).isPlaying = l.isPlaying := rfl
      rw [hsame, bracket_self, ite_self]
      rfl
  | unplayable hidle =>
      have hsame : (l.noteReady id).isPlaying = l.isPlaying := rfl
      rw [hsame, bracket_self, ite_self]
      rfl
  | begun hidle hq hready =>
      have hnodup := (h.noteReady hidle hq hready).nodup
      rcases exists_noted id hp with ⟨q, hq, hid, -, hlistening, -⟩
      rw [hidle, ← hid, messagesTo_openingMail hnodup _ _ hq, Message.brackets_hears,
        Message.brackets_gameStart_request, hlistening]
      rfl

/-- Whoever listens hears of the end of a match exactly when it ends. -/
theorem Turned.brackets {l l' : Lobby} {id : ConnectionId} {column : UInt8} {mail : Mail}
    (h : l.Sound) (ht : Turned l id column l' mail) {p : Peer} (hp : p ∈ l.members) :
    Message.brackets (mail.messagesTo p.id) =
      if p.listening = true then bracket l.isPlaying l'.isPlaying else [] := by
  -- what is said about a turn is about no beginning and no end
  have hturn : ∀ (k : Lobby) (player : Player) (result : TurnResult),
      Message.brackets ((k.announceTurn player column result).messagesTo p.id) = [] :=
    fun k player result =>
      (ofKinds_announceTurn k player column result).brackets_eq_nil (by decide) (by decide) p.id
  cases ht with
  | stranger =>
      rw [bracket_self, ite_self]
      rfl
  | idle => rw [hturn, bracket_self, ite_self]
  | rejected => rw [hturn, bracket_self, ite_self]
  | @moved _ game game' accepting _ hphase =>
      have hplaying : l.isPlaying = true := isPlaying_iff.2 ⟨game, accepting, hphase⟩
      have hrequest := (ofKinds_requestTurn l game'.current).brackets_eq_nil (by decide) (by decide)
      rw [Mail.messagesTo_append, Message.brackets_append, hturn, hrequest, hplaying]
      exact (ite_self _).symm
  | @finished _ game game' accepting _ hphase =>
      have hplaying : l.isPlaying = true := isPlaying_iff.2 ⟨game, accepting, hphase⟩
      rw [Mail.messagesTo_append, Message.brackets_append, hturn, messagesTo_matchEnd h.nodup _ hp,
        Message.brackets_hears, hplaying]
      rfl

/-! ## What a match may change -/

/-- A lobby without what a match may change: it gathers, and nobody is ready. -/
def cleared (l : Lobby) : Lobby :=
  { l with
    phase := .gathering
    readied := 0
    seats := l.lineup }

/-- A match that ends leaves just that, whoever has won. -/
theorem endMatch_eq_cleared (l : Lobby) (winner : Player) : (l.endMatch winner).1 = l.cleared := rfl

/-- Nothing else is changed where everybody remains in place. -/
theorem cleared_eq_of_lineup_eq {l l' : Lobby} (h : l.Sound) (h' : l'.Sound) (hfixed : l.Fixed l')
    (hlineup : l'.lineup = l.lineup) : l'.cleared = l.cleared := by
  have hplayers : l'.players = l.players := by
    rw [h'.players_eq, h.players_eq, length_members_of_lineup_eq hlineup]
  simp only [cleared, hlineup, hplayers, hfixed.number_eq, hfixed.columns_eq, hfixed.rows_eq]

/-- Nothing is to be cleared where nobody is ready and no match runs. -/
theorem Sound.cleared_eq_self {l : Lobby} (h : l.Sound) (hphase : l.phase = .gathering)
    (hready : ∀ p ∈ l.members, p.ready = false) : l.cleared = l := by
  have hlineup : l.lineup = l.seats := map_seats_eq_self fun p hp => by rw [← hready p hp]
  have hreadied : l.readied = 0 := by
    rw [h.readied_eq]
    exact List.countP_eq_zero.2 fun p hp => by simp [hready p hp]
  rw [cleared, hlineup, ← hphase, ← hreadied]

/-- A turn that ends a match leaves nothing of it. -/
theorem Turned.eq_cleared {l l' : Lobby} {id : ConnectionId} {column : UInt8} {mail : Mail}
    (ht : Turned l id column l' mail) (hplaying : l.isPlaying = true)
    (hidle : l'.isPlaying = false) : l' = l.cleared := by
  cases ht with
  | finished => exact l.endMatch_eq_cleared _
  | moved => cases hidle
  | _ => exact absurd (hidle.symm.trans hplaying) Bool.false_ne_true

/-- No turn makes a match begin. -/
theorem Turned.isPlaying_before {l l' : Lobby} {id : ConnectionId} {column : UInt8}
    {mail : Mail} (ht : Turned l id column l' mail) (hplaying : l'.isPlaying = true) :
    l.isPlaying = true := by
  cases ht with
  | moved _ hphase => exact isPlaying_iff.2 ⟨_, _, hphase⟩
  | finished _ hphase => exact isPlaying_iff.2 ⟨_, _, hphase⟩
  | _ => exact hplaying

/-- Saying ready ends no match. -/
theorem Readied.isPlaying_after {l l' : Lobby} {d d' : Draws} {id : ConnectionId}
    {mail : Mail} (hr : Readied l d id l' d' mail) (hplaying : l.isPlaying = true) :
    l'.isPlaying = true := by
  cases hr with
  | begun => rfl
  | _ => exact hplaying

/-- On a playable board a choice is used up exactly when a match begins. -/
theorem Readied.draws_eq {l l' : Lobby} {d d' : Draws} {id : ConnectionId} {mail : Mail}
    (hr : Readied l d id l' d' mail)
    (hboard : ∃ size, Board.Size.check l.columns l.rows = .ok size) :
    d' = if l.isPlaying = false ∧ l'.isPlaying = true then d.tail else d := by
  cases hr with
  | ignored =>
      rw [if_neg]
      rintro ⟨hidle, hplaying⟩
      exact absurd (hidle.symm.trans hplaying) Bool.false_ne_true
  | noted hidle =>
      rw [if_neg]
      rintro ⟨-, hplaying⟩
      exact absurd (hidle.symm.trans hplaying) Bool.false_ne_true
  | unplayable _ _ _ _ _ hsize =>
      rcases hboard with ⟨size, hok⟩
      rw [hsize] at hok
      cases hok
  | begun hidle =>
      rw [if_pos ⟨hidle, rfl⟩]
      exact Draws.choose_snd _ _

end Lobby

namespace Foyer

/-! ## Call by call -/

/-- Does an event belong to a match?  Members say that they are ready, and take turns. -/
def Event.isCall : Event → Bool
  | .ready _ | .turn _ _ => true
  | _ => false

/-- What a call may change, and what is heard of it. -/
structure Called (f f' : Foyer) (mail : Mail) : Prop where
  sound : f'.lobby.Sound
  fixed : f.lobby.Fixed f'.lobby
  lineup_eq : f'.lobby.lineup = f.lobby.lineup
  outside_eq : f'.outside = f.outside
  /-- A match begins on a playable board only. -/
  begun : f.lobby.isPlaying = false → f'.lobby.isPlaying = true →
    ∃ size, Board.Size.check f.lobby.columns f.lobby.rows = .ok size
  /-- A match that ends leaves nothing. -/
  ended : f.lobby.isPlaying = true → f'.lobby.isPlaying = false → f'.lobby = f.lobby.cleared
  draws_eq : (∃ size, Board.Size.check f.lobby.columns f.lobby.rows = .ok size) →
    f'.draws =
      if f.lobby.isPlaying = false ∧ f'.lobby.isPlaying = true then f.draws.tail else f.draws
  draws_of_playing : f.lobby.isPlaying = true → f'.draws = f.draws
  brackets : ∀ p ∈ f.lobby.members, Message.brackets (mail.messagesTo p.id) =
    if p.listening = true then Lobby.bracket f.lobby.isPlaying f'.lobby.isPlaying else []

theorem called_ready {f : Foyer} (h : f.lobby.Sound) (id : ConnectionId) :
    f.Called (f.step (.ready id)).1 (f.step (.ready id)).2.2 := by
  rcases kept_step h (.ready id) with ⟨hsound, hfixed⟩
  have hreadied : Lobby.Readied f.lobby f.draws id (f.step (.ready id)).1.lobby
      (f.step (.ready id)).1.draws (f.step (.ready id)).2.2 := .of_ready f.lobby f.draws id
  refine {
    sound := hsound
    fixed := hfixed
    lineup_eq := hreadied.lineup_eq
    outside_eq := rfl
    begun := fun hidle hplaying => ((hreadied.begins_iff h).1 ⟨hidle, hplaying⟩).2.2
    ended := fun hplaying hidle => ?_
    draws_eq := hreadied.draws_eq
    draws_of_playing := fun hplaying => ?_
    brackets := fun p hp => hreadied.brackets h hp }
  · have hsame := hreadied.isPlaying_after hplaying
    exact absurd (hidle.symm.trans hsame) Bool.false_ne_true
  · simp [step, Lobby.ready, hplaying]

theorem called_turn {f : Foyer} (h : f.lobby.Sound) (id : ConnectionId) (column : UInt8) :
    f.Called (f.step (.turn id column)).1 (f.step (.turn id column)).2.2 := by
  rcases kept_step h (.turn id column) with ⟨hsound, hfixed⟩
  have hturned : Lobby.Turned f.lobby id column (f.step (.turn id column)).1.lobby
      (f.step (.turn id column)).2.2 := .of_turn h id column
  have hnone : ¬ (f.lobby.isPlaying = false ∧
      (f.step (.turn id column)).1.lobby.isPlaying = true) := by
    rintro ⟨hidle, hplaying⟩
    exact absurd (hidle.symm.trans (hturned.isPlaying_before hplaying)) Bool.false_ne_true
  exact {
    sound := hsound
    fixed := hfixed
    lineup_eq := hturned.lineup_eq
    outside_eq := rfl
    begun := fun hidle hplaying => absurd ⟨hidle, hplaying⟩ hnone
    ended := hturned.eq_cleared
    draws_eq := fun _ => (if_neg hnone).symm
    draws_of_playing := fun _ => rfl
    brackets := fun p hp => hturned.brackets h hp }

/-- What a single call may change, and what the members hear of it. -/
theorem called_step {f : Foyer} (h : f.lobby.Sound) {e : Event} (he : e.isCall = true) :
    f.Called (f.step e).1 (f.step e).2.2 := by
  cases e with
  | ready id => exact called_ready h id
  | turn id column => exact called_turn h id column
  | _ => cases he

/-! ## A match from beginning to end -/

/-- Are these calls up to the end of a match?  The last of them ends the match that is running or
the first one that they begin. -/
def playsOut (f : Foyer) : List Event → Bool
  | [] => false
  | e :: es =>
    let f' := (f.step e).1
    e.isCall &&
      if f.lobby.isPlaying && !f'.lobby.isPlaying then es.isEmpty else f'.playsOut es

/-- What is to be told until a match ends, whether it has begun or not. -/
def bout (playing : Bool) : List Wire.Kind :=
  if playing then [.gameEnd] else [.gameStart, .gameEnd]

/-- As long as a match goes on, or has not begun, its end is still to be told. -/
theorem bracket_append_bout {playing playing' : Bool}
    (h : playing = true → playing' = true) :
    Lobby.bracket playing playing' ++ bout playing' = bout playing := by
  cases playing with
  | true =>
      rw [h rfl]
      rfl
  | false => cases playing' <;> rfl

/-- A foyer when a match has been played to its end, which has begun already or has not: nothing of
it is left but the choice of the first player, and everybody who listens has heard of it. -/
structure PlayedOut (f f' : Foyer) (mail : Mail) : Prop where
  lobby_eq : f'.lobby = f.lobby.cleared
  outside_eq : f'.outside = f.outside
  playable : f.lobby.isPlaying = false →
    ∃ size, Board.Size.check f.lobby.columns f.lobby.rows = .ok size
  draws_eq : f'.draws = if f.lobby.isPlaying then f.draws else f.draws.tail
  brackets : ∀ p ∈ f.lobby.members, Message.brackets (mail.messagesTo p.id) =
    if p.listening = true then bout f.lobby.isPlaying else []

/-- The call that ends a match plays it out. -/
theorem Called.playedOut {f f' : Foyer} {mail : Mail} (hc : f.Called f' mail)
    (hplaying : f.lobby.isPlaying = true) (hidle : f'.lobby.isPlaying = false) :
    f.PlayedOut f' mail where
  lobby_eq := hc.ended hplaying hidle
  outside_eq := hc.outside_eq
  playable h := absurd (h.symm.trans hplaying) Bool.false_ne_true
  draws_eq := by rw [hc.draws_of_playing hplaying, if_pos hplaying]
  brackets p hp := by
    rw [hc.brackets p hp, hplaying, hidle]
    rfl

/-- A call before that leaves the match to be played out. -/
theorem PlayedOut.after {f f' f'' : Foyer} {mail mail' : Mail} (hp : f'.PlayedOut f'' mail')
    (h : f.lobby.Sound) (hc : f.Called f' mail)
    (hgoing : f.lobby.isPlaying = true → f'.lobby.isPlaying = true) :
    f.PlayedOut f'' (mail ++ mail') := by
  have hboard : f.lobby.isPlaying = false →
      ∃ size, Board.Size.check f.lobby.columns f.lobby.rows = .ok size := by
    intro hidle
    cases hplaying : f'.lobby.isPlaying with
    | true => exact hc.begun hidle hplaying
    | false =>
        rw [← hc.fixed.columns_eq, ← hc.fixed.rows_eq]
        exact hp.playable hplaying
  refine ⟨?_, hp.outside_eq.trans hc.outside_eq, hboard, ?_, fun p hmem => ?_⟩
  · rw [hp.lobby_eq, Lobby.cleared_eq_of_lineup_eq h hc.sound hc.fixed hc.lineup_eq]
  · rw [hp.draws_eq]
    cases hplaying : f.lobby.isPlaying with
    | true =>
        rw [if_pos (hgoing hplaying), if_pos rfl]
        exact hc.draws_of_playing hplaying
    | false =>
        -- the choice is used up by the call that makes the match begin, be it this one or not
        rw [hc.draws_eq (hboard hplaying), hplaying]
        cases f'.lobby.isPlaying <;> rfl
  · rcases Lobby.mem_of_lineup_eq hc.lineup_eq.symm hmem with ⟨q, hq, hid, -, hlistening⟩
    have hrest := hp.brackets q hq
    rw [hid, hlistening] at hrest
    rw [Mail.messagesTo_append, Message.brackets_append, hc.brackets p hmem, hrest]
    split
    · exact bracket_append_bout hgoing
    · rfl

/-- What has changed when a match has been played to its end. -/
theorem PlayedOut.of_playsOut {f : Foyer} (h : f.lobby.Sound) {es : List Event}
    (hes : f.playsOut es = true) : f.PlayedOut (f.run es).1 (f.run es).2 := by
  induction es generalizing f with
  | nil => cases hes
  | cons e es ih =>
      rw [playsOut, Bool.and_eq_true] at hes
      rcases hes with ⟨hcall, hrest⟩
      have hc := called_step h hcall
      by_cases hends : f.lobby.isPlaying = true ∧ (f.step e).1.lobby.isPlaying = false
      · rw [if_pos (by simpa using hends), List.isEmpty_iff] at hrest
        subst hrest
        have hplayed := hc.playedOut hends.1 hends.2
        rw [← List.append_nil (f.step e).2.2] at hplayed
        exact hplayed
      · rw [if_neg (by simpa using hends)] at hrest
        refine (ih hc.sound hrest).after h hc fun hplaying => ?_
        by_contra hidle
        exact hends ⟨hplaying, Bool.eq_false_iff.2 hidle⟩

/-- A lobby that is open and in which no match runs gathers players. -/
theorem phase_of_open {l : Lobby} (hopen : l.isOpen = true) (hidle : l.isPlaying = false) :
    l.phase = .gathering := by
  cases hphase : l.phase with
  | closed => simp [Lobby.isOpen, hphase] at hopen
  | gathering => rfl
  | playing game accepting => exact absurd hphase (Lobby.phase_ne_of_idle hidle game accepting)

/-- Whatever has happened to a lobby of any size and for any board: if it is open, no match runs
and nobody is ready, then a match that is played to its end leaves nothing behind.  Whoever called,
and whatever turns were refused before the last one, the lobby is what it was before, the one choice
of the first player is used up, and every member who listens has been told of one beginning and of
one end.  Whatever happens then, given the same choices, happens as if there had been no match. -/
theorem restored_of_playsOut (number : Nat) (capacity columns rows : UInt8) (outside : List Peer)
    (draws : Draws) (past es : List Event) :
    let f := ((⟨Lobby.new number capacity columns rows, outside, draws⟩ : Foyer).run past).1
    let f' := (f.run es).1
    let mail := (f.run es).2
    f.lobby.isOpen = true → f.lobby.isPlaying = false →
      (∀ p ∈ f.lobby.members, p.ready = false) → f.playsOut es = true →
      f' = { f with draws := f.draws.tail } ∧
        (∀ p ∈ f.lobby.members, Message.brackets (mail.messagesTo p.id) =
          if p.listening = true then [.gameStart, .gameEnd] else []) ∧
        ∀ (draws' : Draws) (more : List Event),
          { f' with draws := draws' }.run more = { f with draws := draws' }.run more := by
  intro f f' mail hopen hidle hready hes
  have hsound : f.lobby.Sound :=
    (kept_run_new number capacity columns rows outside draws past).1
  have hplayed : f.PlayedOut f' mail := .of_playsOut hsound hes
  have hlobby : f'.lobby = f.lobby :=
    hplayed.lobby_eq.trans (hsound.cleared_eq_self (phase_of_open hopen hidle) hready)
  have hdraws : f'.draws = f.draws.tail := by
    rw [hplayed.draws_eq, hidle]
    rfl
  refine ⟨?_, fun p hp => ?_, fun draws' more => ?_⟩
  · rw [← hlobby, ← hplayed.outside_eq, ← hdraws]
  · rw [hplayed.brackets p hp, hidle]
    rfl
  · rw [hlobby, hplayed.outside_eq]

/-- Two members say that they are ready, in between a stranger does, one tries a turn too early, one
says so twice and one takes a turn of the other's; the first one wins with four in a column. -/
theorem restored_of_column :
    let f := ((new 2 5 4 [0, 1]).run [.openDoors, .enter ⟨1⟩, .enter ⟨2⟩]).1
    let r := f.run [.ready ⟨1⟩, .ready ⟨9⟩, .turn ⟨1⟩ 0, .ready ⟨2⟩, .ready ⟨2⟩, .turn ⟨1⟩ 0,
      .turn ⟨1⟩ 0, .turn ⟨2⟩ 1, .turn ⟨1⟩ 0, .turn ⟨2⟩ 1, .turn ⟨9⟩ 1, .turn ⟨1⟩ 0, .turn ⟨2⟩ 1,
      .turn ⟨1⟩ 0]
    r.1 = { f with draws := f.draws.tail } ∧
      (∀ p ∈ f.lobby.members, p.listening = true →
        Message.brackets (r.2.messagesTo p.id) = [.gameStart, .gameEnd]) ∧
      (⟨2⟩, .gameEnd 1) ∈ r.2 := by
  intro f r
  have hready : ∀ p ∈ f.lobby.members, p.ready = false := by decide +kernel
  have hrestored := restored_of_playsOut 0 2 5 4 [] [0, 1] [.openDoors, .enter ⟨1⟩, .enter ⟨2⟩]
    [.ready ⟨1⟩, .ready ⟨9⟩, .turn ⟨1⟩ 0, .ready ⟨2⟩, .ready ⟨2⟩, .turn ⟨1⟩ 0, .turn ⟨1⟩ 0,
      .turn ⟨2⟩ 1, .turn ⟨1⟩ 0, .turn ⟨2⟩ 1, .turn ⟨9⟩ 1, .turn ⟨1⟩ 0, .turn ⟨2⟩ 1, .turn ⟨1⟩ 0]
    rfl rfl hready (by decide +kernel)
  exact ⟨hrestored.1, fun p hp hlistening => (hrestored.2.1 p hp).trans (if_pos hlistening),
    by decide +kernel⟩

end Foyer

end FourInRow
