import Mathlib.Computability.Language
import FourInRow.Proofs.Lobby.Prompt

/-!
# What a connection hears from first to last

The messages to one connection come in a fixed order: places in the queue, then a number, and then
matches one after another, with refused turns in between.  `Session.sessions` is the language of
these words, and `Session.Course` follows it message by message, so that it can be followed through
the operations on a lobby.

Main results:

- Theorem `Session.Course.exists_word`: what is heard step by step begins a word of the language.
- Theorem `Session.Course.regular`: what follows for the messages one by one.
- Theorem `Lobby.Advances.session`: whatever happens to a lobby, its members hear it in order.
-/

namespace FourInRow

open Computability

/-- How far a connection has come with what it hears. -/
inductive Session
  /-- It waits for a seat. -/
  | waiting
  /-- It has a seat, as the given player, and takes part in no match. -/
  | between (player : Player)
  /-- It takes part in a match. -/
  | during (player : Player)
deriving DecidableEq, Repr

namespace Session

/-! ## The language -/

/-- What a player hears about the match that it takes part in: it is asked for its own turns only,
hears what became of them, and is told of the pieces of others. -/
inductive Play (player : Player) : Message → Prop
  | asked : Play player (.turnRequest player)
  | answered {result : TurnResult} (column : UInt8)
      (hresult : result ∈ [.success, .wrongPlayer, .badColumn, .columnFull]) :
      Play player (.turnResult result column)
  | updated {p : Player} (hne : p ≠ player) (column : UInt8) : Play player (.update p column)

/-- The words of one message of some sort. -/
def single (P : Message → Prop) : Language Message := {w | ∃ m, P m ∧ w = [m]}

/-- A place in the queue is told. -/
def places : Language Message := single fun m => ∃ position, m = .inQueue position

/-- A player number is told. -/
def greeting (player : Player) : Language Message := single fun m => m = .connected player

/-- A turn is refused, since there is no match. -/
def refusals : Language Message := single fun m => ∃ column, m = .turnResult .error column

/-- A match begins. -/
def openings : Language Message :=
  single fun m => ∃ players columns rows first, m = .gameStart players columns rows first

/-- A match ends. -/
def endings : Language Message := single fun m => ∃ winner, m = .gameEnd winner

/-- A whole match, and the refused turns after it. -/
def bouts (player : Player) : Language Message :=
  openings * (single (Play player))∗ * endings * refusals∗

/-- Everything that a connection can hear from first to last, if it is given a number. -/
def sessions (player : Player) : Language Message :=
  places∗ * greeting player * refusals∗ * (bouts player)∗

/-! ## Step by step -/

/-- What a connection can hear next, and how far it has come then. -/
inductive Hears : Session → Message → Session → Prop
  | queued (position : UInt64) : Hears .waiting (.inQueue position) .waiting
  | greeted (player : Player) : Hears .waiting (.connected player) (.between player)
  | refused (player : Player) (column : UInt8) :
      Hears (.between player) (.turnResult .error column) (.between player)
  | begun (player : Player) (players columns rows : UInt8) (first : Player) :
      Hears (.between player) (.gameStart players columns rows first) (.during player)
  | played {player : Player} {m : Message} (hplay : Play player m) :
      Hears (.during player) m (.during player)
  | ended (player winner : Player) :
      Hears (.during player) (.gameEnd winner) (.between player)

/-- What a connection can hear one after another. -/
inductive Course : Session → List Message → Session → Prop
  | nil (s : Session) : Course s [] s
  | cons {s s' s'' : Session} {m : Message} {ms : List Message} (hfirst : Hears s m s')
      (hrest : Course s' ms s'') : Course s (m :: ms) s''

theorem Hears.course {s s' : Session} {m : Message} (h : Hears s m s') : Course s [m] s' :=
  .cons h (.nil s')

theorem Course.append {s s' s'' : Session} {ms ms' : List Message} (h : Course s ms s')
    (h' : Course s' ms' s'') : Course s (ms ++ ms') s'' := by
  induction h with
  | nil => exact h'
  | cons hfirst _ ih => exact .cons hfirst (ih h')

/-- What is heard one after another can be parted at every message. -/
theorem Course.split {s s'' : Session} {ms ms' : List Message} (h : Course s (ms ++ ms') s'') :
    ∃ s', Course s ms s' ∧ Course s' ms' s'' := by
  induction ms generalizing s with
  | nil => exact ⟨s, .nil s, h⟩
  | cons m ms ih =>
      cases h with
      | cons hfirst hrest =>
          rcases ih hrest with ⟨s', hms, hms'⟩
          exact ⟨s', .cons hfirst hms, hms'⟩

/-- Whoever waits can be told any number of places. -/
theorem course_places {ms : List Message} (h : ∀ m ∈ ms, m.kind = .inQueue) :
    Course .waiting ms .waiting := by
  induction ms with
  | nil => exact .nil _
  | cons m ms ih =>
      have hkind := h m List.mem_cons_self
      cases m with
      | inQueue position =>
          exact .cons (.queued position) (ih fun m hm => h m (List.mem_cons_of_mem _ hm))
      | _ => cases hkind

/-! ## Words -/

section Words

variable {P : Message → Prop} {m : Message} {w : List Message} {K L : Language Message}

theorem mem_single (hm : P m) : [m] ∈ single P := ⟨m, hm, rfl⟩

theorem cons_mem_mul (hm : [m] ∈ K) (hw : w ∈ L) : m :: w ∈ K * L :=
  Language.append_mem_mul hm hw

theorem mem_kstar_mul (hw : w ∈ L) : w ∈ K∗ * L :=
  Language.append_mem_mul (Language.nil_mem_kstar K) hw

theorem cons_mem_kstar_mul (hm : [m] ∈ K) (hw : w ∈ K∗ * L) : m :: w ∈ K∗ * L := by
  rcases Language.mem_mul.1 hw with ⟨_, ⟨words, rfl, hwords⟩, u, hu, rfl⟩
  have hstar : ([m] :: words).flatten ∈ K∗ := by
    refine Language.join_mem_kstar fun v hv => ?_
    rcases List.mem_cons.1 hv with rfl | hv
    · exact hm
    · exact hwords v hv
  exact Language.append_mem_mul hstar hu

end Words

/-- Has a connection no other number than the given one? -/
def Of (player : Player) : Session → Prop
  | .waiting => True
  | .between p | .during p => p = player

/-- What a connection can still hear, if its number is the given one in the end. -/
def rest (player : Player) : Session → Language Message
  | .waiting => sessions player
  | .between p => refusals∗ * (bouts p)∗
  | .during p => (single (Play p))∗ * endings * refusals∗ * (bouts p)∗

/-- There is always something that can still be heard. -/
theorem exists_rest (player : Player) (s : Session) : ∃ w, w ∈ s.rest player := by
  have hbetween (p : Player) : [] ∈ refusals∗ * (bouts p)∗ :=
    mem_kstar_mul (Language.nil_mem_kstar _)
  cases s with
  | waiting =>
      refine ⟨[.connected player], ?_⟩
      simp only [rest, sessions, mul_assoc]
      exact mem_kstar_mul (cons_mem_mul (mem_single rfl) (hbetween player))
  | between p => exact ⟨[], hbetween p⟩
  | during p =>
      refine ⟨[.gameEnd nobody], ?_⟩
      simp only [rest, mul_assoc]
      exact mem_kstar_mul (cons_mem_mul (mem_single ⟨nobody, rfl⟩) (hbetween p))

theorem Hears.of {s s' : Session} {m : Message} (h : Hears s m s') {player : Player}
    (hplayer : s'.Of player) : s.Of player := by
  cases h with
  | queued => trivial
  | greeted => trivial
  | _ => exact hplayer

/-- What is heard next and after it can be heard now. -/
theorem Hears.cons_mem_rest {s s' : Session} {m : Message} (h : Hears s m s') {player : Player}
    (hplayer : s'.Of player) {w : List Message} (hw : w ∈ s'.rest player) :
    m :: w ∈ s.rest player := by
  cases h with
  | queued position =>
      simp only [rest, sessions, mul_assoc] at hw ⊢
      exact cons_mem_kstar_mul (mem_single ⟨position, rfl⟩) hw
  | greeted p =>
      obtain rfl := hplayer
      simp only [rest, sessions, mul_assoc] at hw ⊢
      exact mem_kstar_mul (cons_mem_mul (mem_single rfl) hw)
  | refused p column => exact cons_mem_kstar_mul (mem_single ⟨column, rfl⟩) hw
  | begun p players columns rows first =>
      -- the new match comes before those that follow it
      have hbouts : bouts p * (bouts p)∗ ≤ (bouts p)∗ := mul_kstar_le_kstar
      refine mem_kstar_mul (hbouts ?_)
      simp only [rest, bouts, mul_assoc] at hw ⊢
      exact cons_mem_mul (mem_single ⟨players, columns, rows, first, rfl⟩) hw
  | played hplay =>
      simp only [rest, mul_assoc] at hw ⊢
      exact cons_mem_kstar_mul (mem_single hplay) hw
  | ended p winner =>
      simp only [rest, mul_assoc] at hw ⊢
      exact mem_kstar_mul (cons_mem_mul (mem_single ⟨winner, rfl⟩) hw)

theorem Course.of {s s' : Session} {ms : List Message} (h : Course s ms s') {player : Player}
    (hplayer : s'.Of player) : s.Of player := by
  induction h with
  | nil => exact hplayer
  | cons hfirst _ ih => exact hfirst.of (ih hplayer)

/-- What is heard step by step begins a word of the language. -/
theorem Course.exists_word {s s' : Session} {ms : List Message} (h : Course s ms s')
    {player : Player} (hplayer : s'.Of player) : ∃ w ∈ s.rest player, ms <+: w := by
  suffices hword : ∃ w, ms ++ w ∈ s.rest player by
    rcases hword with ⟨w, hw⟩
    exact ⟨ms ++ w, hw, List.prefix_append ms w⟩
  induction h with
  | nil s => exact s.exists_rest player
  | cons hfirst hrest ih =>
      rcases ih hplayer with ⟨w, hw⟩
      exact ⟨w, hfirst.cons_mem_rest (hrest.of hplayer) hw⟩

/-! ## The messages one by one -/

/-- How many messages of a kind there are. -/
def tally (kind : Wire.Kind) (ms : List Message) : Nat := ms.countP fun m => m.kind = kind

@[simp] theorem tally_cons (kind : Wire.Kind) (m : Message) (ms : List Message) :
    tally kind (m :: ms) = tally kind ms + if m.kind = kind then 1 else 0 := by
  simp [tally, List.countP_cons]

/-- What is true of the messages one by one, if they are heard in order. -/
structure Regular (ms : List Message) : Prop where
  connected_le : tally .connected ms ≤ 1
  /-- A match begins, and a turn is refused, while no match is open. -/
  outside : ∀ heard m more, ms = heard ++ m :: more →
    (m.kind = .gameStart ∨ ∃ column, m = .turnResult .error column) →
      tally .gameStart heard = tally .gameEnd heard
  /-- A match ends, and there are requests, updates and other outcomes of turns, while one is. -/
  inside : ∀ heard m more, ms = heard ++ m :: more →
    m.kind ∈ [.gameEnd, .takeTurn, .update, .turnResult] →
      (∀ column, m ≠ .turnResult .error column) →
        tally .gameStart heard = tally .gameEnd heard + 1
  /-- Nobody takes a turn in a match that is over. -/
  unfinished : ∀ column, .turnResult .gameFinished column ∉ ms

/-- The number of matches that are open. -/
def opened : Session → Nat
  | .during _ => 1
  | _ => 0

/-- The number of player numbers that have been told. -/
def greeted : Session → Nat
  | .waiting => 0
  | _ => 1

/-- Beginnings, endings and numbers are counted right. -/
theorem Course.tally_eq {s s' : Session} {ms : List Message} (h : Course s ms s') :
    s.opened + tally .gameStart ms = s'.opened + tally .gameEnd ms ∧
      s.greeted + tally .connected ms = s'.greeted := by
  induction h with
  | nil => exact ⟨rfl, rfl⟩
  | cons hfirst _ ih =>
      cases hfirst with
      | played hplay =>
          cases hplay <;> simpa [Message.kind, opened, greeted] using ih
      | _ =>
          simp only [opened, greeted, tally_cons, Message.kind] at ih ⊢
          simp at ih ⊢
          omega

/-- Every message is heard at some point, at which as many matches are open as have begun and not
ended. -/
theorem Course.exists_hears {s : Session} {heard more : List Message} {m : Message}
    (h : Course .waiting (heard ++ m :: more) s) : ∃ s₁ s₂, Hears s₁ m s₂ ∧
      tally .gameStart heard = tally .gameEnd heard + s₁.opened := by
  rcases h.split with ⟨s₁, hheard, hrest⟩
  have htally : 0 + tally .gameStart heard = s₁.opened + tally .gameEnd heard := hheard.tally_eq.1
  cases hrest with
  | cons hfirst => exact ⟨s₁, _, hfirst, by omega⟩

theorem Hears.opened_eq_zero {s s' : Session} {m : Message} (h : Hears s m s')
    (hm : m.kind = .gameStart ∨ ∃ column, m = .turnResult .error column) : s.opened = 0 := by
  cases h with
  | played hplay => cases hplay <;> simp_all [Message.kind]
  | ended => simp [Message.kind] at hm
  | _ => rfl

theorem Hears.opened_eq_one {s s' : Session} {m : Message} (h : Hears s m s')
    (hm : m.kind ∈ [.gameEnd, .takeTurn, .update, .turnResult])
    (hne : ∀ column, m ≠ .turnResult .error column) : s.opened = 1 := by
  cases h with
  | played => rfl
  | ended => rfl
  | refused p column => exact absurd rfl (hne column)
  | _ => simp [Message.kind] at hm

theorem Hears.ne_gameFinished {s s' : Session} {m : Message} (h : Hears s m s')
    (column : UInt8) : m ≠ .turnResult .gameFinished column := by
  rintro rfl
  cases h with
  | played hplay =>
      cases hplay with
      | answered _ hresult => simp at hresult

/-- What is heard step by step is regular. -/
theorem Course.regular {s : Session} {ms : List Message} (h : Course .waiting ms s) :
    Regular ms where
  connected_le := by
    have htally : 0 + tally .connected ms = s.greeted := h.tally_eq.2
    have hle : s.greeted ≤ 1 := by cases s <;> simp [greeted]
    omega
  outside heard m more hms hm := by
    subst hms
    rcases h.exists_hears with ⟨s₁, s₂, hhears, htally⟩
    rw [htally, hhears.opened_eq_zero hm, Nat.add_zero]
  inside heard m more hms hm hne := by
    subst hms
    rcases h.exists_hears with ⟨s₁, s₂, hhears, htally⟩
    rw [htally, hhears.opened_eq_one hm hne]
  unfinished column hmem := by
    rcases List.append_of_mem hmem with ⟨heard, more, rfl⟩
    rcases h.exists_hears with ⟨s₁, s₂, hhears, -⟩
    exact hhears.ne_gameFinished column rfl

/-! ## Numbers -/

/-- Has a connection a seat, as the given player? -/
def Seated (player : Player) (s : Session) : Prop := s = .between player ∨ s = .during player

theorem Seated.of {player : Player} {s : Session} (h : s.Seated player) : s.Of player := by
  rcases h with rfl | rfl
  · rfl
  · rfl

/-- Whoever has a number keeps it. -/
theorem Course.seated {s s' : Session} {ms : List Message} (h : Course s ms s') {player : Player}
    (hseated : s.Seated player) : s'.Seated player := by
  induction h with
  | nil => exact hseated
  | cons hfirst _ ih =>
      apply ih
      cases hfirst with
      | queued => simp [Seated] at hseated
      | greeted => simp [Seated] at hseated
      | _ => simpa [Seated] using hseated

/-- Whoever is told a number has no other one. -/
theorem Course.eq_of_connected_mem {s s' : Session} {ms : List Message} (h : Course s ms s')
    {player : Player} (hplayer : s'.Of player) {p : Player} (hp : .connected p ∈ ms) :
    p = player := by
  induction h with
  | nil => cases hp
  | cons hfirst hrest ih =>
      rcases List.mem_cons.1 hp with rfl | hmem
      · cases hfirst with
        | greeted => exact hrest.of hplayer
        | played hplay => cases hplay
      · exact ih hplayer hmem

/-- Whoever has been given a number has been told so. -/
theorem Course.connected_mem {s : Session} {ms : List Message} (h : Course .waiting ms s)
    {player : Player} (hseated : s.Seated player) : .connected player ∈ ms := by
  generalize hstart : Session.waiting = s₀ at h
  induction h with
  | nil => simp [← hstart, Seated] at hseated
  | cons hfirst hrest ih =>
      subst hstart
      cases hfirst with
      | queued => exact List.mem_cons_of_mem _ (ih hseated rfl)
      | greeted p =>
          rw [hrest.of hseated.of]
          exact List.mem_cons_self

end Session

/-! ## What a member hears -/

namespace Peer

theorem course_request (p : Peer) (player : Player) :
    Session.Course (.during p.player) (p.request player) (.during p.player) := by
  unfold request
  split
  · next hplayer =>
      subst hplayer
      exact (Session.Hears.played .asked).course
  · exact .nil _

theorem course_news (p : Peer) (player : Player) (column : UInt8) :
    Session.Course (.during p.player) [p.news player column] (.during p.player) := by
  refine (Session.Hears.played ?_).course
  unfold news
  split
  · exact .answered column (by decide)
  · next hne => exact .updated hne column

end Peer

namespace Lobby

/-- How far those members have come that hear everything. -/
def session (l : Lobby) (player : Player) : Session :=
  if l.isPlaying then .during player else .between player

theorem session_congr {l l' : Lobby} (h : l'.isPlaying = l.isPlaying) (player : Player) :
    l'.session player = l.session player := by
  rw [session, session, h]

theorem session_of_idle {l : Lobby} (hidle : l.isPlaying = false) (player : Player) :
    l.session player = .between player := by
  simp [session, hidle]

theorem session_of_playing {l : Lobby} {game : Match} {accepting : Bool}
    (hphase : l.phase = .playing game accepting) (player : Player) :
    l.session player = .during player := by
  simp [session, isPlaying_iff.2 ⟨game, accepting, hphase⟩]

theorem seated_session (l : Lobby) (player : Player) : (l.session player).Seated player := by
  unfold session
  split
  · exact Or.inr rfl
  · exact Or.inl rfl

/-- A turn that fails in a match breaks a rule of a match that goes on. -/
theorem course_failure {l : Lobby} (hs : l.Sound) {game game' : Match} {accepting : Bool}
    (hphase : l.phase = .playing game accepting) {player : Player} {column : UInt8}
    {result : TurnResult} (hturned : Match.Turned game player column game' result)
    (p : Peer) : Session.Course (.during p.player)
      (if player = p.player then [.turnResult result column] else []) (.during p.player) := by
  have hgoing := (Bool.or_eq_false_iff.1 (hs.running game accepting hphase).going).1
  split
  · refine (Session.Hears.played (.answered column ?_)).course
    cases hturned with
    | gameFinished hwon => exact absurd (hgoing.symm.trans hwon) (by decide)
    | _ => decide
  · exact .nil _

/-- What members hear when somebody says ready. -/
theorem Readied.session {l l' : Lobby} {d d' : Draws} {id : ConnectionId} {mail : Mail}
    (hs : l.Sound) (h : Readied l d id l' d' mail) {p : Peer} (hp : p ∈ l.members) :
    ∃ ms, mail.messagesTo p.id = p.hears ms ∧
      (l.session p.player).Course ms (l'.session p.player) := by
  have hquiet (k : Lobby) (hk : k.isPlaying = l.isPlaying) : ∃ ms,
      Mail.messagesTo [] p.id = p.hears ms ∧
        (l.session p.player).Course ms (k.session p.player) := by
    refine ⟨[], p.hears_nil.symm, ?_⟩
    rw [session_congr hk]
    exact .nil _
  cases h with
  | ignored => exact hquiet l rfl
  | noted => exact hquiet _ rfl
  | unplayable => exact hquiet _ rfl
  | @begun q size hidle hq hready hall hfull hsize =>
      rcases exists_noted id hp with ⟨p', hp', hid', hplayer, hlistening, -⟩
      have htold := messagesTo_openingMail (hs.noteReady hidle hq hready).nodup
        (UInt8.ofNat ((d.choose l.capacity).1 + 1)) size hp'
      rw [hid', Peer.hears, hlistening, ← Peer.hears] at htold
      refine ⟨_, htold, ?_⟩
      rw [session_of_idle hidle, session_of_playing rfl, ← hplayer]
      exact .cons (.begun _ _ _ _ _) (p'.course_request _)

/-- What members hear when somebody takes a turn. -/
theorem Turned.session {l l' : Lobby} {id : ConnectionId} {column : UInt8} {mail : Mail}
    (hs : l.Sound) (h : Turned l id column l' mail) {p : Peer} (hp : p ∈ l.members) :
    ∃ ms, mail.messagesTo p.id = p.hears ms ∧
      (l.session p.player).Course ms (l'.session p.player) := by
  cases h with
  | stranger => exact ⟨[], p.hears_nil.symm, .nil _⟩
  | @idle q hq hidle =>
      refine ⟨_, messagesTo_failure hs.nodup _ _ (by decide) hp, ?_⟩
      rw [session_of_idle hidle]
      split
      · exact (Session.Hears.refused _ column).course
      · exact .nil _
  | @rejected q game accepting result hq hphase hturned hne =>
      refine ⟨_, messagesTo_failure hs.nodup _ _ hne hp, ?_⟩
      rw [session_of_playing hphase]
      exact course_failure hs hphase hturned p
  | @moved q game game' accepting hq hphase hturned hgoing =>
      refine ⟨[p.news q.player column] ++ p.request game'.current, ?_, ?_⟩
      · rw [Mail.messagesTo_append, messagesTo_success hs.nodup _ _ hp,
          messagesTo_requestTurn hs.nodup _ hp, Peer.hears_append]
      · rw [session_of_playing hphase, session_of_playing rfl]
        exact (p.course_news _ _).append (p.course_request _)
  | @finished q game game' accepting hq hphase hturned hover =>
      refine ⟨[p.news q.player column] ++ [.gameEnd (game'.winner.getD nobody)], ?_, ?_⟩
      · rw [Mail.messagesTo_append, messagesTo_success hs.nodup _ _ hp,
          messagesTo_matchEnd hs.nodup _ hp, Peer.hears_append]
      · rw [session_of_playing hphase, session_of_idle rfl]
        exact (p.course_news _ _).append (Session.Hears.ended _ _).course

/-- What members hear when another one leaves. -/
theorem Left.session {l l' : Lobby} {id : ConnectionId} {q : Peer} {mail : Mail} (hs : l.Sound)
    (h : Left l id q l' mail) {p : Peer} (hp : p ∈ l.members) (hne : p.id ≠ id) :
    ∃ ms, mail.messagesTo p.id = p.hears ms ∧
      (l.session p.player).Course ms (l'.session p.player) := by
  have hremains : p ∈ (l.vacate id q).members := by
    rw [members_vacate]
    exact List.mem_filter.2 ⟨hp, decide_eq_true hne⟩
  cases h with
  | idle => exact ⟨[], p.hears_nil.symm, .nil _⟩
  | brokenOff hq hphase =>
      refine ⟨_, messagesTo_matchEnd (hs.nodup_vacate id q) _ hremains, ?_⟩
      rw [session_of_playing hphase, session_of_idle rfl]
      exact (Session.Hears.ended _ _).course

/-- What members hear when their lobby is closed. -/
theorem session_close {l : Lobby} (hs : l.Sound) {p : Peer} (hp : p ∈ l.members) :
    ∃ ms, l.close.2.2.messagesTo p.id = p.hears ms ∧
      (l.session p.player).Course ms (l.emptied.session p.player) := by
  rw [close_mail]
  split
  · next hplaying =>
      rcases isPlaying_iff.1 hplaying with ⟨game, accepting, hphase⟩
      refine ⟨_, messagesTo_matchEnd hs.nodup nobody hp, ?_⟩
      rw [session_of_playing hphase, session_of_idle rfl]
      exact (Session.Hears.ended _ _).course
  · next hidle =>
      refine ⟨[], p.hears_nil.symm, ?_⟩
      rw [session_of_idle (Bool.eq_false_iff.2 hidle), session_of_idle rfl]
      exact .nil _

/-- Whoever is a member after another one has left was one before. -/
theorem Left.exists_member {l l' : Lobby} {id : ConnectionId} {q : Peer} {mail : Mail}
    (h : Left l id q l' mail) {p' : Peer} (hp' : p' ∈ l'.members) :
    ∃ p ∈ l.members, p.id = p'.id ∧ p.player = p'.player ∧ p.listening = p'.listening := by
  have hvacate : ∀ p ∈ (l.vacate id q).members, p ∈ l.members := by
    intro p hp
    rw [members_vacate] at hp
    exact (List.mem_filter.1 hp).1
  cases h with
  | idle => exact ⟨p', hvacate p' hp', rfl, rfl, rfl⟩
  | brokenOff =>
      rcases mem_of_lineup_eq (lineup_endMatch _ nobody) hp' with ⟨p, hp, hsame⟩
      exact ⟨p, hvacate p hp, hsame⟩

/-- A member keeps its number, and does not begin to listen again. -/
theorem Advances.member_eq {l l' : Lobby} {mail : Mail} (ha : l.Advances mail l') (hs : l.Sound)
    {p p' : Peer} (hp : p ∈ l.members) (hp' : p' ∈ l'.members) (hid : p'.id = p.id) :
    p'.player = p.player ∧ (p'.listening = true → p.listening = true) := by
  have hsame : ∀ q ∈ l.members, q.id = p'.id → q = p := fun q hq hqid =>
    List.inj_on_of_nodup_map hs.nodup hq hp (hqid.trans hid)
  have hlineup : (∃ q ∈ l.members, q.id = p'.id ∧ q.player = p'.player ∧
      q.listening = p'.listening) →
        p'.player = p.player ∧ (p'.listening = true → p.listening = true) := by
    rintro ⟨q, hq, hqid, hplayer, hlistening⟩
    rw [← hsame q hq hqid, hplayer, hlistening]
    exact ⟨rfl, id⟩
  cases ha with
  | same => exact hlineup ⟨p', hp', rfl, rfl, rfl⟩
  | @seated q _ _ _ hseat _ _ hnew =>
      rcases List.mem_cons.1 ((perm_members_seat hseat).mem_iff.1 hp') with rfl | hold
      · rw [assign_id] at hid
        exact absurd (hid ▸ List.mem_map_of_mem hp) hnew
      · exact hlineup ⟨p', hold, rfl, rfl, rfl⟩
  | readied hreadied => exact hlineup (mem_of_lineup_eq hreadied.lineup_eq hp')
  | turned hturned => exact hlineup (mem_of_lineup_eq hturned.lineup_eq hp')
  | left hleft => exact hlineup (hleft.exists_member hp')
  | closed =>
      rw [members_emptied] at hp'
      cases hp'
  | hungUp i =>
      rw [members_hangUp] at hp'
      rcases List.mem_map.1 hp' with ⟨q, hq, rfl⟩
      have hqp : q = p := by
        refine hsame q hq ?_
        split <;> rfl
      rw [← hqp]
      split
      · exact ⟨rfl, fun h => by cases h⟩
      · exact ⟨rfl, id⟩

/-- What members hear whatever happens to their lobby.  Whoever is gone then has not heard that the
match is broken off by that. -/
theorem Advances.course {l l' : Lobby} {mail : Mail} (ha : l.Advances mail l') (hs : l.Sound)
    {p : Peer} (hp : p ∈ l.members) :
    ∃ ms s', mail.messagesTo p.id = p.hears ms ∧ (l.session p.player).Course ms s' ∧
      (p.id ∈ l'.members.map Peer.id → s' = l'.session p.player) := by
  have hstays : (∃ ms, mail.messagesTo p.id = p.hears ms ∧
      (l.session p.player).Course ms (l'.session p.player)) →
        ∃ ms s', mail.messagesTo p.id = p.hears ms ∧ (l.session p.player).Course ms s' ∧
          (p.id ∈ l'.members.map Peer.id → s' = l'.session p.player) := by
    rintro ⟨ms, hms, hcourse⟩
    exact ⟨ms, _, hms, hcourse, fun _ => rfl⟩
  cases ha with
  | same => exact hstays ⟨[], p.hears_nil.symm, .nil _⟩
  | @seated q player _ _ hseat hplayer hlistening hnew =>
      have hne : q.id ≠ p.id := by
        intro hid
        exact hnew (hid ▸ List.mem_map_of_mem hp)
      refine hstays ⟨[], ?_, ?_⟩
      · rw [messagesTo_seat_of_ne hseat hne, Peer.hears_nil]
      · rcases seat_eq_some_iff.1 hseat with ⟨-, i, -, -, rfl, -⟩
        exact .nil _
  | readied hreadied => exact hstays (hreadied.session hs hp)
  | turned hturned => exact hstays (hturned.session hs hp)
  | @left id q _ _ hleft =>
      by_cases hid : p.id = id
      · refine ⟨[], _, ?_, .nil _, fun hmem => absurd hid ((hleft.mem_map_id p.id).1 hmem).2⟩
        rw [Peer.hears_nil]
        exact Mail.messagesTo_eq_nil fun e he => hid ▸ hleft.recipient_ne he
      · exact hstays (hleft.session hs hp hid)
  | closed => exact hstays (session_close hs hp)
  | hungUp => exact hstays ⟨[], p.hears_nil.symm, .nil _⟩

/-- Has a member come as far as its lobby, unless it does not listen any more? -/
structure InStep (l : Lobby) (p : Peer) (s : Session) : Prop where
  seated : s.Seated p.player
  session_eq : p.listening = true → s = l.session p.player

/-- Whatever happens to a lobby, its members hear it in order. -/
theorem Advances.session {l l' : Lobby} {mail : Mail} (ha : l.Advances mail l') (hs : l.Sound)
    {p : Peer} (hp : p ∈ l.members) {s : Session} (hstep : l.InStep p s) :
    ∃ s', s.Course (mail.messagesTo p.id) s' ∧
      ∀ p' ∈ l'.members, p'.id = p.id → l'.InStep p' s' := by
  rcases ha.course hs hp with ⟨ms, s₁, hms, hcourse, hremains⟩
  have hmember (p' : Peer) (hp' : p' ∈ l'.members) (hid : p'.id = p.id) :=
    ha.member_eq hs hp hp' hid
  cases hlistening : p.listening with
  | true =>
      rw [hms, Peer.hears, if_pos hlistening, hstep.session_eq hlistening]
      refine ⟨s₁, hcourse, fun p' hp' hid => ⟨?_, fun _ => ?_⟩⟩
      · rw [(hmember p' hp' hid).1]
        exact hcourse.seated (l.seated_session p.player)
      · rw [(hmember p' hp' hid).1]
        exact hremains (hid ▸ List.mem_map_of_mem hp')
  | false =>
      rw [hms, Peer.hears, hlistening]
      refine ⟨s, .nil s, fun p' hp' hid => ⟨?_, fun hlistening' => ?_⟩⟩
      · rw [(hmember p' hp' hid).1]
        exact hstep.seated
      · rw [(hmember p' hp' hid).2 hlistening'] at hlistening
        cases hlistening

/-- A newcomer that listens is told its number, between matches. -/
theorem seat_inStep {l l' : Lobby} {q : Peer} {player : Player} {mail : Mail} (hs : l.Sound)
    (hseat : l.seat q = some (player, l', mail)) (hplayer : q.player = nobody)
    (hlistening : q.listening = true) :
    ∃ p ∈ l'.members, p.id = q.id ∧ mail.messagesTo q.id = [.connected p.player] ∧
      l'.InStep p (.between p.player) := by
  have hmember := (perm_members_seat hseat).mem_iff.2 List.mem_cons_self
  have hphase := (hs.hasFreeSeat_iff.1 (seat_eq_some_iff.1 hseat).1).1
  rcases seat_eq_some_iff.1 hseat with ⟨-, i, -, rfl, rfl, rfl⟩
  rw [assign_of_nobody (p := { q with ready := false }) hplayer] at hmember ⊢
  refine ⟨_, hmember, rfl, ?_, Or.inl rfl, fun _ => ?_⟩
  · simp [Peer.tell, hlistening, Mail.messagesTo]
  · exact (session_of_idle (by simp [isPlaying, game?, hphase]) _).symm

end Lobby

end FourInRow
