import FourInRow.CommandLine.Launch
import FourInRow.Proofs.Settings.Document

/-!
# Settings in layers

The settings of a launch come in three layers: what the command line says, what the settings file
says, and the defaults.  For each setting the first layer that gives it counts.  Only what comes
out of all three is checked.

Main results:

- Theorem `Provides.settings_eq`: the settings of a launch are the layers, if they pass the check.
- Theorem `settings_layered`: the same, setting by setting, and that nothing else about the file
  makes a difference.
-/

namespace FourInRow

namespace Launch

open Settings (Draft)

/-- What the command line says of the settings. -/
def Overrides.draft (o : Overrides) : Draft
  | .bindAddress => o.bindAddress
  | .maxLobbies => o.maxLobbies
  | .playersPerLobby => o.players
  | .boardColumns => o.columns
  | .boardRows => o.rows
  | .pingInterval | .maxMissedPings | .queueInterval => Option.none

/-- What the command line says counts before the settings below it. -/
theorem Overrides.get_apply (o : Overrides) (s : Settings) (f : Settings.Field) :
    (o.apply s).get f = (o.draft f).getD (s.get f) := by
  cases f <;> rfl

/-- What the settings file says: a draft that is written in the file that is named, or nothing if
none is named. -/
inductive Provides (o : Overrides) (files : String → Option ByteArray) : Draft → Prop
  | noFile (h : o.file = none) : Provides o files Draft.none
  | file {path text : String} {d : Draft} (hpath : o.file = some path)
      (hbytes : files path = some text.toUTF8) (hd : d.IsWrittenAs text.toList) :
      Provides o files d

/-- The settings in three layers. -/
def layered (o : Overrides) (d : Draft) : Settings :=
  .ofValues fun f => (o.draft f).getD ((d f).getD (Settings.default.get f))

theorem apply_complete (o : Overrides) (d : Draft) : o.apply d.complete = layered o d := by
  apply Settings.ext_get
  intro f
  rw [o.get_apply, layered, Draft.complete, Settings.get_ofValues, Settings.get_ofValues]

theorem checked_eq_ok_iff {s s' : Settings} :
    checked s = .ok s' ↔ s' = s ∧ s.check = .ok () := by
  rw [checked]
  cases s.check <;> simp [eq_comm]

theorem checked_eq_error_iff {s : Settings} {why : Failure} :
    checked s = .error why ↔ ∃ fault, why = .settings fault ∧ s.check = .error fault := by
  rw [checked]
  cases s.check <;> simp [eq_comm]

theorem fromUTF8?_toUTF8 (text : String) : String.fromUTF8? text.toUTF8 = some text := by
  rw [String.fromUTF8?]
  exact dif_pos text.isValidUTF8

section

variable {o : Overrides} {files : String → Option ByteArray} {d d' : Draft}

/-- The settings of a launch are the layers, if they pass the check. -/
theorem Provides.settings_eq (h : Provides o files d) : settings o files = checked (layered o d) := by
  rw [← apply_complete]
  cases h with
  | noFile h =>
      rw [settings, h]
      rfl
  | @file path text d hpath hbytes hd =>
      have hbase : Settings.ofFile (files path) = .ok d.complete := by
        simp only [hbytes, Settings.ofFile, fromUTF8?_toUTF8, hd.ofText_eq]
        rfl
      rw [settings, hpath]
      simp only [hbase]
      rfl

/-- Where the command line says something, the file makes no difference. -/
theorem layered_congr (h : ∀ f, o.draft f = none → d' f = d f) : layered o d' = layered o d := by
  apply Settings.ext_get
  intro f
  rw [layered, layered, Settings.get_ofValues, Settings.get_ofValues]
  cases hf : o.draft f with
  | some v => rfl
  | none => rw [h f hf]

/-- The settings of a launch are those in which each setting is what the command line says, else
what the file says, else its default.  A launch has them exactly if they pass the check, and is
refused with the fault that the check finds otherwise.  However the file is written, and whatever
it says of settings that the command line gives, the launch comes to the same. -/
theorem settings_layered (h : Provides o files d) :
    ∃ s : Settings,
      (∀ f, s.get f = (o.draft f).getD ((d f).getD (Settings.default.get f))) ∧
      (∀ s', settings o files = .ok s' ↔ s' = s ∧ s.check = .ok ()) ∧
      (∀ why, settings o files = .error why ↔
        ∃ fault, why = .settings fault ∧ s.check = .error fault) ∧
      ∀ files' d', Provides o files' d' → (∀ f, o.draft f = none → d' f = d f) →
        settings o files' = settings o files := by
  refine ⟨layered o d, Settings.get_ofValues _, fun s' => ?_, fun why => ?_, ?_⟩
  · rw [h.settings_eq, checked_eq_ok_iff]
  · rw [h.settings_eq, checked_eq_error_iff]
  · intro files' d' h' hsame
    rw [h.settings_eq, h'.settings_eq, layered_congr hsame]

end

/-! ## A file that is mended, or spoiled -/

/-- A settings file with too few rows, written with blanks, an escape and a member of its own. -/
def crooked : String :=
  "\n\x7b\"board_rows\":\t3 ,\"x\":[\x7b\"y\":-0.5e7\x7d,null],\"\\u006dax_lobbies\" : 12\x7d"

/-- What the file says. -/
def crookedDraft : Draft
  | .boardRows => some 3
  | .maxLobbies => some 12
  | _ => none

theorem isWrittenAs_crooked : crookedDraft.IsWrittenAs crooked.toList := by
  have rows : ∀ t, Settings.Member [⟨.boardRows, 3⟩]
      ("\"board_rows\":\t3 ".toList ++ ',' :: t) (',' :: t) := fun t =>
    .setting (.intro (.none _) (.of_plain _ (by decide)) (.none _))
      (.more (c := '\t') (by decide) (.none _))
      ⟨['3'], .run ⟨by decide, by decide, rfl⟩ (by decide), rfl⟩
      (.more (c := ' ') (by decide) (.none _))
  have number : ∀ t, Json.Number ⟨true, ['0'], ['5'], some (false, ['7'])⟩
      ("-0.5e7".toList ++ '}' :: t) ('}' :: t) := fun t =>
    .negative rfl ⟨_, _, .zero _, .point ⟨by decide, by decide, rfl⟩,
      .unsigned (.inl rfl) ⟨by decide, by decide, rfl⟩⟩
  have object : ∀ t, Json.Derives .value ("\x7b\"y\":-0.5e7\x7d".toList ++ t) t := fun t =>
    .object (.lastMember (.member (.none _) (.plain (c := 'y') (by decide) (.close _)) (.none _)
      (.element (.none _) (.number (number t)) (.none _))))
  have own : ∀ t, Settings.Member []
      ("\"x\":[\x7b\"y\":-0.5e7\x7d,null]".toList ++ ',' :: t) (',' :: t) := fun t =>
    .other (.intro (.none _) (.of_plain ['x'] (by decide)) (.none _))
      (by intro f; cases f <;> decide)
      (.element (.none _)
        (.list (.moreElements (.element (.none _) (object _) (.none _))
          (.lastElement (.element (.none _) (.null _) (.none _)))))
        (.none _))
  have lobbies : Settings.Member [⟨.maxLobbies, 12⟩]
      "\"\\u006dax_lobbies\" : 12\x7d".toList ['}'] :=
    .setting (.intro (.none _)
        (.code (a := '0') (b := '0') (c := '6') (d := 'd') (n := 109) (by decide) (by decide)
          (by decide) (.of_plain "ax_lobbies".toList (by decide)))
        (.more (c := ' ') (by decide) (.none _)))
      (.more (c := ' ') (by decide) (.none _))
      ⟨['1', '2'], .run ⟨by decide, by decide, rfl⟩ (by decide), rfl⟩ (.none _)
  refine ⟨_, .members (.more (c := '\n') (by decide) (.none _))
    (.more (rows _) (.more (own _) (.last lobbies))) (.none _), by decide, ?_⟩
  intro f v
  cases f <;> simp [crookedDraft, eq_comm]

/-- A command line that names the file and gives the rows. -/
def withRows (n : UInt8) : Overrides :=
  { Overrides.none with file := some "server.json", rows := some n }

/-- What the command line says mends the file, or spoils it. -/
theorem settings_of_withRows :
    Provides (withRows 5) (fun _ => some crooked.toUTF8) crookedDraft ∧
      settings (withRows 5) (fun _ => some crooked.toUTF8) =
        .ok { Settings.default with maxLobbies := 12, boardRows := 5 } ∧
      settings (withRows 7) (fun _ => some crooked.toUTF8) =
        .error (.settings (.board (.invalidDimensions 7 7))) := by
  have hfile : ∀ n, Provides (withRows n) (fun _ => some crooked.toUTF8) crookedDraft :=
    fun n => .file rfl rfl isWrittenAs_crooked
  have hlayers : ∀ (n : UInt8) (s : Settings), (∀ f, s.get f =
      ((withRows n).draft f).getD ((crookedDraft f).getD (Settings.default.get f))) →
      s = { Settings.default with maxLobbies := 12, boardRows := n } := by
    intro n s hs
    apply Settings.ext_get
    intro f
    rw [hs]
    cases f <;> rfl
  rcases settings_layered (hfile 5) with ⟨s, hs, hok, -, -⟩
  rcases settings_layered (hfile 7) with ⟨s', hs', -, herror, -⟩
  obtain rfl := hlayers 5 s hs
  obtain rfl := hlayers 7 s' hs'
  exact ⟨hfile 5, (hok _).2 ⟨rfl, rfl⟩, (herror _).2 ⟨_, rfl, rfl⟩⟩

end Launch

end FourInRow
