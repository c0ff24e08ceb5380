import ConfigCare.Project.Basic
import ConfigCare.Proofs.Encoding
import ConfigCare.Proofs.ReadingLimits

/-! Loading a registry. What is in the file is taken as a whole or not at all, and then the registry is the
one that is built in. Only the limits of reading JSON get through: a text beyond one of them leaves no
registry. -/

namespace ConfigCare.Secret.Registry

open Files Jsonc
open Json (depthLimit digitLimit nested)
open Text (lit)

/-- The text of a file, if it can be read and is UTF-8. -/
def fileText? (disk : Disk) (path : Option Path) : Option Text :=
  path.bind fun p => (disk.read p).toOption.bind fun content =>
    (Utf8.decode content).toOption.map Text.unifyBreaks

/-- Whether a text is no registry by a fault of its own. -/
def Faulty (s : Text) : Prop :=
  (∃ e, parse s = .error (.malformed e)) ∨ ∃ issues, parse s = .error (.invalid issues)

/-- A text in which no more delimiters are open at once than there may be levels, and no more digits
stand in a row than an integer may have. -/
structure WithinLimits (s : Text) : Prop where
  levels : ∀ p, p <+: s → opened p ≤ 990
  digits : ∀ ds, ds <:+: s → ds.all Text.isAsciiDigit → ds.length ≤ 4300

/-- A text that begins with more levels than there may be, or with an integer of too many digits, be
it in lists or not. Anything can stand behind that. -/
inductive BeyondLimit : Json.ReadError → Text → Prop where
  | depth {ws : List Text} {w rest : Text} {c : Char} (hws : ∀ w ∈ ws, w.all Json.isSpace = true)
    (hlevels : ws.length = 990) (hw : w.all Json.isSpace = true) (hc : isOpener c) :
    BeyondLimit .depth (nested ws (w ++ c :: rest))
  | digits {ws : List Text} {w ds rest : Text} (hws : ∀ w ∈ ws, w.all Json.isSpace = true)
    (hlevels : ws.length ≤ 990) (hw : w.all Json.isSpace = true)
    (hds : ds.all Text.isAsciiDigit = true) (hzero : ds.head? ≠ some '0') (hlong : 4300 < ds.length)
    (hrest : Json.Stops rest) :
    BeyondLimit (.digits ds.length) (nested ws (w ++ (ds ++ rest)))

/-- Whether a path, if there is one, is a path to the system. -/
def Passable (path : Option Path) : Prop := ∀ p ∈ path, p.hasNull = false

variable {disk : Disk} {path : Option Path} {s : Text} {e : Json.ReadError} {r : Registry}

theorem load_of_null {p : Path} (h : p.hasNull = true) :
    load disk (some p) = .error .nullInPath := by
  rw [load, if_pos h]

theorem load_of_none (hpath : Passable path) (h : fileText? disk path = none) :
    load disk path = .ok builtIn := by
  unfold load
  split
  · rfl
  · next p =>
    rw [if_neg (by simp [hpath p rfl])]
    split
    · rfl
    · next content hread =>
      unfold ofBytes
      split
      · rfl
      · next t hdecode =>
        simp [fileText?, hread, hdecode, Except.toOption] at h

theorem eq_ok_of_toOption {ε α : Type} {x : Except ε α} {a : α} (h : x.toOption = some a) :
    x = .ok a := by
  cases x with
  | error => cases h
  | ok => exact congrArg _ (Option.some.inj h)

theorem load_of_some (hpath : Passable path) (h : fileText? disk path = some s) :
    load disk path = match parse s with
      | .ok r => .ok r
      | .error (.limit e) => .error (.limit e)
      | .error _ => .ok builtIn := by
  obtain ⟨p, rfl, hcontent⟩ := Option.bind_eq_some_iff.1 h
  obtain ⟨content, hread, htext⟩ := Option.bind_eq_some_iff.1 hcontent
  obtain ⟨t, hdecode, rfl⟩ := Option.map_eq_some_iff.1 htext
  have hload : load disk (some p) = ofBytes content := by
    simp only [load, hpath p rfl, eq_ok_of_toOption hread, Bool.false_eq_true, if_false]
  cases hparse : parse t.unifyBreaks with
  | ok r => simp only [hload, ofBytes, eq_ok_of_toOption hdecode, hparse]
  | error e => cases e <;> simp only [hload, ofBytes, eq_ok_of_toOption hdecode, hparse]

/-- The failures to read a text that are no faults of it are its limits. -/
theorem parse_eq_limit_iff :
    parse s = .error (.limit e) ↔
      Json.read false s = .error e ∧ (e = .depth ∨ ∃ n, e = .digits n) := by
  unfold parse
  cases hread : Json.read false s with
  | ok d =>
    simp only
    cases checkFile d <;> simp
  | error e' =>
    cases e' with
    | malformed e' =>
      simp only [Except.error.injEq, reduceCtorEq, false_iff, not_and]
      rintro rfl
      simp
    | constant name => cases Json.refuse_of_read_constant hread
    | digits n =>
      simp only [Except.error.injEq, RegistryError.limit.injEq, iff_self_and]
      rintro rfl
      exact .inr ⟨n, rfl⟩
    | depth =>
      simp only [Except.error.injEq, RegistryError.limit.injEq, iff_self_and]
      rintro rfl
      exact .inl rfl

theorem load_eq_ok_iff (hpath : Passable path) :
    load disk path = .ok r ↔
      (∃ s, fileText? disk path = some s ∧ parse s = .ok r) ∨
        (r = builtIn ∧ ∀ s, fileText? disk path = some s → Faulty s) := by
  cases htext : fileText? disk path with
  | none => simp [load_of_none hpath htext, eq_comm]
  | some s =>
    rw [load_of_some hpath htext]
    simp only [Option.some.injEq, exists_eq_left', forall_eq', Faulty]
    cases parse s with
    | ok r' => simp
    | error e => cases e <;> simp [eq_comm]

theorem load_eq_limit_iff (hpath : Passable path) :
    load disk path = .error (.limit e) ↔
      ∃ s, fileText? disk path = some s ∧ parse s = .error (.limit e) := by
  cases htext : fileText? disk path with
  | none => simp [load_of_none hpath htext]
  | some s =>
    rw [load_of_some hpath htext]
    simp only [Option.some.injEq, exists_eq_left']
    cases parse s with
    | ok r' => simp
    | error e => cases e <;> simp

theorem load_eq_null_iff : load disk path = .error .nullInPath ↔ ¬ Passable path := by
  constructor
  · intro h hpath
    cases htext : fileText? disk path with
    | none => rw [load_of_none hpath htext] at h; cases h
    | some s =>
      rw [load_of_some hpath htext] at h
      cases hparse : parse s with
      | ok r => rw [hparse] at h; cases h
      | error e => rw [hparse] at h; cases e <;> cases h
  · intro h
    obtain ⟨p, hp⟩ := not_forall.1 h
    obtain ⟨rfl, hnull⟩ := Classical.not_imp.1 hp
    exact load_of_null (by simpa using hnull)

theorem WithinLimits.parse_ne (h : WithinLimits s) : parse s ≠ .error (.limit e) := by
  rw [Ne, parse_eq_limit_iff]
  rintro ⟨hread, rfl | ⟨n, rfl⟩⟩
  · obtain ⟨p, hp, hopened⟩ := Json.opened_of_read_depth hread
    have hle := h.levels p hp
    rw [hopened, depthLimit] at hle
    omega
  · obtain ⟨hlimit, ds, hds, hdigits, rfl⟩ := Json.digits_of_read_digits hread
    have hle := h.digits ds hds hdigits
    rw [digitLimit] at hlimit
    omega

theorem BeyondLimit.parse_eq (h : BeyondLimit e s) : parse s = .error (.limit e) := by
  rw [parse_eq_limit_iff]
  cases h with
  | depth hws hlevels hw hc => exact ⟨Json.read_nested_depth hws hlevels hw hc, .inl rfl⟩
  | digits hws hlevels hw hds hzero hlong hrest =>
    exact ⟨Json.read_nested_digits hws hlevels hw hds hzero hlong hrest, .inr ⟨_, rfl⟩⟩

/-- What comes of loading a registry. It is the one that the text of the file holds, or the built-in one
if there is no such text or it is faulty; and there is none exactly if the path is none to the system, or
else reading the text comes to a limit. A text within the limits is never that; one that is beyond a limit
from its start is, whatever stands behind. -/
theorem load_ends_at_limits (disk : Disk) (path : Option Path) :
    (load disk path = .error .nullInPath ↔ ¬ Passable path) ∧
    (Passable path →
      (∀ r, load disk path = .ok r ↔
        (∃ s, fileText? disk path = some s ∧ parse s = .ok r) ∨
          (r = builtIn ∧ ∀ s, fileText? disk path = some s → Faulty s)) ∧
      (∀ e, load disk path = .error (.limit e) ↔ ∃ s, fileText? disk path = some s ∧
        Json.read false s = .error e ∧ (e = .depth ∨ ∃ n, e = .digits n)) ∧
      (∀ s, fileText? disk path = some s → WithinLimits s → ∃ r, load disk path = .ok r) ∧
      (∀ s e, fileText? disk path = some s → BeyondLimit e s →
        load disk path = .error (.limit e))) := by
  refine ⟨load_eq_null_iff, fun hpath => ⟨fun r => load_eq_ok_iff hpath, fun e => ?_,
    fun s htext hwithin => ?_, fun s e htext hbeyond => ?_⟩⟩
  · simp only [load_eq_limit_iff hpath, parse_eq_limit_iff]
  · cases hload : load disk path with
    | ok r => exact ⟨r, rfl⟩
    | error e =>
      cases e with
      | nullInPath => exact absurd hpath (load_eq_null_iff.1 hload)
      | limit e =>
        obtain ⟨s', htext', hparse⟩ := (load_eq_limit_iff hpath).1 hload
        rw [htext] at htext'
        cases htext'
        exact absurd hparse hwithin.parse_ne
  · exact (load_eq_limit_iff hpath).2 ⟨s, htext, hbeyond.parse_eq⟩

theorem unifyBreaks_replicate {c : Char} (hc : c ≠ '\r') (n : Nat) :
    Text.unifyBreaks (List.replicate n c) = List.replicate n c := by
  induction n with
  | zero => rfl
  | succ n ih =>
    rw [Text.unifyBreaks] at ih
    rw [List.replicate_succ, Text.unifyBreaks, Text.unifyBreaksFrom, if_neg hc, if_neg (by simp), ih]

theorem fileText?_of_replicate {p : Path} {c : Char} (hc : c ≠ '\r') {n : Nat}
    (h : disk.read p = .ok (Utf8.encode (List.replicate n c))) :
    fileText? disk (some p) = some (List.replicate n c) := by
  simp [fileText?, h, Except.toOption, Utf8.decode_encode, unifyBreaks_replicate hc]

theorem nested_replicate (n : Nat) (inner : Text) :
    nested (List.replicate n []) inner = List.replicate n '[' ++ inner := by
  induction n with
  | zero => rfl
  | succ n ih =>
    rw [List.replicate_succ, List.replicate_succ, List.cons_append, ← ih]
    rfl

theorem parse_brackets {n : Nat} (hn : 990 < n) :
    parse (List.replicate n '[') = .error (.limit .depth) := by
  obtain ⟨k, rfl⟩ := Nat.exists_eq_add_of_lt hn
  have hbeyond : BeyondLimit .depth (nested (List.replicate 990 []) ([] ++ '[' :: List.replicate k '[')) :=
    .depth (fun w hw => by rw [List.eq_of_mem_replicate hw]; rfl) List.length_replicate rfl (by decide)
  rw [nested_replicate, List.nil_append, ← List.replicate_succ, List.replicate_append_replicate]
    at hbeyond
  exact hbeyond.parse_eq

theorem parse_digits {n : Nat} (hn : 4300 < n) :
    parse (List.replicate n '7') = .error (.limit (.digits n)) := by
  have hds : (List.replicate n '7').all Text.isAsciiDigit := List.all_eq_true.2 fun c hc => by
    rw [List.eq_of_mem_replicate hc]
    rfl
  have hzero : (List.replicate n '7').head? ≠ some '0' := fun h =>
    absurd (List.eq_of_mem_replicate (List.mem_of_mem_head? h)) (by decide)
  have hlong : 4300 < (List.replicate n '7').length := by rwa [List.length_replicate]
  have hbeyond : BeyondLimit (.digits (List.replicate n '7').length)
      (nested [] ([] ++ (List.replicate n '7' ++ []))) :=
    .digits (by simp) (by simp) rfl hds hzero hlong (by simp [Json.Stops])
  rw [nested, List.nil_append, List.append_nil, List.length_replicate] at hbeyond
  exact hbeyond.parse_eq

/-- A file of nested brackets and one of digits, for which there is neither what they hold nor the
built-in registry, and a path with a NUL. -/
theorem load_of_brackets_and_digits :
    let disk : Disk := ⟨.folder [(lit "deep.json", .file (Utf8.encode (List.replicate 100000 '['))),
      (lit "long.json", .file (Utf8.encode (List.replicate 5000 '7')))], []⟩
    load disk (some (.ofText (lit "deep.json"))) = .error (.limit .depth) ∧
      load disk (some (.ofText (lit "long.json"))) = .error (.limit (.digits 5000)) ∧
      load disk (some (.ofText (lit "a\x00b"))) = .error .nullInPath := by
  intro disk
  have hread (a b : Bytes) :
      let disk : Disk := ⟨.folder [(lit "deep.json", .file a), (lit "long.json", .file b)], []⟩
      disk.read (.ofText (lit "deep.json")) = .ok a ∧
        disk.read (.ofText (lit "long.json")) = .ok b := ⟨rfl, rfl⟩
  obtain ⟨hdeep, hlong⟩ := hread (Utf8.encode (List.replicate 100000 '['))
    (Utf8.encode (List.replicate 5000 '7'))
  have hpaths : Passable (some (.ofText (lit "deep.json"))) ∧
      Passable (some (.ofText (lit "long.json"))) := by
    constructor <;> (rintro p ⟨⟩; decide)
  refine ⟨?_, ?_, load_of_null (by decide)⟩
  · exact (load_eq_limit_iff hpaths.1).2
      ⟨_, fileText?_of_replicate (by decide) hdeep, parse_brackets (by decide)⟩
  · exact (load_eq_limit_iff hpaths.2).2
      ⟨_, fileText?_of_replicate (by decide) hlong, parse_digits (by decide)⟩

end ConfigCare.Secret.Registry
