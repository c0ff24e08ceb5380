import ConfigCare.Proofs.ExpressionLimits
import ConfigCare.Secret.Registry

/-! Which rules a scan is built from: those whose patterns are regular expressions, as long as none is
refused. A pattern is not refused for being malformed, and a refused one takes all the others with
it. -/

namespace ConfigCare.Secret

open Text Regex

namespace Rule

/-- The rule as it is searched for, if its pattern is a regular expression. -/
def compiled? (r : Rule) : Option CompiledRule :=
  (Pattern.parse r.pattern).toOption.map fun p => ⟨r, p, (r.keywords.getD []).map Text.lower⟩

/-- Why the pattern of a rule is refused. -/
def refusal? (r : Rule) : Option Refusal :=
  match Pattern.parse r.pattern with
  | .error (.refused cause) => some cause
  | _ => none

theorem refusal?_eq_some_iff {r : Rule} {cause : Refusal} :
    r.refusal? = some cause ↔ Pattern.parse r.pattern = .error (.refused cause) := by
  unfold refusal?
  split
  · next h => simp [h]
  · next h => exact iff_of_false nofun (h _)

end Rule

theorem CompiledRule.ofRule?_eq (r : Rule) :
    CompiledRule.ofRule? r = match r.refusal? with
      | some cause => .error cause
      | none => .ok r.compiled? := by
  unfold CompiledRule.ofRule? Rule.refusal? Rule.compiled?
  cases Pattern.parse r.pattern with
  | ok p => rfl
  | error e => cases e <;> rfl

/-- The first rule that is refused ends the compilation. -/
theorem compile_eq (rules : List Rule) :
    compile rules = match rules.findSome? Rule.refusal? with
      | some cause => .error cause
      | none => .ok (rules.filterMap Rule.compiled?) := by
  induction rules with
  | nil => rfl
  | cons r rs ih =>
    rw [compile, CompiledRule.ofRule?_eq, List.findSome?_cons]
    cases r.refusal? with
    | some cause => rfl
    | none =>
      simp only [ih]
      cases rs.findSome? Rule.refusal? with
      | some cause => rfl
      | none => cases hr : r.compiled? <;> simp [hr]

theorem map_rule_compiled (rules : List Rule) :
    (rules.filterMap Rule.compiled?).map (·.rule) = rules.filter fun r => r.compiled?.isSome := by
  induction rules with
  | nil => rfl
  | cons r rs ih =>
    cases hr : r.compiled? with
    | none => simp [hr, ih]
    | some c =>
      have hrule : c.rule = r := by
        obtain ⟨p, -, rfl⟩ := Option.map_eq_some_iff.1 hr
        rfl
      simp [hr, ih, hrule]

/-- Rules compile to those of them that are regular expressions, in order and each once, if and only if
none is refused. Otherwise the first one that is refused leaves no rule at all. -/
theorem compile_returns_iff (rules : List Rule) :
    (∀ compiled, compile rules = .ok compiled ↔
      (∀ r ∈ rules, r.refusal? = none) ∧ compiled = rules.filterMap Rule.compiled?) ∧
    ((rules.filterMap Rule.compiled?).map (·.rule) = rules.filter fun r => r.compiled?.isSome) ∧
    (∀ cause, compile rules = .error cause ↔ ∃ front r back, rules = front ++ r :: back ∧
      r.refusal? = some cause ∧ ∀ q ∈ front, q.refusal? = none) ∧
    ((∀ r ∈ rules, Moderate r.pattern) → compile rules = .ok (rules.filterMap Rule.compiled?)) ∧
    ((∃ r ∈ rules, Extreme r.pattern) → ∃ cause, compile rules = .error cause) := by
  have hok : ∀ compiled, compile rules = .ok compiled ↔
      (∀ r ∈ rules, r.refusal? = none) ∧ compiled = rules.filterMap Rule.compiled? := by
    intro compiled
    rw [compile_eq, ← List.findSome?_eq_none_iff]
    cases rules.findSome? Rule.refusal? with
    | none => simp [eq_comm]
    | some cause => simp
  refine ⟨hok, map_rule_compiled rules, fun cause => ?_, fun hmoderate => ?_, ?_⟩
  · rw [compile_eq, ← List.findSome?_eq_some_iff]
    cases rules.findSome? Rule.refusal? <;> simp
  · refine (hok _).2 ⟨fun r hr => Option.eq_none_iff_forall_ne_some.2 fun cause hcause => ?_, rfl⟩
    exact (hmoderate r hr).not_refused cause (Rule.refusal?_eq_some_iff.1 hcause)
  · rintro ⟨r, hr, hextreme⟩
    obtain ⟨cause, hcause⟩ := hextreme.refused
    cases hrules : compile rules with
    | error cause => exact ⟨cause, rfl⟩
    | ok compiled =>
      have hnone := ((hok compiled).1 hrules).1 r hr
      rw [Rule.refusal?_eq_some_iff.2 hcause] at hnone
      cases hnone

example : ∀ r ∈ Registry.builtIn.rules, Moderate r.pattern := by decide

/-- A usable rule is lost to one with a repetition that is too large. -/
theorem compile_loses_usable_rule :
    let rules : List Rule := [⟨lit "r0", lit "a", none, []⟩, ⟨lit "r1", lit "b\x7b4294967295\x7d", none, []⟩]
    (rules.filterMap Rule.compiled?).map (·.rule.name) = [lit "r0"] ∧
      compile rules = .error .repetition ∧ ¬ ∃ compiled, compile rules = .ok compiled := by
  intro rules
  have herror : compile rules = .error .repetition := by
    rw [compile_eq, show rules.findSome? Rule.refusal? = some .repetition by decide +kernel]
  refine ⟨by decide +kernel, herror, ?_⟩
  rw [herror]
  exact nofun

end ConfigCare.Secret
