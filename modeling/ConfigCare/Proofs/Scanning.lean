import ConfigCare.Proofs.Positions

/-! A scan misses nothing. Every place where a rule matches anything lies in one of the matches that
are looked at, these lie one behind another, and which of them are reported depends on the keywords of
the rule alone. The findings are those of each rule in turn, less the rules that are no regular
expressions. -/

namespace ConfigCare.Secret

open Text (lit)

namespace CompiledRule

variable {r : CompiledRule} {content file : Text} {s t : Regex.Span}

/-- The matches of a rule that are looked at: those that are not empty. -/
def visited (r : CompiledRule) (content : Text) : List Regex.Span :=
  (r.pattern.spans content).filter fun s => !s.text.isEmpty

/-- Whether no keyword is asked for, or one is near a match. -/
def near (r : CompiledRule) (content : Text) (s : Regex.Span) : Bool :=
  r.keywords.isEmpty || hasContext content s.offset s.finish r.keywords

theorem near_iff : r.near content s ↔
    r.keywords = [] ∨ hasContext content s.offset s.finish r.keywords = true := by
  simp [near]

/-- What a scan for one rule looks at and what it reports. -/
structure ScansAll (r : CompiledRule) (content file : Text) : Prop where
  nonempty : ∀ s ∈ r.visited content, s.text ≠ []
  ordered : (r.visited content).Pairwise fun s t => s.offset < t.offset ∧ s.finish ≤ t.offset
  found : ∀ s ∈ r.visited content, r.pattern.Finds content s
  covered : ∀ n text, r.pattern.textAt? false content n = some text → text ≠ [] →
    ∃ s ∈ r.visited content, s.offset ≤ n ∧ n < s.finish
  reported : ∀ s ∈ r.visited content, r.finding content file s ∈ r.scan content file ↔
    r.keywords = [] ∨ hasContext content s.offset s.finish r.keywords = true
  listed : r.scan content file =
    ((r.visited content).filter (r.near content)).map (r.finding content file)

theorem mem_visited :
    s ∈ r.visited content ↔ s ∈ r.pattern.spans content ∧ s.text ≠ [] := by
  simp [visited]

theorem ordered_visited (r : CompiledRule) (content : Text) :
    (r.visited content).Pairwise fun s t => s.offset < t.offset ∧ s.finish ≤ t.offset := by
  have hbehind := (r.pattern.pairwise_spans content).filter fun s => !s.text.isEmpty
  refine hbehind.imp_of_mem fun {s t} hs _ hle => ⟨?_, hle⟩
  have hpos := List.length_pos_iff.2 (mem_visited.1 hs).2
  unfold Regex.Span.finish at hle
  omega

/-- Two matches that make one finding are one: their positions lead back to the same offset. -/
theorem finding_inj (hs : s ∈ r.pattern.spans content) (ht : t ∈ r.pattern.spans content)
    (h : r.finding content file s = r.finding content file t) : s = t := by
  have hoffset : s.offset = t.offset := by
    rw [← (leadsBack_finding r file hs).offset, h, (leadsBack_finding r file ht).offset]
  have htext : s.text = t.text := congrArg Finding.secret h
  cases s
  cases t
  simp_all

theorem scan_eq_map (r : CompiledRule) (content file : Text) :
    r.scan content file =
      ((r.visited content).filter (r.near content)).map (r.finding content file) := by
  rw [scan, visited, List.filter_filter]
  congr 2
  funext s
  exact Bool.and_comm _ _

theorem finding_mem_scan_iff (hs : s ∈ r.visited content) :
    r.finding content file s ∈ r.scan content file ↔ r.near content s := by
  rw [scan_eq_map]
  constructor
  · intro hmem
    obtain ⟨t, ht, heq⟩ := List.mem_map.1 hmem
    obtain ⟨htvisited, hnear⟩ := List.mem_filter.1 ht
    rwa [← finding_inj (mem_visited.1 htvisited).1 (mem_visited.1 hs).1 heq]
  · intro hnear
    exact List.mem_map_of_mem (List.mem_filter.2 ⟨hs, hnear⟩)

theorem scansAll (r : CompiledRule) (content file : Text) : r.ScansAll content file where
  nonempty s hs := (mem_visited.1 hs).2
  ordered := ordered_visited r content
  found s hs := Regex.Pattern.finds_of_mem_spans (mem_visited.1 hs).1
  covered n text ht hne := by
    obtain ⟨s, hs, hle, hlt⟩ := Regex.Pattern.exists_mem_spans ht hne
    have hsome : s.text ≠ [] := by
      intro hnil
      rw [Regex.Span.finish, hnil, List.length_nil] at hlt
      omega
    exact ⟨s, mem_visited.2 ⟨hs, hsome⟩, hle, hlt⟩
  reported s hs := (finding_mem_scan_iff hs).trans near_iff
  listed := scan_eq_map r content file

end CompiledRule

/-- The findings of a rule; none, if it is no regular expression. -/
def Rule.findings (content file : Text) (r : Rule) : List Finding :=
  match CompiledRule.ofRule? r with
  | .ok (some c) => c.scan content file
  | _ => []

theorem scan_compile {rules : List Rule} {compiled : List CompiledRule}
    (h : compile rules = .ok compiled) (content file : Text) :
    scan compiled content file = rules.flatMap (Rule.findings content file) := by
  induction rules generalizing compiled with
  | nil => cases h; rfl
  | cons r rs ih =>
    rw [compile] at h
    cases hr : CompiledRule.ofRule? r with
    | error e => simp only [hr] at h; cases h
    | ok c =>
      cases hrs : compile rs with
      | error e => simp only [hr, hrs] at h; cases h
      | ok cs =>
        simp only [hr, hrs, Except.ok.injEq] at h
        subst h
        have hrest := ih hrs
        unfold scan at hrest ⊢
        rw [List.flatMap_append, List.flatMap_cons, hrest, Rule.findings, hr]
        cases c <;> simp

/-- A scan misses nothing and invents nothing. A match is the text that its rule matches where it
begins, or the first that is not empty where it matches the empty text there. -/
theorem scan_misses_nothing {rules : List Rule} {compiled : List CompiledRule}
    (h : compile rules = .ok compiled) (content file : Text) :
    scan compiled content file = rules.flatMap (Rule.findings content file) ∧
      ∀ r ∈ rules, ∀ c, CompiledRule.ofRule? r = .ok (some c) → c.ScansAll content file :=
  ⟨scan_compile h content file, fun _ _ c _ => c.scansAll content file⟩

theorem exists_of_ofRule? {r : Rule} {α : Type} {f : CompiledRule → α} {a : α}
    (h : (CompiledRule.ofRule? r).toOption.join.map f = some a) :
    ∃ c, CompiledRule.ofRule? r = .ok (some c) ∧ f c = a := by
  obtain ⟨c, hc, ha⟩ := Option.map_eq_some_iff.1 h
  refine ⟨c, ?_, ha⟩
  cases hr : CompiledRule.ofRule? r with
  | error e => rw [hr] at hc; cases hc
  | ok c' => rw [hr] at hc; exact congrArg Except.ok hc

/-- A rule that is no regular expression is left out, one that matches the empty text first finds
what stands there all the same, and one with a keyword finds only what is near it. -/
theorem scan_misses_nothing_of_keyword :
    let rules : List Rule := [⟨lit "Broken", lit "(", none, []⟩, ⟨lit "Lazy", lit "b*?", none, []⟩,
      ⟨lit "Token", lit "t[0-9]+", some [lit "API"], []⟩]
    let content := lit "api bt12\nt3" ++ List.replicate 100 ' ' ++ lit "t4"
    ∃ compiled, compile rules = .ok compiled ∧
      (rules.flatMap (Rule.findings content (lit "a.env"))).map
          (fun f => (f.line, f.column, f.secret)) =
        [(1, 5, lit "b"), (1, 6, lit "t12"), (2, 1, lit "t3")] ∧
      scan compiled content (lit "a.env") = rules.flatMap (Rule.findings content (lit "a.env")) ∧
      ∃ c, CompiledRule.ofRule? ⟨lit "Token", lit "t[0-9]+", some [lit "API"], []⟩ = .ok (some c) ∧
        c.ScansAll content (lit "a.env") := by
  intro rules content
  cases h : compile rules with
  | error e =>
    have hsome : (compile rules).toOption.isSome = true := by decide +kernel
    rw [h] at hsome
    cases hsome
  | ok compiled =>
    obtain ⟨hscan, hall⟩ := scan_misses_nothing h content (lit "a.env")
    obtain ⟨c, hc, -⟩ := exists_of_ofRule?
      (show (CompiledRule.ofRule? ⟨lit "Token", lit "t[0-9]+", some [lit "API"], []⟩).toOption.join.map
        (·.keywords) = some [lit "api"] by decide +kernel)
    exact ⟨compiled, rfl, by decide +kernel, hscan, c, hc, hall _ (by simp [rules]) c hc⟩

/-- A match need not be the text that its rule matches where it begins, which may be empty; and one
rule with a repetition that is too large leaves no scan at all. -/
theorem lazy_match_ne_textAt? :
    (∃ c, CompiledRule.ofRule? ⟨lit "Lazy", lit "a*?", none, []⟩ = .ok (some c) ∧
      c.visited (lit "a") = [⟨0, lit "a"⟩] ∧ c.pattern.textAt? false (lit "a") 0 = some []) ∧
    compile [⟨lit "Letter", lit "a", none, []⟩,
      ⟨lit "Many", lit "a\x7b4294967295\x7d", none, []⟩] = .error .repetition := by
  constructor
  · obtain ⟨c, hc, hvalues⟩ := exists_of_ofRule?
      (show (CompiledRule.ofRule? ⟨lit "Lazy", lit "a*?", none, []⟩).toOption.join.map
        (fun c => (c.visited (lit "a"), c.pattern.textAt? false (lit "a") 0)) =
          some ([⟨0, lit "a"⟩], some []) by decide +kernel)
    obtain ⟨hvisited, htext⟩ := Prod.mk.inj hvalues
    exact ⟨c, hc, hvisited, htext⟩
  · have hrefused : (compile [⟨lit "Letter", lit "a", none, []⟩,
        ⟨lit "Many", lit "a\x7b4294967295\x7d", none, []⟩]).map (fun _ => ()) =
          .error .repetition := by decide +kernel
    cases h : compile [⟨lit "Letter", lit "a", none, []⟩,
        ⟨lit "Many", lit "a\x7b4294967295\x7d", none, []⟩] with
    | error e =>
      rw [h] at hrefused
      exact congrArg Except.error (Except.error.inj hrefused)
    | ok compiled =>
      rw [h] at hrefused
      cases hrefused

end ConfigCare.Secret
