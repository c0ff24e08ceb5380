import ConfigCare.Proofs.Disclosure
import ConfigCare.Proofs.Scanning
import ConfigCare.Text.Case

/-! Keywords near a match, which are looked for in lower case. The small form of a capital sigma depends on
the nearest characters to both sides that count, and no other character looks about. So a keyword is found
where it stands, unless its first or last sigma is another one there than in the keyword by itself; and
for every keyword that has such a sigma there are texts where it is lost. -/

namespace ConfigCare

namespace Text

/-! ## Lower case within a text -/

def capitalSigma : Char := Char.ofNat 0x3A3

def smallSigma : Char := Char.ofNat 0x3C3

/-- The small sigma at the end of a word. -/
def finalSigma : Char := Char.ofNat 0x3C2

variable {before before' after after' s t : Text} {c : Char}

/-- Characters that are passed over leave it to those behind them whether the next one has a case. -/
theorem nextIsCased_append (s t : Text) :
    nextIsCased (s ++ t) = if s.all isPassedOver then nextIsCased t else nextIsCased s := by
  induction s with
  | nil => rfl
  | cons c s ih =>
    rw [List.all_cons]
    cases hc : isPassedOver c with
    | true =>
      have hpass (u : Text) : nextIsCased (c :: u) = nextIsCased u := by
        rw [nextIsCased, List.dropWhile_cons_of_pos hc, nextIsCased]
      rw [List.cons_append, hpass, hpass, ih, Bool.true_and]
    | false =>
      have hstop (u : Text) : nextIsCased (c :: u) = isCased c := by
        rw [nextIsCased, List.dropWhile_cons_of_neg (by simp [hc])]
      rw [List.cons_append, hstop, hstop]
      rfl

theorem nextIsCased_of_all (h : s.all isPassedOver = true) : nextIsCased s = false := by
  have := nextIsCased_append s []
  rw [List.append_nil, if_pos h] at this
  exact this

theorem nextIsCased_sigma (s : Text) : nextIsCased (capitalSigma :: s) = true := by
  have hstop : isPassedOver capitalSigma = false := by decide +kernel
  have hcased : isCased capitalSigma = true := by decide +kernel
  rw [nextIsCased, List.dropWhile_cons_of_neg (by simp [hstop])]
  exact hcased

theorem sigma_notMem (h : s.all isPassedOver = true) : capitalSigma ∉ s := fun hmem => by
  have hstop : isPassedOver capitalSigma = false := by decide +kernel
  exact absurd (List.all_eq_true.1 h _ hmem) (by simp [hstop])

theorem lowerBetween_sigma (before after : Text) : lowerBetween before capitalSigma after =
    [if nextIsCased before && !nextIsCased after then finalSigma else smallSigma] :=
  if_pos rfl

theorem lowerBetween_of_ne (h : c ≠ capitalSigma) (before after : Text) :
    lowerBetween before c after = lowerBetween [] c [] := by
  have hcode : c.toNat ≠ 0x3A3 := fun heq => h (Char.toNat_inj.1 heq)
  rw [lowerBetween, lowerBetween, if_neg hcode, if_neg hcode]

/-- The lower case of a text where it stands between the text before it, read backwards, and the text
after. -/
def lowerAmid (before : Text) : Text → Text → Text
  | [], _ => []
  | c :: cs, after => lowerBetween before c (cs ++ after) ++ lowerAmid (c :: before) cs after

theorem lower_eq (s : Text) : lower s = lowerAmid [] s [] := by
  have hfrom (before s : Text) : lowerFrom before s = lowerAmid before s [] := by
    induction s generalizing before with
    | nil => rfl
    | cons c s ih => rw [lowerFrom, lowerAmid, List.append_nil, ih]
  exact hfrom [] s

theorem lowerAmid_append (before s t after : Text) : lowerAmid before (s ++ t) after =
    lowerAmid before s (t ++ after) ++ lowerAmid (s.reverse ++ before) t after := by
  induction s generalizing before with
  | nil => rfl
  | cons c s ih => simp [lowerAmid, ih]

/-- Of its surroundings it counts only whether the nearest characters that are not passed over have a
case. -/
theorem lowerAmid_congr (hbefore : nextIsCased before = nextIsCased before')
    (hafter : nextIsCased after = nextIsCased after') (s : Text) :
    lowerAmid before s after = lowerAmid before' s after' := by
  induction s generalizing before before' with
  | nil => rfl
  | cons c s ih =>
    have hcons : nextIsCased (c :: before) = nextIsCased (c :: before') := by
      refine (nextIsCased_append [c] before).trans ?_
      rw [hbefore]
      exact (nextIsCased_append [c] before').symm
    have hchar : lowerBetween before c (s ++ after) = lowerBetween before' c (s ++ after') := by
      by_cases hc : c = capitalSigma
      · rw [hc, lowerBetween_sigma, lowerBetween_sigma, nextIsCased_append, nextIsCased_append,
          hbefore, hafter]
      · rw [lowerBetween_of_ne hc, lowerBetween_of_ne hc before']
    rw [lowerAmid, lowerAmid, hchar, ih hcons]

/-- Without a sigma nothing of them counts. -/
theorem lowerAmid_of_notMem (h : capitalSigma ∉ s) (before before' after after' : Text) :
    lowerAmid before s after = lowerAmid before' s after' := by
  induction s generalizing before before' with
  | nil => rfl
  | cons c s ih =>
    rw [List.mem_cons, not_or] at h
    rw [lowerAmid, lowerAmid, lowerBetween_of_ne (Ne.symm h.1), lowerBetween_of_ne (Ne.symm h.1) before',
      ih h.2]

/-! ## Texts with a sigma that wavers -/

/-- Whether the lower case of a text depends on what it stands in: a capital sigma is first in it, but for
characters that are passed over, and not followed by one that has a case; or it is last and follows one
that has a case. -/
def Wavers (s : Text) : Prop := ∃ a b, s = a ++ capitalSigma :: b ∧
  ((a.all isPassedOver = true ∧ nextIsCased b = false) ∨
    (b.all isPassedOver = true ∧ nextIsCased a.reverse = true))

theorem not_wavers_of_notMem (h : capitalSigma ∉ s) : ¬ Wavers s := by
  rintro ⟨a, b, rfl, -⟩
  exact h (by simp)

theorem lowerAmid_of_not_wavers (h : ¬ Wavers s) (before after : Text) :
    lowerAmid before s after = lower s := by
  -- along the text, `a` is what of it has been passed
  have hfrom (a b : Text) (hs : s = a ++ b) :
      lowerAmid (a.reverse ++ before) b after = lowerAmid a.reverse b [] := by
    induction b generalizing a with
    | nil => rfl
    | cons c b ih =>
      have hrest := ih (a ++ [c]) (by rw [hs, List.append_assoc]; rfl)
      rw [List.reverse_append, List.reverse_singleton, List.singleton_append, List.cons_append] at hrest
      have hchar : lowerBetween (a.reverse ++ before) c (b ++ after) =
          lowerBetween a.reverse c (b ++ []) := by
        by_cases hc : c = capitalSigma
        · subst hc
          have hsteady := fun hwavers => h ⟨a, b, hs, hwavers⟩
          have hform : (nextIsCased (a.reverse ++ before) && !nextIsCased (b ++ after)) =
              (nextIsCased a.reverse && !nextIsCased b) := by
            rw [nextIsCased_append, nextIsCased_append, List.all_reverse]
            split_ifs with ha hb hb
            · exact absurd (.inl ⟨ha, nextIsCased_of_all hb⟩) hsteady
            · have hnext : nextIsCased b = true := by
                by_contra hnone
                exact hsteady (.inl ⟨ha, Bool.eq_false_iff.2 hnone⟩)
              rw [hnext, Bool.not_true, Bool.and_false, Bool.and_false]
            · have hlast : nextIsCased a.reverse = false := by
                by_contra hsome
                exact hsteady (.inr ⟨hb, by simpa using hsome⟩)
              rw [hlast, Bool.false_and, Bool.false_and]
            · rfl
          rw [lowerBetween_sigma, lowerBetween_sigma, hform, List.append_nil]
        · rw [lowerBetween_of_ne hc, lowerBetween_of_ne hc a.reverse]
      rw [lowerAmid, lowerAmid, hchar, hrest]
  exact (hfrom [] s rfl).trans (lower_eq s).symm

theorem lower_append_append (x s y : Text) : lower (x ++ (s ++ y)) =
    lowerAmid [] x (s ++ y) ++ (lowerAmid x.reverse s y ++ lowerAmid (s.reverse ++ x.reverse) y []) := by
  rw [lower_eq, lowerAmid_append, lowerAmid_append]
  simp

/-- A text that keeps its small form where it stands is found there. -/
theorem infix_lower {x y : Text} (h : lowerAmid x.reverse s y = lower s) :
    lower s <:+: lower (x ++ (s ++ y)) := by
  rw [lower_append_append, h]
  exact ⟨_, _, List.append_assoc _ _ _⟩

theorem lowerAmid_sigma (before a b after : Text) : lowerAmid before (a ++ capitalSigma :: b) after =
    lowerAmid before a [capitalSigma] ++
      lowerBetween (a.reverse ++ before) capitalSigma (b ++ after) ++
      lowerAmid [capitalSigma] b after := by
  rw [lowerAmid_append, lowerAmid, ← List.append_assoc]
  congr 1
  · congr 1
    exact lowerAmid_congr rfl (by rw [List.cons_append, nextIsCased_sigma, nextIsCased_sigma]) a
  · exact lowerAmid_congr (by rw [nextIsCased_sigma, nextIsCased_sigma]) rfl b

/-- A text that wavers is lost beside a letter: there a sigma takes the other form, so one of its own form
is missing. -/
theorem exists_not_infix_lower (h : Wavers s) : ∃ x y, ¬ lower s <:+: lower (x ++ (s ++ y)) := by
  have hcased : nextIsCased ['A'] = true := by decide +kernel
  have hlower (before after : Text) : lowerAmid before ['A'] after = ['a'] :=
    lowerAmid_of_notMem (by decide) before [] after []
  have hfew {x y : Text} (d : Char)
      (hcount : (lower (x ++ (s ++ y))).count d < (lower s).count d) :
      ¬ lower s <:+: lower (x ++ (s ++ y)) :=
    fun hfound => absurd (hfound.sublist.count_le d) (Nat.not_le_of_lt hcount)
  obtain ⟨a, b, rfl, ⟨ha, hb⟩ | ⟨hb, ha⟩⟩ := h
  · have halone : lowerBetween (a.reverse ++ []) capitalSigma (b ++ []) = [smallSigma] := by
      have hnone : nextIsCased a.reverse = false := nextIsCased_of_all (by rw [List.all_reverse, ha])
      simp [lowerBetween_sigma, hnone]
    have hbeside : lowerBetween (a.reverse ++ ['A']) capitalSigma (b ++ []) = [finalSigma] := by
      simp [lowerBetween_sigma, nextIsCased_append, ha, hb, hcased]
    refine ⟨['A'], [], hfew smallSigma ?_⟩
    rw [lower_append_append, lower_eq, hlower, List.reverse_singleton, lowerAmid_sigma,
      lowerAmid_sigma, halone, hbeside, lowerAmid_of_notMem (sigma_notMem ha) ['A'] [] _ [capitalSigma]]
    have hcounts : ['a'].count smallSigma = 0 ∧ [finalSigma].count smallSigma = 0 ∧
      [smallSigma].count smallSigma = 1 := by decide
    simp only [List.count_append, lowerAmid, List.count_nil, hcounts]
    omega
  · have halone : lowerBetween (a.reverse ++ []) capitalSigma (b ++ []) = [finalSigma] := by
      simp [lowerBetween_sigma, nextIsCased_of_all hb, ha]
    have hbeside : lowerBetween (a.reverse ++ []) capitalSigma (b ++ ['A']) = [smallSigma] := by
      simp [lowerBetween_sigma, nextIsCased_append, hb, hcased]
    refine ⟨[], ['A'], hfew finalSigma ?_⟩
    rw [lower_append_append, lower_eq, hlower, List.reverse_nil, lowerAmid_sigma, lowerAmid_sigma,
      halone, hbeside, lowerAmid_of_notMem (sigma_notMem hb) _ [capitalSigma] ['A'] []]
    have hcounts : ['a'].count finalSigma = 0 ∧ [smallSigma].count finalSigma = 0 ∧
      [finalSigma].count finalSigma = 1 := by decide
    simp only [List.count_append, lowerAmid, List.count_nil, hcounts]
    omega

end Text

namespace Secret

open Text (part lit lower lowerAmid nextIsCased Wavers)

/-- Whether a keyword, as it is written, stands at an offset near a stretch of a text: all of it within a
hundred characters of the stretch. -/
structure Near (content : Text) (start finish : Nat) (k : Text) (i : Nat) : Prop where
  occurs : k <+: content.drop i
  first : start - 100 ≤ i
  last : i + k.length ≤ finish + 100

instance (content : Text) (start finish : Nat) (k : Text) (i : Nat) :
    Decidable (Near content start finish k i) :=
  decidable_of_iff (k <+: content.drop i ∧ start - 100 ≤ i ∧ i + k.length ≤ finish + 100)
    ⟨fun ⟨occurs, first, last⟩ => ⟨occurs, first, last⟩, fun h => ⟨h.occurs, h.first, h.last⟩⟩

variable {content k : Text} {start finish i : Nat} {keywords : List Text}

theorem hasContext_iff : hasContext content start finish keywords = true ↔
    ∃ k ∈ keywords, k <:+: lower (part content (start - 100) (finish + 100)) := by
  simp only [← Text.occursIn_iff]
  exact List.any_eq_true

theorem part_append {l m n : Nat} (hl : l ≤ m) (hm : m ≤ n) :
    part content l n = part content l m ++ part content m n := by
  obtain ⟨d, rfl⟩ := Nat.exists_eq_add_of_le hl
  rw [← List.take_append_drop d (part content l n), take_part hm, drop_part]

/-- The text near a stretch is what stands there before a keyword, the keyword and what stands after. -/
theorem Near.part_eq (h : Near content start finish k i) : part content (start - 100) (finish + 100) =
    part content (start - 100) i ++ (k ++ part content (i + k.length) (finish + 100)) := by
  have hkeyword : part content i (i + k.length) = k := by
    rw [part, Nat.add_sub_cancel_left]
    exact (List.prefix_iff_eq_take.1 h.occurs).symm
  rw [part_append h.first (Nat.le_of_add_right_le h.last), part_append (Nat.le_add_right i _) h.last,
    hkeyword]

/-- A keyword near a match counts, if its lower case there is that of the keyword by itself. -/
theorem Near.hasContext (h : Near content start finish k i) (hk : lower k ∈ keywords)
    (hform : lowerAmid (part content (start - 100) i).reverse k
      (part content (i + k.length) (finish + 100)) = lower k) :
    hasContext content start finish keywords = true := by
  rw [hasContext_iff, h.part_eq]
  exact ⟨lower k, hk, Text.infix_lower hform⟩

/-- A keyword that wavers can be lost. -/
theorem exists_near_of_wavers (h : Wavers k) : ∃ content start finish i,
    Near content start finish k i ∧ Secret.hasContext content start finish [lower k] = false := by
  obtain ⟨x, y, hlost⟩ := Text.exists_not_infix_lower h
  refine ⟨x ++ (k ++ y), 0, (x ++ (k ++ y)).length, x.length, ⟨?_, by simp, by simp; omega⟩, ?_⟩
  · rw [List.drop_left]
    exact List.prefix_append k y
  · have hall : part (x ++ (k ++ y)) (0 - 100) ((x ++ (k ++ y)).length + 100) = x ++ (k ++ y) :=
      List.take_of_length_le (by simp only [Nat.zero_sub, List.drop_zero]; omega)
    rw [Bool.eq_false_iff, ne_eq, hasContext_iff, hall]
    rintro ⟨_, hmem, hinfix⟩
    exact hlost (List.mem_singleton.1 hmem ▸ hinfix)

theorem CompiledRule.keywords_eq {r : Rule} {c : CompiledRule}
    (h : CompiledRule.ofRule? r = .ok (some c)) : c.keywords = (r.keywords.getD []).map lower := by
  unfold CompiledRule.ofRule? at h
  split at h
  · cases h
    rfl
  · cases h
  · cases h

/-- Which keywords count. One of a rule that stands near a match as it is written makes the match count,
unless it wavers and stands beside a character that has a case; a match of the rule that counts is reported.
And if a keyword wavers, there are texts where it stands near a match and does not count. -/
theorem keywords_count_iff {r : Rule} {c : CompiledRule} (hr : CompiledRule.ofRule? r = .ok (some c)) :
    (∀ k ∈ r.keywords.getD [], ∀ content start finish i, Near content start finish k i →
      (¬ Wavers k ∨ (nextIsCased (part content (start - 100) i).reverse = false ∧
        nextIsCased (part content (i + k.length) (finish + 100)) = false)) →
      hasContext content start finish c.keywords = true) ∧
    (∀ content file, ∀ s ∈ c.visited content,
      hasContext content s.offset s.finish c.keywords = true →
        c.finding content file s ∈ c.scan content file) ∧
    ∀ k, Wavers k ↔ ∃ content start finish i, Near content start finish k i ∧
      hasContext content start finish [lower k] = false := by
  refine ⟨fun k hk content start finish i hnear hform => ?_, fun content file s hs hcontext => ?_,
    fun k => ⟨exists_near_of_wavers, ?_⟩⟩
  · have hmem : lower k ∈ c.keywords := by
      rw [CompiledRule.keywords_eq hr]
      exact List.mem_map_of_mem hk
    refine hnear.hasContext hmem ?_
    rcases hform with hsteady | ⟨hbefore, hafter⟩
    · exact Text.lowerAmid_of_not_wavers hsteady _ _
    · rw [Text.lower_eq]
      exact Text.lowerAmid_congr hbefore hafter k
  · exact ((c.scansAll content file).reported s hs).2 (.inr hcontext)
  · rintro ⟨content, start, finish, i, hnear, hlost⟩
    by_contra hsteady
    have hfound := hnear.hasContext (List.mem_singleton.2 rfl)
      (Text.lowerAmid_of_not_wavers hsteady _ _)
    rw [hlost] at hfound
    cases hfound

/-- A word that ends with a sigma counts where it stands by itself, and one without a sigma also amid
letters. -/
theorem keywords_count_of_word :
    let r : Rule := ⟨lit "Token", lit "t[0-9]+", some [lit "API", lit "ΟΔΟΣ"], []⟩
    let content := lit "t1 (ΟΔΟΣ)"
    ∃ c, CompiledRule.ofRule? r = .ok (some c) ∧ Wavers (lit "ΟΔΟΣ") ∧
      hasContext content 0 2 c.keywords = true ∧
      c.finding content (lit "a.env") ⟨0, lit "t1"⟩ ∈ c.scan content (lit "a.env") ∧
      hasContext (lit "t1 MyAPIs") 0 2 c.keywords = true := by
  intro r content
  obtain ⟨c, hr, hvisited⟩ := exists_of_ofRule? (r := r)
    (f := fun c => decide (⟨0, lit "t1"⟩ ∈ c.visited content)) (a := true) (by decide +kernel)
  obtain ⟨hcounts, hreported, -⟩ := keywords_count_iff hr
  have hcontext : hasContext content 0 2 c.keywords = true :=
    hcounts (lit "ΟΔΟΣ") (by decide) content 0 2 4 (by decide) (.inr (by decide +kernel))
  have hamid : hasContext (lit "t1 MyAPIs") 0 2 c.keywords = true :=
    hcounts (lit "API") (by decide) _ 0 2 5 (by decide) (.inl (Text.not_wavers_of_notMem (by decide)))
  exact ⟨c, hr, ⟨lit "ΟΔΟ", [], rfl, .inr (by decide +kernel)⟩, hcontext,
    hreported content (lit "a.env") _ (of_decide_eq_true hvisited) hcontext, hamid⟩

/-- Before a dot and a letter the sigma at the end of a keyword is not at the end of a word: the keyword
stands near the match, and the match is not reported. -/
theorem keyword_lost_before_letter :
    let r : Rule := ⟨lit "Token", lit "t[0-9]+", some [lit "ΟΔΟΣ"], []⟩
    let content := lit "ΟΔΟΣ.Α t1"
    Near content 7 9 (lit "ΟΔΟΣ") 0 ∧ ∃ c, CompiledRule.ofRule? r = .ok (some c) ∧
      ⟨7, lit "t1"⟩ ∈ c.visited content ∧ hasContext content 7 9 c.keywords = false ∧
      c.scan content (lit "a.env") = [] := by
  intro r content
  obtain ⟨c, hr, hvalues⟩ := exists_of_ofRule? (r := r)
    (f := fun c => (decide (⟨7, lit "t1"⟩ ∈ c.visited content), hasContext content 7 9 c.keywords,
      c.scan content (lit "a.env"))) (a := (true, false, [])) (by decide +kernel)
  obtain ⟨hvisited, hcontext, hscan⟩ : _ ∧ _ ∧ _ := by simpa only [Prod.mk.injEq] using hvalues
  exact ⟨by decide, c, hr, of_decide_eq_true hvisited, hcontext, hscan⟩

end Secret

end ConfigCare
