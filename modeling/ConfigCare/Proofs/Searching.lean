import ConfigCare.Proofs.Matching

/-! What a search through a text finds: matches one behind another, each the text that the pattern
matches where it begins, or the first that is not empty where it matches the empty text; and one of
them lies over every place where the pattern matches anything. -/

namespace ConfigCare.Regex

open ConfigCare.Regex.Cursor (inText)

namespace Pattern

variable {p : Pattern} {s t : Text} {advance : Bool} {n m fuel : Nat}

/-- The text that a pattern matches at an offset; `advance` asks for one that is not empty. -/
def textAt? (p : Pattern) (advance : Bool) (s : Text) (n : Nat) : Option Text :=
  (p.matchAt? s.length advance (inText s n)).map (inText s n).textTo

/-- Whether a span is what the pattern matches where it begins. The empty text is passed over. -/
def Finds (p : Pattern) (s : Text) (found : Span) : Prop :=
  p.textAt? false s found.offset = some found.text ∨
    p.textAt? false s found.offset = some [] ∧ p.textAt? true s found.offset = some found.text

theorem matchAt?_eq_some (hn : n ≤ s.length) {d : Cursor}
    (h : p.matchAt? s.length advance (inText s n) = some d) :
    ∃ t, p.textAt? advance s n = some t ∧ t <+: s.drop n ∧ d = inText s (n + t.length) ∧
      n + t.length ≤ s.length ∧ (advance = true → t ≠ []) := by
  obtain ⟨hreaches, hadvance⟩ := reaches_of_matchAt? h
  obtain ⟨hle, hlength, hd⟩ := hreaches.eq_inText hn
  have ht : ((inText s n).textTo d).length = d.offset - n := by
    simp only [Cursor.textTo, inText, List.length_take, List.length_drop]
    omega
  refine ⟨(inText s n).textTo d, ?_, List.take_prefix _ _, ?_, ?_, fun ha hnil => ?_⟩
  · rw [textAt?, h]; rfl
  · rw [ht, Nat.add_sub_cancel' hle, ← hd]
  · omega
  · rw [hnil, List.length_nil] at ht
    have hne : d.offset ≠ n := hadvance ha
    omega

theorem prefix_of_textAt? (h : p.textAt? advance s n = some t) : t <+: s.drop n := by
  obtain ⟨d, -, rfl⟩ := Option.map_eq_some_iff.1 h
  exact List.take_prefix _ _

theorem le_of_textAt? (hn : n ≤ s.length) (h : p.textAt? advance s n = some t) :
    n + t.length ≤ s.length ∧ (advance = true → t ≠ []) := by
  obtain ⟨d, hd, -⟩ := Option.map_eq_some_iff.1 h
  obtain ⟨u, hu, -, -, hle, hadvance⟩ := matchAt?_eq_some hn hd
  obtain rfl : u = t := Option.some.inj (hu.symm.trans h)
  exact ⟨hle, hadvance⟩

/-- The empty text is matched only where it is not refused. -/
theorem advance_of_textAt?_nil (hn : n ≤ s.length) (h : p.textAt? advance s n = some []) :
    advance = false := by
  cases advance with
  | false => rfl
  | true => exact absurd rfl ((le_of_textAt? hn h).2 rfl)

/-- A place where something visible is matched lies in the text. -/
theorem lt_of_textAt? (h : p.textAt? advance s n = some t) (ht : t ≠ []) : n < s.length := by
  have hlength := (prefix_of_textAt? h).length_le
  have hpos := List.length_pos_iff.2 ht
  rw [List.length_drop] at hlength
  omega

theorem forward?_inText (s : Text) (n : Nat) :
    (inText s n).forward? = if n < s.length then some (inText s (n + 1)) else none := by
  split
  · next hlt =>
    have hdrop : s.drop n = s[n] :: s.drop (n + 1) := List.drop_eq_getElem_cons hlt
    simp only [Cursor.forward?, inText, hdrop, List.take_succ_eq_append_getElem hlt,
      List.reverse_append, List.reverse_singleton, List.singleton_append]
  · next hge =>
    simp only [Cursor.forward?, inText, List.drop_of_length_le (Nat.le_of_not_lt hge)]

/-- One step of the search, by offsets. -/
theorem spansFrom_inText (hn : n ≤ s.length) :
    p.spansFrom s.length (fuel + 1) advance (inText s n) =
      match p.textAt? advance s n with
      | some t => ⟨n, t⟩ :: p.spansFrom s.length fuel t.isEmpty (inText s (n + t.length))
      | none => if n < s.length then p.spansFrom s.length fuel false (inText s (n + 1)) else [] := by
  rw [spansFrom]
  cases h : p.matchAt? s.length advance (inText s n) with
  | some d =>
    obtain ⟨t, ht, -, rfl, -⟩ := matchAt?_eq_some hn h
    have htext : (inText s n).textTo (inText s (n + t.length)) = t := by
      rw [textAt?, h] at ht
      exact Option.some.inj ht
    have hempty : decide ((inText s (n + t.length)).offset = (inText s n).offset) = t.isEmpty := by
      cases t <;> simp [inText]
    simp only [ht, htext, hempty]
    rfl
  | none =>
    have ht : p.textAt? advance s n = none := by rw [textAt?, h]; rfl
    simp only [ht, forward?_inText]
    by_cases hlt : n < s.length
    · simp only [if_pos hlt]
    · simp only [if_neg hlt]

/-! ## What a search finds -/

theorem bounds_of_mem_spansFrom (hn : n ≤ s.length) :
    ∀ found ∈ p.spansFrom s.length fuel advance (inText s n),
      n ≤ found.offset ∧ found.finish ≤ s.length := by
  induction fuel generalizing n advance with
  | zero => simp [spansFrom]
  | succ fuel ih =>
    intro found hfound
    rw [spansFrom_inText hn] at hfound
    split at hfound
    · next t ht =>
      have hle := (le_of_textAt? hn ht).1
      rcases List.mem_cons.1 hfound with rfl | hfound
      · exact ⟨Nat.le_refl n, hle⟩
      · obtain ⟨hoffset, hfinish⟩ := ih hle found hfound
        exact ⟨Nat.le_of_add_right_le hoffset, hfinish⟩
    · split at hfound
      · next hlt =>
        obtain ⟨hoffset, hfinish⟩ := ih hlt found hfound
        exact ⟨Nat.le_of_succ_le hoffset, hfinish⟩
      · simp at hfound

/-- The matches lie one behind another. -/
theorem pairwise_spansFrom (hn : n ≤ s.length) :
    (p.spansFrom s.length fuel advance (inText s n)).Pairwise fun a b => a.finish ≤ b.offset := by
  induction fuel generalizing n advance with
  | zero => exact .nil
  | succ fuel ih =>
    rw [spansFrom_inText hn]
    split
    · next t ht =>
      have hle := (le_of_textAt? hn ht).1
      exact .cons (fun found hfound => (bounds_of_mem_spansFrom hle found hfound).1) (ih hle)
    · split
      · next hlt => exact ih hlt
      · exact .nil

/-- After an empty match the search goes on at its place, and only then does it ask for a match that
is not empty. -/
theorem finds_of_mem_spansFrom (hn : n ≤ s.length)
    (hafter : advance = true → p.textAt? false s n = some []) :
    ∀ found ∈ p.spansFrom s.length fuel advance (inText s n), p.Finds s found := by
  induction fuel generalizing n advance with
  | zero => simp [spansFrom]
  | succ fuel ih =>
    intro found hfound
    rw [spansFrom_inText hn] at hfound
    split at hfound
    · next t ht =>
      have hle := (le_of_textAt? hn ht).1
      have hhere : p.Finds s ⟨n, t⟩ := by
        cases advance with
        | false => exact .inl ht
        | true => exact .inr ⟨hafter rfl, ht⟩
      rcases List.mem_cons.1 hfound with rfl | hfound
      · exact hhere
      · refine ih hle (fun hempty => ?_) found hfound
        obtain rfl := List.isEmpty_iff.1 hempty
        obtain rfl := advance_of_textAt?_nil hn ht
        exact ht
    · split at hfound
      · next hlt => exact ih hlt (by simp) found hfound
      · simp at hfound

/-- Every place where the pattern matches more than the empty text lies in a match: the search passes
no such place, since there it would have begun one. -/
theorem exists_mem_spansFrom (hn : n ≤ s.length)
    (hafter : advance = true → p.textAt? false s n = some [])
    (hfuel : 2 * (s.length - n) + (if advance then 1 else 2) ≤ fuel) (hm : n ≤ m)
    (ht : p.textAt? false s m = some t) (hne : t ≠ []) :
    ∃ found ∈ p.spansFrom s.length fuel advance (inText s n),
      found.offset ≤ m ∧ m < found.finish := by
  have hlast := lt_of_textAt? ht hne
  induction fuel generalizing n advance with
  | zero => split at hfuel <;> omega
  | succ fuel ih =>
    rw [spansFrom_inText hn]
    split
    · next u hu =>
      have hle := (le_of_textAt? hn hu).1
      rcases Nat.lt_or_ge m (n + u.length) with hin | hbehind
      · exact ⟨⟨n, u⟩, by simp, hm, hin⟩
      · have hafter' : u.isEmpty = true → p.textAt? false s (n + u.length) = some [] := by
          intro hempty
          obtain rfl := List.isEmpty_iff.1 hempty
          obtain rfl := advance_of_textAt?_nil hn hu
          exact hu
        have hfuel' : 2 * (s.length - (n + u.length)) + (if u.isEmpty then 1 else 2) ≤ fuel := by
          cases u with
          | nil =>
            obtain rfl := advance_of_textAt?_nil hn hu
            simp only [Bool.false_eq_true, if_false] at hfuel
            simp only [List.length_nil, Nat.add_zero, List.isEmpty_nil, if_true]
            omega
          | cons x xs =>
            simp only [List.length_cons, List.isEmpty_cons, Bool.false_eq_true, if_false] at hle ⊢
            split at hfuel <;> omega
        obtain ⟨found, hfound, hcover⟩ := ih hle hafter' hfuel' hbehind
        exact ⟨found, List.mem_cons_of_mem _ hfound, hcover⟩
    · next hnone =>
      have hne' : n ≠ m := by
        rintro rfl
        cases advance with
        | false => rw [ht] at hnone; cases hnone
        | true =>
          rw [hafter rfl] at ht
          exact hne (Option.some.inj ht).symm
      have hlt : n < s.length := by omega
      rw [if_pos hlt]
      refine ih hlt (by simp) ?_ (by omega)
      simp only [Bool.false_eq_true, if_false]
      split at hfuel <;> omega

/-! ## The matches in a text -/

theorem pairwise_spans (p : Pattern) (s : Text) :
    (p.spans s).Pairwise fun a b => a.finish ≤ b.offset :=
  pairwise_spansFrom (Nat.zero_le _)

theorem finish_le_of_mem_spans {found : Span} (h : found ∈ p.spans s) : found.finish ≤ s.length :=
  (bounds_of_mem_spansFrom (Nat.zero_le _) found h).2

theorem finds_of_mem_spans {found : Span} (h : found ∈ p.spans s) : p.Finds s found :=
  finds_of_mem_spansFrom (Nat.zero_le _) (by simp) found h

theorem exists_mem_spans (ht : p.textAt? false s n = some t) (hne : t ≠ []) :
    ∃ found ∈ p.spans s, found.offset ≤ n ∧ n < found.finish :=
  exists_mem_spansFrom (Nat.zero_le _) (by simp) (by simp) (Nat.zero_le n) ht hne

/-- A match is what stands in the text at its offset. -/
theorem prefix_of_mem_spans {found : Span} (h : found ∈ p.spans s) :
    found.text <+: s.drop found.offset := by
  rcases finds_of_mem_spans h with hfound | ⟨-, hfound⟩
  · exact prefix_of_textAt? hfound
  · exact prefix_of_textAt? hfound

end Pattern

end ConfigCare.Regex
