import ConfigCare.Proofs.Redaction

/-! What masks give away. A mask tells the length of a secret up to a bound and, of a long one, its two
ends. A text with a secret masked is read as the text itself where nothing of the hidden parts is reached.
So the secret can be left there only if it is long and begins as it ends: then an occurrence of it may
begin in what is shown of another one. -/

namespace ConfigCare.Secret

open Text (lit)
open Piece (shown)

/-! ## What a mask tells -/

section Masks

variable {c : Char} {s t : Text}

theorem mask_of_short (h : s.length ≤ 8) : mask [c] s = List.replicate s.length c := by
  have hshort : s.length ≤ 2 * visibleCount := h
  rw [mask, if_pos hshort, repeated_singleton]

theorem mask_of_long (h : 8 < s.length) : mask [c] s =
    s.take 4 ++ (List.replicate (min (s.length - 8) 16) c ++ s.drop (s.length - 4)) := by
  have hlong : ¬ s.length ≤ 2 * visibleCount := Nat.not_le_of_gt h
  rw [mask, if_neg hlong, repeated_singleton, List.append_assoc]
  rfl

theorem length_mask_of_long (h : 8 < s.length) :
    (mask [c] s).length = 8 + min (s.length - 8) 16 := by
  simp only [mask_of_long h, List.length_append, List.length_take, List.length_replicate,
    List.length_drop]
  omega

/-- Long secrets have one mask if their ends are the same and the marks between them as many. -/
theorem mask_eq_mask_of_long (hs : 8 < s.length) (ht : 8 < t.length) :
    mask [c] s = mask [c] t ↔ s.take 4 = t.take 4 ∧
      s.drop (s.length - 4) = t.drop (t.length - 4) ∧
        min (s.length - 8) 16 = min (t.length - 8) 16 := by
  constructor
  · intro h
    have hmarks : min (s.length - 8) 16 = min (t.length - 8) 16 := by
      have hlength := congrArg List.length h
      rw [length_mask_of_long hs, length_mask_of_long ht] at hlength
      omega
    rw [mask_of_long hs, mask_of_long ht, hmarks] at h
    have hends : (s.take 4).length = (t.take 4).length := by
      rw [List.length_take, List.length_take]
      omega
    obtain ⟨hfirst, hrest⟩ := List.append_inj h hends
    exact ⟨hfirst, List.append_cancel_left hrest, hmarks⟩
  · rintro ⟨hfirst, hlast, hmarks⟩
    rw [mask_of_long hs, mask_of_long ht, hfirst, hlast, hmarks]

/-- A short secret has a mask of its own length, and a long one a longer mask. -/
theorem mask_ne_mask (hs : s.length ≤ 8) (ht : 8 < t.length) : mask [c] s ≠ mask [c] t := by
  intro h
  have hlength := congrArg List.length h
  rw [mask_of_short hs, List.length_replicate, length_mask_of_long ht] at hlength
  omega

end Masks

/-- What a mask tells of a secret, whatever the mark and whether or not the secret holds it: of a short one
its length, and of a long one its ends and how many marks stand for the rest. A short one is never taken
for a long one. -/
theorem mask_eq_mask_iff (c : Char) (s t : Text) :
    (mask [c] s = mask [c] t ↔
      (s.length ≤ 8 ∧ t.length ≤ 8 ∧ s.length = t.length) ∨
      (8 < s.length ∧ 8 < t.length ∧ s.take 4 = t.take 4 ∧
        s.drop (s.length - 4) = t.drop (t.length - 4) ∧
        min (s.length - 8) 16 = min (t.length - 8) 16)) ∧
    ¬ (s.length ≤ 8 ∧ 8 < t.length ∧ mask [c] s = mask [c] t) := by
  refine ⟨?_, fun ⟨hs, ht, h⟩ => mask_ne_mask hs ht h⟩
  rcases Nat.lt_or_ge 8 s.length with hs | hs <;> rcases Nat.lt_or_ge 8 t.length with ht | ht
  · simp [mask_eq_mask_of_long hs ht, hs, ht, Nat.not_le_of_gt]
  · simp [(mask_ne_mask (c := c) ht hs).symm, Nat.not_le_of_gt hs, Nat.not_lt_of_ge ht]
  · simp [mask_ne_mask (c := c) hs ht, Nat.not_le_of_gt ht, Nat.not_lt_of_ge hs]
  · have hlength : List.replicate s.length c = List.replicate t.length c ↔ s.length = t.length :=
      ⟨fun h => by simpa using congrArg List.length h, fun h => by rw [h]⟩
    simp [mask_of_short hs, mask_of_short ht, hlength, hs, ht, Nat.not_lt_of_ge]

/-! ## Where a secret is replaced -/

/-- The offsets where a secret is replaced, in order; `skip` counts the characters of an occurrence still
to be passed over. -/
def replacedFrom (secret : Text) : Nat → Text → List Nat
  | _, [] => []
  | skip + 1, _ :: cs => (replacedFrom secret skip cs).map (· + 1)
  | 0, c :: cs =>
    if Text.startsWith secret (c :: cs) then
      0 :: (replacedFrom secret (secret.length - 1) cs).map (· + 1)
    else (replacedFrom secret 0 cs).map (· + 1)

def replaced (secret text : Text) : List Nat := replacedFrom secret 0 text

/-- Whether a stretch of a text, from one offset up to another, is left as it is: it reaches into none of
the places where the secret is replaced, but for the ends of the secret that are shown there. -/
def Untouched (secret text : Text) (start finish : Nat) : Prop :=
  ∀ j ∈ replaced secret text,
    finish ≤ j + endLength secret ∨ j + secret.length ≤ start + endLength secret

instance (secret text : Text) (start finish : Nat) : Decidable (Untouched secret text start finish) :=
  inferInstanceAs (Decidable (∀ j ∈ _, _))

theorem infix_iff_exists_drop {w s : Text} : w <:+: s ↔ ∃ i ≤ s.length, w <+: s.drop i := by
  constructor
  · rintro ⟨a, b, rfl⟩
    refine ⟨a.length, by simp, ?_⟩
    rw [List.append_assoc, List.drop_left]
    exact List.prefix_append w b
  · rintro ⟨i, -, h⟩
    exact h.isInfix.trans (List.drop_suffix i s).isInfix

section Replaced

variable {secret w : Text}

theorem replaced_cons {c : Char} {l : Text} (h : ¬ secret <+: c :: l) :
    replaced secret (c :: l) = (replaced secret l).map (· + 1) := by
  rw [replaced, replacedFrom, if_neg (by rwa [Text.startsWith_iff])]
  rfl

theorem replacedFrom_append (secret a l : Text) :
    replacedFrom secret a.length (a ++ l) = (replaced secret l).map (· + a.length) := by
  induction a with
  | nil => simp [replaced]
  | cons c cs ih =>
    rw [List.length_cons, List.cons_append, replacedFrom, ih, List.map_map]
    exact List.map_congr_left fun j _ => by simp only [Function.comp_apply]; omega

theorem replaced_occurrence (hsecret : secret ≠ []) (l : Text) :
    replaced secret (secret ++ l) = 0 :: (replaced secret l).map (· + secret.length) := by
  obtain ⟨c, cs, rfl⟩ := List.exists_cons_of_ne_nil hsecret
  have hstart : Text.startsWith (c :: cs) (c :: (cs ++ l)) = true :=
    Text.startsWith_iff.2 ⟨l, rfl⟩
  rw [replaced, List.cons_append, replacedFrom, if_pos hstart, List.length_cons, Nat.add_sub_cancel,
    replacedFrom_append, List.map_map]
  refine congrArg (0 :: ·) (List.map_congr_left fun j _ => ?_)
  simp only [Function.comp_apply]
  omega

theorem prefix_of_mem_replaced (hsecret : secret ≠ []) {text : Text} {j : Nat}
    (h : j ∈ replaced secret text) : secret <+: text.drop j := by
  induction text using occurrence_induction hsecret generalizing j with
  | nil => cases h
  | pass c l hc ih =>
    rw [replaced_cons hc] at h
    obtain ⟨k, hk, rfl⟩ := List.mem_map.1 h
    exact ih hk
  | occur l ih =>
    rw [replaced_occurrence hsecret, List.mem_cons] at h
    rcases h with rfl | h
    · exact List.prefix_append secret l
    · obtain ⟨k, hk, rfl⟩ := List.mem_map.1 h
      rw [Nat.add_comm, List.drop_length_add_append]
      exact ih hk

/-- Every occurrence begins in one that is replaced. -/
theorem exists_mem_replaced (hsecret : secret ≠ []) {text : Text} {i : Nat}
    (h : secret <+: text.drop i) : ∃ j ∈ replaced secret text, j ≤ i ∧ i < j + secret.length := by
  induction text using occurrence_induction hsecret generalizing i with
  | nil =>
    rw [List.drop_nil, List.prefix_nil] at h
    exact absurd h hsecret
  | pass c l hc ih =>
    cases i with
    | zero => exact absurd h hc
    | succ i =>
      obtain ⟨j, hj, hle, hlt⟩ := ih h
      rw [replaced_cons hc]
      exact ⟨j + 1, List.mem_map_of_mem (f := (· + 1)) hj, by omega, by omega⟩
  | occur l ih =>
    rw [replaced_occurrence hsecret]
    rcases Nat.lt_or_ge i secret.length with hi | hi
    · exact ⟨0, List.mem_cons_self, Nat.zero_le i, by omega⟩
    · obtain ⟨k, rfl⟩ := Nat.exists_eq_add_of_le hi
      rw [List.drop_length_add_append] at h
      obtain ⟨j, hj, hle, hlt⟩ := ih h
      refine ⟨j + secret.length, List.mem_cons_of_mem 0 ?_, by omega, by omega⟩
      exact List.mem_map_of_mem (f := (· + secret.length)) hj

theorem infix_map_shown {x : Text} : w.map shown <:+: x.map shown ↔ w <:+: x :=
  ⟨fun h => source_shown x ▸ infix_source h, fun h => h.map shown⟩

/-- Of a text behind some characters that are shown, a part is read where it is untouched. -/
theorem infix_shown_veil_iff (hsecret : secret ≠ []) (x text : Text) :
    w.map shown <:+: x.map shown ++ veil secret text ↔
      ∃ i ≤ (x ++ text).length, w <+: (x ++ text).drop i ∧ ∀ j ∈ replaced secret text,
        i + w.length ≤ x.length + j + endLength secret ∨
          x.length + j + secret.length ≤ i + endLength secret := by
  induction text using occurrence_induction hsecret generalizing x with
  | nil =>
    have hnone : replaced secret [] = [] := rfl
    have hveil : veil secret [] = [] := rfl
    simp [hnone, hveil, infix_map_shown, infix_iff_exists_drop]
  | pass c l hc ih =>
    have hmove : x.map shown ++ shown c :: veil secret l =
        (x ++ [c]).map shown ++ veil secret l := by simp
    rw [veil_cons hc, hmove, ih, replaced_cons hc, ← List.append_cons]
    simp only [List.forall_mem_map, List.length_append, List.length_singleton]
    refine exists_congr fun i => and_congr_right fun _ => and_congr_right fun _ => ?_
    exact forall₂_congr fun j _ => by omega
  | occur l ih =>
    -- What is read stands before the hidden part of this occurrence or behind it.
    have hends := endLength_le secret
    have hbefore : x ++ secret.take (endLength secret) =
        (x ++ (secret ++ l)).take (x.length + endLength secret) := by
      rw [List.take_length_add_append, List.take_append_of_le_length (by omega)]
    have hbehind : secret.drop (secret.length - endLength secret) ++ l =
        (x ++ (secret ++ l)).drop (x.length + (secret.length - endLength secret)) := by
      rw [List.drop_length_add_append, List.drop_append_of_le_length (by omega)]
    rw [veil_occurrence hsecret, pieces, List.append_assoc, List.cons_append, ← List.append_assoc,
      ← List.map_append, infix_append_covered_iff, infix_map_shown, ih, replaced_occurrence hsecret,
      hbefore, hbehind, infix_iff_exists_drop]
    simp only [List.forall_mem_cons, List.forall_mem_map, List.drop_drop, List.drop_take,
      List.prefix_take_iff, List.length_take, List.length_drop, List.length_append]
    constructor
    · rintro (⟨i, hi, hw, hlength⟩ | ⟨i, hi, hw, hrest⟩)
      · exact ⟨i, by omega, hw, .inl (by omega), fun j _ => .inl (by omega)⟩
      · refine ⟨x.length + (secret.length - endLength secret) + i, by omega, hw, .inr (by omega), ?_⟩
        intro j hj
        have := hrest j hj
        omega
    · rintro ⟨i, hi, hw, hplace | hplace, hrest⟩
      · exact .inl ⟨i, by omega, hw, by omega⟩
      · obtain ⟨k, rfl⟩ := Nat.exists_eq_add_of_le
          (show x.length + (secret.length - endLength secret) ≤ i by omega)
        refine .inr ⟨k, by omega, hw, fun j hj => ?_⟩
        have := hrest j hj
        omega

theorem infix_redact_iff_veil (hsecret : secret ≠ []) (hw : '*' ∉ w) (text : Text) :
    w <:+: redact text secret none ↔ w.map shown <:+: veil secret text := by
  have hdisplay : redact text secret none = display (veil secret text) :=
    (display_veil hsecret text).symm
  rw [hdisplay, infix_display_iff (filled_veil hsecret text) hw]

/-- A text without marks is read of a redacted text just where it stands untouched. -/
theorem infix_redact_iff (hsecret : secret ≠ []) (hw : '*' ∉ w) (text : Text) :
    w <:+: redact text secret none ↔
      ∃ i ≤ text.length, w <+: text.drop i ∧ Untouched secret text i (i + w.length) := by
  rw [infix_redact_iff_veil hsecret hw]
  simpa [Untouched] using infix_shown_veil_iff (w := w) hsecret [] text

end Replaced

/-! ## What is left of a secret -/

section Left

variable {secret : Text}

/-- A short secret is hidden as a whole wherever it occurs. -/
theorem not_infix_redact_of_short (hsecret : secret ≠ []) (hstar : '*' ∉ secret)
    (hshort : secret.length ≤ 8) (text : Text) : ¬ secret <:+: redact text secret none := by
  rw [infix_redact_iff hsecret hstar]
  rintro ⟨i, -, hoccurs, huntouched⟩
  obtain ⟨j, hj, hle, hlt⟩ := exists_mem_replaced hsecret hoccurs
  have hends : endLength secret = 0 := if_pos hshort
  have hpos := List.length_pos_iff.2 hsecret
  have := huntouched j hj
  omega

/-- A long secret that begins as it ends is left where its end is followed by the rest of it. -/
theorem infix_redact_of_overlapping (hstar : '*' ∉ secret) (hlong : 8 < secret.length)
    (hoverlap : Overlapping secret) : ∃ text, secret <:+: redact text secret none := by
  have hsecret : secret ≠ [] := List.ne_nil_of_length_pos (by omega)
  have hends : endLength secret = 4 := if_neg (by unfold visibleCount; omega)
  obtain ⟨k, hk, hpos, rest, hrest⟩ := hoverlap
  have hk : k ≤ 4 := hk
  have hlength := congrArg List.length hrest
  rw [List.length_append, List.length_drop] at hlength
  refine ⟨secret ++ rest, (infix_redact_iff hsecret hstar _).2 ⟨secret.length - k, ?_, ?_, ?_⟩⟩
  · rw [List.length_append]
    omega
  · rw [List.drop_append_of_le_length (by omega), hrest]
  · -- the rest of the secret is too short for another place
    have hnone : replaced secret rest = [] := by
      refine List.eq_nil_iff_forall_not_mem.2 fun j hj => ?_
      have := (prefix_of_mem_replaced hsecret hj).length_le
      rw [List.length_drop] at this
      omega
    intro j hj
    rw [replaced_occurrence hsecret, hnone] at hj
    obtain rfl : j = 0 := by simpa using hj
    omega

/-- Where a secret without marks is left in a redacted text: it is read there if an occurrence of it stands
untouched, that is, begins in what is shown of another one at its end. There are texts that leave it just if
it is longer than eight characters and begins as it ends, by at most four characters. -/
theorem redact_leaves_secret_iff (hsecret : secret ≠ []) (hstar : '*' ∉ secret) :
    (∀ text, secret <:+: redact text secret none ↔ ∃ i ≤ text.length,
      secret <+: text.drop i ∧ Untouched secret text i (i + secret.length)) ∧
    ((∀ text, ¬ secret <:+: redact text secret none) ↔
      secret.length ≤ 8 ∨ ¬ Overlapping secret) := by
  refine ⟨infix_redact_iff hsecret hstar, fun hnone => ?_, fun h text hleft => ?_⟩
  · by_contra hsome
    obtain ⟨hlong, hoverlap⟩ := not_or.1 hsome
    obtain ⟨text, hleft⟩ :=
      infix_redact_of_overlapping hstar (Nat.lt_of_not_le hlong) (not_not.1 hoverlap)
    exact hnone text hleft
  · rcases Nat.lt_or_ge 8 secret.length with hlong | hshort
    · refine h.elim (Nat.not_le_of_gt hlong) fun hapart => hapart ?_
      exact overlapping_of_infix_veil hlong ((infix_redact_iff_veil hsecret hstar text).1 hleft)
    · exact not_infix_redact_of_short hsecret hstar hshort text hleft

/-- A key that begins as it ends is left where two of it share what they have in common, and one that does
not is hidden in every text. -/
theorem redact_leaves_secret_of_overlap :
    lit "abcd-1-abcd" <:+: redact (lit "key=abcd-1-abcd-1-abcd;") (lit "abcd-1-abcd") none ∧
      ∀ text, ¬ lit "sk-secret123456789" <:+: redact text (lit "sk-secret123456789") none :=
  ⟨((redact_leaves_secret_iff (by decide) (by decide)).1 _).2 ⟨11, by decide, by decide, by decide⟩,
    (redact_leaves_secret_iff (by decide) (by decide)).2.2 (.inr (by decide))⟩

/-- The last four characters of one occurrence are the first of the next, which is not replaced. -/
theorem redact_leaves_secret_in_chain :
    lit "abcdXabcd" ≠ [] ∧ '*' ∉ lit "abcdXabcd" ∧
      redact (lit "abcdXabcdXabcd") (lit "abcdXabcd") none = lit "abcd*abcdXabcd" ∧
      lit "abcdXabcd" <:+: redact (lit "abcdXabcdXabcd") (lit "abcdXabcd") none := by
  decide

end Left

end ConfigCare.Secret
