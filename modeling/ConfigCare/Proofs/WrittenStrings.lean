import Mathlib.Tactic
import ConfigCare.Proofs.CommentRouting

/-! Strings as they are written are read back as the same strings, and what is read holds no pair of
surrogates side by side: the two halves of a pair are one character. A half that stands alone has no
text to be written as but its escape, and so `spelled` writes it. -/

namespace ConfigCare

namespace Text

theorem digitValue_hexDigit {d : Nat} (h : d < 16) : digitValue (hexDigit d) = d := by
  revert d; decide

theorem isHexDigit_hexDigit {d : Nat} (h : d < 16) : isHexDigit (hexDigit d) = true := by
  revert d; decide

theorem numberOf_hexDigits (width n : Nat) : numberOf 16 (hexDigits width n) = n % 16 ^ width := by
  induction width generalizing n with
  | zero => simp [hexDigits, numberOf, Nat.mod_one]
  | succ width ih =>
    have ih : (hexDigits width (n / 16)).foldl (fun n c => n * 16 + digitValue c) 0 =
        n / 16 % 16 ^ width := ih _
    rw [hexDigits, numberOf, List.foldl_append, ih, List.foldl_cons, List.foldl_nil,
      digitValue_hexDigit (Nat.mod_lt _ (by decide)), Nat.pow_succ', Nat.mod_mul]
    omega

theorem all_isHexDigit_hexDigits (width n : Nat) : (hexDigits width n).all isHexDigit = true := by
  induction width generalizing n with
  | zero => rfl
  | succ width ih =>
    simp only [hexDigits, List.all_append, ih, List.all_cons, List.all_nil,
      isHexDigit_hexDigit (Nat.mod_lt n (by decide : 16 > 0)), Bool.and_self]

theorem length_hexDigits (width n : Nat) : (hexDigits width n).length = width := by
  induction width generalizing n with
  | zero => rfl
  | succ width ih => rw [hexDigits, List.length_append, ih, List.length_singleton]

end Text

namespace Glyph

/-- A glyph as the source of a JSON string: half a surrogate pair as its escape. -/
def spelled : Glyph → Text
  | .char c => [c]
  | .half code => '\\' :: 'u' :: Text.hexDigits 4 code

/-- The halves of one surrogate pair. -/
def joins : Glyph → Glyph → Prop
  | .half high, .half low => high < 0xDC00 ∧ 0xDC00 ≤ low
  | _, _ => False

def inRange : Glyph → Prop
  | .char _ => True
  | .half code => 0xD800 ≤ code ∧ code < 0xE000

end Glyph

namespace WideText

/-- A wide text as JSON source. Where all halves are inside of string literals, this denotes what
the wide text does. -/
def spelled (s : WideText) : Text := s.flatMap Glyph.spelled

@[simp] theorem spelled_nil : spelled [] = [] := rfl

@[simp] theorem spelled_cons (g : Glyph) (s : WideText) : spelled (g :: s) = g.spelled ++ spelled s :=
  rfl

@[simp] theorem spelled_append (s t : WideText) : spelled (s ++ t) = spelled s ++ spelled t :=
  List.flatMap_append

@[simp] theorem spelled_ofText (s : Text) : spelled (ofText s) = s := by
  induction s with
  | nil => rfl
  | cons c cs ih => exact congrArg (c :: ·) ih

/-- A text without halves is its own source. -/
theorem eq_ofText_of_encodeFrom {s : WideText} {t : Text} {n : Nat} (h : encodeFrom n s = .ok t) :
    s = ofText t := by
  induction s generalizing n t with
  | nil => cases h; rfl
  | cons g s ih =>
    cases g with
    | half code => cases h
    | char c =>
      unfold encodeFrom at h
      rcases hs : encodeFrom (n + 1) s with e | u
      · rw [hs] at h; cases h
      · rw [hs] at h
        cases h
        rw [ih hs]
        rfl

theorem eq_ofText_of_encode {s : WideText} {t : Text} (h : encode s = .ok t) : s = ofText t :=
  eq_ofText_of_encodeFrom h

/-- Halves are surrogates, and no two that stand side by side make a pair. -/
structure Unpaired (s : WideText) : Prop where
  inRange : ∀ g ∈ s, g.inRange
  apart : s.IsChain fun a b => ¬ a.joins b

theorem Unpaired.tail {g : Glyph} {s : WideText} (h : Unpaired (g :: s)) : Unpaired s :=
  ⟨fun _ hg => h.inRange _ (List.mem_cons_of_mem _ hg), h.apart.tail⟩

theorem Unpaired.head {g : Glyph} {s : WideText} (h : Unpaired (g :: s)) :
    ∀ g' ∈ s.head?, ¬ g.joins g' := by
  intro g' hg'
  cases s with
  | nil => cases hg'
  | cons _ _ =>
    cases hg'
    exact (List.isChain_cons_cons.1 h.apart).1

end WideText

namespace Json

open WideText (spelled Unpaired)

/-! ## Reading what is written -/

theorem stringFrom_unicode (start offset : Nat) (done : WideText) {code : Nat} (h : code < 16 ^ 4)
    {rest : Text} (hr : rest ≠ []) :
    stringFrom start done offset ('\\' :: 'u' :: (Text.hexDigits 4 code ++ rest)) =
      stringFrom start (addUnit code done) (offset + 6) rest := by
  obtain ⟨e, cs, rfl⟩ := List.exists_cons_of_ne_nil hr
  have hall := Text.all_isHexDigit_hexDigits 4 code
  have hnumber := Text.numberOf_hexDigits 4 code
  rw [Nat.mod_eq_of_lt h] at hnumber
  have hlength := Text.length_hexDigits 4 code
  obtain ⟨a, b, c, d, heq⟩ : ∃ a b c d, Text.hexDigits 4 code = [a, b, c, d] :=
    ⟨_, _, _, _, rfl⟩
  rw [heq] at hall hnumber ⊢
  rw [List.cons_append, List.cons_append, List.cons_append, List.cons_append, List.nil_append,
    stringFrom, if_pos hall, hnumber]

theorem stringFrom_escapedChar (start offset : Nat) (done : WideText) (c : Char) {rest : Text}
    (hr : rest ≠ []) :
    ∃ n, stringFrom start done offset (escapedChar c ++ rest) =
      stringFrom start (.char c :: done) n rest := by
  unfold escapedChar
  split
  · exact ⟨_, rfl⟩
  · exact ⟨_, rfl⟩
  · exact ⟨_, rfl⟩
  · exact ⟨_, rfl⟩
  · exact ⟨_, rfl⟩
  · next hquote hslash _ _ _ =>
    split_ifs with h8 h12 hcontrol
    · obtain rfl : c = Char.ofNat 8 := by rw [← h8, Char.ofNat_toNat]
      exact ⟨_, rfl⟩
    · obtain rfl : c = Char.ofNat 12 := by rw [← h12, Char.ofNat_toNat]
      exact ⟨_, rfl⟩
    · refine ⟨offset + 6, ?_⟩
      rw [List.cons_append, List.cons_append,
        stringFrom_unicode start offset done (by omega : c.toNat < 16 ^ 4) hr]
      congr 1
      have hunit : addUnit.unit c.toNat = .char c := by
        rw [addUnit.unit, if_neg, Char.ofNat_toNat]
        simp only [Bool.and_eq_true, decide_eq_true_eq]
        omega
      unfold addUnit
      split
      · rw [hunit]
      · rw [if_neg, hunit]
        simp only [Bool.and_eq_true, decide_eq_true_eq]
        omega
      · rw [hunit]
    · refine ⟨offset + 1, ?_⟩
      have hstep : stringFrom start done offset (c :: rest) =
          if c.toNat < 32 then fail .control offset
          else stringFrom start (.char c :: done) (offset + 1) rest := by
        rw [stringFrom.eq_def]
        split <;> simp_all
      rw [List.singleton_append, hstep, if_neg hcontrol]

theorem addUnit_half {code : Nat} (h : 0xD800 ≤ code ∧ code < 0xE000) {done : WideText}
    (hd : ∀ g ∈ done.head?, ¬ g.joins (.half code)) : addUnit code done = .half code :: done := by
  have hunit : addUnit.unit code = .half code := by
    rw [addUnit.unit, if_pos (by simpa using h)]
  unfold addUnit
  split
  · rw [hunit]
  · next high done =>
    have := hd _ rfl
    rw [if_neg, hunit]
    simp only [Bool.and_eq_true, decide_eq_true_eq]
    exact fun hjoin => this hjoin.1
  · rw [hunit]

/-- The inside of a string as it is written. -/
def inside (s : WideText) : Text := spelled (s.flatMap escapedGlyph)

theorem inside_cons (g : Glyph) (s : WideText) :
    inside (g :: s) = spelled (escapedGlyph g) ++ inside s := by
  rw [inside, List.flatMap_cons, WideText.spelled_append]; rfl

/-- A string that is written is read back. -/
theorem stringFrom_inside {s : WideText} (hs : Unpaired s) (start offset : Nat) (done : WideText)
    (hd : ∀ g ∈ done.head?, ∀ g' ∈ s.head?, ¬ g.joins g') (rest : Text) :
    ∃ n, stringFrom start done offset (inside s ++ '"' :: rest) =
      .ok (done.reverse ++ s, ⟨n, rest⟩) := by
  induction s generalizing offset done with
  | nil => exact ⟨_, by rw [List.append_nil]; rfl⟩
  | cons g s ih =>
    have hne : inside s ++ '"' :: rest ≠ [] := by simp
    have hhead : ∀ g₁ ∈ (g :: done).head?, ∀ g₂ ∈ s.head?, ¬ g₁.joins g₂ := by
      intro g₁ h₁
      cases h₁
      exact hs.head
    have hstep : ∃ n, stringFrom start done offset (inside (g :: s) ++ '"' :: rest) =
        stringFrom start (g :: done) n (inside s ++ '"' :: rest) := by
      rw [inside_cons, List.append_assoc]
      cases g with
      | char c =>
        rw [escapedGlyph, WideText.spelled_ofText]
        exact stringFrom_escapedChar start offset done c hne
      | half code =>
        have hrange : 0xD800 ≤ code ∧ code < 0xE000 :=
          hs.inRange (.half code) (List.mem_cons_self ..)
        refine ⟨offset + 6, ?_⟩
        rw [escapedGlyph, WideText.spelled_cons, WideText.spelled_nil, List.append_nil,
          Glyph.spelled, List.cons_append, List.cons_append,
          stringFrom_unicode start offset done (by omega) hne,
          addUnit_half hrange fun g' hg' => hd g' hg' _ rfl]
    obtain ⟨n, hn⟩ := hstep
    obtain ⟨k, hk⟩ := ih hs.tail n (g :: done) hhead
    exact ⟨k, by rw [hn, hk, List.reverse_cons, List.append_assoc]; rfl⟩

/-- The source of a string literal. -/
theorem spelled_string (s : WideText) : spelled (string s) = '"' :: (inside s ++ ['"']) := by
  rw [string, WideText.spelled_cons, WideText.spelled_append]; rfl

/-! ## What is read -/

/-- What has been read of a string, in reverse. -/
def Sound (done : WideText) : Prop :=
  (∀ g ∈ done, g.inRange) ∧ done.IsChain fun a b => ¬ b.joins a

theorem Sound.char {done : WideText} (h : Sound done) (c : Char) : Sound (.char c :: done) := by
  refine ⟨List.forall_mem_cons.2 ⟨trivial, h.1⟩, ?_⟩
  cases done with
  | nil => exact List.isChain_singleton _
  | cons g done =>
    refine List.isChain_cons_cons.2 ⟨?_, h.2⟩
    cases g <;> exact id

theorem Sound.addUnit {done : WideText} (h : Sound done) (code : Nat) :
    Sound (addUnit code done) := by
  have hunit : (addUnit.unit code).inRange := by
    unfold addUnit.unit
    split
    · next hrange =>
      simp only [Bool.and_eq_true, decide_eq_true_eq] at hrange
      exact hrange
    · trivial
  unfold Json.addUnit
  split
  · exact ⟨by simpa using hunit, List.isChain_singleton _⟩
  · next high done =>
    split_ifs with hjoin
    · exact Sound.char ⟨(List.forall_mem_cons.1 h.1).2, h.2.tail⟩ _
    · refine ⟨List.forall_mem_cons.2 ⟨hunit, h.1⟩, List.isChain_cons_cons.2 ⟨?_, h.2⟩⟩
      unfold addUnit.unit
      split
      · next hrange =>
        rintro ⟨hhigh, hlow⟩
        simp only [Bool.and_eq_true, decide_eq_true_eq] at hjoin hrange
        exact hjoin ⟨⟨hhigh, hlow⟩, hrange.2⟩
      · exact id
  · next hne =>
    refine ⟨List.forall_mem_cons.2 ⟨hunit, h.1⟩, ?_⟩
    rcases done with _ | ⟨c | code, done⟩
    · exact List.isChain_singleton _
    · exact List.isChain_cons_cons.2 ⟨id, h.2⟩
    · exact absurd rfl (hne _ _)

theorem unpaired_stringFrom {start offset : Nat} {done s : WideText} {t : Text} {c : Cursor}
    (hd : Sound done) (h : stringFrom start done offset t = .ok (s, c)) : Unpaired s := by
  fun_induction stringFrom start done offset t
  case case2 =>
    cases h
    exact ⟨fun g hg => hd.1 g (List.mem_reverse.1 hg), List.isChain_reverse.2 hd.2⟩
  case case4 ih => exact ih (hd.addUnit _) h
  case case7 ih => exact ih (hd.char _) h
  case case10 ih => exact ih (hd.char _) h
  -- the other cases are errors
  all_goals cases h

end Json

end ConfigCare
