import ConfigCare.Proofs.InlineComments
import ConfigCare.Proofs.ReindentersAgree

/-! The comment that a line is split at, and the one at which the scan for delimiters stops. Only the scan
knows of block comments, so they are the same if no block comment begins before. What begins where is told
here by the text in front of it, without either of the two. -/

namespace ConfigCare.Jsonc

open Text

/-- A mark stands outside of string literals behind this part of a line. -/
def Begins (mark : Text) (place : Place) (line before : Text) : Prop :=
  before.foldl (fun p c => Place.next c p) place = .code ∧ before ++ mark <+: line

/-- A line comment begins before every block comment. -/
def LineCommentFirst (place : Place) (line : Text) : Prop :=
  ∀ before, Begins blockComment place line before →
    ∃ b, b.length < before.length ∧ Begins lineComment place line b

variable {mark : Text} {place : Place} {c : Char} {cs before : Text}

theorem begins_nil : Begins mark place (c :: cs) [] ↔ place = .code ∧ mark <+: c :: cs := Iff.rfl

theorem begins_cons :
    Begins mark place (c :: cs) (c :: before) ↔ Begins mark (place.next c) cs before := by
  simp only [Begins, List.foldl_cons, List.cons_append, List.cons_prefix_cons, true_and]

theorem Begins.head_eq {d : Char} (h : Begins mark place (c :: cs) (d :: before)) : d = c :=
  (List.cons_prefix_cons.1 h.2).1

/-- The marks of both kinds of comments are told apart by their second character. -/
theorem not_blockComment_of_lineComment (h : lineComment <+: cs) : ¬ blockComment <+: cs := by
  obtain ⟨r, rfl⟩ := h
  rintro ⟨r', hr⟩
  cases hr

theorem lineCommentFirst_of_begins (hplace : place = .code) (h : lineComment <+: c :: cs) :
    LineCommentFirst place (c :: cs) := by
  intro before hblock
  cases before with
  | nil => exact absurd hblock.2 (not_blockComment_of_lineComment h)
  | cons d ds => exact ⟨[], Nat.succ_pos _, hplace, h⟩

theorem lineCommentFirst_cons (hline : ¬ (place = .code ∧ lineComment <+: c :: cs)) :
    LineCommentFirst place (c :: cs) ↔
      ¬ (place = .code ∧ blockComment <+: c :: cs) ∧ LineCommentFirst (place.next c) cs := by
  constructor
  · refine fun h => ⟨fun hblock => ?_, fun before hbefore => ?_⟩
    · obtain ⟨b, hlt, -⟩ := h [] hblock
      exact absurd hlt (Nat.not_lt_zero _)
    · obtain ⟨b, hlt, hb⟩ := h (c :: before) (begins_cons.2 hbefore)
      cases b with
      | nil => exact absurd (begins_nil.1 hb) hline
      | cons d ds =>
        obtain rfl := hb.head_eq
        exact ⟨ds, Nat.lt_of_succ_lt_succ hlt, begins_cons.1 hb⟩
  · rintro ⟨hblock, hrest⟩ before hbefore
    cases before with
    | nil => exact absurd (begins_nil.1 hbefore) hblock
    | cons d ds =>
      obtain rfl := hbefore.head_eq
      obtain ⟨b, hlt, hb⟩ := hrest ds (begins_cons.1 hbefore)
      exact ⟨d :: b, Nat.succ_lt_succ hlt, begins_cons.2 hb⟩

theorem lineCommentFirst_iff (place : Place) (line : Text) :
    LineCommentFirst place line ↔ blockFirst place line = false := by
  induction line generalizing place with
  | nil =>
    refine iff_of_true (fun before h => ?_) rfl
    have hlen := h.2.length_le
    rw [List.length_append] at hlen
    exact absurd hlen (by simp [blockComment])
  | cons c cs ih =>
    have hbegins (mark : Text) : (decide (place = .code) && startsWith mark (c :: cs)) = true ↔
        place = .code ∧ mark <+: c :: cs := by
      rw [Bool.and_eq_true, decide_eq_true_eq, startsWith_iff]
    rw [blockFirst, if_congr (hbegins lineComment) rfl rfl]
    by_cases hline : place = .code ∧ lineComment <+: c :: cs
    · exact iff_of_true (lineCommentFirst_of_begins hline.1 hline.2) (if_pos hline)
    · rw [lineCommentFirst_cons hline, if_neg hline, ih, Bool.or_eq_false_iff, ← hbegins,
        Bool.not_eq_true]

instance (place : Place) (line : Text) : Decidable (LineCommentFirst place line) :=
  decidable_of_iff _ (lineCommentFirst_iff place line).symm

/-- If no block comment begins before the first line comment of a line, the scan stops at a line comment
exactly where the line is split: behind its code, which together with the comment is all of the line. -/
theorem scanLine_stops_at_split {l : Text} (h : LineCommentFirst .code l) :
    ((scanLine l false).commentStart = none ↔ (splitComment l).2 = none) ∧
    (∀ n, (scanLine l false).commentStart = some n → n = (splitComment l).1.length) ∧
    (splitComment l).1 ++ (splitComment l).2.getD [] = l := by
  have hscan : (scanLine l false).commentStart = commentFrom .code 0 l :=
    (scanFrom_finds 0 .none (show Region.code ≠ .comment by decide) ((lineCommentFirst_iff _ _).1 h)).1
  rw [hscan, splitComment]
  cases hfrom : commentFrom .code 0 l with
  | none => exact ⟨by simp, by simp, List.append_nil l⟩
  | some n =>
    obtain ⟨a, r, rfl, rfl, -⟩ := commentFrom_eq_some hfrom
    refine ⟨by simp, ?_, List.take_append_drop _ _⟩
    rintro _ ⟨⟩
    simp

/-- The literals hold an escaped quote, marks of both kinds and a backslash at their end. -/
theorem scanLine_stops_at_split_of_strings :
    let l := lit "\"a\\\"/*\": \"http://b\\\\\", // /*"
    LineCommentFirst .code l ∧ (splitComment l).2 = some (lit "// /*") ∧
      ((scanLine l false).commentStart = none ↔ (splitComment l).2 = none) := by
  intro l
  have hfirst : LineCommentFirst .code l := by decide
  exact ⟨hfirst, by decide, (scanLine_stops_at_split hfirst).1⟩

/-- Within a block comment only the line is split. -/
example : let l := lit "/* // */"
    ¬ LineCommentFirst .code l ∧ (scanLine l false).commentStart = none ∧
      splitComment l = (lit "/* ", some (lit "// */")) := by decide

end ConfigCare.Jsonc
