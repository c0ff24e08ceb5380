import Mathlib.Data.List.Infix
import Mathlib.Tactic.Common
import ConfigCare.Secret.Finding

/-! A line with a secret masked, piece by piece: characters that are shown, and the interiors of the
places where the secret is replaced, which are covered by marks. A text without marks is read in the
masked line exactly where it stands in the line with nothing of it covered. -/

namespace ConfigCare.Secret

open Text (lit)

inductive Piece where
  | shown (c : Char)
  | covered (interior : Text)
deriving DecidableEq

namespace Piece

def text : Piece → Text
  | shown c => [c]
  | covered t => t

def printed : Piece → Text
  | shown c => [c]
  | covered t => Text.repeated star (min t.length markLimit)

end Piece

open Piece (shown covered)

/-- The line that pieces are made from. -/
def source (ps : List Piece) : Text := ps.flatMap Piece.text

/-- What is printed of pieces. -/
def display (ps : List Piece) : Text := ps.flatMap Piece.printed

/-- How much of a secret is shown at each end. -/
def endLength (secret : Text) : Nat := if secret.length ≤ 2 * visibleCount then 0 else visibleCount

def interior (secret : Text) : Text :=
  (secret.drop (endLength secret)).take (secret.length - 2 * endLength secret)

/-- The pieces of a secret: its ends and what lies between them. -/
def pieces (secret : Text) : List Piece :=
  (secret.take (endLength secret)).map shown ++
    covered (interior secret) :: (secret.drop (secret.length - endLength secret)).map shown

/-- The pieces of a line with a secret masked; `skip` counts the characters of the secret still to be
passed over. -/
def veilFrom (secret : Text) : Nat → Text → List Piece
  | _, [] => []
  | skip + 1, _ :: cs => veilFrom secret skip cs
  | 0, c :: cs =>
    if Text.startsWith secret (c :: cs) then pieces secret ++ veilFrom secret (secret.length - 1) cs
    else shown c :: veilFrom secret 0 cs

def veil (secret line : Text) : List Piece := veilFrom secret 0 line

/-- Whether there is something in every covered stretch, so that marks are printed for it. -/
def Filled (ps : List Piece) : Prop := ∀ t, covered t ∈ ps → t ≠ []

theorem Filled.tail {p : Piece} {ps : List Piece} (h : Filled (p :: ps)) : Filled ps :=
  fun t ht => h t (List.mem_cons_of_mem _ ht)

section Pieces

variable {ps qs : List Piece} {w : Text} {secret line : Text}

@[simp] theorem source_nil : source [] = [] := rfl

@[simp] theorem display_nil : display [] = [] := rfl

@[simp] theorem source_cons (p : Piece) (ps : List Piece) : source (p :: ps) = p.text ++ source ps := by
  simp [source]

@[simp] theorem display_cons (p : Piece) (ps : List Piece) :
    display (p :: ps) = p.printed ++ display ps := by
  simp [display]

@[simp] theorem source_append (ps qs : List Piece) : source (ps ++ qs) = source ps ++ source qs := by
  simp [source]

@[simp] theorem display_append (ps qs : List Piece) :
    display (ps ++ qs) = display ps ++ display qs := by
  simp [display]

@[simp] theorem source_shown (t : Text) : source (t.map shown) = t := by
  induction t with
  | nil => rfl
  | cons c cs ih => rw [List.map_cons, source_cons, ih]; rfl

@[simp] theorem display_shown (t : Text) : display (t.map shown) = t := by
  induction t with
  | nil => rfl
  | cons c cs ih => rw [List.map_cons, display_cons, ih]; rfl

theorem repeated_singleton (c : Char) (n : Nat) : Text.repeated [c] n = List.replicate n c := by
  induction n with
  | zero => rfl
  | succ n ih => rw [Text.repeated, ih]; rfl

theorem repeated_star (n : Nat) : Text.repeated star n = List.replicate n '*' :=
  repeated_singleton '*' n

theorem endLength_le (secret : Text) :
    endLength secret ≤ visibleCount ∧ 2 * endLength secret ≤ secret.length := by
  unfold endLength
  split <;> omega

theorem length_interior (secret : Text) :
    (interior secret).length = secret.length - 2 * endLength secret := by
  have := endLength_le secret
  rw [interior, List.length_take, List.length_drop]
  omega

theorem interior_ne_nil (h : secret ≠ []) : interior secret ≠ [] := by
  have hpos := List.length_pos_iff.2 h
  have hlength := length_interior secret
  intro hnil
  rw [hnil, List.length_nil, endLength] at hlength
  split at hlength <;> omega

theorem source_pieces (secret : Text) : source (pieces secret) = secret := by
  have hends : secret.length - 2 * endLength secret + endLength secret =
      secret.length - endLength secret := by
    have := endLength_le secret
    omega
  simp only [pieces, source_append, source_shown, source_cons, Piece.text, interior]
  rw [← hends, Nat.add_comm, ← List.drop_drop, List.take_append_drop, List.take_append_drop]

theorem display_pieces (secret : Text) : display (pieces secret) = mask star secret := by
  simp only [pieces, display_append, display_shown, display_cons, Piece.printed, length_interior]
  by_cases hshort : secret.length ≤ 2 * visibleCount
  · have hmin : min secret.length markLimit = secret.length := by
      unfold visibleCount at hshort
      unfold markLimit
      omega
    simp [mask, endLength, hshort, hmin]
  · simp [mask, endLength, hshort]

theorem covered_mem_pieces {t : Text} (h : covered t ∈ pieces secret) : t = interior secret := by
  rw [pieces, List.mem_append, List.mem_cons] at h
  rcases h with h | h | h
  · obtain ⟨c, -, hc⟩ := List.mem_map.1 h
    cases hc
  · exact Piece.covered.inj h
  · obtain ⟨c, -, hc⟩ := List.mem_map.1 h
    cases hc

theorem display_veilFrom (secret : Text) (skip : Nat) (line : Text) :
    display (veilFrom secret skip line) =
      Text.replaceFrom secret (mask star secret) skip line := by
  induction line generalizing skip with
  | nil => rfl
  | cons c cs ih =>
    cases skip with
    | succ skip => exact ih skip
    | zero =>
      simp only [veilFrom, Text.replaceFrom]
      split
      · rw [display_append, display_pieces, ih]
      · rw [display_cons, ih]; rfl

/-- The pieces are printed as the line with the secret replaced. -/
theorem display_veil (hsecret : secret ≠ []) (line : Text) :
    display (veil secret line) = redact line secret (some (mask star secret)) := by
  rw [veil, display_veilFrom, redact, Text.replace, if_neg (by simpa using hsecret)]
  rfl

end Pieces

/-! ## One occurrence after another -/

theorem veilFrom_append (secret a l : Text) :
    veilFrom secret a.length (a ++ l) = veilFrom secret 0 l := by
  induction a with
  | nil => rfl
  | cons c cs ih => exact ih

section Occurrences

variable {secret : Text} (hsecret : secret ≠ [])

include hsecret

theorem veil_occurrence (l : Text) : veil secret (secret ++ l) = pieces secret ++ veil secret l := by
  obtain ⟨c, cs, rfl⟩ := List.exists_cons_of_ne_nil hsecret
  have hstart : Text.startsWith (c :: cs) (c :: (cs ++ l)) = true :=
    Text.startsWith_iff.2 ⟨l, rfl⟩
  rw [veil, List.cons_append, veilFrom, if_pos hstart]
  exact congrArg (pieces (c :: cs) ++ ·) (veilFrom_append _ cs l)

omit hsecret in
theorem veil_cons {c : Char} {l : Text} (h : ¬ secret <+: c :: l) :
    veil secret (c :: l) = shown c :: veil secret l := by
  rw [veil, veilFrom, if_neg (by rwa [Text.startsWith_iff])]
  rfl

/-- A line is gone through by occurrences of a secret and by characters where none begins. -/
@[elab_as_elim]
theorem occurrence_induction {motive : Text → Prop} (nil : motive [])
    (pass : ∀ c l, ¬ secret <+: c :: l → motive l → motive (c :: l))
    (occur : ∀ l, motive l → motive (secret ++ l)) (line : Text) : motive line := by
  induction hn : line.length using Nat.strong_induction_on generalizing line with
  | _ n ih =>
    cases line with
    | nil => exact nil
    | cons c l =>
      by_cases h : secret <+: c :: l
      · obtain ⟨rest, hrest⟩ := h
        have hlength := congrArg List.length hrest
        have hpos := List.length_pos_iff.2 hsecret
        rw [List.length_append] at hlength
        rw [← hrest]
        exact occur rest (ih rest.length (by omega) rest rfl)
      · exact pass c l h (ih l.length (by simp [← hn]) l rfl)

theorem source_veil (line : Text) : source (veil secret line) = line := by
  induction line using occurrence_induction hsecret with
  | nil => rfl
  | pass c l h ih => rw [veil_cons h, source_cons, ih]; rfl
  | occur l ih => rw [veil_occurrence hsecret, source_append, source_pieces, ih]

omit hsecret in
/-- A secret that does not occur hides nothing. -/
theorem veil_eq_shown {line : Text} (h : ¬ secret <:+: line) : veil secret line = line.map shown := by
  induction line with
  | nil => rfl
  | cons c l ih =>
    rw [List.infix_cons_iff, not_or] at h
    rw [veil_cons h.1, ih h.2]
    rfl

theorem filled_veil (line : Text) : Filled (veil secret line) := by
  intro t ht
  induction line using occurrence_induction hsecret with
  | nil => cases ht
  | pass c l h ih =>
    rw [veil_cons h] at ht
    exact ih (by simpa using ht)
  | occur l ih =>
    rw [veil_occurrence hsecret, List.mem_append] at ht
    rcases ht with ht | ht
    · rw [covered_mem_pieces ht]
      exact interior_ne_nil hsecret
    · exact ih ht

end Occurrences

/-! ## What is read of pieces -/

section Reading

variable {ps : List Piece} {w : Text}

theorem prefix_repeated_star_append_iff (hw : '*' ∉ w) {n : Nat} (hn : n ≠ 0) (t : Text) :
    w <+: Text.repeated star n ++ t ↔ w = [] := by
  obtain ⟨n, rfl⟩ := Nat.exists_eq_succ_of_ne_zero hn
  cases w with
  | nil => simp
  | cons c w =>
    rw [List.mem_cons, not_or] at hw
    simp [repeated_star, List.replicate_succ, List.cons_prefix_cons, Ne.symm hw.1]

/-- Marks are no part of a text without marks. -/
theorem infix_repeated_star_append_iff (hw : '*' ∉ w) (n : Nat) (t : Text) :
    w <:+: Text.repeated star n ++ t ↔ w <:+: t := by
  induction n with
  | zero => rfl
  | succ n ih =>
    refine List.infix_cons_iff.trans ((or_congr_right ih).trans (or_iff_right_of_imp fun h => ?_))
    rw [(prefix_repeated_star_append_iff hw n.succ_ne_zero t).1 h]
    exact List.nil_infix

theorem prefix_covered_iff (w t : Text) : w.map shown <+: covered t :: ps ↔ w = [] := by
  cases w <;> simp [List.cons_prefix_cons]

theorem prefix_display_iff (hps : Filled ps) (hw : '*' ∉ w) :
    w <+: display ps ↔ w.map shown <+: ps := by
  induction ps generalizing w with
  | nil => simp
  | cons p ps ih =>
    cases p with
    | shown d =>
      cases w with
      | nil => simp
      | cons c w =>
        have hstep := ih hps.tail fun h => hw (List.mem_cons_of_mem _ h)
        simp [Piece.printed, List.cons_prefix_cons, hstep]
    | covered t =>
      have hmarks : min t.length markLimit ≠ 0 := by
        have := List.length_pos_iff.2 (hps t List.mem_cons_self)
        unfold markLimit
        omega
      rw [display_cons, Piece.printed, prefix_repeated_star_append_iff hw hmarks, prefix_covered_iff]

/-- A text without marks is read where all of it is shown. -/
theorem infix_display_iff (hps : Filled ps) (hw : '*' ∉ w) :
    w <:+: display ps ↔ w.map shown <:+: ps := by
  induction ps with
  | nil => simp
  | cons p ps ih =>
    rw [List.infix_cons_iff, ← ih hps.tail]
    cases p with
    | shown d =>
      rw [← prefix_display_iff hps hw]
      exact List.infix_cons_iff
    | covered t =>
      rw [display_cons, Piece.printed, infix_repeated_star_append_iff hw, prefix_covered_iff]
      refine (or_iff_right_of_imp fun h => ?_).symm
      rw [h]
      exact List.nil_infix

end Reading

/-! ## Previews -/

/-- The pieces behind the first characters that are printed. -/
def cut : Nat → List Piece → List Piece
  | 0, _ => []
  | _, [] => []
  | n + 1, shown c :: ps => shown c :: cut n ps
  | n + 1, covered t :: ps => covered (t.take (n + 1)) :: cut (n + 1 - min t.length markLimit) ps

/-- The pieces that are printed if so many characters are allowed, with an ellipsis for the others. -/
def abridge (limit : Nat) (ps : List Piece) : List Piece :=
  if limit < (display ps).length then cut limit ps ++ (lit "...").map shown else ps

section Previews

variable {ps qs : List Piece} {w : Text}

@[simp] theorem cut_zero (ps : List Piece) : cut 0 ps = [] := by cases ps <;> rfl

@[simp] theorem cut_nil (n : Nat) : cut n [] = [] := by cases n <;> rfl

theorem length_display_cons (p : Piece) (ps : List Piece) :
    (display (p :: ps)).length = p.printed.length + (display ps).length := by
  rw [display_cons, List.length_append]

theorem length_printed_covered (t : Text) : (covered t).printed.length = min t.length markLimit := by
  rw [Piece.printed, repeated_star, List.length_replicate]

theorem display_cut (n : Nat) (ps : List Piece) : display (cut n ps) = (display ps).take n := by
  induction ps generalizing n with
  | nil => simp
  | cons p ps ih =>
    cases n with
    | zero => simp
    | succ n =>
      cases p with
      | shown c => simp [cut, ih, Piece.printed]
      | covered t =>
        rw [cut, display_cons, display_cons, ih, List.take_append, length_printed_covered,
          Piece.printed, Piece.printed, repeated_star, repeated_star, List.take_replicate,
          List.length_take, Nat.min_assoc]

theorem cut_append (n : Nat) (ps qs : List Piece) :
    cut n (ps ++ qs) = cut n ps ++ cut (n - (display ps).length) qs := by
  induction ps generalizing n with
  | nil => simp
  | cons p ps ih =>
    cases n with
    | zero => simp
    | succ n =>
      rw [length_display_cons, ← Nat.sub_sub]
      cases p with
      | shown c =>
        rw [List.cons_append, cut, cut, ih]
        rfl
      | covered t =>
        rw [List.cons_append, cut, cut, ih, length_printed_covered]
        rfl

theorem cut_shown (n : Nat) (t : Text) : cut n (t.map shown) = (t.take n).map shown := by
  induction t generalizing n with
  | nil => simp
  | cons c t ih =>
    cases n with
    | zero => simp
    | succ n => rw [List.map_cons, cut, ih]; rfl

theorem Filled.cut (hps : Filled ps) (n : Nat) : Filled (cut n ps) := by
  induction ps generalizing n with
  | nil => simp [Filled]
  | cons p ps ih =>
    intro t ht
    cases n with
    | zero => simp at ht
    | succ n =>
      cases p with
      | shown c => exact ih hps.tail n t (by simpa [Secret.cut] using ht)
      | covered u =>
        rw [Secret.cut, List.mem_cons] at ht
        rcases ht with ht | ht
        · obtain ⟨d, u, rfl⟩ := List.exists_cons_of_ne_nil (hps u List.mem_cons_self)
          rw [Piece.covered.inj ht]
          exact List.cons_ne_nil _ _
        · exact ih hps.tail _ t ht

theorem Filled.abridge (hps : Filled ps) (limit : Nat) : Filled (abridge limit ps) := by
  intro t ht
  unfold Secret.abridge at ht
  split at ht
  · refine hps.cut limit t ((List.mem_append.1 ht).resolve_right fun h => ?_)
    obtain ⟨c, -, hc⟩ := List.mem_map.1 h
    cases hc
  · exact hps t ht

theorem display_abridge (limit : Nat) (ps : List Piece) : display (abridge limit ps) =
    if limit < (display ps).length then (display ps).take limit ++ lit "..." else display ps := by
  unfold abridge
  split
  · rw [display_append, display_cut, display_shown]
  · rfl

/-- What is shown within the limit is not cut off. -/
theorem infix_abridge {front back : List Piece} {limit : Nat}
    (hps : ps = front ++ (w.map shown ++ back)) (hlimit : (display front).length + w.length ≤ limit) :
    w.map shown <:+: abridge limit ps := by
  unfold abridge
  split
  · have hcut : cut limit ps =
        cut limit front ++ (w.map shown ++ cut (limit - (display front).length - w.length) back) := by
      rw [hps, cut_append, cut_append, cut_shown, display_shown, List.take_of_length_le (by omega)]
    rw [hcut, List.append_assoc, List.append_assoc]
    exact ⟨cut limit front, _, by rw [List.append_assoc]⟩
  · exact ⟨front, back, by rw [hps, List.append_assoc]⟩

theorem infix_concat_iff_of_getLast? {d : Char} (hlast : ∀ c ∈ w.getLast?, c ≠ d) (t : Text) :
    w <:+: t ++ [d] ↔ w <:+: t := by
  rw [List.infix_concat_iff, List.suffix_concat_iff]
  refine or_iff_right_of_imp fun h => ?_
  rcases h with rfl | ⟨v, rfl, -⟩
  · exact List.nil_infix
  · exact absurd rfl (hlast d (by simp))

/-- Abridging shows nothing more, if it is not the dots of the ellipsis. -/
theorem infix_of_infix_abridge {limit : Nat} (hps : Filled ps) (hw : '*' ∉ w)
    (hlast : ∀ c ∈ w.getLast?, c ≠ '.') (h : w.map shown <:+: abridge limit ps) :
    w.map shown <:+: ps := by
  rw [← infix_display_iff (hps.abridge limit) hw, display_abridge] at h
  rw [← infix_display_iff hps hw]
  split at h
  · have hdots : ∀ t : Text, t ++ lit "..." = t ++ ['.'] ++ ['.'] ++ ['.'] := by simp [lit]
    rw [hdots, infix_concat_iff_of_getLast? hlast, infix_concat_iff_of_getLast? hlast,
      infix_concat_iff_of_getLast? hlast] at h
    exact h.trans (List.take_prefix _ _).isInfix
  · exact h

end Previews

/-! ## Where a secret is shown -/

/-- Whether no occurrence of a secret in a line reaches into a stretch of it. -/
def Clear (secret line : Text) (start finish : Nat) : Prop :=
  ∀ n ≤ line.length, secret <+: line.drop n → n + secret.length ≤ start ∨ finish ≤ n

instance (secret line : Text) (start finish : Nat) : Decidable (Clear secret line start finish) :=
  inferInstanceAs (Decidable (∀ n ≤ line.length, _))

/-- Whether a secret occurs in a line at one place at most. -/
def Once (secret line : Text) : Prop :=
  ∀ i ≤ line.length, ∀ j ≤ line.length, secret <+: line.drop i → secret <+: line.drop j → i = j

instance (secret line : Text) : Decidable (Once secret line) :=
  inferInstanceAs (Decidable (∀ i ≤ line.length, _))

/-- Whether a secret begins as it ends, within what is shown of its end: then another occurrence of it
may begin in that end. -/
def Overlapping (secret : Text) : Prop :=
  ∃ k ≤ visibleCount, 0 < k ∧ secret.drop (secret.length - k) <+: secret

instance (secret : Text) : Decidable (Overlapping secret) :=
  inferInstanceAs (Decidable (∃ k ≤ visibleCount, _))

section Shown

variable {ps qs : List Piece} {w secret : Text}

theorem prefix_source (h : w.map shown <+: ps) : w <+: source ps :=
  source_shown w ▸ h.flatMap Piece.text

theorem infix_source (h : w.map shown <:+: ps) : w <:+: source ps :=
  source_shown w ▸ h.flatMap Piece.text

theorem suffix_source {t : Text} (h : w.map shown <:+ t.map shown) : w <:+ t :=
  source_shown w ▸ source_shown t ▸ h.flatMap Piece.text

theorem length_display_le (ps : List Piece) : (display ps).length ≤ (source ps).length := by
  induction ps with
  | nil => rfl
  | cons p ps ih =>
    have hpiece : p.printed.length ≤ p.text.length := by
      cases p with
      | shown c => rfl
      | covered t => exact (length_printed_covered t).le.trans (Nat.min_le_left _ _)
    rw [length_display_cons, source_cons, List.length_append]
    omega

theorem Clear.of_append {x l : Text} {i j : Nat}
    (h : Clear secret (x ++ l) (x.length + i) (x.length + j)) : Clear secret l i j := by
  intro n hn hsecret
  have := h (x.length + n) (by simp [hn]) (by rwa [List.drop_length_add_append])
  omega

theorem Clear.of_cons {c : Char} {l : Text} {i j : Nat} (h : Clear secret (c :: l) (i + 1) (j + 1)) :
    Clear secret l i j := by
  intro n hn hsecret
  have := h (n + 1) (Nat.succ_le_succ hn) hsecret
  omega

theorem Clear.of_le {line : Text} {i i' j : Nat} (h : Clear secret line i j) (hi : i ≤ i') :
    Clear secret line i' j :=
  fun n hn hsecret => (h n hn hsecret).imp_left fun hle => hle.trans hi

theorem Clear.not_prefix {line : Text} {finish : Nat} (hsecret : secret ≠ [])
    (h : Clear secret line 0 finish) (hfinish : 0 < finish) : ¬ secret <+: line := by
  intro hprefix
  have hpos := List.length_pos_iff.2 hsecret
  rcases h 0 (Nat.zero_le _) hprefix with hle | hle <;> omega

theorem prefix_veil_of_clear (hsecret : secret ≠ []) {b : Text}
    (h : Clear secret (w ++ b) 0 w.length) : w.map shown <+: veil secret (w ++ b) := by
  induction w with
  | nil => exact List.nil_prefix
  | cons c w ih =>
    have hrest : Clear secret (w ++ b) 0 w.length := (h.of_le (Nat.zero_le 1)).of_cons
    have hfirst : ¬ secret <+: c :: (w ++ b) := h.not_prefix hsecret (Nat.succ_pos _)
    rw [List.cons_append, veil_cons hfirst, List.map_cons, List.cons_prefix_cons]
    exact ⟨rfl, ih hrest⟩

/-- A stretch of a line that no occurrence of the secret reaches into is shown. -/
theorem exists_veil_of_clear (hsecret : secret ≠ []) {a b : Text}
    (h : Clear secret (a ++ (w ++ b)) a.length (a.length + w.length)) :
    ∃ front back, veil secret (a ++ (w ++ b)) = front ++ (w.map shown ++ back) ∧ source front = a := by
  generalize hline : a ++ (w ++ b) = line at h
  induction line using occurrence_induction hsecret generalizing a with
  | nil =>
    obtain ⟨rfl, rfl, -⟩ : a = [] ∧ w = [] ∧ b = [] := by simpa using hline
    exact ⟨[], [], rfl, rfl⟩
  | pass c l hc ih =>
    cases a with
    | nil =>
      rw [List.nil_append] at hline
      rw [← hline, List.length_nil, Nat.zero_add] at h
      obtain ⟨back, hback⟩ := prefix_veil_of_clear hsecret h
      exact ⟨[], back, by rw [← hline, ← hback, List.nil_append], rfl⟩
    | cons d a =>
      obtain ⟨rfl, hl⟩ := List.cons.inj hline
      rw [List.length_cons, Nat.add_right_comm] at h
      obtain ⟨front, back, hveil, hfront⟩ := ih hl h.of_cons
      refine ⟨shown d :: front, back, ?_, ?_⟩
      · rw [veil_cons hc, hveil]; rfl
      · rw [source_cons, hfront]; rfl
  | occur l ih =>
    rcases h 0 (Nat.zero_le _) (List.prefix_append _ _) with hle | hle
    · obtain ⟨a, rfl⟩ := List.prefix_of_prefix_length_le (List.prefix_append secret l)
        (hline ▸ List.prefix_append a _) (by omega)
      rw [List.append_assoc, List.append_cancel_left_eq] at hline
      rw [List.length_append, Nat.add_assoc] at h
      obtain ⟨front, back, hveil, hfront⟩ := ih hline h.of_append
      refine ⟨pieces secret ++ front, back, ?_, ?_⟩
      · rw [veil_occurrence hsecret, hveil, List.append_assoc]
      · rw [source_append, source_pieces, hfront]
    · obtain ⟨rfl, rfl⟩ : a = [] ∧ w = [] := by
        constructor <;> exact List.eq_nil_of_length_eq_zero (by omega)
      exact ⟨[], veil secret (secret ++ l), rfl, rfl⟩

theorem prefix_append_covered_iff {t : Text} :
    w.map shown <+: ps ++ covered t :: qs ↔ w.map shown <+: ps := by
  induction ps generalizing w with
  | nil => simp [prefix_covered_iff]
  | cons p ps ih =>
    cases w with
    | nil => simp
    | cons c w => simp [List.cons_prefix_cons, ih]

theorem infix_append_covered_iff {t : Text} :
    w.map shown <:+: ps ++ covered t :: qs ↔ w.map shown <:+: ps ∨ w.map shown <:+: qs := by
  induction ps with
  | nil =>
    rw [List.nil_append, List.infix_cons_iff, prefix_covered_iff, List.infix_nil, List.map_eq_nil_iff]
  | cons p ps ih =>
    rw [List.cons_append, List.infix_cons_iff, List.infix_cons_iff, ih, ← List.cons_append,
      prefix_append_covered_iff, or_assoc]

/-- A secret that is long enough is shown as a whole only if it overlaps itself. -/
theorem overlapping_of_infix_veil {line : Text} (hlong : 2 * visibleCount < secret.length)
    (h : secret.map shown <:+: veil secret line) : Overlapping secret := by
  have hsecret : secret ≠ [] := List.ne_nil_of_length_pos (by omega)
  have hends : endLength secret = visibleCount := if_neg (by omega)
  induction line using occurrence_induction hsecret with
  | nil => exact absurd (List.eq_nil_of_infix_nil (infix_source h)) hsecret
  | pass c l hc ih =>
    rw [veil_cons hc, List.infix_cons_iff] at h
    rcases h with h | h
    · -- then it would occur here
      have := prefix_source (veil_cons hc ▸ h)
      rw [source_veil hsecret] at this
      exact absurd this hc
    · exact ih h
  | occur l ih =>
    rw [veil_occurrence hsecret, pieces, List.append_assoc, List.cons_append,
      infix_append_covered_iff, hends, List.infix_append_iff] at h
    have hlast : (secret.drop (secret.length - visibleCount)).length = visibleCount := by
      rw [List.length_drop]
      omega
    rcases h with h | h | h | ⟨x, y, hxy, hx, hy⟩
    · have := h.length_le
      simp only [List.length_map, List.length_take] at this
      omega
    · have := h.length_le
      simp only [List.length_map, hlast] at this
      omega
    · exact ih h
    · -- it would begin in the end of the occurrence and go on behind
      obtain ⟨e, t, hparts, rfl, rfl⟩ := List.map_eq_append_iff.1 hxy
      cases e with
      | nil => exact ih (hparts ▸ hy.isInfix)
      | cons c e =>
        have he : c :: e <:+ secret.drop (secret.length - visibleCount) := suffix_source hx
        refine ⟨(c :: e).length, hlast ▸ he.length_le, Nat.succ_pos _, ?_⟩
        rw [← List.suffix_iff_eq_drop.1 (he.trans (List.drop_suffix _ _))]
        exact ⟨t, hparts.symm⟩

end Shown

end ConfigCare.Secret
