import ConfigCare.Proofs.CanonicalForm

/-! The limits of reading JSON. Reading fails at one of them only where the text goes over it: where more
delimiters are open at once than there may be levels, or where too many digits stand in a row. That is
carried through the reader with the level at which each part of it begins. Lists within lists, and an
integer in them, show that both limits are met. -/

namespace ConfigCare

/-- The delimiters that are open at the end of a text, outside of string literals. -/
def Jsonc.opened (p : Text) : Int := rise (tokens p)

namespace Json

open Jsonc

/-! ## Where a limit is met -/

/-- What a text has to do with a failure to read it, if so many levels can be read from its start: an
opening delimiter stands so much deeper, or there are as many digits in a row as are told. -/
def Exceeds (refuse : Bool) (levels : Int) (s : Text) : Failure → Prop
  | .depth => ∃ p o, p ++ [o] <+: s ∧ isOpener o ∧ Plain levels p
  | .digits n => digitLimit < n ∧ ∃ ds, ds <:+: s ∧ ds.all Text.isAsciiDigit ∧ ds.length = n
  | .constant _ => refuse = true
  | .syntaxAt .. => True

/-- Every failure of a step has to do with its text. -/
def Blames {α : Type} (refuse : Bool) (levels : Int) (read : Step α) : Prop :=
  ∀ ⦃c e⦄, read c = .error e → Exceeds refuse levels c.rest e

variable {refuse : Bool}

theorem Passes.exceeds {m n : Int} {s r : Text} (h : Passes m s r) {e : Failure}
    (he : Exceeds refuse n r e) : Exceeds refuse (m + n) s e := by
  obtain ⟨q, rfl, hq⟩ := h
  cases e with
  | depth =>
    obtain ⟨p, o, ⟨t, rfl⟩, ho, hp⟩ := he
    exact ⟨q ++ p, o, ⟨t, by simp⟩, ho, hq.append hp⟩
  | digits =>
    obtain ⟨hlimit, ds, hds, hdigits, hlength⟩ := he
    exact ⟨hlimit, ds, hds.trans (List.suffix_append q r).isInfix, hdigits, hlength⟩
  | constant => exact he
  | syntaxAt => trivial

/-- On one level. -/
theorem Passes.exceeds_level {n : Int} {s r : Text} (h : Passes 0 s r) {e : Failure}
    (he : Exceeds refuse n r e) : Exceeds refuse n s e := by
  simpa using h.exceeds he

theorem exceeds_stringFrom {levels : Int} {s t : Text} {start offset : Nat} {done : WideText}
    {e : Failure} (h : stringFrom start done offset s = .error e) : Exceeds refuse levels t e := by
  fun_induction stringFrom start done offset s with
  | case2 => cases h
  | case4 _ _ _ _ _ _ _ _ _ ih => exact ih h
  | case7 _ _ _ _ _ _ _ _ ih => exact ih h
  | case10 _ _ _ _ _ _ _ _ _ ih => exact ih h
  | _ => cases h; trivial

theorem prefix_of_whole? {s w : Text} (h : Numeral.whole? s = some w) : w <+: s := by
  unfold Numeral.whole? at h
  split at h
  · cases h
    exact ⟨_, rfl⟩
  · split at h
    · cases h
      exact List.cons_prefix_cons.2 ⟨rfl, List.takeWhile_prefix _⟩
    · cases h
  · cases h

theorem blames_scalar (refuse : Bool) (levels : Int) : Blames refuse levels (scalar refuse) := by
  intro c e h
  unfold scalar at h
  split at h
  · cases h
  · next w e' hw =>
    cases h
    have hmem := List.mem_of_find?_eq_some hw
    simp only [words, words.constant, List.mem_cons, Prod.mk.injEq, List.not_mem_nil, or_false,
      reduceCtorEq, and_false, false_or] at hmem
    rcases hmem with ⟨-, h⟩ | ⟨-, h⟩ | ⟨-, h⟩ <;> split at h <;> cases h <;> assumption
  · split at h
    · cases h
      trivial
    · next n hn =>
      split at h
      · next e' hvalue =>
        cases h
        unfold Numeral.value at hvalue
        split at hvalue
        · split at hvalue
          · next hlimit =>
            cases hvalue
            obtain ⟨t, hs, hwhole, -, -⟩ := Numeral.read?_eq_some hn
            have hsuffix : t <:+ c.rest := by
              rcases hs with ⟨-, hs⟩ | ⟨-, hs⟩
              · exact hs ▸ List.suffix_cons _ _
              · exact hs ▸ List.suffix_refl _
            exact ⟨hlimit, n.whole, (prefix_of_whole? hwhole).isInfix.trans hsuffix.isInfix,
              all_whole? hwhole, rfl⟩
          · cases hvalue
        · cases hvalue
      · cases h

theorem blames_key (levels : Int) : Blames refuse levels key := by
  intro c e h
  unfold key at h
  split at h
  · split at h
    · next hstring =>
      cases h
      exact exceeds_stringFrom hstring
    · split at h
      · cases h
      · cases h
        trivial
  · cases h
    trivial

theorem error_of_map_error {ε α β : Type} {x : Except ε α} {f : α → β} {e : ε}
    (h : x.map f = .error e) : x = .error e := by
  cases x with
  | error => cases h; rfl
  | ok => cases h

section

variable {levels : Int} {read : Step Data} (hpasses : PassesOver 0 read)
  (hread : Blames refuse levels read)

include hpasses hread

theorem blames_items (fuel : Nat) (done : List Data) : Blames refuse levels (items read fuel done) := by
  induction fuel generalizing done with
  | zero => intro c e h; cases h; trivial
  | succ fuel ih =>
    intro c e h
    unfold items at h
    split at h
    · next hitem =>
      cases h
      exact hread hitem
    · next v c₁ hv =>
      have hskip := (hpasses hv).level (passes_skip c₁)
      split at h
      · cases h
      · next n cs hc =>
        rw [hc] at hskip
        exact (hskip.level passes_comma).exceeds_level (ih _ h)
      · cases h
        trivial

theorem blames_members (fuel : Nat) (done : List (WideText × Data)) :
    Blames refuse levels (members read fuel done) := by
  induction fuel generalizing done with
  | zero => intro c e h; cases h; trivial
  | succ fuel ih =>
    intro c e h
    unfold members at h
    split at h
    · next hkey =>
      cases h
      exact blames_key levels hkey
    · next k c₁ hk =>
      split at h
      · next hvalue =>
        cases h
        exact (passesOver_key hk).exceeds_level (hread hvalue)
      · next v c₂ hv =>
        have hskip := (passesOver_key hk).level ((hpasses hv).level (passes_skip c₂))
        split at h
        · cases h
        · next n cs hc =>
          rw [hc] at hskip
          exact (hskip.level passes_comma).exceeds_level (ih _ h)
        · cases h
          trivial

theorem blames_list (fuel : Nat) : Blames refuse levels (list read fuel) := by
  intro c e h
  unfold list at h
  split at h
  · cases h
  · exact (passes_skip c).exceeds_level
      (blames_items hpasses hread fuel [] (error_of_map_error h))

theorem blames_table (fuel : Nat) : Blames refuse levels (table read fuel) := by
  intro c e h
  unfold table at h
  split at h
  · cases h
  · exact (passes_skip c).exceeds_level
      (blames_members hpasses hread fuel [] (error_of_map_error h))

end

/-- A reader of so many levels fails for its depth only at a delimiter that opens one more. -/
theorem blames_value (refuse : Bool) (fuel levels : Nat) :
    Blames refuse levels (value refuse fuel levels) := by
  induction levels with
  | zero =>
    intro c e h
    have hopener {o : Char} {cs : Text} (hc : c.rest = o :: cs) (ho : isOpener o) :
        Exceeds refuse 0 c.rest .depth := ⟨[], o, hc ▸ ⟨cs, rfl⟩, ho, .nil⟩
    unfold value valueWith at h
    split at h
    · exact exceeds_stringFrom (error_of_map_error h)
    · contradiction
    · contradiction
    · next hc _ =>
      cases h
      exact hopener hc (by decide)
    · next hc _ =>
      cases h
      exact hopener hc (by decide)
    · exact blames_scalar refuse _ h
  | succ levels ih =>
    intro c e h
    have hpasses := passesOver_value refuse fuel levels
    rw [Nat.cast_succ, add_comm]
    unfold value valueWith at h
    split at h
    · exact exceeds_stringFrom (error_of_map_error h)
    · next cs read hc hinner =>
      cases hinner
      rw [hc]
      exact (passes_cons (by decide) cs).exceeds (blames_list hpasses ih fuel h)
    · next cs read hc hinner =>
      cases hinner
      rw [hc]
      exact (passes_cons (by decide) cs).exceeds (blames_table hpasses ih fuel h)
    · contradiction
    · contradiction
    · exact blames_scalar refuse _ h

theorem exceeds_document {s : Text} {e : Failure} (h : document refuse s = .error e) :
    Exceeds refuse depthLimit s e := by
  unfold document at h
  split at h
  · cases h
    trivial
  · split at h
    · next hvalue =>
      cases h
      exact (passes_skip ⟨0, s⟩).exceeds_level (blames_value refuse _ _ hvalue)
    · split at h
      · cases h
      · cases h
        trivial

theorem exceeds_of_read {s : Text} {e : ReadError} (h : read refuse s = .error e) :
    ∃ f, Exceeds refuse depthLimit s f ∧ f.toError s = e := by
  unfold read at h
  split at h
  · next f hf =>
    cases h
    exact ⟨f, exceeds_document hf, rfl⟩
  · cases h

theorem opened_of_plain {n : Int} {p : Text} (h : Plain n p) : opened p = n := by
  obtain ⟨ts, w, hread, -, hrise⟩ := h []
  rw [opened, tokens, Lexer.tokens, hread, rise_append, hrise]
  simp [Lexer.finish]

/-- Reading fails for its depth only where more delimiters are open at once than there may be levels. -/
theorem opened_of_read_depth {s : Text} (h : read refuse s = .error .depth) :
    ∃ p, p <+: s ∧ opened p = depthLimit + 1 := by
  obtain ⟨f, hf, he⟩ := exceeds_of_read h
  cases f <;> cases he
  obtain ⟨p, o, hprefix, ho, hp⟩ := hf
  have hone : Plain 1 [o] := by
    have hplain : isPlain o ∧ (Token.mark o).rise = 1 := by
      rcases Bool.or_eq_true_iff.1 ho with h | h <;> rw [of_decide_eq_true h] <;> decide
    exact hplain.2 ▸ plain_char hplain.1
  exact ⟨p ++ [o], hprefix, opened_of_plain (hp.append hone)⟩

theorem digits_of_read_digits {s : Text} {n : Nat} (h : read refuse s = .error (.digits n)) :
    digitLimit < n ∧ ∃ ds, ds <:+: s ∧ ds.all Text.isAsciiDigit ∧ ds.length = n := by
  obtain ⟨f, hf, he⟩ := exceeds_of_read h
  cases f <;> cases he
  exact hf

/-- Constants fail only where they are refused. -/
theorem refuse_of_read_constant {s name : Text} (h : read refuse s = .error (.constant name)) :
    refuse = true := by
  obtain ⟨f, hf, he⟩ := exceeds_of_read h
  cases f <;> cases he
  exact hf

/-! ## Texts beyond a limit -/

/-- Lists within lists, with white space in front of each, and what stands in the innermost. -/
def nested (ws : List Text) (inner : Text) : Text := ws.foldr (fun w s => w ++ '[' :: s) inner

/-- A text that is no end of a list, and whose first value a reader of so many levels fails to read. -/
structure Fails (refuse : Bool) (fuel levels : Nat) (e : Failure) (s : Text) : Prop where
  unmarked : s.head? ≠ some '\uFEFF'
  item : ∀ offset n cs, skip ⟨offset, s⟩ ≠ ⟨n, ']' :: cs⟩
  value : ∀ offset, value refuse (fuel + 1) levels (skip ⟨offset, s⟩) = .error e

variable {fuel levels : Nat} {e : Failure} {w s rest : Text} {ws : List Text} {c : Char}

theorem fails_of_value (hw : w.all isSpace = true) (hc : c ≠ ']' ∧ c ≠ '\uFEFF' ∧ isSpace c = false)
    (h : ∀ n, value refuse (fuel + 1) levels ⟨n, c :: s⟩ = .error e) :
    Fails refuse fuel levels e (w ++ c :: s) := by
  have hskip := skip_append (s := c :: s) hw (by simpa using hc.2.2)
  refine ⟨?_, fun offset n cs heq => ?_, fun offset => ?_⟩
  · cases w with
    | nil => simpa using hc.2.1
    | cons d w =>
      rintro ⟨⟩
      exact absurd (List.all_eq_true.1 hw _ List.mem_cons_self) (by decide)
  · obtain ⟨m, hm⟩ := hskip offset
    rw [hm] at heq
    cases heq
    exact hc.1 rfl
  · obtain ⟨m, hm⟩ := hskip offset
    rw [hm, h]

/-- The failure to read the first item of a list is that of the list. -/
theorem Fails.list (h : Fails refuse fuel levels e s) (hw : w.all isSpace = true) :
    Fails refuse fuel (levels + 1) e (w ++ '[' :: s) := by
  refine fails_of_value hw (by decide) fun n => ?_
  show Json.list (Json.value refuse (fuel + 1) levels) (fuel + 1) ⟨n + 1, s⟩ = .error e
  unfold Json.list
  split
  · next heq => exact absurd heq (h.item _ _ _)
  · rw [items, h.value]
    rfl

theorem Fails.nested (h : Fails refuse fuel levels e s) (hws : ∀ w ∈ ws, w.all isSpace = true) :
    Fails refuse fuel (levels + ws.length) e (nested ws s) := by
  induction ws with
  | nil => exact h
  | cons w ws ih =>
    rw [List.forall_mem_cons] at hws
    exact (ih hws.2).list hws.1

theorem Fails.document (h : ∀ fuel, Fails refuse fuel depthLimit e s) :
    document refuse s = .error e := by
  unfold Json.document
  split
  · exact absurd rfl (h 0).unmarked
  · rw [(h _).value]

/-- A delimiter that opens one level more than there may be ends the reading, whatever stands behind. -/
theorem read_nested_depth (hws : ∀ w ∈ ws, w.all isSpace = true) (hlevels : ws.length = depthLimit)
    (hw : w.all isSpace = true) (hc : isOpener c) :
    read refuse (nested ws (w ++ c :: rest)) = .error .depth := by
  suffices h : document refuse (nested ws (w ++ c :: rest)) = .error .depth by rw [read, h]; rfl
  refine Fails.document fun fuel => ?_
  have hopener : Fails refuse fuel 0 .depth (w ++ c :: rest) := by
    rcases Bool.or_eq_true_iff.1 hc with hc | hc <;>
      exact of_decide_eq_true hc ▸ fails_of_value hw (by decide) fun n => rfl
  have hnested := hopener.nested hws
  rwa [Nat.zero_add, hlevels] at hnested

/-- So does an integer of too many digits. -/
theorem read_nested_digits (hws : ∀ w ∈ ws, w.all isSpace = true) (hlevels : ws.length ≤ depthLimit)
    (hw : w.all isSpace = true) {ds : Text} (hds : ds.all Text.isAsciiDigit = true)
    (hzero : ds.head? ≠ some '0') (hlong : digitLimit < ds.length) (hrest : Stops rest) :
    read refuse (nested ws (w ++ (ds ++ rest))) = .error (.digits ds.length) := by
  obtain ⟨c, cs, rfl⟩ := List.exists_cons_of_length_pos (by omega : 0 < ds.length)
  have hnumeral : Numeral.WellFormed ⟨false, c :: cs, [], none⟩ :=
    ⟨by simp, hds, fun h => absurd h hzero, rfl, by simp⟩
  have htext : Numeral.text ⟨false, c :: cs, [], none⟩ = c :: cs := by
    simp [Numeral.text, Numeral.fractionText, Numeral.exponentText]
  have hdigit : ∀ d, Text.isAsciiDigit d = false → c ≠ d := by
    rintro d hd rfl
    simp [hd] at hds
  suffices h : document refuse (nested ws (w ++ (c :: cs ++ rest))) =
      .error (.digits (c :: cs).length) by rw [read, h]; rfl
  refine Fails.document fun fuel => ?_
  have hinteger : Fails refuse fuel (depthLimit - ws.length) (.digits (c :: cs).length)
      (w ++ c :: (cs ++ rest)) := by
    refine fails_of_value hw ⟨hdigit _ (by decide), hdigit _ (by decide), ?_⟩ fun n => ?_
    · simp [isSpace, hdigit ' ' (by decide), hdigit '\t' (by decide), hdigit '\n' (by decide),
        hdigit '\r' (by decide)]
    · rw [value_eq, valueWith_scalar ⟨hdigit _ (by decide), hdigit _ (by decide), hdigit _ (by decide)⟩]
      have hread := Numeral.read?_text hnumeral hrest
      have hword := find?_words_text refuse hnumeral rest
      rw [htext] at hread hword
      unfold scalar
      simp only [List.cons_append] at hread hword
      simp only [hword, hread, Numeral.value]
      rw [if_pos (by rfl), if_pos hlong]
  have hnested := hinteger.nested hws
  rwa [Nat.sub_add_cancel hlevels] at hnested

end Json

end ConfigCare
