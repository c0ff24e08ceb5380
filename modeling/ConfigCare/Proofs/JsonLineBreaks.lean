import ConfigCare.Proofs.LineBreaks
import ConfigCare.Proofs.ReadingLimits
import ConfigCare.Proofs.WrittenValues

/-! The JSON reader takes a text and the same text with a return in front of every line feed alike:
between tokens both are white space, in a string neither is allowed, and no other token holds either.
So every part of the reader fails on both texts or reads one value from both and stops at the same
place, and a document is formatted alike in both forms: `document_ignores_returns`. -/

namespace ConfigCare.Json

open Text (withReturns withReturns_break withReturns_cons withReturns_eq_cons)

/-! ## Tokens without line breaks -/

/-- A token that both texts start with is followed in both by the same text. -/
theorem drop_withReturns {p s : Text} (h : p <+: s) (h' : p <+: withReturns s) :
    (withReturns s).drop p.length = withReturns (s.drop p.length) := by
  induction p generalizing s with
  | nil => rfl
  | cons c p ih =>
    obtain ⟨r, rfl⟩ := h
    by_cases hc : c = '\n'
    · subst hc
      simp at h'
    · rw [List.cons_append, withReturns_cons hc] at h' ⊢
      exact ih (List.prefix_append p r) (List.cons_prefix_cons.1 h').2

theorem takeWhile_withReturns {p : Char → Bool} (hn : p '\n' = false) (hr : p '\r' = false)
    (s : Text) : (withReturns s).takeWhile p = s.takeWhile p := by
  induction s with
  | nil => rfl
  | cons c s ih =>
    by_cases hc : c = '\n'
    · subst hc
      simp [hn, hr]
    · simp [withReturns_cons hc, List.takeWhile_cons, ih]

namespace Numeral

theorem whole?_withReturns (s : Text) : whole? (withReturns s) = whole? s := by
  cases s with
  | nil => rfl
  | cons c s =>
    by_cases hc : c = '\n'
    · subst hc
      rfl
    · have hdigits := takeWhile_withReturns (p := Text.isAsciiDigit) rfl rfl s
      by_cases hz : c = '0'
      · subst hz
        rfl
      · simp [withReturns_cons hc, whole?, hdigits]

theorem fractionAt_withReturns (s : Text) : fractionAt (withReturns s) = fractionAt s := by
  cases s with
  | nil => rfl
  | cons c s =>
    by_cases hc : c = '\n'
    · subst hc
      rfl
    · have hdigits := takeWhile_withReturns (p := Text.isAsciiDigit) rfl rfl s
      by_cases hp : c = '.'
      · subst hp
        exact hdigits
      · simp [withReturns_cons hc, fractionAt, hp]

theorem exponent?_withReturns (s : Text) : exponent? (withReturns s) = exponent? s := by
  have hdigits := takeWhile_withReturns (p := Text.isAsciiDigit) rfl rfl
  cases s with
  | nil => rfl
  | cons c s =>
    by_cases hc : c = '\n'
    · subst hc
      rfl
    · rw [withReturns_cons hc]
      cases s with
      | nil => rfl
      | cons d s =>
        by_cases hd : d = '\n'
        · subst hd
          simp [exponent?, show Text.isAsciiDigit '\r' = false from rfl,
            show Text.isAsciiDigit '\n' = false from rfl]
        · have hds := hdigits (d :: s)
          rw [withReturns_cons hd] at hds ⊢
          by_cases hplus : d = '+'
          · subst hplus
            simp [exponent?, hdigits]
          by_cases hminus : d = '-'
          · subst hminus
            simp [exponent?, hdigits]
          · simp [exponent?, hplus, hminus, hds]

theorem prefix_fractionAt (s : Text) : fractionText (fractionAt s) <+: s := by
  unfold fractionAt fractionText
  split
  · split
    · exact List.nil_prefix
    · exact (List.cons_prefix_cons.2 ⟨rfl, List.takeWhile_prefix _⟩)
  · exact List.nil_prefix

theorem prefix_exponent? (s : Text) : exponentText (exponent? s) <+: s := by
  have hdigits (t : Text) : t.takeWhile Text.isAsciiDigit <+: t := List.takeWhile_prefix _
  rcases h : exponent? s with - | ⟨e, sign, ds⟩
  · exact List.nil_prefix
  · unfold exponent? at h
    split at h
    · split at h
      · simp only [Option.ite_none_left_eq_some, Option.some.injEq, Prod.mk.injEq] at h
        obtain ⟨-, rfl, rfl, rfl⟩ := h
        split
        · next t => simpa [exponentText] using hdigits t
        · next t => simpa [exponentText] using hdigits t
        · simpa [exponentText] using hdigits _
      · cases h
    · cases h

/-- A number stands at the start of the text that it is read from. -/
theorem prefix_read? {s : Text} {n : Numeral} (h : read? s = some n) : n.text <+: s := by
  obtain ⟨t, hs, hwhole, hfraction, hexponent⟩ := read?_eq_some h
  obtain ⟨r, rfl⟩ := prefix_of_whole? hwhole
  rw [List.drop_left] at hfraction hexponent
  obtain ⟨r₁, hr₁⟩ := prefix_fractionAt r
  rw [← hfraction] at hr₁
  rw [← hr₁, ← length_fractionText, List.drop_left] at hexponent
  obtain ⟨r₂, hr₂⟩ := prefix_exponent? r₁
  rw [← hexponent] at hr₂
  refine ⟨r₂, ?_⟩
  rw [text, List.append_assoc, List.append_assoc, List.append_assoc, hr₂, hr₁]
  rcases hs with ⟨hneg, rfl⟩ | ⟨hneg, rfl⟩ <;> simp [hneg]

theorem readUnsigned_withReturns (negative : Bool) (s : Text) :
    readUnsigned negative (withReturns s) = readUnsigned negative s := by
  unfold readUnsigned
  rw [whole?_withReturns]
  rcases hw : whole? s with - | whole
  · rfl
  · have hdrop : (withReturns s).drop whole.length = withReturns (s.drop whole.length) :=
      drop_withReturns (prefix_of_whole? hw) (prefix_of_whole? ((whole?_withReturns s).trans hw))
    simp only [hdrop]
    generalize s.drop whole.length = t
    have hpast := drop_withReturns (prefix_fractionAt t)
      (fractionAt_withReturns t ▸ prefix_fractionAt (withReturns t))
    rw [length_fractionText, fractionLength] at hpast
    rw [fractionAt_withReturns]
    split
    · rw [exponent?_withReturns]
    · next hne =>
      rw [if_neg hne] at hpast
      rw [hpast, exponent?_withReturns]

theorem read?_withReturns (s : Text) : read? (withReturns s) = read? s := by
  have hsign : splitSign (withReturns s) = ((splitSign s).1, withReturns (splitSign s).2) := by
    cases s with
    | nil => rfl
    | cons c s =>
      by_cases hc : c = '\n'
      · subst hc
        rfl
      · rw [withReturns_cons hc]
        by_cases hm : c = '-'
        · subst hm
          rfl
        · simp [splitSign, withReturns_cons hc, hm]
  rw [read?_eq, read?_eq, hsign, readUnsigned_withReturns]

end Numeral

/-! ## Two runs of a reader -/

variable {α β : Type}

/-- Both runs failed, or both read one value, and the second text goes on as the first one does. -/
inductive Agree : Except Failure (α × Cursor) → Except Failure (α × Cursor) → Prop
  | ok (a : α) {c c' : Cursor} (h : c'.rest = withReturns c.rest) : Agree (.ok (a, c)) (.ok (a, c'))
  | error (e e' : Failure) : Agree (.error e) (.error e')

theorem Agree.map {x y : Except Failure (α × Cursor)} (h : Agree x y) (f : α → β) :
    Agree (x.map fun r => (f r.1, r.2)) (y.map fun r => (f r.1, r.2)) := by
  cases h with
  | ok a h => exact .ok (f a) h
  | error e e' => exact .error e e'

/-- Two readers that agree on a text of less than so many characters. -/
def Alike (n : Nat) (read read' : Step α) : Prop :=
  ∀ ⦃c c'⦄, c.rest.length < n → c'.rest = withReturns c.rest → Agree (read c) (read' c')

theorem Passes.length_le {n : Int} {s r : Text} (h : Passes n s r) : r.length ≤ s.length := by
  obtain ⟨p, rfl, -⟩ := h
  simp

theorem dropWhile_isSpace_withReturns (s : Text) :
    (withReturns s).dropWhile isSpace = withReturns (s.dropWhile isSpace) := by
  induction s with
  | nil => rfl
  | cons c s ih =>
    by_cases hc : c = '\n'
    · subst hc
      simpa [isSpace] using ih
    · by_cases hs : isSpace c <;> simp [withReturns_cons hc, hs, ih]

theorem rest_skip_withReturns {c c' : Cursor} (h : c'.rest = withReturns c.rest) :
    (skip c').rest = withReturns (skip c).rest := by
  have hrest : (skip c).rest = c.rest.dropWhile isSpace := Cursor.skipFrom_rest ..
  rw [hrest, ← dropWhile_isSpace_withReturns, ← h]
  exact Cursor.skipFrom_rest ..

/-- Behind white space both texts end, or go on with the same character. -/
theorem skip_withReturns {c c' : Cursor} (h : c'.rest = withReturns c.rest) :
    (∃ n n', skip c = ⟨n, []⟩ ∧ skip c' = ⟨n', []⟩) ∨
      ∃ n n' x s, isSpace x = false ∧ skip c = ⟨n, x :: s⟩ ∧ skip c' = ⟨n', x :: withReturns s⟩ := by
  have hrest : (skip c).rest = c.rest.dropWhile isSpace := Cursor.skipFrom_rest ..
  have hrest' := rest_skip_withReturns h
  have hvisible := List.head?_dropWhile_not isSpace c.rest
  rw [← hrest] at hvisible
  generalize skip c = d at *
  generalize skip c' = d' at *
  obtain ⟨n, s⟩ := d
  obtain ⟨n', s'⟩ := d'
  obtain rfl : s' = withReturns s := hrest'
  cases s with
  | nil => exact .inl ⟨n, n', rfl, rfl⟩
  | cons x s =>
    have hx : isSpace x = false := by simpa using hvisible
    have hbreak : x ≠ '\n' := by rintro rfl; cases hx
    exact .inr ⟨n, n', x, s, hx, rfl, by rw [withReturns_cons hbreak]⟩

/-! ## Words and numbers -/

theorem visible_words {refuse : Bool} {w : Text × Except Failure Data} (h : w ∈ words refuse) :
    w.1.all fun c => !Text.isBlank c := by
  have hw : w.1 ∈ ["null", "true", "false", "NaN", "Infinity", "-Infinity"].map Text.lit :=
    List.mem_map_of_mem (f := Prod.fst) h
  generalize w.1 = t at hw
  revert t
  decide

theorem agree_scalar (refuse : Bool) {c c' : Cursor} (h : c'.rest = withReturns c.rest) :
    Agree (scalar refuse c) (scalar refuse c') := by
  have hread : Numeral.read? c'.rest = Numeral.read? c.rest := by
    rw [h, Numeral.read?_withReturns]
  have hwords : ∀ w ∈ words refuse, Text.startsWith w.1 c'.rest = Text.startsWith w.1 c.rest :=
    fun w hw => by rw [h, Text.startsWith_withReturns (visible_words hw)]
  unfold scalar
  rw [List.find?_congr hwords, hread]
  generalize hw : (words refuse).find? (fun w => Text.startsWith w.1 c.rest) = found
  obtain - | ⟨w, e | v⟩ := found
  · rcases hn : Numeral.read? c.rest with - | n
    · exact .error _ _
    · rcases hv : n.value with e | v
      · simp only [hv]
        exact .error _ _
      · have hpast := drop_withReturns (Numeral.prefix_read? hn)
          (Numeral.prefix_read? (h ▸ hread.trans hn))
        rw [← h, n.length_text] at hpast
        simp only [hv]
        exact .ok v hpast
  · exact .error _ _
  · have hstart := List.find?_some hw
    have hstart' := (hwords _ (List.mem_of_find?_eq_some hw)).trans hstart
    have hpast := drop_withReturns (Text.startsWith_iff.1 hstart)
      (h ▸ Text.startsWith_iff.1 hstart')
    rw [← h] at hpast
    exact .ok v hpast

/-! ## Strings -/

theorem stringFrom_char {c : Char} (hq : c ≠ '"') (hb : c ≠ '\\') (start offset : Nat)
    (done : WideText) (s : Text) :
    stringFrom start done offset (c :: s) =
      if c.toNat < 32 then fail .control offset
      else stringFrom start (.char c :: done) (offset + 1) s := by
  rw [stringFrom.eq_def]
  split <;> simp_all

theorem stringFrom_escape {e : Char} (hu : e ≠ 'u') (start offset : Nat) (done : WideText)
    (s : Text) :
    stringFrom start done offset ('\\' :: e :: s) =
      match escaped? e with
      | some c => stringFrom start (.char c :: done) (offset + 2) s
      | none => fail .escape offset := by
  rw [stringFrom.eq_def]
  split
  · next heq => cases heq
  · next heq => cases heq
  · next heq => cases heq
  · next heq => cases heq; exact absurd rfl hu
  · next heq => cases heq; exact if_neg hu
  · next hno heq => cases heq; exact (hno _ _ rfl rfl).elim

/-- No four digits with more text behind them. -/
def LacksUnicode (s : Text) : Prop :=
  ∀ ⦃a b c d t⦄, s = a :: b :: c :: d :: t → [a, b, c, d].all Text.isHexDigit → t = []

theorem stringFrom_unicode_error {s : Text} (h : LacksUnicode s) (start offset : Nat)
    (done : WideText) :
    stringFrom start done offset ('\\' :: 'u' :: s) = fail .unicodeEscape (offset + 1) := by
  rw [stringFrom.eq_def]
  split
  · next heq => cases heq
  · next heq => cases heq
  · next heq => cases heq
  · next heq =>
    cases heq
    exact if_neg fun hall => absurd (h rfl hall) (by simp)
  · next heq => cases heq; exact if_pos rfl
  · next hno heq => cases heq; exact (hno _ _ rfl rfl).elim

theorem LacksUnicode.withReturns {s : Text} (h : LacksUnicode s) :
    LacksUnicode (Text.withReturns s) := by
  intro a b c d t hs hall
  have hne : ∀ x, Text.isHexDigit x → x ≠ '\r' := by
    rintro x hx rfl
    cases hx
  simp only [List.all_cons, List.all_nil, Bool.and_eq_true] at hall
  obtain ⟨ha, hb, hc, hd, -⟩ := hall
  obtain ⟨s₁, rfl, h₁⟩ := withReturns_eq_cons (hne a ha) hs
  obtain ⟨s₂, rfl, h₂⟩ := withReturns_eq_cons (hne b hb) h₁
  obtain ⟨s₃, rfl, h₃⟩ := withReturns_eq_cons (hne c hc) h₂
  obtain ⟨s₄, rfl, h₄⟩ := withReturns_eq_cons (hne d hd) h₃
  obtain rfl : s₄ = [] := h rfl (by simp [ha, hb, hc, hd])
  exact h₄.symm

theorem ne_backslash {c : Char} {cs : Text} (hend : c = '\\' → cs = [] → False)
    (hesc : ∀ e t, c = '\\' → cs = e :: t → False) : c ≠ '\\' := by
  intro hc
  cases cs with
  | nil => exact hend hc rfl
  | cons e t => exact hesc e t hc rfl

/-- A line feed or a return ends a string early, escaped or not. -/
theorem agree_stringFrom (start start' offset offset' : Nat) (done : WideText) (s : Text) :
    Agree (stringFrom start done offset s) (stringFrom start' done offset' (withReturns s)) := by
  have hslash (x : Text) : withReturns ('\\' :: x) = '\\' :: withReturns x :=
    withReturns_cons (by decide) x
  have hu (x : Text) : withReturns ('u' :: x) = 'u' :: withReturns x :=
    withReturns_cons (by decide) x
  fun_induction stringFrom start done offset s generalizing offset' with
  | case1 => exact .error _ _
  | case2 done offset cs => exact .ok _ rfl
  | case3 => exact .error _ _
  | case4 done offset a b c d e cs hex ih =>
    have hbreak : '\n' ∉ [a, b, c, d] := fun hmem =>
      absurd (List.all_eq_true.1 hex _ hmem) (by decide)
    have hs : withReturns (a :: b :: c :: d :: e :: cs) =
        a :: b :: c :: d :: withReturns (e :: cs) := Text.withReturns_append hbreak (e :: cs)
    obtain ⟨e', r, hr⟩ : ∃ e' r, withReturns (e :: cs) = e' :: r := by
      by_cases he : e = '\n'
      · subst he
        exact ⟨_, _, rfl⟩
      · exact ⟨_, _, withReturns_cons he cs⟩
    rw [hr] at hs ih
    rw [hslash, hu, hs, stringFrom, if_pos hex]
    exact ih _
  | case5 done offset a b c d e cs hex =>
    have hlacks : LacksUnicode (a :: b :: c :: d :: e :: cs) := by
      rintro _ _ _ _ _ ⟨⟩ hall
      exact absurd hall hex
    rw [hslash, hu, stringFrom_unicode_error hlacks.withReturns]
    exact .error _ _
  | case6 done offset cs hno =>
    have hlacks : LacksUnicode cs := by
      rintro a b c d (- | ⟨e, t⟩) rfl hall
      · rfl
      · exact (hno a b c d e t rfl rfl).elim
    rw [hslash, hu, stringFrom_unicode_error hlacks.withReturns]
    exact .error _ _
  | case7 done offset e cs _ hu c hc ih =>
    have hbreak : e ≠ '\n' := by rintro rfl; cases hc
    rw [hslash, withReturns_cons hbreak, stringFrom_escape hu, hc]
    exact ih _
  | case8 done offset e cs _ hu hc =>
    rw [hslash]
    by_cases hbreak : e = '\n'
    · subst hbreak
      exact .error _ _
    · rw [withReturns_cons hbreak, stringFrom_escape hu, hc]
      exact .error _ _
  | case9 done offset c cs hq hend _ hesc hlow =>
    have hb : c ≠ '\\' := ne_backslash hend hesc
    by_cases hbreak : c = '\n'
    · subst hbreak
      exact .error _ _
    · rw [withReturns_cons hbreak, stringFrom_char hq hb, if_pos hlow]
      exact .error _ _
  | case10 done offset c cs hq hend _ hesc hlow ih =>
    have hb : c ≠ '\\' := ne_backslash hend hesc
    have hbreak : c ≠ '\n' := by rintro rfl; exact hlow (by decide)
    rw [withReturns_cons hbreak, stringFrom_char hq hb, if_neg hlow]
    exact ih _

/-! ## Lists and tables -/

/-- Reading leaves no more text than there was. -/
def Shrinks (read : Step α) : Prop :=
  ∀ ⦃c a c'⦄, read c = .ok (a, c') → c'.rest.length ≤ c.rest.length

theorem PassesOver.shrinks {n : Int} {read : Step α} (h : PassesOver n read) : Shrinks read :=
  fun _ _ _ hread => (h hread).length_le

/-- A reader of pieces that fails where neither a comma nor the closing character comes. -/
structure Separates (piece : Step α) (closing : Char) (pieces : Nat → List α → Step (List α)) : Prop
    extends ReadsPieces piece closing pieces where
  stray {c c₁ : Cursor} {a : α} (h : piece c = .ok (a, c₁))
    (hskip : ∀ x ∈ (skip c₁).rest.head?, x ≠ closing ∧ x ≠ ',') (fuel : Nat) (done : List α) :
    ∃ e, pieces (fuel + 1) done c = .error e

theorem separates_items (read : Step Data) : Separates read ']' (items read) where
  toReadsPieces := readsPieces_items read
  stray h hskip fuel done := by
    rw [items, h]
    simp only
    split
    · next heq => exact absurd rfl (hskip ']' (by simp [heq])).1
    · next heq => exact absurd rfl (hskip ',' (by simp [heq])).2
    · exact ⟨_, rfl⟩

theorem separates_members (read : Step Data) :
    Separates (member read) '\x7d' (members read) where
  toReadsPieces := readsPieces_members read
  stray h hskip fuel done := by
    rw [members_succ, h]
    simp only
    split
    · next heq => exact absurd rfl (hskip '\x7d' (by simp [heq])).1
    · next heq => exact absurd rfl (hskip ',' (by simp [heq])).2
    · exact ⟨_, rfl⟩

section

variable {piece piece' : Step α} {closing : Char} {pieces pieces' : Nat → List α → Step (List α)}

/-- Each piece is read alike and what stands behind it is the same character, so the loops take the
same way; fuel for the shorter text is enough for both. -/
theorem agree_pieces (h : Separates piece closing pieces) (h' : Separates piece' closing pieces')
    {n : Nat} (halike : Alike n piece piece') (hshrinks : Shrinks piece) {fuel fuel' : Nat}
    (hle : fuel ≤ fuel') (hfuel : fuel ≤ n) (done : List α) {c c' : Cursor}
    (hlt : c.rest.length < fuel) (hrest : c'.rest = withReturns c.rest) :
    Agree (pieces fuel done c) (pieces' fuel' done c') := by
  induction fuel generalizing fuel' done c c' with
  | zero => omega
  | succ fuel ih =>
    obtain ⟨fuel', rfl⟩ : ∃ k, fuel' = k + 1 := ⟨fuel' - 1, by omega⟩
    have hpiece := halike (by omega) hrest
    generalize hx : piece c = x at hpiece
    generalize hy : piece' c' = y at hpiece
    cases hpiece with
    | error e e' =>
      rw [h.error hx, h'.error hy]
      exact .error e e'
    | @ok a c₁ c₁' hrest₁ =>
      have hstray (hskip : ∀ x ∈ (skip c₁).rest.head?, x ≠ closing ∧ x ≠ ',')
          (hskip' : ∀ x ∈ (skip c₁').rest.head?, x ≠ closing ∧ x ≠ ',') :
          Agree (pieces (fuel + 1) done c) (pieces' (fuel' + 1) done c') := by
        obtain ⟨e, he⟩ := h.stray hx hskip fuel done
        obtain ⟨e', he'⟩ := h'.stray hy hskip' fuel' done
        rw [he, he']
        exact .error e e'
      obtain ⟨m, m', hs, hs'⟩ | ⟨m, m', z, s, -, hs, hs'⟩ := skip_withReturns hrest₁
      · exact hstray (by simp [hs]) (by simp [hs'])
      · have hlater : s.length < c.rest.length := by
          have hskip := (passes_skip c₁).length_le
          have hpiece := hshrinks hx
          rw [hs, List.length_cons] at hskip
          omega
        by_cases hclose : z = closing
        · subst hclose
          rw [h.close hx hs, h'.close hy hs']
          exact .ok _ rfl
        by_cases hcomma : z = ','
        · subst hcomma
          have hskip : (skip ⟨m + 1, s⟩).rest.length ≤ s.length := (passes_skip _).length_le
          rw [h.comma hx hs, h'.comma hy hs']
          exact ih (by omega) (by omega) _ (by omega) (rest_skip_withReturns rfl)
        · exact hstray (by simp [hs, hclose, hcomma]) (by simp [hs', hclose, hcomma])

end

section

variable {read read' : Step Data} {n n' : Nat}

/-- A list is closed at once, or its items begin. -/
theorem list_eq (read : Step Data) (fuel : Nat) {c : Cursor} {m : Nat} {z : Char} {s : Text}
    (hs : skip c = ⟨m, z :: s⟩) :
    list read fuel c = if z = ']' then .ok (.list [], ⟨m + 1, s⟩)
      else (items read fuel [] (skip c)).map fun r => (.list r.1, r.2) := by
  rw [list, hs]
  split
  · next heq => cases heq; rfl
  · next hno => rw [if_neg fun hz => hno _ _ (by rw [hz])]

theorem table_eq (read : Step Data) (fuel : Nat) {c : Cursor} {m : Nat} {z : Char} {s : Text}
    (hs : skip c = ⟨m, z :: s⟩) :
    table read fuel c = if z = '\x7d' then .ok (.table [], ⟨m + 1, s⟩)
      else (members read fuel [] (skip c)).map fun r => (.table (Data.ofMembers r.1), r.2) := by
  rw [table, hs]
  split
  · next heq => cases heq; rfl
  · next hno => rw [if_neg fun hz => hno _ _ (by rw [hz])]

theorem agree_list (hread : Alike n read read') (hshrinks : Shrinks read) (hle : n ≤ n')
    {c c' : Cursor} (hlt : c.rest.length < n) (hrest : c'.rest = withReturns c.rest) :
    Agree (list read n c) (list read' n' c') := by
  have hskip := (passes_skip c).length_le
  have hitems : Agree (items read n [] (skip c)) (items read' n' [] (skip c')) :=
    agree_pieces (separates_items read) (separates_items read') hread hshrinks hle le_rfl []
      (by omega) (rest_skip_withReturns hrest)
  obtain ⟨m, m', hs, hs'⟩ | ⟨m, m', z, s, -, hs, hs'⟩ := skip_withReturns hrest
  · rw [list, list, hs, hs']
    rw [hs, hs'] at hitems
    exact hitems.map _
  · rw [list_eq read n hs, list_eq read' n' hs']
    split
    · exact .ok _ rfl
    · exact hitems.map _

theorem agree_key {c c' : Cursor} (hrest : c'.rest = withReturns c.rest) :
    Agree (key c) (key c') := by
  obtain ⟨o, s⟩ := c
  obtain ⟨o', s'⟩ := c'
  obtain rfl : s' = withReturns s := hrest
  have hfail {o : Nat} {s : Text} (h : ∀ t, s ≠ '"' :: t) : key ⟨o, s⟩ = fail .name o := by
    unfold key
    split
    · next heq => exact absurd heq (h _)
    · rfl
  rcases s with - | ⟨x, s⟩
  · exact .error _ _
  by_cases hbreak : x = '\n'
  · subst hbreak
    exact .error _ _
  rw [withReturns_cons hbreak]
  by_cases hq : x = '"'
  · subst hq
    have hstring := agree_stringFrom o o' (o + 1) (o' + 1) [] s
    unfold key
    simp only
    generalize stringFrom o [] (o + 1) s = y at hstring
    generalize stringFrom o' [] (o' + 1) (withReturns s) = y' at hstring
    cases hstring with
    | error e e' => exact .error e e'
    | @ok k c₁ c₁' hrest₁ =>
      obtain ⟨m, m', hs, hs'⟩ | ⟨m, m', z, s, -, hs, hs'⟩ := skip_withReturns hrest₁
      · simp only [hs, hs']
        exact .error _ _
      · simp only [hs, hs']
        by_cases hcolon : z = ':'
        · subst hcolon
          exact .ok k (rest_skip_withReturns rfl)
        · split
          · next heq => cases heq; exact absurd rfl hcolon
          · split
            · next heq => cases heq; exact absurd rfl hcolon
            · exact .error _ _
  · rw [hfail (by simp [hq]), hfail (by simp [hq])]
    exact .error _ _

theorem alike_member (hread : Alike n read read') : Alike n (member read) (member read') := by
  intro c c' hlt hrest
  have hkey := agree_key hrest
  have hpasses (k : WideText) (c₁ : Cursor) (h : key c = .ok (k, c₁)) := (passesOver_key h).length_le
  unfold member
  generalize key c = x at hkey hpasses
  generalize key c' = y at hkey
  cases hkey with
  | error e e' => exact .error e e'
  | @ok k c₁ c₁' hrest₁ =>
    have hlt₁ := hpasses k c₁ rfl
    exact (hread (by omega) hrest₁).map _

theorem shrinks_member (h : Shrinks read) : Shrinks (member read) := by
  intro c e c' hmember
  unfold member at hmember
  split at hmember
  · cases hmember
  · next k c₁ hkey =>
    obtain ⟨⟨v, c₂⟩, hread, heq⟩ := exists_of_map_ok hmember
    cases heq
    exact (h hread).trans (passesOver_key hkey).length_le

theorem agree_table (hread : Alike n read read') (hshrinks : Shrinks read) (hle : n ≤ n')
    {c c' : Cursor} (hlt : c.rest.length < n) (hrest : c'.rest = withReturns c.rest) :
    Agree (table read n c) (table read' n' c') := by
  have hskip := (passes_skip c).length_le
  have hmembers : Agree (members read n [] (skip c)) (members read' n' [] (skip c')) :=
    agree_pieces (separates_members read) (separates_members read') (alike_member hread)
      (shrinks_member hshrinks) hle le_rfl [] (by omega) (rest_skip_withReturns hrest)
  obtain ⟨m, m', hs, hs'⟩ | ⟨m, m', z, s, -, hs, hs'⟩ := skip_withReturns hrest
  · rw [table, table, hs, hs']
    rw [hs, hs'] at hmembers
    exact hmembers.map fun ms => Data.table (Data.ofMembers ms)
  · rw [table_eq read n hs, table_eq read' n' hs']
    split
    · exact .ok _ rfl
    · exact hmembers.map fun ms => Data.table (Data.ofMembers ms)

/-! ## Values and documents -/

/-- The readers of what a value holds, if it may hold anything. -/
def InnerAlike (n : Nat) : Option (Step Data) → Option (Step Data) → Prop :=
  Option.Rel fun read read' => Alike n read read' ∧ Shrinks read

theorem alike_valueWith (refuse : Bool) (hle : n ≤ n') {inner inner' : Option (Step Data)}
    (h : InnerAlike n inner inner') :
    Alike n (valueWith refuse n inner) (valueWith refuse n' inner') := by
  intro c c' hlt hrest
  have hscalar := agree_scalar refuse hrest
  obtain ⟨o, s⟩ := c
  obtain ⟨o', s'⟩ := c'
  obtain rfl : s' = withReturns s := hrest
  rcases s with - | ⟨x, s⟩
  · cases h <;> exact hscalar
  by_cases hbreak : x = '\n'
  · subst hbreak
    rw [withReturns_break] at hscalar ⊢
    rwa [valueWith_scalar (by decide), valueWith_scalar (by decide)]
  rw [withReturns_cons hbreak] at hscalar ⊢
  have hlt' : s.length < n := by
    simp only [List.length_cons] at hlt
    omega
  by_cases hq : x = '"'
  · subst hq
    rw [valueWith_quote, valueWith_quote]
    exact (agree_stringFrom _ _ _ _ _ s).map _
  by_cases hl : x = '['
  · subst hl
    cases h with
    | none => exact .error _ _
    | some h => exact agree_list h.1 h.2 hle hlt' rfl
  by_cases ht : x = '\x7b'
  · subst ht
    cases h with
    | none => exact .error _ _
    | some h => exact agree_table h.1 h.2 hle hlt' rfl
  · rwa [valueWith_scalar ⟨hq, hl, ht⟩, valueWith_scalar ⟨hq, hl, ht⟩]

theorem alike_value (refuse : Bool) (hle : n ≤ n') (levels : Nat) :
    Alike n (value refuse n levels) (value refuse n' levels) := by
  induction levels with
  | zero => exact alike_valueWith refuse hle .none
  | succ levels ih =>
    exact alike_valueWith refuse hle (.some ⟨ih, (passesOver_value refuse n levels).shrinks⟩)

end

theorem length_le_withReturns (s : Text) : s.length ≤ (withReturns s).length := by
  induction s with
  | nil => exact le_rfl
  | cons c s ih =>
    by_cases hc : c = '\n'
    · subst hc
      simp only [withReturns_break, List.length_cons]
      omega
    · simpa [withReturns_cons hc] using ih

theorem document_eq (refuse : Bool) {s : Text} (h : s.head? ≠ some '\uFEFF') :
    document refuse s =
      match value refuse (s.length + 1) depthLimit (skip ⟨0, s⟩) with
      | .error e => .error e
      | .ok (v, c) =>
        match skip c with
        | ⟨_, []⟩ => .ok v
        | c => fail .extra c.offset := by
  unfold document
  split
  · exact absurd rfl h
  · rfl

theorem document_withReturns (refuse : Bool) (s : Text) :
    (document refuse (withReturns s)).toOption = (document refuse s).toOption := by
  by_cases hmark : s.head? = some '\uFEFF'
  · obtain ⟨t, rfl⟩ := List.head?_eq_some_iff.1 hmark
    rw [withReturns_cons (by decide)]
    rfl
  · have hmark' : (withReturns s).head? ≠ some '\uFEFF' := by
      rcases s with - | ⟨c, s⟩
      · exact hmark
      by_cases hc : c = '\n'
      · subst hc
        simp
      · rwa [withReturns_cons hc]
    have hle := length_le_withReturns s
    have hskip : (skip ⟨0, s⟩).rest.length ≤ s.length := (passes_skip ⟨0, s⟩).length_le
    have hrest : (skip ⟨0, withReturns s⟩).rest = withReturns (skip ⟨0, s⟩).rest :=
      rest_skip_withReturns rfl
    have hvalue :=
      alike_value refuse (Nat.succ_le_succ hle) depthLimit (Nat.lt_succ_of_le hskip) hrest
    rw [document_eq refuse hmark, document_eq refuse hmark']
    generalize value refuse (s.length + 1) depthLimit (skip ⟨0, s⟩) = x at hvalue
    generalize value refuse ((withReturns s).length + 1) depthLimit (skip ⟨0, withReturns s⟩) = y
      at hvalue
    cases hvalue with
    | error => rfl
    | ok v hrest =>
      obtain ⟨m, m', hs, hs'⟩ | ⟨m, m', z, s, -, hs, hs'⟩ := skip_withReturns hrest
      · simp only [hs, hs']
      · simp only [hs, hs']
        rfl

/-- A text is read as JSON if and only if it is with returns, and as the same value. -/
theorem read_withReturns (refuse : Bool) (s : Text) :
    (read refuse (withReturns s)).toOption = (read refuse s).toOption := by
  have hread (s : Text) : (read refuse s).toOption = (document refuse s).toOption := by
    unfold read
    cases document refuse s <;> rfl
  rw [hread, hread, document_withReturns]

theorem canonical_withReturns (s : Text) :
    (canonical (withReturns s)).toOption = (canonical s).toOption := by
  have hmap (s : Text) : (canonical s).toOption = (read true s).toOption.map canonicalText := by
    unfold canonical
    cases read true s <;> rfl
  rw [hmap, hmap, read_withReturns]

end ConfigCare.Json

namespace ConfigCare.Format

open Text (withReturns)

theorem formatJson_withReturns (strict : Bool) (s : Text) :
    formatJson strict (withReturns s) = formatJson strict s := by
  have heq (s : Text) : formatJson strict s =
      if Jsonc.looksCommented s then .ok (indented strict s)
      else (Json.canonical s).toOption.elim (.ok (indented strict s)) WideText.encode := by
    unfold formatJson
    cases Json.canonical s <;> rfl
  rw [heq, heq, Jsonc.looksCommented_withReturns, Jsonc.indented_withReturns,
    Json.canonical_withReturns]

theorem Kind.format_withReturns (strict : Bool) (s : Text) (kind : Kind) :
    kind.format strict (withReturns s) = kind.format strict s := by
  cases kind with
  | json => exact formatJson_withReturns strict s
  | jsonc => exact congrArg Except.ok (Jsonc.indented_withReturns strict s)
  | yaml => exact congrArg Except.ok (normalize_withReturns id s)
  | toml => exact congrArg Except.ok (normalize_withReturns spacedAssignment s)

/-- A document with a formatter is formatted alike whichever way its lines are broken. -/
theorem document_ignores_returns (s : Text) {extension : Text} (strict : Bool) {kind : Kind}
    (h : Kind.ofExtension? extension = some kind) :
    document (withReturns s) extension strict = document s extension strict := by
  simp only [document, h, Kind.format_withReturns]

/-- Returns of the text's own, in front of a line feed and behind one, change nothing. -/
theorem document_ignores_mixed_returns :
    Kind.ofExtension? (Text.lit ".JSON") = some .json ∧
      withReturns (Text.lit "[1,\r\n\r2]\n") = Text.lit "[1,\r\r\n\r2]\r\n" ∧
      document (withReturns (Text.lit "[1,\r\n\r2]\n")) (Text.lit ".JSON") true =
        .ok (Text.lit "[\n  1,\n  2\n]\n") := by
  have hkind : Kind.ofExtension? (Text.lit ".JSON") = some .json := by decide +kernel
  refine ⟨hkind, by decide +kernel, ?_⟩
  rw [document_ignores_returns (Text.lit "[1,\r\n\r2]\n") true hkind]
  decide +kernel

end ConfigCare.Format
