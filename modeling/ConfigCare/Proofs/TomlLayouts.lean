import ConfigCare.Proofs.PlainValues
import ConfigCare.Proofs.Margins

/-! Texts that differ in their layout only, as far as TOML goes. The relation says what may change
and where; the lemmas say what both texts begin with once one of them is known to begin with it. -/

namespace ConfigCare.Toml

/-- White space that TOML does not know. -/
def isStray (c : Char) : Bool := Text.isBlank c && !isSpaceOrBreak c

/-- A character that stands for itself wherever it is: it begins no literal and no comment, is no
equals sign and no line break. -/
def isCode (c : Char) : Bool := !isQuote c && c ≠ '#' && c ≠ '=' && c ≠ '\n'

/-- The body of a comment, and what it may become. -/
structure Recommented (c d : Text) : Prop where
  left : '\n' ∉ c
  right : '\n' ∉ d
  allowed : (∀ a ∈ c, isForbidden false a = false) → ∀ a ∈ d, isForbidden false a = false

/-- What a text becomes when only its layout changes: space before line breaks and on both sides of
equals signs, blank lines, what comments say and how strings are spelled. White space that TOML does
not know may be lost, with all that stands behind it, and so may what stands behind a quote that
begins no string. -/
inductive Relaid : Text → Text → Prop
  | ends {x y : Text} (hx : x.all isSpaceOrBreak) (hy : y.all isSpaceOrBreak) : Relaid x y
  | char {c : Char} {x y : Text} (hc : isCode c) (h : Relaid x y) : Relaid (c :: x) (c :: y)
  | literal {q : Char} {l k v x y : Text} (hq : isQuote q) (hl : l.head? = some q)
      (hk : Respelled l k) (hx : ReadsAs l v x) (hy : ReadsAs k v y) (h : Relaid x y) :
      Relaid (l ++ x) (k ++ y)
  | comment {c d x y : Text} (hc : Recommented c d) (hx : AtBreak x) (hy : AtBreak y)
      (h : Relaid x y) : Relaid ('#' :: (c ++ x)) ('#' :: (d ++ y))
  | equals {w w' v v' x y : Text} (hw : w.all isSpace) (hw' : w'.all isSpace) (hv : v.all isSpace)
      (hv' : v'.all isSpace) (h : Relaid x y) :
      Relaid (w ++ '=' :: (w' ++ x)) (v ++ '=' :: (v' ++ y))
  | breaks {w v x y : Text} (hw : w.all isSpaceOrBreak) (hv : v.all isSpaceOrBreak)
      (h : Relaid x y) : Relaid (w ++ '\n' :: x) (v ++ '\n' :: y)
  | broken {q : Char} {x y : Text} (hq : isQuote q) (hx : ∀ o r, string ⟨o, q :: x⟩ ≠ .ok r) :
      Relaid (q :: x) (q :: y)
  | stray {w v x y : Text} {c d : Char} (hw : w.all isSpaceOrBreak) (hc : isStray c)
      (hv : v.all isSpace) (hd : d = '\n' ∨ d = '=' ∧ w.all isSpace) :
      Relaid (w ++ c :: x) (v ++ d :: y)
  | strayValue {w w' v x y : Text} {c : Char} (hw : w.all isSpace) (hw' : w'.all isSpace)
      (hc : isStray c) (hv : v.all isSpace) : Relaid (w ++ '=' :: (w' ++ c :: x)) (v ++ '=' :: y)

theorem isBlank_of_isSpaceOrBreak {c : Char} (h : isSpaceOrBreak c) : Text.isBlank c := by
  have : c = ' ' ∨ c = '\t' ∨ c = '\n' := by simpa [isSpaceOrBreak, isSpace, or_assoc] using h
  rcases this with rfl | rfl | rfl <;> decide

theorem isSpaceOrBreak_of_isSpace {c : Char} (h : isSpace c) : isSpaceOrBreak c := by
  simp [isSpaceOrBreak, h]

theorem all_isSpaceOrBreak {w : Text} (h : w.all isSpace) : w.all isSpaceOrBreak :=
  List.all_eq_true.2 fun c hc => isSpaceOrBreak_of_isSpace (List.all_eq_true.1 h c hc)

theorem dropWhile_append_cons {p : Char → Bool} (w : Text) {c : Char} (hc : p c = false)
    (x : Text) : (w ++ c :: x).dropWhile p = w.dropWhile p ++ c :: x := by
  induction w with
  | nil => simp [hc]
  | cons d w ih => by_cases hd : p d <;> simp [hd, ih]

theorem all_dropWhile {p q : Char → Bool} {w : Text} (h : w.all p) : (w.dropWhile q).all p :=
  List.all_eq_true.2 fun c hc => List.all_eq_true.1 h c ((List.dropWhile_suffix q).mem hc)

theorem isSpace_of_isQuote {q : Char} (hq : isQuote q) : isSpace q = false := by
  rcases isQuote_iff.1 hq with rfl | rfl <;> decide

theorem isSpaceOrBreak_of_isQuote {q : Char} (hq : isQuote q) : isSpaceOrBreak q = false := by
  rcases isQuote_iff.1 hq with rfl | rfl <;> decide

theorem isSpaceOrBreak_of_isStray {c : Char} (hc : isStray c) : isSpaceOrBreak c = false := by
  simp only [isStray, Bool.and_eq_true, Bool.not_eq_true'] at hc
  exact hc.2

theorem isSpace_of_isStray {c : Char} (hc : isStray c) : isSpace c = false := by
  by_contra h
  simp [isStray, isSpaceOrBreak_of_isSpace (by simpa using h : isSpace c)] at hc

theorem Relaid.dropSpaces {x y : Text} (h : Relaid x y) :
    Relaid (x.dropWhile isSpace) (y.dropWhile isSpace) := by
  induction h with
  | ends hx hy => exact .ends (all_dropWhile hx) (all_dropWhile hy)
  | @char c x y hc h ih =>
    by_cases hs : isSpace c
    · simpa [hs] using ih
    · simpa [hs] using Relaid.char hc h
  | @literal q l k v x y hq hl hk hx hy h ih =>
    obtain ⟨k, rfl⟩ := List.head?_eq_some_iff.1 (hk.head hl)
    obtain ⟨l, rfl⟩ := List.head?_eq_some_iff.1 hl
    have hs := isSpace_of_isQuote hq
    simpa [hs] using Relaid.literal hq hl hk hx hy h
  | comment hc hx hy h ih => exact .comment hc hx hy h
  | equals hw hw' hv hv' h ih =>
    rw [dropWhile_append_cons _ (by decide), dropWhile_append_cons _ (by decide)]
    exact .equals (all_dropWhile hw) hw' (all_dropWhile hv) hv' h
  | breaks hw hv h ih =>
    rw [dropWhile_append_cons _ (by decide), dropWhile_append_cons _ (by decide)]
    exact .breaks (all_dropWhile hw) (all_dropWhile hv) h
  | broken hq hx =>
    have hs := isSpace_of_isQuote hq
    simpa [hs] using Relaid.broken hq hx
  | stray hw hc hv hd =>
    rw [dropWhile_append_cons _ (isSpace_of_isStray hc), dropWhile_append_cons _ (by
      rcases hd with rfl | ⟨rfl, -⟩ <;> decide)]
    exact .stray (all_dropWhile hw) hc (all_dropWhile hv) (hd.imp_right (.imp_right all_dropWhile))
  | strayValue hw hw' hc hv =>
    rw [dropWhile_append_cons _ (by decide), dropWhile_append_cons _ (by decide)]
    exact .strayValue (all_dropWhile hw) hw' hc (all_dropWhile hv)

theorem head_ne_of_all {p : Char → Bool} {w : Text} (hw : w.all p) {c : Char} (hc : p c = false) :
    w.head? ≠ some c := by
  intro h
  have := List.all_eq_true.1 hw c (List.mem_of_mem_head? h)
  rw [hc] at this
  cases this

theorem head_append_ne {p : Char → Bool} {w : Text} (hw : w.all p) {c d : Char} (hc : p c = false)
    (hd : d ≠ c) (x : Text) : (w ++ d :: x).head? ≠ some c := by
  cases w with
  | nil => simpa using hd
  | cons b w => exact fun h => head_ne_of_all hw hc h

theorem isSpaceOrBreak_of_visible {c : Char} (hc : Text.isBlank c = false) :
    isSpaceOrBreak c = false := by
  by_contra h
  rw [isBlank_of_isSpaceOrBreak (by simpa using h)] at hc
  cases hc

theorem isSpace_of_visible {c : Char} (hc : Text.isBlank c = false) : isSpace c = false := by
  by_contra h
  have := isSpaceOrBreak_of_visible hc
  rw [isSpaceOrBreak_of_isSpace (by simpa using h)] at this
  cases this

/-- Both texts start with the same character, unless it is white space or an equals sign. -/
theorem Relaid.head {x y : Text} (h : Relaid x y) {c : Char} (hc : Text.isBlank c = false)
    (he : c ≠ '=') : x.head? = some c ↔ y.head? = some c := by
  have hs := isSpace_of_visible hc
  have hb := isSpaceOrBreak_of_visible hc
  have hn : '\n' ≠ c := by rintro rfl; cases hc
  cases h with
  | ends hx hy => exact iff_of_false (head_ne_of_all hx hb) (head_ne_of_all hy hb)
  | char hd h => rfl
  | literal hq hl hk hx hy h =>
    obtain ⟨k, rfl⟩ := List.head?_eq_some_iff.1 (hk.head hl)
    obtain ⟨l, rfl⟩ := List.head?_eq_some_iff.1 hl
    rfl
  | comment hd hx hy h => rfl
  | equals hw hw' hv hv' h =>
    exact iff_of_false (head_append_ne hw hs he.symm _) (head_append_ne hv hs he.symm _)
  | breaks hw hv h =>
    exact iff_of_false (head_append_ne hw hb hn _) (head_append_ne hv hb hn _)
  | broken hq hx => rfl
  | stray hw hd hv hdv =>
    refine iff_of_false (head_append_ne hw hb ?_ _) (head_append_ne hv hs ?_ _)
    · rintro rfl
      simp [isStray, hc] at hd
    · rcases hdv with rfl | ⟨rfl, -⟩
      · exact hn
      · exact he.symm
  | strayValue hw hw' hd hv =>
    exact iff_of_false (head_append_ne hw hs he.symm _) (head_append_ne hv hs he.symm _)

theorem Relaid.head_quote {x y : Text} (h : Relaid x y) {q : Char} (hq : isQuote q) :
    x.head? = some q ↔ y.head? = some q := by
  refine h.head ?_ ?_ <;> rcases isQuote_iff.1 hq with rfl | rfl <;> decide

/-- A character that is no white space and keeps its place. -/
structure Solid (c : Char) : Prop where
  visible : Text.isBlank c = false
  code : isCode c

theorem Solid.ne_equals {c : Char} (hc : Solid c) : c ≠ '=' := by
  rintro rfl; exact absurd hc.code (by decide)

/-- A text that begins with white space that TOML does not know. -/
def BeginsStray (x : Text) : Prop := ∃ c r, x = c :: r ∧ isStray c

theorem margin_eq {p : Char → Bool} {w : Text} (hw : w.all p) {c d : Char} (hc : p c = false)
    {x y : Text} (h : c :: x = w ++ d :: y) : w = [] ∧ c = d ∧ x = y := by
  cases w with
  | nil => cases h; exact ⟨rfl, rfl, rfl⟩
  | cons b w =>
    obtain ⟨rfl, -⟩ := List.cons.inj h
    simp [hc] at hw

/-- The ways in which a text that begins with a visible character is laid out otherwise. -/
theorem Relaid.visible {c : Char} {x y : Text} (hc : Text.isBlank c = false)
    (h : Relaid (c :: x) y) :
    (isCode c ∧ ∃ y', y = c :: y' ∧ Relaid x y') ∨
      (isQuote c ∧ ((∃ l k v x' y', c :: x = l ++ x' ∧ y = k ++ y' ∧ l.head? = some c ∧
        Respelled l k ∧ ReadsAs l v x' ∧ ReadsAs k v y' ∧ Relaid x' y') ∨
        ∀ o r, string ⟨o, c :: x⟩ ≠ .ok r)) ∨
      (c = '#' ∧ ∃ a b x' y', x = a ++ x' ∧ y = '#' :: (b ++ y') ∧ Recommented a b ∧ AtBreak x' ∧
        AtBreak y' ∧ Relaid x' y') ∨
      (c = '=' ∧ ∃ y', y.dropWhile isSpace = '=' :: y' ∧
        (Relaid (x.dropWhile isSpace) (y'.dropWhile isSpace) ∨
          BeginsStray (x.dropWhile isSpace))) := by
  have hs := isSpace_of_visible hc
  have hb := isSpaceOrBreak_of_visible hc
  generalize hx : c :: x = s at h
  cases h with
  | ends hall hy =>
    subst hx
    simp [hb] at hall
  | char hd h => cases hx; exact .inl ⟨hd, _, rfl, h⟩
  | literal hq hl hk hrx hry h =>
    obtain ⟨l, rfl⟩ := List.head?_eq_some_iff.1 hl
    cases hx
    exact .inr (.inl ⟨hq, .inl ⟨_, _, _, _, _, rfl, rfl, rfl, hk, hrx, hry, h⟩⟩)
  | comment hd hbx hby h =>
    cases hx
    exact .inr (.inr (.inl ⟨rfl, _, _, _, _, rfl, rfl, hd, hbx, hby, h⟩))
  | @equals w w' v v' x y hw hw' hv hv' h =>
    obtain ⟨-, rfl, rfl⟩ := margin_eq hw hs hx
    refine .inr (.inr (.inr ⟨rfl, v' ++ y, ?_, .inl ?_⟩))
    · rw [Text.dropWhile_append_of_all hv]; rfl
    · rw [Text.dropWhile_append_of_all hw', Text.dropWhile_append_of_all hv']
      exact h.dropSpaces
  | breaks hw hv h =>
    obtain ⟨-, rfl, -⟩ := margin_eq hw hb hx
    cases hc
  | broken hq hrx => cases hx; exact .inr (.inl ⟨hq, .inr hrx⟩)
  | stray hw hd hv hdv =>
    obtain ⟨-, rfl, -⟩ := margin_eq hw hb hx
    simp [isStray, hc] at hd
  | @strayValue w w' v x y d hw hw' hd hv =>
    obtain ⟨-, rfl, rfl⟩ := margin_eq hw hs hx
    refine .inr (.inr (.inr ⟨rfl, y, ?_, .inr ⟨d, x, ?_, hd⟩⟩))
    · rw [Text.dropWhile_append_of_all hv]; rfl
    · rw [Text.dropWhile_append_of_all hw']
      simp [isSpace_of_isStray hd]

theorem Relaid.left {c : Char} {x y : Text} (hc : Solid c) (h : Relaid (c :: x) y) :
    ∃ y', y = c :: y' ∧ Relaid x y' := by
  rcases h.visible hc.visible with ⟨-, h⟩ | ⟨hq, -⟩ | ⟨rfl, -⟩ | ⟨rfl, -⟩
  · exact h
  · exact absurd hc.code (by simp [isCode, hq])
  · exact absurd hc.code (by decide)
  · exact absurd hc.code (by decide)

theorem Relaid.right {c : Char} {x y : Text} (hc : Solid c) (h : Relaid x (c :: y)) :
    ∃ x', x = c :: x' ∧ Relaid x' y := by
  obtain ⟨x, rfl⟩ := List.head?_eq_some_iff.1 ((h.head hc.visible hc.ne_equals).2 rfl)
  obtain ⟨y', hy, h⟩ := h.left hc
  cases hy
  exact ⟨x, rfl, h⟩

theorem isWordChar_bounds {c : Char} (h : isWordChar c) : 43 ≤ c.toNat ∧ c.toNat ≤ 122 := by
  have hbound {a b : Char} (h : a ≤ c ∧ c ≤ b) : a.toNat ≤ c.toNat ∧ c.toNat ≤ b.toNat := ⟨h.1, h.2⟩
  simp only [isWordChar, Text.isAsciiLetter, Text.isAsciiDigit, Bool.or_eq_true, Bool.and_eq_true,
    decide_eq_true_eq, List.contains_iff_mem] at h
  rcases h with ((h | h) | h) | h
  · exact ⟨(show 43 ≤ 'a'.toNat by decide).trans (hbound h).1,
      (hbound h).2.trans (show 'z'.toNat ≤ 122 by decide)⟩
  · exact ⟨(show 43 ≤ 'A'.toNat by decide).trans (hbound h).1,
      (hbound h).2.trans (show 'Z'.toNat ≤ 122 by decide)⟩
  · exact ⟨(show 43 ≤ '0'.toNat by decide).trans (hbound h).1,
      (hbound h).2.trans (show '9'.toNat ≤ 122 by decide)⟩
  · have hsigns : ∀ c ∈ ['+', '-', '_', '.', ':'], 43 ≤ c.toNat ∧ c.toNat ≤ 122 :=
      List.forall_iff_forall_mem.1 (by decide)
    exact hsigns c h

theorem solid_of_isWordChar {c : Char} (hc : isWordChar c) : Solid c where
  visible := by
    obtain ⟨hlow, hhigh⟩ := isWordChar_bounds hc
    rw [Bool.eq_false_iff]
    intro hblank
    simp only [Text.isBlank, Bool.or_eq_true, Bool.and_eq_true, decide_eq_true_eq,
      beq_iff_eq] at hblank
    omega
  code := by
    have hne (d : Char) (hd : isWordChar d = false) : c ≠ d := by
      rintro rfl; rw [hd] at hc; cases hc
    simp [isCode, isQuote, hne _ (by decide : isWordChar '"' = false),
      hne _ (by decide : isWordChar '\'' = false), hne _ (by decide : isWordChar '#' = false),
      hne _ (by decide : isWordChar '=' = false), hne _ (by decide : isWordChar '\n' = false)]

/-- A solid character does not stand behind the first space of a margin. -/
theorem margin_ne {p : Char → Bool} {w : Text} (hw : w.all p) {c d : Char} (hc : p c = false)
    (hd : d ≠ ' ') (hdc : d ≠ c) (x y : Text) : ' ' :: c :: y ≠ w ++ d :: x := by
  intro h
  cases w with
  | nil => cases h; exact hd rfl
  | cons b w =>
    obtain ⟨-, h⟩ := List.cons.inj h
    rw [List.all_cons, Bool.and_eq_true] at hw
    exact head_append_ne hw.2 hc hdc x (congrArg List.head? h.symm)

theorem space_notMem {p : Char → Bool} {c : Char} {x : Text} (hx : (' ' :: c :: x).all p) :
    p c := by
  simp only [List.all_cons, Bool.and_eq_true] at hx
  exact hx.2.1

/-- A space in front of a solid character keeps its place. -/
theorem Relaid.space {c : Char} (hc : Solid c) {x y : Text} (h : Relaid x y) :
    (∀ u, x = ' ' :: c :: u → ∃ y', y = ' ' :: y' ∧ Relaid (c :: u) y') ∧
      ∀ u, y = ' ' :: c :: u → ∃ x', x = ' ' :: x' ∧ Relaid x' (c :: u) := by
  have hs := isSpace_of_visible hc.visible
  have hb := isSpaceOrBreak_of_visible hc.visible
  have hn : '\n' ≠ c := by rintro rfl; exact absurd hc.visible (by decide)
  have he := hc.ne_equals.symm
  have hmargin {p : Char → Bool} {w : Text} (hw : w.all p) {d : Char} {x : Text} (hp : p c = false)
      (hd : d ≠ ' ') (hdc : d ≠ c) {P : Text → Prop} : ∀ u, w ++ d :: x = ' ' :: c :: u → P u :=
    fun u h => absurd h.symm (margin_ne hw hp hd hdc x u)
  cases h with
  | ends hx hy =>
    constructor
    · rintro u rfl
      rw [space_notMem hx] at hb
      cases hb
    · rintro u rfl
      rw [space_notMem hy] at hb
      cases hb
  | char hd h =>
    constructor
    · intro u hu; cases hu; exact ⟨_, rfl, h⟩
    · intro u hu; cases hu; exact ⟨_, rfl, h⟩
  | @literal q _ _ _ _ _ hq hl hk hrx hry h =>
    obtain ⟨k, rfl⟩ := List.head?_eq_some_iff.1 (hk.head hl)
    obtain ⟨l, rfl⟩ := List.head?_eq_some_iff.1 hl
    have hne : q ≠ ' ' := by rintro rfl; cases hq
    exact ⟨fun u hu => absurd (List.cons.inj hu).1 hne, fun u hu => absurd (List.cons.inj hu).1 hne⟩
  | comment hd hbx hby h => constructor <;> (intro u hu; cases hu)
  | equals hw hw' hv hv' h =>
    exact ⟨hmargin hw hs (by decide) he, hmargin hv hs (by decide) he⟩
  | breaks hw hv h => exact ⟨hmargin hw hb (by decide) hn, hmargin hv hb (by decide) hn⟩
  | broken hq hrx => constructor <;> (intro u hu; cases hu; cases hq)
  | stray hw hd hv hdv =>
    refine ⟨hmargin hw hb ?_ ?_, hmargin hv hs ?_ ?_⟩
    · rintro rfl; cases hd
    · rintro rfl; simp [isStray, hc.visible] at hd
    · rcases hdv with rfl | ⟨rfl, -⟩ <;> decide
    · rcases hdv with rfl | ⟨rfl, -⟩
      · exact hn
      · exact he
  | strayValue hw hw' hd hv => exact ⟨hmargin hw hs (by decide) he, hmargin hv hs (by decide) he⟩

theorem exists_word {x : Text} (h : ¬ EndsWord x) : ∃ c u, x = c :: u ∧ isWordChar c := by
  cases x with
  | nil => exact absurd (fun c hc => by cases hc) h
  | cons c u =>
    refine ⟨c, u, rfl, ?_⟩
    by_contra hc
    refine h fun d hd => ?_
    cases hd
    simpa using hc

/-- Both texts start with the same words, with single spaces between them. -/
theorem Relaid.words {x y : Text} (h : Relaid x y) :
    ∃ t z z', x = t ++ z ∧ y = t ++ z' ∧ Apart z ∧ Apart z' ∧
      ∀ k r, t = k ++ r → Relaid (r ++ z) (r ++ z') := by
  induction hn : x.length using Nat.strong_induction_on generalizing x y with
  | _ n ih =>
  -- one more character in front of the words of two texts
  have hcons {d : Char} {x' y' : Text} (hx : x = d :: x') (hy : y = d :: y') (h' : Relaid x' y') :
      ∃ t z z', x = t ++ z ∧ y = t ++ z' ∧ Apart z ∧ Apart z' ∧
        ∀ k r, t = k ++ r → Relaid (r ++ z) (r ++ z') := by
    subst hx hy
    obtain ⟨t, z, z', rfl, rfl, hz, hz', hr⟩ := ih _ (by simp [← hn]) h' rfl
    refine ⟨d :: t, z, z', rfl, rfl, hz, hz', fun k r hk => ?_⟩
    cases k with
    | nil => cases hk; exact h
    | cons b k => cases hk; exact hr k r rfl
  by_cases hx : EndsWord x
  · by_cases hsp : ∀ u, x = ' ' :: u → EndsWord u
    · refine ⟨[], x, y, rfl, rfl, ⟨hx, hsp⟩, ⟨?_, ?_⟩, fun k r hk => ?_⟩
      · by_contra hy
        obtain ⟨c, u, rfl, hc⟩ := exists_word hy
        obtain ⟨x, rfl, -⟩ := h.right (solid_of_isWordChar hc)
        exact absurd (hx c rfl) (by simp [hc])
      · intro u hu
        by_contra hy
        obtain ⟨c, u, rfl, hc⟩ := exists_word hy
        obtain ⟨x, rfl, h'⟩ := (h.space (solid_of_isWordChar hc)).2 _ hu
        obtain ⟨x, rfl, -⟩ := h'.right (solid_of_isWordChar hc)
        exact absurd (hsp _ rfl c rfl) (by simp [hc])
      · obtain ⟨-, rfl⟩ := List.append_eq_nil_iff.1 hk.symm
        exact h
    · obtain ⟨u, hu⟩ := not_forall.1 hsp
      obtain ⟨hu, hword⟩ := Classical.not_imp.1 hu
      obtain ⟨c, u, rfl, hc⟩ := exists_word hword
      obtain ⟨y', rfl, h'⟩ := (h.space (solid_of_isWordChar hc)).1 _ hu
      exact hcons hu rfl h'
  · obtain ⟨c, u, rfl, hc⟩ := exists_word hx
    obtain ⟨y', rfl, h'⟩ := h.left (solid_of_isWordChar hc)
    exact hcons rfl rfl h'

theorem Relaid.dropGaps {x y : Text} (h : Relaid x y) :
    Relaid (x.dropWhile isSpaceOrBreak) (y.dropWhile isSpaceOrBreak) ∨
      BeginsStray (x.dropWhile isSpaceOrBreak) := by
  induction h with
  | ends hx hy => exact .inl (.ends (all_dropWhile hx) (all_dropWhile hy))
  | @char c x y hc h ih =>
    by_cases hs : isSpaceOrBreak c
    · simpa [hs] using ih
    · simpa [hs] using .inl (Relaid.char hc h)
  | @literal q l k v x y hq hl hk hx hy h ih =>
    obtain ⟨k, rfl⟩ := List.head?_eq_some_iff.1 (hk.head hl)
    obtain ⟨l, rfl⟩ := List.head?_eq_some_iff.1 hl
    have hs := isSpaceOrBreak_of_isQuote hq
    simpa [hs] using .inl (Relaid.literal hq hl hk hx hy h)
  | comment hc hx hy h ih => exact .inl (.comment hc hx hy h)
  | equals hw hw' hv hv' h ih =>
    rw [Text.dropWhile_append_of_all (all_isSpaceOrBreak hw),
      Text.dropWhile_append_of_all (all_isSpaceOrBreak hv)]
    exact .inl (.equals (w := []) (v := []) rfl hw' rfl hv' h)
  | @breaks w v x y hw hv h ih =>
    rw [Text.dropWhile_append_of_all hw, Text.dropWhile_append_of_all hv]
    exact ih
  | broken hq hx =>
    have hs := isSpaceOrBreak_of_isQuote hq
    simpa [hs] using .inl (Relaid.broken hq hx)
  | @stray w v x y c d hw hc hv hd =>
    have hs : isSpaceOrBreak c = false := isSpaceOrBreak_of_isStray hc
    rw [Text.dropWhile_append_of_all hw]
    exact .inr ⟨c, x, by simp [hs], hc⟩
  | strayValue hw hw' hc hv =>
    rw [Text.dropWhile_append_of_all (all_isSpaceOrBreak hw),
      Text.dropWhile_append_of_all (all_isSpaceOrBreak hv)]
    exact .inl (.strayValue (w := []) (v := []) rfl hw' hc rfl)

theorem Relaid.equals_left {x y : Text} (h : Relaid ('=' :: x) y) :
    ∃ y', y.dropWhile isSpace = '=' :: y' ∧
      (Relaid (x.dropWhile isSpace) (y'.dropWhile isSpace) ∨
        BeginsStray (x.dropWhile isSpace)) := by
  rcases h.visible (by decide) with ⟨hc, -⟩ | ⟨hq, -⟩ | ⟨hc, -⟩ | ⟨-, h⟩
  · cases hc
  · cases hq
  · cases hc
  · exact h

theorem Relaid.comment_left {x y : Text} (h : Relaid ('#' :: x) y) :
    ∃ c d x' y', x = c ++ x' ∧ y = '#' :: (d ++ y') ∧ Recommented c d ∧ AtBreak x' ∧ AtBreak y' ∧
      Relaid x' y' := by
  rcases h.visible (by decide) with ⟨hc, -⟩ | ⟨hq, -⟩ | ⟨-, h⟩ | ⟨hc, -⟩
  · cases hc
  · cases hq
  · exact h
  · cases hc

theorem Relaid.literal_left {q : Char} (hq : isQuote q) {x y v : Text} {o : Nat} {d : Cursor}
    (h : Relaid (q :: x) y) (hread : string ⟨o, q :: x⟩ = .ok (v, d)) :
    ∃ l k y', q :: x = l ++ d.rest ∧ y = k ++ y' ∧ l.head? = some q ∧ Respelled l k ∧
      ReadsAs l v d.rest ∧ ReadsAs k v y' ∧ Relaid d.rest y' := by
  have hblank : Text.isBlank q = false := by rcases isQuote_iff.1 hq with rfl | rfl <;> decide
  rcases h.visible hblank with ⟨hc, -⟩ |
    ⟨-, ⟨l, k, u, x', y', hx, rfl, hl, hk, hrx, hry, h⟩ | hbroken⟩ | ⟨rfl, -⟩ | ⟨rfl, -⟩
  · simp [isCode, hq] at hc
  · rw [hx, hrx] at hread
    cases hread
    exact ⟨l, k, y', hx, rfl, hl, hk, hrx, hry, h⟩
  · exact absurd hread (hbroken o _)
  · cases hq
  · cases hq

theorem Relaid.nil_left {y : Text} (h : Relaid [] y) : y.all isSpaceOrBreak := by
  generalize hx : [] = x at h
  cases h with
  | ends _ hy => exact hy
  | char => cases hx
  | literal hq hl =>
    obtain ⟨l, rfl⟩ := List.head?_eq_some_iff.1 hl
    cases hx
  | comment => cases hx
  | equals => simp at hx
  | breaks => simp at hx
  | broken => cases hx
  | stray => simp at hx
  | strayValue => simp at hx

theorem head?_append_cons_ne_none (w x : Text) (c : Char) : (w ++ c :: x).head? ≠ none := by
  cases w <;> simp

theorem atBreak_dropSpaces {y : Text} (hy : y.all isSpaceOrBreak) :
    AtBreak (y.dropWhile isSpace) := by
  rcases hrest : y.dropWhile isSpace with _ | ⟨b, r⟩
  · exact .inl rfl
  · have hb : isSpaceOrBreak b := by
      have hall := all_dropWhile (q := isSpace) hy
      rw [hrest, List.all_cons, Bool.and_eq_true] at hall
      exact hall.1
    have hspace : isSpace b = false := by
      have := List.head?_dropWhile_not isSpace y
      rw [hrest] at this
      simpa using this
    obtain rfl : b = '\n' := by simpa [isSpaceOrBreak, hspace] using hb
    exact .inr rfl

/-- Lines end where they did. -/
theorem Relaid.atBreak {x y : Text} (h : Relaid x y) (hx : AtBreak x) :
    AtBreak (y.dropWhile isSpace) := by
  cases h with
  | ends _ hy => exact atBreak_dropSpaces hy
  | char hc =>
    rcases hx with hx | hx <;> cases hx
    cases hc
  | literal hq hl =>
    obtain ⟨l, rfl⟩ := List.head?_eq_some_iff.1 hl
    rcases hx with hx | hx <;> cases hx
    cases hq
  | comment => rcases hx with hx | hx <;> cases hx
  | equals hw =>
    rcases hx with hx | hx
    · exact absurd hx (head?_append_cons_ne_none _ _ _)
    · exact absurd hx (head_append_ne hw (by decide) (by decide) _)
  | @breaks _ v _ _ _ hv _ =>
    rw [dropWhile_append_cons v (by decide)]
    rcases hrest : v.dropWhile isSpace with _ | ⟨b, r⟩
    · exact .inr rfl
    · have := atBreak_dropSpaces hv
      rwa [hrest] at this
  | broken hq =>
    rcases hx with hx | hx <;> cases hx
    cases hq
  | stray hw hc hv hd =>
    rcases hd with rfl | ⟨-, hspace⟩
    · rw [Text.dropWhile_append_of_all hv]
      exact .inr rfl
    · rcases hx with hx | hx
      · exact absurd hx (head?_append_cons_ne_none _ _ _)
      · refine absurd hx (head_append_ne hspace (by decide) ?_ _)
        rintro rfl
        cases hc
  | strayValue hw =>
    rcases hx with hx | hx
    · exact absurd hx (head?_append_cons_ne_none _ _ _)
    · exact absurd hx (head_append_ne hw (by decide) (by decide) _)

end ConfigCare.Toml
