import ConfigCare.Proofs.TomlLiterals
import ConfigCare.Proofs.TomlStatements

/-! A TOML text reads as before when it is formatted, if none of its string literals becomes another
string. What is printed for a text behind any part of a line is the same text in another layout: by
induction on its length, one piece of the text at a time. -/

namespace ConfigCare.Toml

open Text Format

variable {line w x y z : Text}

/-! ## Strays -/

theorem exists_stray {w : Text} (hw : isBlankLine w) (h : ¬ w.all isSpaceOrBreak) :
    ∃ u c v, w = u ++ c :: v ∧ u.all isSpaceOrBreak ∧ isStray c := by
  rcases hrest : w.dropWhile isSpaceOrBreak with _ | ⟨c, v⟩
  · exact absurd (List.all_eq_true.2 (List.dropWhile_eq_nil_iff.1 hrest)) h
  · refine ⟨_, c, v, hrest ▸ List.takeWhile_append_dropWhile.symm, List.all_takeWhile, ?_⟩
    have hc : isBlank c := List.all_eq_true.1 hw c
      ((List.dropWhile_suffix isSpaceOrBreak).mem (hrest ▸ List.mem_cons_self))
    have hstray := List.head?_dropWhile_not isSpaceOrBreak w
    rw [hrest] at hstray
    simpa [isStray, hc] using hstray

theorem all_isSpace {w : Text} (hn : '\n' ∉ w) (h : w.all isSpaceOrBreak) : w.all isSpace := by
  refine List.all_eq_true.2 fun c hc => ?_
  have hne : c ≠ '\n' := fun he => hn (he ▸ hc)
  simpa [isSpaceOrBreak, hne] using List.all_eq_true.1 h c hc

/-! ## Margins that change -/

theorem relaid_char {c : Char} (hhash : c ≠ '#') (hq : isQuote c = false) (h : Relaid x y) :
    Relaid (c :: x) (c :: y) := by
  by_cases hsign : c = '='
  · subst hsign
    have hequals : Relaid ([] ++ '=' :: ([] ++ x)) ([] ++ '=' :: ([] ++ y)) :=
      .equals rfl rfl rfl rfl h
    exact hequals
  by_cases hbreak : c = '\n'
  · subst hbreak
    exact .breaks (w := []) (v := []) rfl rfl h
  · exact .char (by simp [isCode, hq, hhash, hsign, hbreak]) h

theorem relaid_sign {w u v : Text} (hw : isBlankLine w) (hn : '\n' ∉ w) (hu : isBlankLine u)
    (hm : '\n' ∉ u) (hv : v = [] ∨ v = [' ']) (h : Relaid x y) :
    Relaid (w ++ '=' :: (u ++ x)) (' ' :: '=' :: (v ++ y)) := by
  have hspace : v.all isSpace := by rcases hv with rfl | rfl <;> rfl
  by_cases hall : w.all isSpaceOrBreak
  · by_cases hallu : u.all isSpaceOrBreak
    · exact .equals (v := [' ']) (all_isSpace hn hall) (all_isSpace hm hallu) rfl hspace h
    · obtain ⟨u, c, t, rfl, huall, hc⟩ := exists_stray hu hallu
      simpa using Relaid.strayValue (v := [' ']) (y := v ++ y) (all_isSpace hn hall)
        (all_isSpace (notMem_left hm) huall) hc rfl
  · obtain ⟨w, c, t, rfl, hwall, hc⟩ := exists_stray hw hall
    simpa using Relaid.stray (v := [' ']) (x := t ++ '=' :: (u ++ x)) (y := v ++ y) hwall hc rfl
      (.inr ⟨rfl, all_isSpace (notMem_left hn) hwall⟩)

theorem relaid_break {w v : Text} (hw : isBlankLine w) (hv : v = [] ∨ v = ['\n'])
    (h : Relaid x y) : Relaid (w ++ '\n' :: x) (v ++ '\n' :: y) := by
  by_cases hall : w.all isSpaceOrBreak
  · exact .breaks hall (by rcases hv with rfl | rfl <;> rfl) h
  · obtain ⟨w, c, t, rfl, hwall, hc⟩ := exists_stray hw hall
    rw [List.append_assoc]
    rcases hv with rfl | rfl
    · exact .stray (v := []) hwall hc rfl (.inl rfl)
    · exact .stray (v := []) hwall hc rfl (.inl rfl)

theorem relaid_blank (hx : isBlankLine x) : Relaid x ['\n'] := by
  by_cases hall : x.all isSpaceOrBreak
  · exact .ends hall (by decide)
  · obtain ⟨w, c, v, rfl, hw, hc⟩ := exists_stray hx hall
    exact .stray (v := []) hw hc rfl (.inl rfl)

/-- White space begins no comment and no literal. -/
theorem code_of_blank (hw : isBlankLine w) : ∀ c ∈ w, c ≠ '#' ∧ isQuote c = false := by
  intro c hc
  have hblank := List.all_eq_true.1 hw c hc
  constructor
  · rintro rfl
    cases hblank
  · by_contra hq
    rw [isBlank_of_isQuote (by simpa using hq)] at hblank
    cases hblank

theorem relaid_margin (hw : isBlankLine w) (h : Relaid x y) : Relaid (w ++ x) (w ++ y) := by
  have hcode := code_of_blank hw
  clear hw
  induction w with
  | nil => exact h
  | cons c w ih =>
    rw [List.forall_mem_cons] at hcode
    exact relaid_char hcode.1.1 hcode.1.2 (ih hcode.2)

/-! ## Literals that formatting spares -/

theorem placed_margin (hw : isBlankLine w) (line z : Text) :
    placed line (w ++ '\n' :: z) = placed [] z := by
  rw [placed_append (code_of_blank hw), placed_cons (by decide) (by decide)]
  rfl

/-- The body of a comment is printed as what may become of it. -/
theorem recommented_spacedBehind {c : Text} (hc : '\n' ∉ c) (line : Text) :
    Recommented c (spacedBehind line c) where
  left := hc
  right hmem := (mem_spacedBehind hmem).elim hc (by decide)
  allowed hall a ha := by
    rcases mem_spacedBehind ha with ha | rfl
    · exact hall a ha
    · decide

theorem atBreak_formedBehind (hx : AtBreak x) (line : Text) : AtBreak (formedBehind line x) := by
  rcases x with _ | ⟨d, x⟩
  · exact .inr rfl
  · rcases hx with hx | hx <;> cases hx
    exact .inr rfl

theorem exists_margin (h : ¬ isBlankLine (x.takeWhile (· ≠ '\n'))) :
    ∃ w c r, x = w ++ c :: r ∧ isBlankLine w ∧ '\n' ∉ w ∧ isBlank c = false := by
  obtain ⟨w, hw, hx⟩ := exists_trimStart (x.takeWhile (· ≠ '\n'))
  have hn := newline_notMem_takeWhile x
  have hne : trimStart (x.takeWhile (· ≠ '\n')) ≠ [] := by
    intro hnil
    rw [hnil, List.append_nil] at hx
    exact h (hx ▸ hw)
  obtain ⟨c, t, ht⟩ := List.exists_cons_of_ne_nil hne
  refine ⟨w, c, t ++ x.dropWhile (· ≠ '\n'), ?_, hw, notMem_left (hx ▸ hn), trimStart_cons ht⟩
  rw [← List.cons_append, ← ht, ← List.append_assoc, ← hx, List.takeWhile_append_dropWhile]

theorem exists_value (x : Text) :
    ∃ u r, x = u ++ r ∧ isBlankLine u ∧ '\n' ∉ u ∧
      ∀ c ∈ (r.takeWhile (· ≠ '\n')).head?, isBlank c = false := by
  obtain ⟨u, hu, hx⟩ := exists_trimStart (x.takeWhile (· ≠ '\n'))
  have hn := newline_notMem_takeWhile x
  rw [hx] at hn
  refine ⟨u, trimStart (x.takeWhile (· ≠ '\n')) ++ x.dropWhile (· ≠ '\n'), ?_, hu,
    notMem_left hn, ?_⟩
  · rw [← List.append_assoc, ← hx, List.takeWhile_append_dropWhile]
  · rw [takeWhile_line (notMem_right hn) (atBreak_dropLine x)]
    intro c hc
    obtain ⟨t, ht⟩ := List.head?_eq_some_iff.1 hc
    exact trimStart_cons ht

/-- What is printed for a text is the text in another layout. -/
def FormsRelaid (x : Text) : Prop :=
  ∀ line, (∀ p ∈ placed line x, Spared p.1 p.2) → Relaid x (formedBehind line x)

theorem relaid_comment (ih : FormsRelaid (x.dropWhile (· ≠ '\n'))) : FormsRelaid ('#' :: x) := by
  intro line h
  have hn := newline_notMem_takeWhile x
  have hbreak := atBreak_dropLine x
  have hx := (List.takeWhile_append_dropWhile (p := (· ≠ '\n')) (l := x)).symm
  generalize x.takeWhile (· ≠ '\n') = c at *
  generalize x.dropWhile (· ≠ '\n') = z at *
  subst hx
  rw [placed_comment hn hbreak] at h
  rw [formedBehind_cons (by decide) fun h => absurd h (by decide),
    formedBehind_atBreak hn hbreak _ (line ++ '#' :: c)]
  exact .comment (recommented_spacedBehind hn _) hbreak (atBreak_formedBehind hbreak _) (ih _ h)

theorem relaid_quote {q : Char} (hq : isQuote q)
    (ih : ∀ z : Text, z.length ≤ x.length → FormsRelaid z) : FormsRelaid (q :: x) := by
  intro line h
  have hblank := isBlank_of_isQuote hq
  have hsign : q ≠ '=' := by rintro rfl; cases hq
  rcases hs : string ⟨0, q :: x⟩ with e | ⟨v, d⟩
  · rw [formedBehind_cons hblank fun h => absurd h hsign]
    refine .broken hq fun o r hr => ?_
    obtain ⟨l, hx, -, -, hreads, -⟩ := exists_literal hq hr
    rw [hx, hreads 0] at hs
    cases hs
  · obtain ⟨l, hx, hhead, hlast, hreads, -⟩ := exists_literal hq hs
    rw [hx, placed_literal hq hhead hreads, List.forall_mem_cons] at h
    obtain ⟨⟨k, hk, hform⟩, hlater⟩ := h
    obtain ⟨k', hform', hcut⟩ := formedBehind_cut hlast hblank hsign line
    obtain rfl : k' = k := List.append_cancel_right (hform'.symm.trans hform)
    have hlen : d.rest.length ≤ x.length := by
      have hpos : 0 < l.length := List.length_pos_of_mem (List.mem_of_getLast? hlast)
      have := congrArg List.length hx
      rw [List.length_append, List.length_cons] at this
      omega
    have hrest := ih d.rest hlen _ hlater
    have hreads' := hreads.respelled hq hhead hk (hrest.head_quote hq)
    rw [hx, hcut]
    exact .literal hq hhead hk hreads hreads' hrest

theorem relaid_visible {c : Char} (hc : isBlank c = false) (hkey : c = '=' → ¬ IsKey line)
    (ih : ∀ z : Text, z.length ≤ x.length → FormsRelaid z)
    (h : ∀ p ∈ placed line (c :: x), Spared p.1 p.2) :
    Relaid (c :: x) (formedBehind line (c :: x)) := by
  by_cases hhash : c = '#'
  · subst hhash
    exact relaid_comment (ih _ (List.dropWhile_suffix _).length_le) line h
  by_cases hq : isQuote c
  · exact relaid_quote hq ih line h
  have hbreak : c ≠ '\n' := by rintro rfl; cases hc
  replace hq : isQuote c = false := by simpa using hq
  rw [placed_cons hhash hq, lineAfter_of_ne hbreak] at h
  rw [formedBehind_cons hc hkey]
  exact relaid_char hhash hq (ih x le_rfl _ h)

theorem relaid_key (hw : isBlankLine w) (hn : '\n' ∉ w) (hkey : IsKey (line ++ w))
    (ih : ∀ z : Text, z.length ≤ x.length → FormsRelaid z)
    (h : ∀ p ∈ placed line (w ++ '=' :: x), Spared p.1 p.2) :
    Relaid (w ++ '=' :: x) (formedBehind line (w ++ '=' :: x)) := by
  obtain ⟨u, r, rfl, hu, hm, hr⟩ := exists_value x
  obtain ⟨t, ht, heq⟩ := spacedBehind_key hw hu hkey hr
  have hbreak : '\n' ∉ w ++ '=' :: u := by simp [hn, hm]
  have hcode : ∀ c ∈ w ++ '=' :: u, c ≠ '#' ∧ isQuote c = false := by
    intro c hc
    rcases List.mem_append.1 hc with hc | hc
    · exact code_of_blank hw c hc
    · rcases List.mem_cons.1 hc with rfl | hc
      · decide
      · exact code_of_blank hu c hc
  have hsplit : w ++ '=' :: (u ++ r) = (w ++ '=' :: u) ++ r := by simp
  have hform : formedBehind line (w ++ '=' :: u ++ r) =
      ' ' :: '=' :: t ++ formedBehind (line ++ (w ++ '=' :: u)) r := by
    refine formedBehind_append hbreak ?_
    rw [List.append_assoc, List.cons_append, heq]
    rfl
  rw [hsplit, placed_append hcode, lineBehind_of_notMem hbreak] at h
  rw [hsplit, hform, ← hsplit]
  refine relaid_sign hw hn hu hm ht (ih r ?_ _ h)
  rw [List.length_append]
  omega

/-- Formatting is a matter of layout as far as it spares the literals. -/
theorem relaid_formedBehind (x : Text) : FormsRelaid x := by
  induction hn : x.length using Nat.strong_induction_on generalizing x with
  | _ n ih =>
  intro line h
  by_cases hx : isBlankLine x
  · rw [formedBehind_blank hx]
    exact relaid_blank hx
  rcases exists_first_line hx with hfirst | ⟨w, z, rfl, hw, hz⟩
  · obtain ⟨w, c, r, rfl, hw, hnw, hc⟩ := exists_margin hfirst
    have hlen : (w ++ c :: r).length = w.length + r.length + 1 := by
      rw [List.length_append, List.length_cons, Nat.add_assoc]
    have hshort (z : Text) (hz : z.length ≤ r.length) : FormsRelaid z :=
      ih z.length (by omega) z rfl
    by_cases hkey : c = '=' ∧ IsKey (line ++ w)
    · obtain ⟨rfl, hkey⟩ := hkey
      exact relaid_key hw hnw hkey hshort h
    replace hkey : c = '=' → ¬ IsKey (line ++ w) := fun hc h => hkey ⟨hc, h⟩
    have hbreak : c ≠ '\n' := by rintro rfl; cases hc
    have hform : formedBehind line (w ++ c :: r) = w ++ formedBehind (line ++ w) (c :: r) := by
      refine formedBehind_append hnw ?_
      rw [List.takeWhile_cons_of_pos (by simpa using hbreak)]
      exact spacedBehind_margin hw hc hkey _
    rw [placed_append (code_of_blank hw), lineBehind_of_notMem hnw] at h
    rw [hform]
    exact relaid_margin hw (relaid_visible hc hkey hshort h)
  · obtain ⟨t, ht, heq⟩ := formedBehind_margin hw hz line
    rw [placed_margin hw] at h
    rw [heq]
    refine relaid_break hw ht (ih z.length ?_ z rfl [] h)
    rw [← hn, List.length_append, List.length_cons]
    omega

theorem relaid_normalizeToml {s : Text}
    (h : ∀ p ∈ placed [] (unifyBreaks s), Spared p.1 p.2) :
    Relaid (unifyBreaks s) (normalizeToml s) := by
  rw [normalizeToml_eq]
  split
  · next hx => exact relaid_blank hx
  · next hx =>
    rcases exists_first_line hx with hfirst | ⟨w, z, heq, hw, hz⟩
    · rw [formedLines_eq hfirst]
      exact relaid_formedBehind _ [] h
    · rw [heq, placed_margin hw] at h
      rw [heq, formedLines_margin hw hz]
      exact relaid_break hw (.inl rfl) (relaid_formedBehind z [] h)

/-- Formatting keeps the tables, keys and values of a text of whose string literals, quoted keys
among them, it makes no other strings. It makes none of a literal in which no line ends in white
space, no blank lines are next to each other, and an equals sign that is the first one of its line
has single spaces around it. -/
theorem read_normalizeToml {s : Text} {es : Entries} (hs : read s = .ok es) :
    ((∀ p ∈ placed [] (unifyBreaks s), Spared p.1 p.2) → read (normalizeToml s) = .ok es) ∧
      ∀ p ∈ placed [] (unifyBreaks s), Untouched p.1 p.2 → Spared p.1 p.2 := by
  refine ⟨fun h => read_relaid ?_ hs, fun p hp => spared_of_untouched hp⟩
  rw [unifyBreaks_normalizeToml]
  exact relaid_normalizeToml h

theorem exists_read {s : Text} (h : (read s).toBool) : ∃ es, read s = .ok es := by
  rcases hs : read s with e | es
  · rw [hs] at h
    cases h
  · exact ⟨es, rfl⟩

/-- A value holds an equals sign, but not the first one of its line; another one is spelled with
white space behind the backslash at the end of a line. -/
theorem read_normalizeToml_of_later_sign :
    ∃ es, read (lit "\"k\"='a=b' # = \r\n\n\n[ t ]\nx=[\"\"\"1\\  \n2\"\"\"]") = .ok es ∧
      normalizeToml (lit "\"k\"='a=b' # = \r\n\n\n[ t ]\nx=[\"\"\"1\\  \n2\"\"\"]") =
        lit "\"k\" = 'a=b' # =\n\n[ t ]\nx = [\"\"\"1\\\n2\"\"\"]\n" ∧
      read (lit "\"k\" = 'a=b' # =\n\n[ t ]\nx = [\"\"\"1\\\n2\"\"\"]\n") = .ok es := by
  obtain ⟨es, hes⟩ :
      ∃ es, read (lit "\"k\"='a=b' # = \r\n\n\n[ t ]\nx=[\"\"\"1\\  \n2\"\"\"]") = .ok es :=
    exists_read (by decide +kernel)
  have hformat :
      normalizeToml (lit "\"k\"='a=b' # = \r\n\n\n[ t ]\nx=[\"\"\"1\\  \n2\"\"\"]") =
        lit "\"k\" = 'a=b' # =\n\n[ t ]\nx = [\"\"\"1\\\n2\"\"\"]\n" := by decide +kernel
  have hplaced :
      placed [] (unifyBreaks (lit "\"k\"='a=b' # = \r\n\n\n[ t ]\nx=[\"\"\"1\\  \n2\"\"\"]")) =
        [([], lit "\"k\""), (lit "\"k\"=", lit "'a=b'"),
          (lit "x=[", lit "\"\"\"1\\  \n2\"\"\"")] := by decide +kernel
  refine ⟨es, hes, hformat, ?_⟩
  rw [← hformat]
  refine (read_normalizeToml hes).1 ?_
  rw [hplaced]
  simp only [List.forall_mem_cons, List.not_mem_nil, false_imp_iff, implies_true, and_true]
  have hlong : Respelled (lit "\"\"\"1\\  \n2\"\"\"" ++ []) (lit "\"\"\"1\\\n2\"\"\"" ++ []) :=
    .long (q := '"') (u := lit "12") rfl rfl rfl (by cbv) (by cbv) []
  exact ⟨⟨_, .same _, by decide +kernel⟩, ⟨_, .same _, by decide +kernel⟩,
    _, hlong, by decide +kernel⟩

/-- The first equals sign of a line may stand in a quoted key, which then becomes another one. -/
theorem read_normalizeToml_of_sign_in_key :
    ¬ ∀ s es, read s = .ok es → read (normalizeToml s) = .ok es := by
  intro h
  obtain ⟨es, hes⟩ := exists_read (s := lit "\"a=b\" = 1\n") (by decide +kernel)
  have hkeys : (read (lit "\"a=b\" = 1\n")).toOption.map (·.map Prod.fst) =
      some [WideText.ofText (lit "a=b")] := by decide +kernel
  have hkeys' : (read (normalizeToml (lit "\"a=b\" = 1\n"))).toOption.map (·.map Prod.fst) =
      some [WideText.ofText (lit "a = b")] := by decide +kernel
  rw [hes] at hkeys
  rw [h _ es hes] at hkeys'
  exact absurd (hkeys.symm.trans hkeys') (by decide +kernel)

end ConfigCare.Toml
