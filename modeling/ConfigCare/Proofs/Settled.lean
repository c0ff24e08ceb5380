import ConfigCare.Proofs.InlineComments
import ConfigCare.Proofs.NestedTokens

/-! Indenting an indented text changes nothing, whatever the text is. A step that prints a line which
it would print again, and from which it would hand on the same state, settles a whole text; for both
reindenters the one thing to see is that the space they write in front of a `//` moves neither the
`//` that they find nor anything that they count. -/

namespace ConfigCare

namespace Text

variable {σ : Type}

/-- A step that takes what it prints for a line as it took the line, and prints no line break. -/
structure Settles (step : σ → Text → σ × Text) : Prop where
  again : ∀ s l, '\n' ∉ l → step s (step s l).2 = step s l
  oneLine : ∀ s l, '\n' ∉ l → '\n' ∉ (step s l).2

theorem length_threaded (step : σ → Text → σ × Text) (s : σ) (ls : List Text) :
    (threaded step s ls).length = ls.length := by
  induction ls generalizing s with
  | nil => rfl
  | cons l ls ih => simp [ih]

theorem Settles.not_mem {step : σ → Text → σ × Text} (h : Settles step) (s : σ) {ls : List Text}
    (hls : ∀ l ∈ ls, '\n' ∉ l) : ∀ l ∈ threaded step s ls, '\n' ∉ l := by
  induction ls generalizing s with
  | nil => simp
  | cons l ls ih =>
    intro l' hl'
    rw [threaded_cons, List.mem_cons] at hl'
    rcases hl' with rfl | hl'
    · exact h.oneLine s l (hls l (by simp))
    · exact ih _ (fun k hk => hls k (by simp [hk])) l' hl'

theorem Settles.threaded {step : σ → Text → σ × Text} (h : Settles step) (s : σ) {ls : List Text}
    (hls : ∀ l ∈ ls, '\n' ∉ l) : threaded step s (threaded step s ls) = threaded step s ls := by
  induction ls generalizing s with
  | nil => rfl
  | cons l ls ih =>
    simp only [threaded_cons, h.again s l (hls l (by simp)), ih _ fun k hk => hls k (by simp [hk])]

/-- Lines, each with its line feed, are split into themselves and what stands behind the last. -/
theorem splitOn_terminated {ls : List Text} (hls : ∀ l ∈ ls, '\n' ∉ l) :
    splitOn '\n' (terminated ls) = ls ++ [[]] := by
  rw [← List.append_nil (terminated ls), splitOn_terminated_append hls]
  rfl

theorem terminated_inj {ls ls' : List Text} (hls : ∀ l ∈ ls, '\n' ∉ l) (hls' : ∀ l ∈ ls', '\n' ∉ l)
    (h : terminated ls = terminated ls') : ls = ls' := by
  have hsplit := congrArg (splitOn '\n') h
  rw [splitOn_terminated hls, splitOn_terminated hls'] at hsplit
  exact List.append_cancel_right hsplit

theorem exists_nil_tail (ls : List Text) :
    ∃ ls' k, ls = ls' ++ List.replicate k [] ∧ (ls' = [] ∨ ∃ front l, ls' = front ++ [l] ∧ l ≠ []) := by
  induction ls with
  | nil => exact ⟨[], 0, rfl, .inl rfl⟩
  | cons l ls ih =>
    obtain ⟨ls', k, rfl, rfl | ⟨front, l', rfl, hl'⟩⟩ := ih
    · by_cases hl : l = []
      · exact ⟨[], k + 1, by simp [hl, List.replicate_succ], .inl rfl⟩
      · exact ⟨[l], k, rfl, .inr ⟨[], l, rfl, hl⟩⟩
    · exact ⟨l :: (front ++ [l']), k, rfl, .inr ⟨l :: front, l', rfl, hl'⟩⟩

/-- Going through a text that has been gone through already changes nothing. -/
theorem Settles.unlines_threaded {step : σ → Text → σ × Text} (h : Settles step)
    (hends : KeepsLineEnds step) (htrim : ∀ s l, step s l = step s (trim l)) (s : σ) (t : Text) :
    let once := unlines (Text.threaded step s (lines t))
    unlines (Text.threaded step s (lines once)) = once := by
  intro once
  have hsplit : ∀ l ∈ splitOn '\n' t, '\n' ∉ l := not_mem_of_mem_splitOn
  have honce : once = unlines (Text.threaded step s (splitOn '\n' t)) := by
    simp only [once, threaded_lines step htrim]
  have hout := h.not_mem s hsplit
  have hagain := h.threaded s hsplit
  rw [honce, threaded_lines step htrim]
  obtain ⟨ls, k, hls, rfl | ⟨front, l, rfl, hl⟩⟩ := exists_nil_tail (Text.threaded step s (splitOn '\n' t))
  · rw [hls, List.nil_append, unlines_nils]
    have hblank : Text.threaded step s [[], []] = List.replicate 2 [] :=
      hends.threaded_blank s (by simp [isBlankLine])
    exact (congrArg unlines hblank).trans (unlines_nils 2)
  · rw [hls] at hout hagain ⊢
    have hkept : ∀ l' ∈ front ++ [l], '\n' ∉ l' := fun l' hl' => hout l' (List.mem_append_left _ hl')
    have hlast : ∀ c ∈ l.getLast?, c ≠ '\n' := by
      rintro c hc rfl
      exact hkept l (by simp) (List.mem_of_getLast? hc)
    have hfront : Text.threaded step s (front ++ [l]) = front ++ [l] := by
      rw [threaded_append] at hagain
      exact (List.append_inj hagain (length_threaded step s _)).1
    rw [unlines_append_nils (by simp), unlines_concat front hl hlast, splitOn_terminated hkept,
      threaded_append, hfront, hends.threaded_blank _ (by simp [isBlankLine]), List.length_singleton,
      unlines_append_nils (by simp), unlines_concat front hl hlast]

/-- What is printed in front of and for a line, from a line that is printed. -/
theorem exists_of_threaded {step : σ → Text → σ × Text} {s : σ} {ls front rest : List Text}
    {l : Text} (h : Text.threaded step s ls = front ++ l :: rest) :
    ∃ ls₁ l₁ rest₁, ls = ls₁ ++ l₁ :: rest₁ ∧ Text.threaded step s ls₁ = front ∧
      (step (threadedState step s ls₁) l₁).2 = l := by
  induction front generalizing s ls with
  | nil =>
    cases ls with
    | nil => cases h
    | cons k ks =>
      rw [threaded_cons, List.nil_append, List.cons.injEq] at h
      exact ⟨[], k, ks, rfl, rfl, h.1⟩
  | cons f front ih =>
    cases ls with
    | nil => cases h
    | cons k ks =>
      rw [threaded_cons, List.cons_append, List.cons.injEq] at h
      obtain ⟨ls₁, l₁, rest₁, rfl, hfront, hline⟩ := ih h.2
      exact ⟨k :: ls₁, l₁, rest₁, rfl, by rw [threaded_cons, h.1, hfront], hline⟩

/-- A printed line that is not blank is what some line of the text is printed as. -/
theorem Settles.exists_line {step : σ → Text → σ × Text} (h : Settles step)
    (hends : KeepsLineEnds step) {s : σ} {t : Text} {front rest : List Text} {l : Text}
    (hsplit : splitOn '\n' (unlines (Text.threaded step s (splitOn '\n' t))) = front ++ l :: rest)
    (hl : ¬ isBlankLine l) :
    ∃ ls₁ l₁ rest₁, splitOn '\n' t = ls₁ ++ l₁ :: rest₁ ∧ Text.threaded step s ls₁ = front ∧
      (step (threadedState step s ls₁) l₁).2 = l := by
  have hne : l ≠ [] := by
    rintro rfl
    exact hl rfl
  obtain ⟨ls, bs, hls, -, hout⟩ := hends.unlines_threaded s (splitOn '\n' t)
  rcases hout with hout | ⟨-, hout⟩
  · have hnot : ∀ k ∈ ls, '\n' ∉ k := fun k hk =>
      not_mem_of_mem_splitOn k (hls ▸ List.mem_append_left bs hk)
    rw [hout, splitOn_terminated (h.not_mem s hnot)] at hsplit
    rcases List.append_eq_append_iff.1 hsplit with ⟨a, -, ha⟩ | ⟨a, hthreaded, ha⟩
    · have hmem : l ∈ [[]] := ha ▸ by simp
      exact absurd (List.mem_singleton.1 hmem) hne
    · cases a with
      | nil => exact absurd (List.cons.inj ha).1 hne
      | cons k a =>
        obtain rfl : l = k := (List.cons.inj ha).1
        obtain ⟨ls₁, l₁, rest₁, rfl, hfront, hline⟩ := exists_of_threaded hthreaded
        exact ⟨ls₁, l₁, rest₁ ++ bs, by rw [hls]; simp, hfront, hline⟩
  · rw [hout] at hsplit
    have hmem : l ∈ [[], []] := by
      rw [show ([[], []] : List Text) = splitOn '\n' ['\n'] from rfl, hsplit]
      simp
    simp [hne] at hmem

end Text

namespace Jsonc

open Text

theorem trim_indent {l : Text} (h : trim l = l) (depth : Nat) : trim (indent depth ++ l) = l := by
  have hindent : isBlankLine (indent depth) := by
    simp [isBlankLine, indent, show isBlank ' ' = true by decide]
  have := trim_append (b := []) hindent rfl l
  rwa [List.append_nil, h] at this

theorem newline_not_mem_indent {l : Text} (h : '\n' ∉ l) (depth : Nat) : '\n' ∉ indent depth ++ l := by
  simp [indent, h]

/-- A line from its first visible character to the last is trimmed. -/
theorem trim_eq_self {c : Char} {cs : Text} (hc : isBlank c = false)
    (hlast : ∀ d ∈ (c :: cs).getLast?, isBlank d = false) : trim (c :: cs) = c :: cs := by
  rw [trim, trimStart_eq_self hc, trimEnd_eq_self hlast]

theorem getLast?_trim (l : Text) : ∀ c ∈ (trim l).getLast?, isBlank c = false :=
  getLast?_trimEnd _

/-! ## The search for a comment -/

theorem next_blank {c : Char} (h : isBlank c) :
    Place.next c .code = .code ∧ Place.next c .string = .string := by
  have hq : c ≠ '"' := Lexer.ne_of_isBlank h (by decide)
  have hb : c ≠ '\\' := Lexer.ne_of_isBlank h (by decide)
  simp [Place.next, hq, hb]

/-- White space does not lead back to code. -/
theorem place_of_blank {w : Text} (hw : isBlankLine w) {place : Place}
    (h : w.foldl (fun p c => Place.next c p) place = .code) : place = .code := by
  induction w generalizing place with
  | nil => exact h
  | cons c cs ih =>
    obtain ⟨hc, hcs⟩ := isBlankLine_cons.1 hw
    have hnext := ih hcs h
    cases place with
    | code => rfl
    | string => exact absurd ((next_blank hc).2.symm.trans hnext) (by decide)
    | escaped => cases hnext

theorem startsWith_space (p q c : Char) (hq : q ≠ ' ') (x : Text) :
    Text.startsWith [p, q] (c :: ' ' :: x) = false := by
  by_cases hp : p = c <;> simp [Text.startsWith, dropStart?, hp, hq]

/-- Two characters decide whether a text starts with a mark of two characters. -/
theorem startsWith_pair (p q c d : Char) (x y : Text) :
    Text.startsWith [p, q] (c :: d :: x) = Text.startsWith [p, q] (c :: d :: y) := by
  by_cases hp : p = c <;> by_cases hq : q = d <;> simp [Text.startsWith, dropStart?, hp, hq]

/-- A comment is found again with one space in front of it. -/
theorem commentFrom_gap {b w r : Text} (hw : isBlankLine w) {place : Place} {offset : Nat}
    (h : commentFrom place offset (b ++ (w ++ '/' :: '/' :: r)) =
      some (offset + b.length + w.length)) :
    commentFrom place offset (b ++ ' ' :: '/' :: '/' :: r) = some (offset + b.length + 1) := by
  induction b generalizing place offset with
  | nil =>
    obtain ⟨a, r', hl, hlen, hplace, -⟩ := commentFrom_eq_some h
    simp only [List.nil_append, List.length_nil, Nat.add_zero] at hl hlen ⊢
    obtain rfl : w = a := (List.append_inj hl (by omega)).1
    obtain rfl := place_of_blank hw hplace
    simp [commentFrom, Text.startsWith, dropStart?, lineComment, Place.next]
  | cons c b ih =>
    rw [List.cons_append, commentFrom] at h ⊢
    split at h
    · simp only [Option.some.injEq, List.length_cons] at h
      omega
    · next hgo =>
      have hstep := @ih (place.next c) (offset + 1) (by
        rw [h, List.length_cons]; congr 1; omega)
      have htest : Text.startsWith lineComment (c :: (b ++ ' ' :: '/' :: '/' :: r)) = false ∨
          Text.startsWith lineComment (c :: (b ++ ' ' :: '/' :: '/' :: r)) =
            Text.startsWith lineComment (c :: (b ++ (w ++ '/' :: '/' :: r))) := by
        cases b with
        | nil => exact .inl (startsWith_space '/' '/' c (by decide) _)
        | cons d b => exact .inr (startsWith_pair '/' '/' c d _ _)
      rw [if_neg, hstep, List.length_cons]
      · congr 1; omega
      · rcases htest with htest | htest
        · simp [htest]
        · rwa [htest]

/-! ## Pairs of brackets -/

/-- What holds none of the two brackets may as well not be there. -/
theorem holdsPair_skip {opening closing : Char} {w : Text} (ho : opening ∉ w) (hc : closing ∉ w)
    (hn : '\n' ∉ w) (seen : Bool) (x : Text) :
    holdsPair opening closing seen (w ++ x) = holdsPair opening closing seen x := by
  induction w with
  | nil => rfl
  | cons c cs ih =>
    rw [List.mem_cons, not_or] at ho hc hn
    rw [List.cons_append, holdsPair, if_neg (Ne.symm hn.1)]
    simp [Ne.symm ho.1, Ne.symm hc.1, ih ho.2 hc.2 hn.2]

/-- What holds no closing bracket may as well not be at the end. -/
theorem holdsPair_append_of_not_mem {opening closing : Char} {w : Text} (h : closing ∉ w)
    (seen : Bool) (s : Text) :
    holdsPair opening closing seen (s ++ w) = holdsPair opening closing seen s := by
  induction s generalizing seen with
  | nil =>
    rw [List.nil_append, holdsPair]
    induction w generalizing seen with
    | nil => rfl
    | cons c cs ih =>
      rw [List.mem_cons, not_or] at h
      rw [holdsPair, ih h.2, ih h.2, decide_eq_false (Ne.symm h.1), Bool.and_false, Bool.false_or,
        ite_self]
  | cons c cs ih => rw [List.cons_append, holdsPair, holdsPair, ih, ih]

theorem holdsPair_append_congr {opening closing : Char} {x y : Text}
    (h : ∀ seen, holdsPair opening closing seen x = holdsPair opening closing seen y) (b : Text)
    (seen : Bool) :
    holdsPair opening closing seen (b ++ x) = holdsPair opening closing seen (b ++ y) := by
  induction b generalizing seen with
  | nil => exact h seen
  | cons c b ih => simp only [List.cons_append, holdsPair, ih]

theorem opensBlock_gap {b w r : Text} (hw : isBlankLine w) (hn : '\n' ∉ w) :
    opensBlock (b ++ ' ' :: '/' :: '/' :: r) = opensBlock (b ++ (w ++ '/' :: '/' :: r)) := by
  have hpair : ∀ opening closing : Char, isBlank opening = false → isBlank closing = false →
      holdsPair opening closing false (b ++ ' ' :: '/' :: '/' :: r) =
        holdsPair opening closing false (b ++ (w ++ '/' :: '/' :: r)) := by
    intro opening closing ho hc
    have hmem : ∀ {u : Text} {x : Char}, isBlankLine u → isBlank x = false → x ∉ u :=
      fun hu hx hmem => by rw [List.all_eq_true.1 hu _ hmem] at hx; cases hx
    have hspace : isBlankLine [' '] := rfl
    refine holdsPair_append_congr (fun seen => ?_) b false
    rw [holdsPair_skip (hmem hw ho) (hmem hw hc) hn]
    exact holdsPair_skip (hmem hspace ho) (hmem hspace hc) (by decide) seen _
  have hlast : (b ++ ' ' :: '/' :: '/' :: r).getLast? = (b ++ (w ++ '/' :: '/' :: r)).getLast? := by
    rw [List.append_cons, List.getLast?_append_of_ne_nil _ (by simp), ← List.append_assoc,
      List.getLast?_append_of_ne_nil _ (by simp)]
  unfold opensBlock endsWithAny
  rw [hlast, hpair _ _ (by decide) (by decide), hpair _ _ (by decide) (by decide)]

/-! ## Line by line -/

/-- What a line's first character and its comment decide does not change with the gap. -/
theorem isCommentLine_gap {c : Char} {b w r : Text}
    (h : isCommentLine (c :: b ++ (w ++ '/' :: '/' :: r)) = false) :
    isCommentLine (c :: b ++ ' ' :: '/' :: '/' :: r) = false := by
  simp only [isCommentLine, Bool.or_eq_false_iff] at h ⊢
  obtain ⟨⟨hline, hblock⟩, hstar⟩ := h
  refine ⟨⟨?_, ?_⟩, ?_⟩
  · cases b with
    | nil => exact startsWith_space '/' '/' c (by decide) _
    | cons d b => rw [← hline]; exact startsWith_pair '/' '/' c d _ _
  · cases b with
    | nil => exact startsWith_space '/' '*' c (by decide) _
    | cons d b => rw [← hblock]; exact startsWith_pair '/' '*' c d _ _
  · have hc : '*' ≠ c := fun hc => by simp [Text.startsWith, dropStart?, ← hc] at hstar
    simp [Text.startsWith, dropStart?, hc]

theorem trim_respaced (l : Text) : trim (respaced l) = respaced l := by
  cases hp : splitPoint l with
  | none => rw [respaced, hp]; exact trim_trim l
  | some n =>
    obtain ⟨b, w, r, ht, -, -, -, hb, -, hr⟩ := exists_split hp
    have hlast := getLast?_respaced l
    obtain ⟨c, b, rfl⟩ := List.exists_cons_of_ne_nil hb
    rw [hr, List.cons_append] at hlast ⊢
    refine trim_eq_self (trim_cons ht) ?_
    rw [hlast]
    exact getLast?_trim l

/-- In front of the gap of a split line stands no white space. -/
theorem trimEnd_of_gap {b w : Text} (h : gap (b ++ w) = w) (hw : isBlankLine w) :
    trimEnd b = b := by
  have hbw := (trimEnd_gap (b ++ w)).1
  rw [h, trimEnd_append hw] at hbw
  exact (List.append_cancel_right hbw).symm

theorem splitComment_eq {b w r : Text}
    (h : commentFrom .code 0 (b ++ (w ++ '/' :: '/' :: r)) = some (0 + b.length + w.length)) :
    splitComment (b ++ (w ++ '/' :: '/' :: r)) = (b ++ w, some ('/' :: '/' :: r)) := by
  have hlen : 0 + b.length + w.length = (b ++ w).length := by simp
  unfold splitComment
  rw [h, hlen, ← List.append_assoc]
  simp only [List.take_left, List.drop_left]

theorem reindentLine_of_code (depth : Nat) {l t : Text} {c : Char} (h : trim l = t)
    (hc : t.head? = some c) (hcomment : isCommentLine t = false) :
    reindentLine depth l =
      let depth := if isCloser c then depth - 1 else depth
      (if opensBlock t then depth + 1 else depth,
        indent depth ++ spaced (splitComment t).1 (splitComment t).2) := by
  cases t with
  | nil => cases hc
  | cons d ds =>
    cases hc
    rw [reindentLine, h]
    simp [hcomment]

theorem spaced_gap {c : Char} {b w : Text} (hc : isBlank c = false) (hb : trimEnd (c :: b) = c :: b)
    (hw : isBlankLine w) (comment : Text) :
    spaced (c :: b ++ w) (some comment) = c :: b ++ ' ' :: comment := by
  rw [List.cons_append, spaced_of_visible hc, ← List.cons_append, trimEnd_append hw, hb]

/-- A line with one space in front of its comment is taken as it was taken without. -/
theorem reindentLine_respaced (depth : Nat) {l : Text} (hl : '\n' ∉ l) :
    reindentLine depth (respaced l) = reindentLine depth l := by
  cases hp : splitPoint l with
  | none => rw [respaced, hp]; exact (reindentLine_trim depth l).symm
  | some n =>
    obtain ⟨b, w, r, ht, htake, hgap, hw, hb, -, hr⟩ := exists_split hp
    have hself := trim_respaced l
    have hn : '\n' ∉ w := fun h => hl (mem_of_mem_trim (by rw [ht]; simp [h]))
    have hblock := opensBlock_gap (b := b) (r := r) hw hn
    unfold splitPoint at hp
    split at hp
    · cases hp
    · next hcomment =>
      have hlen : n = 0 + b.length + w.length := by
        obtain ⟨a, r', hl', hn', -⟩ := commentFrom_eq_some hp
        rw [hl', hn', Nat.zero_add, List.take_left] at htake
        rw [hn', htake, List.length_append, Nat.add_assoc]
      rw [htake] at hgap
      rw [ht] at hcomment hp
      rw [hlen] at hp
      have hsplit := splitComment_eq hp
      have hsplit' := splitComment_eq (w := [' ']) (commentFrom_gap hw hp)
      obtain ⟨c, b, rfl⟩ := List.exists_cons_of_ne_nil hb
      have hspaced := fun v hv => spaced_gap (w := v) (trim_cons ht) (trimEnd_of_gap hgap hw) hv
      have hcomment := eq_false_of_ne_true hcomment
      have hline := isCommentLine_gap hcomment
      rw [hr] at hself ⊢
      rw [List.singleton_append] at hsplit'
      rw [reindentLine_of_code depth hself rfl hline, reindentLine_of_code depth ht rfl hcomment,
        hsplit, hsplit', hspaced w hw, hspaced [' '] rfl, hblock]

theorem newline_not_mem_respaced {l : Text} (hl : '\n' ∉ l) : '\n' ∉ respaced l := by
  have ht : '\n' ∉ trim l := fun h => hl (mem_of_mem_trim h)
  cases hp : splitPoint l with
  | none => rwa [respaced, hp]
  | some n =>
    obtain ⟨b, w, r, e, -, -, -, -, -, hr⟩ := exists_split hp
    rw [e] at ht
    rw [hr]
    simp_all

theorem reindentLine_settles : Settles reindentLine where
  again depth l hl := by
    by_cases h : trim l = []
    · have hblank := (trim_eq_nil_iff l).1 h
      rw [reindentLine_of_blank depth hblank]
      rfl
    · obtain ⟨depth', hline⟩ := reindentLine_of_visible depth h
      rw [hline, reindentLine_trim, trim_indent (trim_respaced l), reindentLine_respaced depth hl]
  oneLine depth l hl := by
    by_cases h : trim l = []
    · rw [reindentLine_of_blank depth ((trim_eq_nil_iff l).1 h)]
      simp
    · obtain ⟨depth', hline⟩ := reindentLine_of_visible depth h
      rw [hline]
      exact newline_not_mem_indent (newline_not_mem_respaced hl) depth'

theorem reindent_reindent (s : Text) : reindent (reindent s) = reindent s :=
  reindentLine_settles.unlines_threaded reindentLine_keepsLineEnds reindentLine_trim 0 s

/-! ## By the real nesting -/

theorem exists_inRegion (region : Region) : ∃ m, InRegion region m := by
  cases region with
  | code => exact ⟨_, .code []⟩
  | string => exact ⟨_, .string []⟩
  | comment => exact ⟨_, .comment []⟩

/-- No comment starts in front of where the scan starts. -/
theorem le_commentStart {offset k : Nat} {t : Tally} {region : Region} {l : Text}
    (h : (scanFrom offset t region l).commentStart = some k) : offset ≤ k := by
  obtain ⟨m, hm⟩ := exists_inRegion region
  obtain ⟨a, r, w, -, hk, -⟩ := (scanFrom_follows hm offset t l).comment k h
  omega

/-- White space leads from no string literal and no comment to a comment's start. -/
theorem region_of_gap {offset : Nat} {t : Tally} {region : Region} {w r : Text}
    (hw : isBlankLine w)
    (h : (scanFrom offset t region (w ++ '/' :: '/' :: r)).commentStart =
      some (offset + w.length)) : region = .code := by
  have outside : ∀ m, InRegion region m → ∃ x, (m.read w).2 = .code x := by
    intro m hm
    obtain ⟨a, r', x, hl, hk, hread⟩ := (scanFrom_follows hm offset t _).comment _ h
    obtain rfl : w = a := (List.append_inj hl (by omega)).1
    exact ⟨x, hread⟩
  cases region with
  | code => rfl
  | string =>
    obtain ⟨x, hx⟩ := outside _ (.string [])
    rw [Lexer.read_string_blank hw] at hx
    cases hx
  | comment =>
    obtain ⟨x, hx⟩ := outside _ (.comment [])
    rw [Lexer.read_block_blank hw] at hx
    cases hx

theorem Tally.add_blank {c : Char} (h : isBlank c = true) (t : Tally) : t.add c = t := by
  have hopener : isOpener c = false := by
    simp [isOpener, Lexer.ne_of_isBlank h (d := '\x7b') (by decide),
      Lexer.ne_of_isBlank h (d := '[') (by decide)]
  have hcloser : isCloser c = false := by
    simp [isCloser, Lexer.ne_of_isBlank h (d := '\x7d') (by decide),
      Lexer.ne_of_isBlank h (d := ']') (by decide)]
  simp [Tally.add, hopener, hcloser, h]

theorem scanFrom_blank {w : Text} (hw : isBlankLine w) (offset : Nat) (t : Tally) (x : Text) :
    scanFrom offset t .code (w ++ x) = scanFrom (offset + w.length) t .code x := by
  induction w generalizing offset with
  | nil => rfl
  | cons c cs ih =>
    obtain ⟨hc, hcs⟩ := isBlankLine_cons.1 hw
    have hs : c ≠ '/' := Lexer.ne_of_isBlank hc (by decide)
    have hq : c ≠ '"' := Lexer.ne_of_isBlank hc (by decide)
    rw [List.cons_append, scanFrom]
    · rw [Tally.add_blank hc, if_neg hq, ih hcs, List.length_cons]
      congr 1
      omega
    · rintro r rfl; exact absurd rfl hs
    · rintro r rfl; exact absurd rfl hs

section
variable {offset : Nat} {t : Tally} {c : Char} {x : Text}

theorem scanFrom_comment_cons (h : ∀ y, c :: x ≠ '*' :: '/' :: y) :
    scanFrom offset t .comment (c :: x) = scanFrom (offset + 1) t .comment x := by
  rw [scanFrom]
  rintro y rfl rfl
  exact h y rfl

theorem scanFrom_string_cons (h : ∀ d y, c :: x ≠ '\\' :: d :: y) :
    scanFrom offset t .string (c :: x) =
      scanFrom (offset + 1) t (if c = '"' then .code else .string) x := by
  rw [scanFrom]
  rintro d y rfl rfl
  exact h d y rfl

theorem scanFrom_code_cons (hline : ∀ y, c :: x ≠ '/' :: '/' :: y)
    (hblock : ∀ y, c :: x ≠ '/' :: '*' :: y) :
    scanFrom offset t .code (c :: x) =
      scanFrom (offset + 1) (t.add c) (if c = '"' then .string else .code) x := by
  rw [scanFrom]
  · rintro y rfl rfl; exact hline y rfl
  · rintro y rfl rfl; exact hblock y rfl

end

/-- Two characters at the start of `b` and a text, if they are no white space, are there without the
gap, too. -/
theorem cons_gap_ne {c p q : Char} {b y z : Text} (hq : q ≠ ' ')
    (h : ∀ b', c :: b ≠ p :: q :: b') : c :: (b ++ ' ' :: z) ≠ p :: q :: y := by
  cases b with
  | nil => rintro ⟨⟩; exact hq rfl
  | cons d b => rintro ⟨⟩; exact h b rfl

/-- The character behind the first one stands in `b`, is a slash of the comment, or is in the gap. -/
theorem second_of_gap {b w r y : Text} {d : Char} (hw : isBlankLine w)
    (h : b ++ (w ++ '/' :: '/' :: r) = d :: y) :
    (∃ b', b = d :: b') ∨ (b = [] ∧ w = [] ∧ d = '/') ∨
      (b = [] ∧ isBlank d ∧ ∃ w', w = d :: w' ∧ isBlankLine w' ∧ y = w' ++ '/' :: '/' :: r) := by
  rcases b with - | ⟨e, b⟩
  · rcases w with - | ⟨e, w⟩
    · cases h
      exact .inr (.inl ⟨rfl, rfl, rfl⟩)
    · cases h
      obtain ⟨hd, hw'⟩ := isBlankLine_cons.1 hw
      exact .inr (.inr ⟨rfl, hd, w, rfl, hw', rfl⟩)
  · cases h
    exact .inl ⟨b, rfl⟩

section
variable {w r b : Text} {c : Char} {offset : Nat} {t : Tally}

/-- Where the scan finds a comment behind a gap, the comment's slashes end no comment before it. -/
theorem ne_blockEnd (hw : isBlankLine w)
    (h : (scanFrom offset t .comment (c :: (b ++ (w ++ '/' :: '/' :: r)))).commentStart =
      some (offset + (b.length + 1) + w.length))
    (hend : ¬ ∃ b', c :: b = '*' :: '/' :: b') (y : Text) :
    c :: (b ++ (w ++ '/' :: '/' :: r)) ≠ '*' :: '/' :: y := by
  intro e
  obtain ⟨rfl, e'⟩ := List.cons.inj e
  rcases second_of_gap hw e' with ⟨b', rfl⟩ | ⟨rfl, rfl, -⟩ | ⟨-, hd, -⟩
  · exact hend ⟨b', rfl⟩
  · have : offset + 2 ≤ _ := le_commentStart h
    simp at this
  · exact absurd hd (by decide)

/-- Nor is the first of them, or the gap, escaped in a string. -/
theorem ne_escape (hw : isBlankLine w)
    (h : (scanFrom offset t .string (c :: (b ++ (w ++ '/' :: '/' :: r)))).commentStart =
      some (offset + (b.length + 1) + w.length))
    (hescape : ¬ ∃ d b', c :: b = '\\' :: d :: b') (d : Char) (y : Text) :
    c :: (b ++ (w ++ '/' :: '/' :: r)) ≠ '\\' :: d :: y := by
  intro e
  obtain ⟨rfl, e'⟩ := List.cons.inj e
  rcases second_of_gap hw e' with ⟨b', rfl⟩ | ⟨rfl, rfl, -⟩ | ⟨rfl, -, w', rfl, hw', rfl⟩
  · exact hescape ⟨d, b', rfl⟩
  · have : offset + 2 ≤ _ := le_commentStart h
    simp at this
  · have hcode := @region_of_gap (offset + 2) t .string _ _ hw'
      (by rw [List.length_cons] at h; exact h.trans (by congr 1; simp; omega))
    cases hcode

theorem ne_lineStart
    (h : (scanFrom offset t .code (c :: (b ++ (w ++ '/' :: '/' :: r)))).commentStart =
      some (offset + (b.length + 1) + w.length)) (y : Text) :
    c :: (b ++ (w ++ '/' :: '/' :: r)) ≠ '/' :: '/' :: y := by
  intro e
  rw [e] at h
  simp only [scanFrom, Tally.finish, Option.some.injEq] at h
  omega

theorem ne_blockStart (hw : isBlankLine w) (hblock : ¬ ∃ b', c :: b = '/' :: '*' :: b') (y : Text) :
    c :: (b ++ (w ++ '/' :: '/' :: r)) ≠ '/' :: '*' :: y := by
  intro e
  obtain ⟨rfl, e'⟩ := List.cons.inj e
  rcases second_of_gap hw e' with ⟨b', rfl⟩ | ⟨-, -, h⟩ | ⟨-, hd, -⟩
  · exact hblock ⟨b', rfl⟩
  · exact absurd h (by decide)
  · exact absurd hd (by decide)

end

/-- The scan finds a comment again with one space in front of it, and counts the same. -/
theorem scanFrom_gap {w r : Text} (hw : isBlankLine w) {offset : Nat} {t : Tally} {region : Region}
    {b : Text} (h : (scanFrom offset t region (b ++ (w ++ '/' :: '/' :: r))).commentStart =
      some (offset + b.length + w.length)) :
    scanFrom offset t region (b ++ ' ' :: '/' :: '/' :: r) =
      { scanFrom offset t region (b ++ (w ++ '/' :: '/' :: r)) with
        commentStart := some (offset + b.length + 1) } := by
  induction hn : b.length using Nat.strongRecOn generalizing b offset t region with
  | _ n ih =>
  subst hn
  rcases b with - | ⟨c, b⟩
  · obtain rfl := region_of_gap hw h
    have hspace := scanFrom_blank (w := [' ']) rfl offset t ('/' :: '/' :: r)
    rw [List.singleton_append] at hspace
    rw [List.nil_append, List.nil_append, hspace, scanFrom_blank hw]
    simp [scanFrom, Tally.finish]
  simp only [List.cons_append, List.length_cons] at h ⊢
  -- the scan goes on behind one character, or behind two
  have one : ∀ {t : Tally} {region : Region},
      (scanFrom (offset + 1) t region (b ++ (w ++ '/' :: '/' :: r))).commentStart =
        some (offset + (b.length + 1) + w.length) →
      scanFrom (offset + 1) t region (b ++ ' ' :: '/' :: '/' :: r) =
        { scanFrom (offset + 1) t region (b ++ (w ++ '/' :: '/' :: r)) with
          commentStart := some (offset + (b.length + 1) + 1) } := by
    intro t region h
    have hlen : offset + (b.length + 1) = offset + 1 + b.length := by omega
    rw [hlen] at h ⊢
    exact ih b.length (by simp) h rfl
  have two : ∀ {t : Tally} {region : Region} {d : Char} {b' : Text}, b = d :: b' →
      (scanFrom (offset + 2) t region (b' ++ (w ++ '/' :: '/' :: r))).commentStart =
        some (offset + (b.length + 1) + w.length) →
      scanFrom (offset + 2) t region (b' ++ ' ' :: '/' :: '/' :: r) =
        { scanFrom (offset + 2) t region (b' ++ (w ++ '/' :: '/' :: r)) with
          commentStart := some (offset + (b.length + 1) + 1) } := by
    rintro t region d b' rfl h
    have hlen : offset + ((d :: b').length + 1) = offset + 2 + b'.length := by
      rw [List.length_cons]; omega
    rw [hlen] at h ⊢
    exact ih b'.length (by simp only [List.length_cons]; omega) h rfl
  cases region with
  | comment =>
    by_cases hend : ∃ b', c :: b = '*' :: '/' :: b'
    · obtain ⟨b', e⟩ := hend
      cases e
      exact two rfl h
    · have hend' := ne_blockEnd hw h hend
      rw [scanFrom_comment_cons fun _ => cons_gap_ne (by decide) fun b' e => hend ⟨b', e⟩]
      rw [scanFrom_comment_cons hend'] at h ⊢
      exact one h
  | string =>
    by_cases hescape : ∃ d b', c :: b = '\\' :: d :: b'
    · obtain ⟨d, b', e⟩ := hescape
      cases e
      exact two rfl h
    · have hescape' := ne_escape hw h hescape
      have hne : ∀ d y, c :: (b ++ ' ' :: '/' :: '/' :: r) ≠ '\\' :: d :: y := by
        intro d y e
        obtain ⟨rfl, -⟩ := List.cons.inj e
        rcases b with - | ⟨d, b⟩
        · cases w with
          | nil => exact hescape' '/' _ rfl
          | cons d w => exact hescape' d _ rfl
        · exact hescape ⟨d, b, rfl⟩
      rw [scanFrom_string_cons hne]
      rw [scanFrom_string_cons hescape'] at h ⊢
      exact one h
  | code =>
    by_cases hblock : ∃ b', c :: b = '/' :: '*' :: b'
    · obtain ⟨b', e⟩ := hblock
      cases e
      exact two rfl h
    · have hline := ne_lineStart h
      have hline' : ∀ b', c :: b ≠ '/' :: '/' :: b' := by
        intro b' e
        cases e
        exact hline _ rfl
      rw [scanFrom_code_cons (fun _ => cons_gap_ne (by decide) hline')
        fun _ => cons_gap_ne (by decide) fun b' e => hblock ⟨b', e⟩]
      rw [scanFrom_code_cons hline (ne_blockStart hw hblock)] at h ⊢
      exact one h

theorem exists_trimEnd_cons {c : Char} (hc : isBlank c = false) (a : Text) :
    ∃ b w, isBlankLine w ∧ c :: a = c :: b ++ w ∧ trimEnd (c :: b) = c :: b := by
  obtain ⟨w, hw, he⟩ := exists_trimEnd (c :: a)
  cases hb : trimEnd (c :: a) with
  | nil =>
    rw [hb, List.nil_append] at he
    have := List.all_eq_true.1 hw c (he ▸ List.mem_cons_self ..)
    rw [hc] at this
    cases this
  | cons d b =>
    rw [hb] at he
    obtain rfl : c = d := List.head_eq_of_cons_eq he
    refine ⟨b, w, hw, he, ?_⟩
    rw [← hb]
    exact trimEnd_eq_self (getLast?_trimEnd _)

/-- Once its comment is set apart, a line is scanned as before, and the comment stays where it is. -/
theorem spacedAt_settled {inBlock : Bool} {c : Char} {cs : Text} (hc : isBlank c = false) :
    let scan := scanLine (c :: cs) inBlock
    let l := spacedAt (c :: cs) scan.commentStart
    l.head? = some c ∧ ∃ k, scanLine l inBlock = { scan with commentStart := k } ∧ spacedAt l k = l := by
  intro scan l
  have unchanged : ∀ k, scan.commentStart = k → l = c :: cs → l.head? = some c ∧
      ∃ k, scanLine l inBlock = { scan with commentStart := k } ∧ spacedAt l k = l := by
    rintro k hk hl
    refine ⟨by rw [hl]; rfl, k, by rw [hl, ← hk], ?_⟩
    rw [← hk, hl]
    exact hl
  cases hk : scan.commentStart with
  | none => exact unchanged none hk (by simp only [l, hk]; rfl)
  | some k =>
    cases k with
    | zero => exact unchanged (some 0) hk (by simp only [l, hk]; rfl)
    | succ k =>
      obtain ⟨a, r, hcs, hlen⟩ := scanLine_comment hk
      cases a with
      | nil => cases hlen
      | cons d a =>
        obtain rfl : c = d := List.head_eq_of_cons_eq hcs
        obtain ⟨b, w, hw, he, hb⟩ := exists_trimEnd_cons hc a
        have hl : l = c :: b ++ ' ' :: '/' :: '/' :: r := by
          simp only [l, hk, spacedAt]
          rw [hcs, hlen, List.take_left, List.drop_left, he, spaced_gap hc hb hw]
        rw [he, List.append_assoc] at hcs
        rw [he, List.length_append] at hlen
        rw [hlen] at hk
        simp only [scan, scanLine] at hk ⊢
        rw [hcs, ← Nat.zero_add (c :: b).length] at hk
        rw [hl, hcs]
        refine ⟨rfl, some (0 + (c :: b).length + 1), scanFrom_gap hw hk, ?_⟩
        have hlength : 0 + (c :: b).length + 1 = (c :: b ++ [' ']).length := by simp
        rw [spacedAt, hlength, List.append_cons (c :: b) ' ' ('/' :: _), List.take_left, List.drop_left,
          spaced_gap hc hb rfl, ← List.append_cons]

theorem mem_spaced {x : Char} {code comment : Text} (h : x ∈ spaced code (some comment)) :
    x ∈ code ∨ x = ' ' ∨ x ∈ comment := by
  unfold spaced at h
  cases ht : trim code with
  | nil =>
    rw [ht] at h
    exact .inr (.inr h)
  | cons c cs =>
    rw [ht] at h
    simp only [List.mem_append, List.mem_cons] at h
    rcases h with (rfl | h) | h
    · exact .inl (mem_of_mem_trim (ht ▸ List.mem_cons_self ..))
    · exact .inl (mem_of_mem_trim (ht ▸ List.mem_cons_of_mem _ h))
    · exact .inr h

theorem newline_not_mem_spacedAt {l : Text} (hl : '\n' ∉ l) (k : Option Nat) :
    '\n' ∉ spacedAt l k := by
  rcases k with - | - | k
  · exact hl
  · exact hl
  · intro h
    rcases mem_spaced h with h | h | h
    · exact hl (List.mem_of_mem_take h)
    · exact absurd h (by decide)
    · exact hl (List.mem_of_mem_drop h)

theorem nestLine_settles : Settles nestLine where
  again s l hl := by
    cases ht : trim l with
    | nil =>
      rw [nestLine_of_blank s ((trim_eq_nil_iff l).1 ht)]
      rfl
    | cons c cs =>
      obtain ⟨hhead, k, hscan, hspaced⟩ := @spacedAt_settled s.inBlockComment c cs
        (trim_cons ht)
      have hlast := getLast?_spacedAt (c :: cs) s.inBlockComment
      rw [nestLine_of_visible s ht]
      simp only at hhead hscan hspaced ⊢
      generalize hout : spacedAt (c :: cs) (scanLine (c :: cs) s.inBlockComment).commentStart = out at *
      cases out with
      | nil => cases hhead
      | cons d ds =>
        cases hhead
        have hself : trim (c :: ds) = c :: ds := by
          refine trim_eq_self (trim_cons ht) ?_
          rw [hlast, ← ht]
          exact getLast?_trim l
        rw [nestLine_trim, trim_indent hself, nestLine_of_visible s hself, hscan]
        simp only [hspaced]
  oneLine s l hl := by
    cases ht : trim l with
    | nil =>
      rw [nestLine_of_blank s ((trim_eq_nil_iff l).1 ht)]
      simp
    | cons c cs =>
      rw [nestLine_of_visible s ht]
      refine newline_not_mem_indent (newline_not_mem_spacedAt ?_ _) _
      rw [← ht]
      exact fun h => hl (mem_of_mem_trim h)

theorem reindentNested_reindentNested (s : Text) : reindentNested (reindentNested s) = reindentNested s :=
  nestLine_settles.unlines_threaded nestLine_keepsLineEnds nestLine_trim .outermost s

/-- Both reindenters leave alone what they have written, whatever they were given. -/
theorem reindenters_idempotent (s : Text) :
    reindent (reindent s) = reindent s ∧
      reindentNested (reindentNested s) = reindentNested s :=
  ⟨reindent_reindent s, reindentNested_reindentNested s⟩

end Jsonc

end ConfigCare
