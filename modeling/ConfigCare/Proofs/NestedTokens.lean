import ConfigCare.Jsonc.Nesting
import ConfigCare.Proofs.LineTokens

/-! Indenting by the real nesting keeps the tokens of a text. The scan of a line stands in code, in
a string literal or in a block comment just as the lexer does, so its `//` starts a comment of the
lexer too, and the white space in front of it belongs to no token. -/

namespace ConfigCare.Jsonc

open Text

/-! ## The scan of a line -/

/-- A count that has seen code. -/
def Tally.seen (t : Tally) : Tally := { t with seenCode := true }

/-- What the scan of a line from an offset on tells of the lexer that reads it: whether a block
comment is left open, and where the lexer leaves code for a `//` comment. -/
structure Follows (scan : LineScan) (offset : Nat) (m : Lexer) (l : Text) : Prop where
  block : '\n' ∉ l → scan.inBlockComment = (m.read l).2.inBlock
  comment : ∀ k, scan.commentStart = some k →
    ∃ a r w, l = a ++ '/' :: '/' :: r ∧ k = offset + a.length ∧ (m.read a).2 = .code w

/-- The lexer stands in the region. -/
inductive InRegion : Region → Lexer → Prop where
  | code (w : Text) : InRegion .code (.code w)
  | string (s : Text) : InRegion .string (.string s)
  | comment (s : Text) : InRegion .comment (.block s)

section
variable {scan : LineScan} {offset : Nat} {m : Lexer}

theorem Follows.cons {c : Char} {cs : Text} (h : Follows scan (offset + 1) (m.step c).2 cs) :
    Follows scan offset m (c :: cs) := by
  refine ⟨fun hn => h.block fun hm => hn (List.mem_cons_of_mem _ hm), fun k hk => ?_⟩
  obtain ⟨a, r, w, rfl, rfl, hread⟩ := h.comment k hk
  exact ⟨c :: a, r, w, rfl, by simp only [List.length_cons]; omega, hread⟩

theorem Follows.nil (hnone : scan.commentStart = none) (hin : scan.inBlockComment = m.inBlock) :
    Follows scan offset m [] :=
  ⟨fun _ => hin, fun k hk => by rw [hnone] at hk; cases hk⟩

/-- A lexer that reads any rest as another one does is followed as that one is. -/
theorem Follows.congr (m' : Lexer) {l : Text} (hin : m.inBlock = m'.inBlock)
    (hread : ∀ c cs, l = c :: cs → c ≠ '/' ∧ ∀ ds, m.read (c :: ds) = m'.read (c :: ds))
    (h : Follows scan offset m' l) : Follows scan offset m l := by
  cases l with
  | nil =>
    refine ⟨fun hn => (h.block hn).trans hin.symm, fun k hk => ?_⟩
    obtain ⟨a, r, w, hl, -⟩ := h.comment k hk
    cases a <;> cases hl
  | cons c cs =>
    obtain ⟨hc, hds⟩ := hread c cs rfl
    refine ⟨fun hn => by rw [h.block hn, hds], fun k hk => ?_⟩
    obtain ⟨a, r, w, hl, hlen, hw⟩ := h.comment k hk
    cases a with
    | nil => exact absurd (List.head_eq_of_cons_eq hl) hc
    | cons d ds =>
      obtain rfl : c = d := List.head_eq_of_cons_eq hl
      exact ⟨c :: ds, r, w, hl, hlen, by rw [hds, hw]⟩

end

theorem inBlock_read_line {r : Text} (hr : '\n' ∉ r) (s : Text) :
    ((Lexer.line s).read r).2.inBlock = false := by
  rw [Lexer.read_line hr]; rfl

theorem scanFrom_follows {region : Region} {m : Lexer} (h : InRegion region m) (offset : Nat)
    (t : Tally) (l : Text) : Follows (scanFrom offset t region l) offset m l := by
  fun_induction scanFrom offset t region l generalizing m with
  | case1 => cases h <;> exact .nil rfl rfl
  | case2 offset t cs ih =>
    cases h
    exact .cons (.cons (ih (.code [])))
  | case3 offset t c cs hend ih =>
    cases h with | comment s => ?_
    refine .cons ?_
    by_cases hc : c = '*'
    · -- a star that no slash follows might as well be any character of the comment
      subst hc
      refine Follows.congr (.block (s ++ ['*'])) rfl ?_ (ih (.comment _))
      intro d ds hd
      have hne : d ≠ '/' := fun e => hend ds rfl (hd.trans (by rw [e]))
      exact ⟨hne, fun ds => Lexer.read_star_cons _ hne ds⟩
    · rw [Lexer.step, if_neg hc]
      exact ih (.comment _)
  | case4 offset t c cs ih =>
    cases h
    exact .cons (.cons (ih (.string _)))
  | case5 offset t c cs hend ih =>
    obtain ⟨s⟩ := h
    refine .cons ?_
    by_cases hq : c = '"'
    · subst hq
      exact ih (.code [])
    · rw [Lexer.step, if_neg hq]
      simp only [if_neg hq] at ih ⊢
      by_cases hb : c = '\\'
      · -- nothing follows a backslash here
        cases cs with
        | nil => rw [if_pos hb]; exact .nil rfl rfl
        | cons d ds => exact (hend d ds hb rfl).elim
      · rw [if_neg hb]
        exact ih (.string _)
  | case6 offset t r =>
    obtain ⟨w⟩ := h
    refine ⟨fun hn => ?_, fun k hk => ?_⟩
    · have hr : '\n' ∉ r := fun hm => hn (by simp [hm])
      exact (inBlock_read_line hr _).symm
    · cases hk
      exact ⟨[], r, w, rfl, rfl, rfl⟩
  | case7 offset t cs ih =>
    cases h
    exact .cons (.cons (ih (.comment _)))
  | case8 offset t c cs hline hblock ih =>
    obtain ⟨w⟩ := h
    refine .cons ?_
    by_cases hq : c = '"'
    · subst hq
      exact ih (.string _)
    · simp only [if_neg hq] at ih ⊢
      by_cases hs : c = '/'
      · -- a slash that opens no comment belongs to a word
        subst hs
        refine Follows.congr (.code (w ++ ['/'])) rfl ?_ (ih (.code _))
        intro d ds hd
        have hne : d ≠ '/' := fun e => hline ds rfl (hd.trans (by rw [e]))
        have hne' : d ≠ '*' := fun e => hblock ds rfl (hd.trans (by rw [e]))
        exact ⟨hne, fun ds => Lexer.read_slash_cons w hne hne' ds⟩
      · obtain ⟨ts, w', hstep, -⟩ := Lexer.stepCode_plain w hq hs
        rw [Lexer.step, hstep]
        exact ih (.code w')

theorem scanLine_follows {m : Lexer} (hm : m.AtLineStart) (l : Text) :
    Follows (scanLine l m.inBlock) 0 m l := by
  rcases hm with rfl | ⟨s, rfl⟩
  · exact scanFrom_follows (.code []) 0 .none l
  · exact scanFrom_follows (.comment _) 0 .none l

/-! ## A line -/

/-- The comment that the scan finds is set apart from the code with no effect on any token. -/
theorem read_spacedAt {scan : LineScan} {m : Lexer} {c : Char} {cs : Text} (hc : isBlank c = false)
    (hn : '\n' ∉ c :: cs) (h : Follows scan 0 m (c :: cs)) :
    m.read (spacedAt (c :: cs) scan.commentStart) = m.read (c :: cs) := by
  cases hk : scan.commentStart with
  | none => rfl
  | some k =>
    cases k with
    | zero => rfl
    | succ k =>
      obtain ⟨a, r, x, hl, hlen, hread⟩ := h.comment _ hk
      rw [Nat.zero_add] at hlen
      rw [spacedAt, hl, hlen, List.take_left, List.drop_left]
      cases a with
      | nil => cases hlen
      | cons d ds =>
        obtain rfl : c = d := List.head_eq_of_cons_eq hl
        obtain ⟨w, hw, he⟩ := exists_trimEnd (c :: ds)
        rw [spaced_of_visible hc]
        generalize trimEnd (c :: ds) = b at he ⊢
        rw [hl, he, List.append_assoc] at hn
        rw [he, Lexer.read_append] at hread
        rw [he, List.append_assoc, Lexer.read_append, Lexer.read_append _ b]
        have hnw : '\n' ∉ w := fun hm => hn (by simp [hm])
        rw [read_gap hw hnw hread]

theorem scanLine_comment {l : Text} {inBlock : Bool} {k : Nat}
    (h : (scanLine l inBlock).commentStart = some k) :
    ∃ a r, l = a ++ '/' :: '/' :: r ∧ k = a.length := by
  have follows : ∃ m, Follows (scanLine l inBlock) 0 m l := by
    cases inBlock with
    | false => exact ⟨_, scanFrom_follows (.code []) 0 .none l⟩
    | true => exact ⟨_, scanFrom_follows (.comment []) 0 .none l⟩
  obtain ⟨m, hm⟩ := follows
  obtain ⟨a, r, w, hl, hk, -⟩ := hm.comment k h
  exact ⟨a, r, hl, by omega⟩

theorem getLast?_spacedAt (l : Text) (inBlock : Bool) :
    (spacedAt l (scanLine l inBlock).commentStart).getLast? = l.getLast? := by
  cases hk : (scanLine l inBlock).commentStart with
  | none => rfl
  | some k =>
    cases k with
    | zero => rfl
    | succ k =>
      obtain ⟨a, r, hl, hlen⟩ := scanLine_comment hk
      rw [spacedAt, getLast?_spaced]
      · rw [hlen, hl, List.drop_left, List.getLast?_append_of_ne_nil _ (by simp)]
      · rw [hlen, hl, List.drop_left]; simp

theorem nestLine_of_blank (s : Nesting) {l : Text} (h : isBlankLine l) : nestLine s l = (s, []) := by
  rw [nestLine, (trim_eq_nil_iff l).2 h]

theorem nestLine_of_visible (s : Nesting) {l : Text} {c : Char} {cs : Text} (h : trim l = c :: cs) :
    nestLine s l =
      let scan := scanLine (c :: cs) s.inBlockComment
      (⟨s.depth + scan.opened - scan.closed, scan.inBlockComment⟩,
        indent (s.depth - scan.leadingClosers) ++ spacedAt (c :: cs) scan.commentStart) := by
  rw [nestLine, h]

theorem nestLine_trim (s : Nesting) (l : Text) : nestLine s l = nestLine s (trim l) := by
  rw [nestLine, nestLine, trim_trim]

theorem nestLine_keepsLineEnds : KeepsLineEnds nestLine where
  blank s l h := nestLine_of_blank s h
  ending s l h := by
    cases ht : trim l with
    | nil => exact absurd ((trim_eq_nil_iff l).1 ht) h
    | cons c cs =>
      have hlast := getLast?_spacedAt (c :: cs) s.inBlockComment
      have hne : spacedAt (c :: cs) (scanLine (c :: cs) s.inBlockComment).commentStart ≠ [] := by
        intro e
        rw [e] at hlast
        cases hlast
      rw [nestLine_of_visible s ht]
      simp only [List.getLast?_append_of_ne_nil _ hne, hlast]

/-- A line keeps its tokens, and what the next one is told of an open comment stays true. -/
theorem same_nestLine {v : View} (hv : v.IgnoresMargins) {s : Nesting} {m : Lexer} {l : Text}
    (hm : m.AtLineStart) (hs : s.inBlockComment = m.inBlock) (hl : '\n' ∉ l)
    (hstring : (m.read l).2.inString = false) :
    Same v (m.read (l ++ ['\n'])) (m.read ((nestLine s l).2 ++ ['\n'])) ∧
      (nestLine s l).1.inBlockComment = (m.read (l ++ ['\n'])).2.inBlock := by
  have htrim := same_trim hv hm hl hstring
  rw [htrim.lexer.inBlock]
  have hn : '\n' ∉ trim l := fun h => hl (mem_of_mem_trim h)
  cases ht : trim l with
  | nil =>
    rw [ht] at htrim
    rw [nestLine_of_blank s ((trim_eq_nil_iff l).1 ht)]
    exact ⟨htrim, hs.trans (Lexer.inBlock_step m).symm⟩
  | cons c cs =>
    rw [ht] at htrim hn
    rw [nestLine_of_visible s ht, hs]
    have hfollows := scanLine_follows hm (c :: cs)
    refine ⟨htrim.trans ?_, ?_⟩
    · rw [List.append_assoc]
      refine Same.trans ?_ (same_indent hv hm _ _).symm
      rw [Lexer.read_append, Lexer.read_append, read_spacedAt (trim_cons ht) hn hfollows]
      exact .refl _
    · rw [Lexer.read_append]
      exact (hfollows.block hn).trans (Lexer.inBlock_step _).symm

/-! ## Whole texts -/

theorem trimLines_break (s x : Text) : trimLines (s ++ ['\n'] ++ x) =
    joinWith ['\n'] ((splitOn '\n' s).map trim ++ (splitOn '\n' x).map trim) := by
  rw [List.append_assoc, List.singleton_append, trimLines, splitOn_append, List.map_append]

theorem trimLines_ignoresMargins : View.IgnoresMargins ⟨trimLines, id⟩ where
  trailing s b hb hn := congrArg (joinWith ['\n']) (trimmed_splitOn_append s hb hn)
  beforeBreak s b hb hn x := by
    change trimLines (s ++ (b ++ ['\n']) ++ x) = trimLines (s ++ ['\n'] ++ x)
    rw [← List.append_assoc s, trimLines_break, trimLines_break, trimmed_splitOn_append s hb hn]
  afterBreak s a ha hn x := by
    change trimLines (s ++ ['\n'] ++ a ++ x) = trimLines (s ++ ['\n'] ++ x)
    rw [List.append_assoc, trimLines_break, trimLines_break, trimmed_splitOn_prepend ha hn]

/-- Indenting by the real nesting keeps every token: literals, delimiters and words as they are,
and comments up to white space at the ends of their lines. -/
theorem tokens_reindentNested (s : Text) (h : Closed s) :
    View.tokens ⟨trimLines, id⟩ (tokens (reindentNested s)) =
      View.tokens ⟨trimLines, id⟩ (tokens s) := by
  rw [reindentNested, threaded_lines nestLine nestLine_trim]
  exact tokens_unlines_threaded nestLine_keepsLineEnds (I := fun s m => s.inBlockComment = m.inBlock)
    (P := fun _ _ => True)
    (fun s m l hs hm hl hstring _ => same_nestLine trimLines_ignoresMargins hm hs hl hstring)
    rfl h (eachLine_of_forall (fun _ _ _ => trivial) _)

/-- Slashes and quotes in literals and in comments, and a comment over two lines. -/
theorem tokens_reindentNested_of_comments :
    let s := lit "\x7b\r\n  \"a//\\\"\": 1,   // x \" \t\n /* b\"\n   c */ \"d\" //\n\x7d"
    Closed s ∧ View.tokens ⟨trimLines, id⟩ (tokens (reindentNested s)) =
      View.tokens ⟨trimLines, id⟩ (tokens s) := by
  intro s
  have hclosed : Closed s := by decide
  exact ⟨hclosed, tokens_reindentNested s hclosed⟩

end ConfigCare.Jsonc
