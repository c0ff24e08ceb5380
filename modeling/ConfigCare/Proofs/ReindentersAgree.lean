import ConfigCare.Proofs.LineComments
import ConfigCare.Proofs.NestingDepth
import ConfigCare.Proofs.TomlSpacing

/-! On plain lines the two ways to indent are one. A line is plain if its brackets and braces all count,
and they are at most a closer that begins it and an opener that ends it: then its first and last
characters tell what the scan of the whole line tells, and both find the same `//`. -/

namespace ConfigCare.Jsonc

open Text

/-! ## The comment of a line -/

/-- Whether a block comment begins outside of literals, and before any `//` that does. -/
def blockFirst (place : Place) : Text → Bool
  | [] => false
  | c :: cs =>
    if place = .code && startsWith lineComment (c :: cs) then false
    else (place = .code && startsWith blockComment (c :: cs)) || blockFirst (place.next c) cs

/-- Where the search for a comment stands if a scan is in this region. -/
def Region.place : Region → Place
  | .string => .string
  | _ => .code

theorem startsWith_mark {p q : Char} {s : Text} : startsWith [p, q] s = false ↔ ∀ r, s ≠ p :: q :: r := by
  rw [← Bool.not_eq_true, startsWith_iff]
  constructor
  · rintro h r rfl
    exact h ⟨r, rfl⟩
  · rintro h ⟨r, rfl⟩
    exact h r rfl

section
variable {c : Char} {cs : Text}

theorem commentFrom_code_cons (h : ∀ r, c :: cs ≠ '/' :: '/' :: r) (offset : Nat) :
    commentFrom .code offset (c :: cs) = commentFrom (Place.code.next c) (offset + 1) cs := by
  rw [commentFrom, lineComment, startsWith_mark.2 h]
  rfl

theorem blockFirst_code_cons (hline : ∀ r, c :: cs ≠ '/' :: '/' :: r)
    (hblock : ∀ r, c :: cs ≠ '/' :: '*' :: r) :
    blockFirst .code (c :: cs) = blockFirst (Place.code.next c) cs := by
  rw [blockFirst, lineComment, blockComment, startsWith_mark.2 hline, startsWith_mark.2 hblock]
  rfl

end

/-- The search steps from character to character, the scan jumps over what a backslash escapes; as
long as no block comment begins, both find the same `//`. -/
theorem scanFrom_finds (offset : Nat) (t : Tally) {region : Region} (hregion : region ≠ .comment)
    {l : Text} (h : blockFirst region.place l = false) :
    (scanFrom offset t region l).commentStart = commentFrom region.place offset l ∧
      (scanFrom offset t region l).inBlockComment = false := by
  fun_induction scanFrom offset t region l with
  | case1 offset t region => exact ⟨rfl, decide_eq_false hregion⟩
  | case2 | case3 => exact absurd rfl hregion
  | case4 offset t c cs ih => exact ih hregion h
  | case5 offset t c cs hend ih =>
    by_cases hb : c = '\\'
    · -- a backslash that escapes nothing ends the line
      cases cs with
      | nil => subst hb; exact ⟨rfl, rfl⟩
      | cons d ds => exact (hend d ds hb rfl).elim
    · have hplace : Place.string.next c = (if c = '"' then Region.code else .string).place := by
        rw [Place.next, if_neg hb]
        split <;> rfl
      have hnot : (if c = '"' then Region.code else .string) ≠ .comment := by
        split <;> decide
      change blockFirst (Place.string.next c) cs = false at h
      change _ = commentFrom (Place.string.next c) (offset + 1) cs ∧ _
      rw [hplace] at h ⊢
      exact ih hnot h
  | case6 offset t r => exact ⟨rfl, rfl⟩
  | case7 offset t cs ih => cases h
  | case8 offset t c cs hline hblock ih =>
    have hplace : Place.code.next c = (if c = '"' then Region.string else .code).place := by
      rw [Place.next]
      split <;> rfl
    have hnot : (if c = '"' then Region.string else .code) ≠ .comment := by
      split <;> decide
    have hline' : ∀ r, c :: cs ≠ '/' :: '/' :: r := fun r e =>
      hline r (List.cons.inj e).1 (List.cons.inj e).2
    have hblock' : ∀ r, c :: cs ≠ '/' :: '*' :: r := fun r e =>
      hblock r (List.cons.inj e).1 (List.cons.inj e).2
    change blockFirst .code (c :: cs) = false at h
    change _ = commentFrom .code offset (c :: cs) ∧ _
    rw [blockFirst_code_cons hline' hblock', hplace] at h
    rw [commentFrom_code_cons hline', hplace]
    exact ih hnot h

/-- A block comment that begins in a line is one of its tokens. -/
theorem InPlace.any_isBlock {place : Place} {m : Lexer} (hm : InPlace place m) {l : Text}
    (h : blockFirst place l = true) : (m.tokens l).any Token.isBlock = true := by
  induction l generalizing place m with
  | nil => cases h
  | cons c cs ih =>
    by_cases hslash : place = .code ∧ c = '/'
    · obtain ⟨rfl, rfl⟩ := hslash
      obtain ⟨w⟩ := hm
      cases cs with
      | nil => cases h
      | cons d ds =>
        by_cases hs : d = '/'
        · subst hs; cases h
        by_cases hb : d = '*'
        · subst hb
          obtain ⟨y, ts, htokens⟩ := Lexer.tokens_comment (.inl rfl) ['/', '*'] ds
          rw [Lexer.tokens_blockComment, htokens, List.any_append, List.any_cons]
          simp [Token.isBlock, blockComment, startsWith, dropStart?]
        · rw [blockFirst_code_cons (by simp [hs]) (by simp [hb])] at h
          rw [Lexer.tokens_cons, List.any_append, Bool.or_eq_true]
          exact .inr (Lexer.tokens_slash_cons w hs hb ds ▸ ih (.code _) h)
    · have hcode : place = .code → c ≠ '/' := fun hp hc => hslash ⟨hp, hc⟩
      have hnext : blockFirst (place.next c) cs = true := by
        cases place with
        | code =>
          rwa [blockFirst_code_cons (by simp [hcode rfl]) (by simp [hcode rfl])] at h
        | _ => exact h
      rw [Lexer.tokens_cons, List.any_append, ih (hm.step hcode) hnext, Bool.or_true]

theorem blockFirst_of_no_block {l : Text} (h : hasBlock l = false) : blockFirst .code l = false := by
  by_contra hfirst
  have hany := (InPlace.code []).any_isBlock (Bool.not_eq_false _ ▸ hfirst)
  rw [hasBlock, tokens, hany] at h
  cases h

/-! ## Characters and tokens -/

/-- The text of a literal or a comment, in which nothing is a delimiter. -/
def Token.hidden : Token → Text
  | .string s | .comment s => s
  | _ => []

/-- What has been read of a literal or a comment. -/
def Lexer.held : Lexer → Text
  | .code _ | .slash _ => []
  | .string s | .escape s | .line s | .block s | .star s => s

def Token.isMarkOf (p : Char → Bool) : Token → Bool
  | .mark c => p c
  | _ => false

/-- How often characters of a kind occur among tokens, as marks or hidden. -/
def occurrences (p : Char → Bool) (ts : List Token) : Nat :=
  ts.countP (Token.isMarkOf p) + (ts.flatMap Token.hidden).countP p

@[simp] theorem occurrences_nil (p : Char → Bool) : occurrences p [] = 0 := rfl

theorem occurrences_append (p : Char → Bool) (ts us : List Token) :
    occurrences p (ts ++ us) = occurrences p ts + occurrences p us := by
  simp only [occurrences, List.countP_append, List.flatMap_append]
  omega

@[simp] theorem occurrences_wordToken (p : Char → Bool) (w : Text) : occurrences p (wordToken w) = 0 := by
  cases w <;> rfl

@[simp] theorem occurrences_singleton (p : Char → Bool) (t : Token) :
    occurrences p [t] = (Token.isMarkOf p t).toNat + t.hidden.countP p := by
  cases h : Token.isMarkOf p t <;> simp [occurrences, h]

section
variable {p : Char → Bool} (hp : ∀ c, isMark c = false → p c = false)
include hp

theorem occurrences_stepCode (w : Text) (c : Char) :
    occurrences p (Lexer.stepCode w c).1 + (Lexer.stepCode w c).2.held.countP p = (p c).toNat := by
  have hquote : p '"' = false := hp '"' (by decide)
  rw [Lexer.stepCode]
  split_ifs with hq hmark hblank hslash
  · simp [Lexer.held, hq, hquote]
  · simp [occurrences_append, Lexer.held, Token.isMarkOf, Token.hidden]
  · simp [Lexer.held, hp c (by simpa using hmark)]
  · simp [Lexer.held, hp c (by simpa using hmark)]
  · simp [Lexer.held, hp c (by simpa using hmark)]

/-- Every character of a kind of marks is read as a mark or within a literal or a comment. -/
theorem occurrences_step (m : Lexer) (c : Char) :
    occurrences p (m.step c).1 + (m.step c).2.held.countP p = m.held.countP p + (p c).toNat := by
  have hslash : p '/' = false := hp '/' (by decide)
  have hstar : p '*' = false := hp '*' (by decide)
  have hline : p '\n' = false := hp '\n' (by decide)
  cases m with
  | code w => rw [Lexer.step, occurrences_stepCode hp, Lexer.held, List.countP_nil, Nat.zero_add]
  | slash w =>
    simp only [Lexer.step]
    split_ifs with hs hb
    · simp [Lexer.held, hs, hslash]
    · simp [Lexer.held, hb, hslash, hstar]
    · rw [occurrences_stepCode hp, Lexer.held, List.countP_nil, Nat.zero_add]
  | escape s => cases hc : p c <;> simp [Lexer.step, Lexer.held, hc]
  | _ =>
    simp only [Lexer.step]
    split_ifs <;> cases hc : p c <;> simp_all [Lexer.held, Token.isMarkOf, Token.hidden]

theorem occurrences_tokens (m : Lexer) (l : Text) :
    occurrences p (m.tokens l) = m.held.countP p + l.countP p := by
  induction l generalizing m with
  | nil =>
    cases m <;> simp [Lexer.tokens_nil, Lexer.finish, Lexer.held, Token.isMarkOf, Token.hidden]
  | cons c cs ih =>
    have hstep := occurrences_step hp m c
    rw [Lexer.tokens_cons, occurrences_append, ih, List.countP_cons]
    cases hc : p c <;> simp [hc] at hstep ⊢ <;> omega

end

/-! ## Plain lines -/

/-- A trimmed line whose first and last characters tell all of it: no block comment begins in it, and
it does not look as if it went on with one; nothing in a literal or a comment looks like a delimiter;
and a delimiter that counts closes a block at the start or opens one at the end. -/
structure IsPlainLine (l : Text) : Prop where
  noBlock : hasBlock l = false
  noStar : l.head? ≠ some '*'
  hidden : ∀ t ∈ tokens l, ∀ c ∈ t.hidden, isOpener c = false ∧ isCloser c = false
  closers : closers (tokens l) ≤ (l.head?.any isCloser).toNat
  openers : openers (tokens l) ≤ (l.getLast?.any isOpener).toNat

instance (l : Text) : Decidable (IsPlainLine l) :=
  decidable_of_iff (hasBlock l = false ∧ l.head? ≠ some '*' ∧
      ((tokens l).all fun t => t.hidden.all fun c => !isOpener c && !isCloser c) ∧
      Jsonc.closers (tokens l) ≤ (l.head?.any isCloser).toNat ∧
      Jsonc.openers (tokens l) ≤ (l.getLast?.any isOpener).toNat)
    ⟨fun ⟨h₁, h₂, h₃, h₄, h₅⟩ => ⟨h₁, h₂, by simpa using h₃, h₄, h₅⟩,
      fun ⟨h₁, h₂, h₃, h₄, h₅⟩ => ⟨h₁, h₂, by simpa using h₃, h₄, h₅⟩⟩

/-- With nothing hidden, the marks of a kind are the characters of that kind. -/
theorem countP_marks {p : Char → Bool} (hp : ∀ c, isMark c = false → p c = false) {l : Text}
    (h : ∀ t ∈ tokens l, ∀ c ∈ t.hidden, p c = false) :
    (tokens l).countP (Token.isMarkOf p) = l.countP p := by
  have hnone : ((tokens l).flatMap Token.hidden).countP p = 0 := by
    rw [List.countP_eq_zero]
    intro c hc
    obtain ⟨t, ht, hct⟩ := List.mem_flatMap.1 hc
    rw [h t ht c hct]
    exact Bool.false_ne_true
  have hall := occurrences_tokens hp (.code []) l
  rw [occurrences, ← tokens, hnone] at hall
  simpa [Lexer.held] using hall

namespace IsPlainLine

variable {l : Text} {c : Char} {cs : Text}

theorem closers_eq (h : IsPlainLine l) : Jsonc.closers (tokens l) = l.countP isCloser := by
  have hcloses : Token.closes = Token.isMarkOf isCloser := by
    funext t
    cases t <;> rfl
  rw [Jsonc.closers, hcloses]
  refine countP_marks (fun c hc => ?_) fun t ht c hc => (h.hidden t ht c hc).2
  simp only [isMark, Bool.or_eq_false_iff] at hc
  exact hc.1.1.2

theorem openers_eq (h : IsPlainLine l) : Jsonc.openers (tokens l) = l.countP isOpener := by
  have hopens : Token.opens = Token.isMarkOf isOpener := by
    funext t
    cases t <;> rfl
  rw [Jsonc.openers, hopens]
  refine countP_marks (fun c hc => ?_) fun t ht c hc => (h.hidden t ht c hc).1
  simp only [isMark, Bool.or_eq_false_iff] at hc
  exact hc.1.1.1

/-- Only the first character of a plain line may be a closer. -/
theorem not_isCloser (h : IsPlainLine (c :: cs)) : ∀ d ∈ cs, isCloser d = false := by
  have hle := h.closers
  rw [h.closers_eq, List.countP_cons] at hle
  have hnone : cs.countP isCloser = 0 := by
    cases hc : isCloser c <;> simp [hc] at hle ⊢ <;> assumption
  exact fun d hd => Bool.not_eq_true _ ▸ List.countP_eq_zero.1 hnone d hd

theorem closers_cons_eq (h : IsPlainLine (c :: cs)) :
    Jsonc.closers (tokens (c :: cs)) = (isCloser c).toNat := by
  have hnone : cs.countP isCloser = 0 :=
    List.countP_eq_zero.2 fun d hd => by simp [h.not_isCloser d hd]
  rw [h.closers_eq, List.countP_cons, hnone]
  cases isCloser c <;> rfl

theorem openers_getLast (h : IsPlainLine l) :
    Jsonc.openers (tokens l) = (l.getLast?.any isOpener).toNat := by
  refine le_antisymm h.openers ?_
  cases hlast : l.getLast? with
  | none => exact Nat.zero_le _
  | some c =>
    rw [h.openers_eq, Option.any_some]
    cases hc : isOpener c with
    | false => exact Nat.zero_le _
    | true => exact List.countP_pos_iff.2 ⟨c, List.mem_of_getLast? hlast, hc⟩

/-- The closer at the start of a plain line leads it. -/
theorem outdents_eq (h : IsPlainLine (c :: cs)) : outdents (tokens (c :: cs)) = (isCloser c).toNat := by
  have hle : outdents (tokens (c :: cs)) ≤ Jsonc.closers (tokens (c :: cs)) :=
    (List.takeWhile_sublist _).countP_le
  refine le_antisymm (h.closers_cons_eq ▸ hle) ?_
  cases hc : isCloser c with
  | false => exact Nat.zero_le _
  | true =>
    have hq : c ≠ '"' := by rintro rfl; cases hc
    have hmark : isMark c = true := by simp [isMark, hc]
    rw [tokens, Lexer.tokens_cons, Lexer.step, Lexer.stepCode, if_neg hq, if_pos hmark]
    change _ ≤ outdents (.mark c :: _)
    rw [outdents_cons, Token.leads, hc, Token.closes, hc]
    simp

theorem outdents_eq_closers (h : IsPlainLine l) : outdents (tokens l) = Jsonc.closers (tokens l) := by
  cases l with
  | nil => rfl
  | cons c cs => rw [h.outdents_eq, h.closers_cons_eq]

theorem opensBlock_eq (h : IsPlainLine (c :: cs)) :
    opensBlock (c :: cs) = (c :: cs).getLast?.any isOpener := by
  have hpair : ∀ opening closing, isCloser closing = true →
      holdsPair opening closing false (c :: cs) = false := by
    intro opening closing hclosing
    have hnot : closing ∉ cs := fun hmem => by rw [h.not_isCloser closing hmem] at hclosing; cases hclosing
    rw [← List.singleton_append, holdsPair_append_of_not_mem hnot]
    simp [holdsPair]
  have hends : endsWithAny ['\x7b', '['] (c :: cs) = (c :: cs).getLast?.any isOpener := by
    rw [endsWithAny]
    cases (c :: cs).getLast? <;> simp [isOpener]
  rw [opensBlock, hends, hpair '[' ']' rfl, hpair '\x7b' '\x7d' rfl]
  simp

/-- A plain line looks like a comment only if it is one to its end. -/
theorem isCommentLine_eq (h : IsPlainLine l) : isCommentLine l = startsWith lineComment l := by
  have hblock : startsWith blockComment l = false := by
    refine startsWith_mark.2 ?_
    rintro r rfl
    have := blockFirst_of_no_block h.noBlock
    cases this
  have hstar : startsWith ['*'] l = false := by
    rw [← Bool.not_eq_true, startsWith_iff]
    rintro ⟨r, rfl⟩
    exact h.noStar rfl
  rw [isCommentLine, hblock, hstar, Bool.or_false, Bool.or_false]

end IsPlainLine

theorem scanLine_counts_tokens {l : Text} (hl : '\n' ∉ l) : Counts (scanLine l false) (tokens l) := by
  have hstands : Stands .none .code (.code []) := .code fun h => absurd rfl h
  obtain ⟨k, b, hscan⟩ := scanFrom_tokens hstands 0 hl
  have hline : scanLine l false = (Tally.none.tokens (tokens l)).finish k b := hscan
  rw [hline]
  exact Tally.counts_tokens _ k b

/-- Both ways to write a line put one space in front of its comment. -/
theorem spaced_splitComment {l : Text} (h : startsWith lineComment l = false) :
    spaced (splitComment l).1 (splitComment l).2 = spacedAt l (commentFrom .code 0 l) := by
  rw [splitComment]
  cases hfrom : commentFrom .code 0 l with
  | none => rfl
  | some n =>
    cases n with
    | zero =>
      obtain ⟨a, r, hl, hlen, -⟩ := commentFrom_eq_some hfrom
      obtain rfl : a = [] := List.eq_nil_of_length_eq_zero (by omega)
      exact absurd hl (startsWith_mark.1 h r)
    | succ n => rfl

variable {depth : Nat} {l : Text}

/-- A plain line is printed alike, and both ways hand on the depth that its delimiters lead to. -/
theorem nestLine_eq_reindentLine (hl : '\n' ∉ l) (h : IsPlainLine (trim l))
    (hdepth : closers (tokens (trim l)) ≤ depth) :
    nestLine ⟨depth, false⟩ l = (⟨(reindentLine depth l).1, false⟩, (reindentLine depth l).2) ∧
      (reindentLine depth l).1 + closers (tokens (trim l)) = depth + openers (tokens (trim l)) := by
  cases ht : trim l with
  | nil =>
    have hblank := (trim_eq_nil_iff l).1 ht
    rw [nestLine_of_blank _ hblank, reindentLine_of_blank _ hblank]
    exact ⟨rfl, rfl⟩
  | cons c cs =>
    have hn : '\n' ∉ c :: cs := fun hmem => hl (mem_of_mem_trim (ht ▸ hmem))
    rw [ht] at h hdepth
    have hcounts := scanLine_counts_tokens hn
    obtain ⟨hstart, hinside⟩ := scanFrom_finds 0 .none
      (show Region.code ≠ .comment by decide) (blockFirst_of_no_block h.noBlock)
    change (scanLine (c :: cs) false).commentStart = commentFrom .code 0 (c :: cs) at hstart
    change (scanLine (c :: cs) false).inBlockComment = false at hinside
    rw [nestLine_of_visible _ ht]
    simp only [hstart, hinside, hcounts.openers, hcounts.closers, hcounts.outdents]
    cases hcomment : startsWith lineComment (c :: cs) with
    | true =>
      obtain ⟨r, hr⟩ := startsWith_lineComment hcomment
      rw [hr] at hn ht ⊢
      have hr' : '\n' ∉ r := fun hmem => hn (by simp [hmem])
      have htokens : tokens ('/' :: '/' :: r) = [.comment ('/' :: '/' :: r)] :=
        Lexer.tokens_lineComment [] hr'
      have hline : reindentLine depth l = (depth, indent depth ++ '/' :: '/' :: r) := by
        rw [reindentLine, ht]
        rfl
      rw [hline, htokens]
      exact ⟨rfl, rfl⟩
    | false =>
      have hdepth' : depth - (isCloser c).toNat = if isCloser c then depth - 1 else depth := by
        cases isCloser c <;> rfl
      rw [reindentLine_of_code depth ht rfl (h.isCommentLine_eq.trans hcomment), h.opensBlock_eq,
        spaced_splitComment hcomment, h.openers_getLast, h.outdents_eq]
      rw [h.closers_cons_eq] at hdepth ⊢
      simp only [← hdepth']
      cases (c :: cs).getLast?.any isOpener
      · simp; omega
      · simp; omega

/-! ## Whole texts -/

/-- What each line hands on, as long as no more blocks are closed than have been opened. -/
theorem threaded_nestLine {ls : List Text} (hls : ∀ l ∈ ls, '\n' ∉ l)
    (hplain : ∀ l ∈ ls, IsPlainLine (trim l)) {ts : List Token} {depth : Nat}
    (hdepth : depth + closers ts = openers ts)
    (hopened : OpenedFirst (ts ++ ls.flatMap fun l => tokens (trim l))) :
    threaded nestLine ⟨depth, false⟩ ls = threaded reindentLine depth ls := by
  induction ls generalizing ts depth with
  | nil => rfl
  | cons l ls ih =>
    rw [List.flatMap_cons, ← List.append_assoc] at hopened
    have hfirst := hopened.of_prefix (List.prefix_append _ _)
    have hclosers : closers (tokens (trim l)) ≤ depth := by
      have hleading := hfirst.outdents_le
      rw [(hplain l (by simp)).outdents_eq_closers] at hleading
      omega
    obtain ⟨hline, hnext⟩ := nestLine_eq_reindentLine (hls l (by simp)) (hplain l (by simp)) hclosers
    rw [threaded_cons, threaded_cons, hline]
    refine congrArg _ (ih (fun k hk => hls k (by simp [hk])) (fun k hk => hplain k (by simp [hk])) ?_
      hopened)
    rw [closers_append, openers_append]
    omega

/-- Texts with plain lines only, in which no more blocks are closed than have been opened, are indented
alike by their first and last characters and by all their delimiters. -/
theorem reindent_eq_reindentNested {s : Text} (hplain : ∀ l ∈ lines s, IsPlainLine (trim l))
    (hopened : OpenedFirst ((lines s).flatMap fun l => tokens (trim l))) :
    reindent s = reindentNested s := by
  have hthreaded := threaded_nestLine (Toml.newline_notMem_lines s) hplain
    (show 0 + closers [] = openers [] from rfl) hopened
  rw [reindent, reindentNested, Nesting.outermost, hthreaded]

theorem reindent_eq_reindentNested_of_strings :
    let s := lit "// a\n\x7b\n\"u\": \"http://x\\\"\", /// b\r\n\t\x7d, \x7b\n\"open \\\\, \\\n  //c\n\x7d,,"
    (∀ l ∈ lines s, IsPlainLine (trim l)) ∧
      OpenedFirst ((lines s).flatMap fun l => tokens (trim l)) ∧ reindent s = reindentNested s := by
  intro s
  have hplain : ∀ l ∈ lines s, IsPlainLine (trim l) := by decide
  have hopened : OpenedFirst ((lines s).flatMap fun l => tokens (trim l)) := by decide
  exact ⟨hplain, hopened, reindent_eq_reindentNested hplain hopened⟩

end ConfigCare.Jsonc
