import Mathlib.Data.List.Infix
import Mathlib.Data.List.TakeWhile
import ConfigCare.Proofs.Settled

/-! Indenting by the real nesting puts every line as deep as it stands. The scan of a line counts its
tokens, so the depth that is handed from line to line is the number of blocks open there; as long as
no more blocks are closed than have been opened, nothing is ever cut off at zero. -/

namespace ConfigCare.Jsonc

open Text

/-! ## Delimiters among tokens -/

def Token.opens : Token → Bool
  | .mark c => isOpener c
  | _ => false

def Token.closes : Token → Bool
  | .mark c => isCloser c
  | _ => false

/-- What may stand in front of a closer that leads its line: comments, commas and other closers. -/
def Token.leads : Token → Bool
  | .comment _ => true
  | .mark c => isCloser c || c = ','
  | _ => false

def openers (ts : List Token) : Nat := ts.countP Token.opens

def closers (ts : List Token) : Nat := ts.countP Token.closes

/-- By how many levels tokens take their line out: the closers before anything but comments and
commas. -/
def outdents (ts : List Token) : Nat := closers (ts.takeWhile Token.leads)

/-- From the left, no more blocks are closed than have been opened. -/
def OpenedFirst (ts : List Token) : Prop := ∀ p, p <+: ts → closers p ≤ openers p

instance (ts : List Token) : Decidable (OpenedFirst ts) :=
  decidable_of_iff (∀ p ∈ ts.inits, closers p ≤ openers p) (by simp only [List.mem_inits, OpenedFirst])

@[simp] theorem openers_append (ts us : List Token) :
    openers (ts ++ us) = openers ts + openers us :=
  List.countP_append

@[simp] theorem closers_append (ts us : List Token) :
    closers (ts ++ us) = closers ts + closers us :=
  List.countP_append

@[simp] theorem openers_cons (t : Token) (ts : List Token) :
    openers (t :: ts) = t.opens.toNat + openers ts := by
  cases h : t.opens <;> simp [openers, h, Nat.add_comm]

@[simp] theorem closers_cons (t : Token) (ts : List Token) :
    closers (t :: ts) = t.closes.toNat + closers ts := by
  cases h : t.closes <;> simp [closers, h, Nat.add_comm]

theorem outdents_cons (t : Token) (ts : List Token) :
    outdents (t :: ts) = if t.leads then t.closes.toNat + outdents ts else 0 := by
  rw [outdents, List.takeWhile_cons]
  split
  · rw [closers_cons, outdents]
  · rfl

/-- Nothing but a closer closes a block, and a closer may lead. -/
theorem closes_of_not_leads {t : Token} (h : t.leads = false) : t.closes = false := by
  cases t with
  | mark c => exact (Bool.or_eq_false_iff.1 h).1
  | _ => rfl

theorem OpenedFirst.of_prefix {ts us : List Token} (h : OpenedFirst us) (hts : ts <+: us) :
    OpenedFirst ts :=
  fun p hp => h p (hp.trans hts)

theorem not_opens_of_leads {t : Token} (h : t.leads) : t.opens = false := by
  cases t with
  | mark c =>
    simp only [Token.leads, Bool.or_eq_true, decide_eq_true_eq, isCloser] at h
    rcases h with (rfl | rfl) | rfl <;> decide
  | _ => rfl

/-- The closers that lead a line are among those that have been opened before it. -/
theorem OpenedFirst.outdents_le {ts us : List Token} (h : OpenedFirst (ts ++ us)) :
    closers ts + outdents us ≤ openers ts := by
  have hprefix : ts ++ us.takeWhile Token.leads <+: ts ++ us :=
    (List.prefix_append_right_inj ts).2 (List.takeWhile_prefix _)
  have hnone : openers (us.takeWhile Token.leads) = 0 := by
    refine List.countP_eq_zero.2 fun t ht => ?_
    rw [not_opens_of_leads (List.mem_takeWhile_imp ht)]
    exact Bool.false_ne_true
  have hle := h _ hprefix
  rwa [closers_append, openers_append, hnone, Nat.add_zero] at hle

/-- Tokens that look the same have the same delimiters. -/
theorem delimiters_of_view {v : View} {ts us : List Token} (h : v.tokens ts = v.tokens us) :
    openers ts = openers us ∧ closers ts = closers us ∧ outdents ts = outdents us := by
  have hopeners : ∀ ts, openers (v.tokens ts) = openers ts := by
    intro ts
    rw [openers, View.tokens, List.countP_map]
    congr 1
    funext t
    cases t <;> rfl
  have hclosers : ∀ ts, closers (v.tokens ts) = closers ts := by
    intro ts
    rw [closers, View.tokens, List.countP_map]
    congr 1
    funext t
    cases t <;> rfl
  have hleads : Token.leads ∘ v.token = Token.leads := by
    funext t
    cases t <;> rfl
  have houtdents : ∀ ts, outdents (v.tokens ts) = outdents ts := by
    intro ts
    rw [outdents, View.tokens, List.takeWhile_map, hleads]
    exact hclosers _
  exact ⟨by rw [← hopeners, h, hopeners], by rw [← hclosers, h, hclosers],
    by rw [← houtdents, h, houtdents]⟩

/-! ## The scan counts tokens -/

/-- Counts a token of a line. -/
def Tally.token (t : Tally) (k : Token) : Tally where
  leadingClosers := if t.seenCode then t.leadingClosers else t.leadingClosers + k.closes.toNat
  opened := t.opened + k.opens.toNat
  closed := t.closed + k.closes.toNat
  seenCode := t.seenCode || !k.leads

def Tally.tokens (t : Tally) (ts : List Token) : Tally := ts.foldl Tally.token t

namespace Tally

@[simp] theorem tokens_nil (t : Tally) : t.tokens [] = t := rfl

@[simp] theorem tokens_cons (t : Tally) (k : Token) (ts : List Token) :
    t.tokens (k :: ts) = (t.token k).tokens ts := rfl

@[simp] theorem tokens_append (t : Tally) (ts us : List Token) :
    t.tokens (ts ++ us) = (t.tokens ts).tokens us :=
  List.foldl_append

@[simp] theorem token_comment (t : Tally) (s : Text) : t.token (.comment s) = t := by
  simp [token, Token.closes, Token.opens, Token.leads]

@[simp] theorem token_word (t : Tally) (s : Text) : t.token (.word s) = t.seen := by
  simp [token, Token.closes, Token.opens, Token.leads, seen]

@[simp] theorem token_string (t : Tally) (s : Text) : t.token (.string s) = t.seen := by
  simp [token, Token.closes, Token.opens, Token.leads, seen]

theorem seen_eq_self {t : Tally} (h : t.seenCode = true) : t.seen = t := by
  cases t
  cases h
  rfl

theorem token_mark {c : Char} (h : isMark c = true) (t : Tally) : t.token (.mark c) = t.add c := by
  simp only [isMark, isOpener, isCloser, Bool.or_eq_true, decide_eq_true_eq] at h
  obtain ⟨leading, opened, closed, seen⟩ := t
  cases seen <;> rcases h with ((((rfl | rfl) | rfl | rfl) | rfl) | rfl) <;> rfl

theorem opened_tokens (t : Tally) (ts : List Token) :
    (t.tokens ts).opened = t.opened + openers ts := by
  induction ts generalizing t with
  | nil => rfl
  | cons k ts ih => rw [tokens_cons, ih, token, openers_cons, Nat.add_assoc]

theorem closed_tokens (t : Tally) (ts : List Token) :
    (t.tokens ts).closed = t.closed + closers ts := by
  induction ts generalizing t with
  | nil => rfl
  | cons k ts ih => rw [tokens_cons, ih, token, closers_cons, Nat.add_assoc]

theorem leadingClosers_tokens (t : Tally) (ts : List Token) :
    (t.tokens ts).leadingClosers = t.leadingClosers + if t.seenCode then 0 else outdents ts := by
  induction ts generalizing t with
  | nil => simp [outdents, closers]
  | cons k ts ih =>
    rw [tokens_cons, ih, token, outdents_cons]
    cases hseen : t.seenCode <;> cases hleads : k.leads <;>
      simp [closes_of_not_leads, hleads, Nat.add_assoc]

end Tally

namespace Lexer

theorem tokens_nil (m : Lexer) : m.tokens [] = m.finish := rfl

/-- The first token in a literal is the literal, with all that has been read of it. -/
theorem tokens_literal {kind : Text → Lexer} (hk : kind = .string ∨ kind = .escape) (s x : Text) :
    ∃ y ts, (kind s).tokens x = .string (s ++ y) :: ts := by
  induction x generalizing kind s with
  | nil => exact ⟨[], [], by rcases hk with rfl | rfl <;> simp [tokens_nil, finish]⟩
  | cons c cs ih =>
    have goes_on : ∀ kind' : Text → Lexer, kind' = .string ∨ kind' = .escape →
        (kind s).step c = ([], kind' (s ++ [c])) →
        ∃ y ts, (kind s).tokens (c :: cs) = .string (s ++ y) :: ts := by
      intro kind' hk' hstep
      obtain ⟨y, ts, htokens⟩ := ih hk' (s ++ [c])
      exact ⟨c :: y, ts, by rw [tokens_cons, hstep, htokens]; simp⟩
    rcases hk with rfl | rfl
    · by_cases hq : c = '"'
      · exact ⟨[c], _, by rw [tokens_cons, step, if_pos hq]; rfl⟩
      · by_cases hb : c = '\\'
        · exact goes_on .escape (.inr rfl) (by rw [step, if_neg hq, if_pos hb])
        · exact goes_on .string (.inl rfl) (by rw [step, if_neg hq, if_neg hb])
    · exact goes_on .string (.inl rfl) rfl

theorem tokens_slash_cons (w : Text) {c : Char} (hs : c ≠ '/') (hb : c ≠ '*') (cs : Text) :
    (slash w).tokens (c :: cs) = (code (w ++ ['/'])).tokens (c :: cs) := by
  rw [tokens, tokens, read_slash_cons w hs hb]

theorem tokens_star_cons (s : Text) {c : Char} (hs : c ≠ '/') (cs : Text) :
    (star s).tokens (c :: cs) = (block s).tokens (c :: cs) := by
  rw [tokens, tokens, read_star_cons s hs]

theorem tokens_lineComment (w : Text) {r : Text} (hr : '\n' ∉ r) :
    (code w).tokens ('/' :: '/' :: r) = wordToken w ++ [.comment ('/' :: '/' :: r)] := by
  have hline : (line ['/', '/']).tokens r = [.comment ('/' :: '/' :: r)] := by
    rw [tokens, read_line hr]
    rfl
  rw [tokens_cons, tokens_cons, ← hline]
  rfl

theorem tokens_blockComment (w cs : Text) :
    (code w).tokens ('/' :: '*' :: cs) = wordToken w ++ (block ['/', '*']).tokens cs := by
  rw [tokens_cons, tokens_cons]
  rfl

theorem tokens_blockEnd (s cs : Text) :
    (block s).tokens ('*' :: '/' :: cs) = .comment (s ++ ['*'] ++ ['/']) :: (code []).tokens cs :=
  rfl

/-- The first token behind a word is the word. -/
theorem tokens_word {w : Text} (hw : w ≠ []) (x : Text) :
    ∃ y ts, (code w).tokens x = .word y :: ts := by
  have hword : ∀ v : Text, v ≠ [] → ∀ us, ∃ y ts, wordToken v ++ us = .word y :: ts := by
    intro v hv us
    obtain ⟨d, ds, rfl⟩ := List.exists_cons_of_ne_nil hv
    exact ⟨_, _, rfl⟩
  induction x generalizing w with
  | nil => simpa [tokens_nil, finish] using hword w hw []
  | cons c cs ih =>
    rw [tokens_cons, step, stepCode]
    split_ifs
    · exact hword w hw _
    · rw [List.append_assoc]
      exact hword w hw _
    · exact hword w hw _
    · -- a slash that opens no comment belongs to the word
      cases cs with
      | nil => simpa [tokens_nil, finish] using hword (w ++ ['/']) (by simp) []
      | cons d ds =>
        by_cases hs : d = '/'
        · rw [tokens_cons, step, if_pos hs]
          exact hword w hw _
        · by_cases hb : d = '*'
          · rw [tokens_cons, step, if_neg hs, if_pos hb]
            exact hword w hw _
          · rw [tokens_slash_cons w hs hb]
            exact ih (by simp)
    · exact ih (by simp)

end Lexer

/-- The lexer stands in the region, and the tally has seen code if a word or a literal is under way. -/
inductive Stands (t : Tally) : Region → Lexer → Prop where
  | code {w : Text} (h : w ≠ [] → t.seenCode = true) : Stands t .code (.code w)
  | string {s : Text} (h : t.seenCode = true) : Stands t .string (.string s)
  | comment (s : Text) : Stands t .comment (.block s)

namespace Tally

theorem tokens_wordToken {t : Tally} {w : Text} (h : w ≠ [] → t.seenCode = true) :
    t.tokens (wordToken w) = t := by
  cases w with
  | nil => rfl
  | cons c cs => rw [wordToken, tokens_cons, token_word, seen_eq_self (h (by simp)), tokens_nil]

/-- A tally that meets code first might as well have seen it. -/
theorem tokens_of_seen {t : Tally} {us : List Token}
    (h : ∃ y ts, us = .word y :: ts ∨ us = .string y :: ts) : t.seen.tokens us = t.tokens us := by
  obtain ⟨y, ts, rfl | rfl⟩ := h
  · rw [tokens_cons, tokens_cons, token_word, token_word]
    rfl
  · rw [tokens_cons, tokens_cons, token_string, token_string]
    rfl

theorem add_other {c : Char} (hmark : isMark c = false) (hblank : isBlank c = false) (t : Tally) :
    t.add c = t.seen := by
  simp only [isMark, Bool.or_eq_false_iff] at hmark
  simp [add, hmark, hblank, seen]

/-- A character of code that begins no literal and no comment counts as its token does. -/
theorem tokens_code_cons {t : Tally} {w : Text} (h : w ≠ [] → t.seenCode = true) {c : Char}
    {cs : Text} (hq : c ≠ '"') (hline : ∀ r, c = '/' → cs ≠ '/' :: r)
    (hblock : ∀ r, c = '/' → cs ≠ '*' :: r) :
    ∃ v : Text, (v ≠ [] → (t.add c).seenCode = true) ∧
      t.tokens ((Lexer.code w).tokens (c :: cs)) = (t.add c).tokens ((Lexer.code v).tokens cs) := by
  have hword := tokens_wordToken h
  have longer : isMark c = false → isBlank c = false →
      (t.add c).seenCode = true ∧ t.tokens ((Lexer.code (w ++ [c])).tokens cs) =
        (t.add c).tokens ((Lexer.code (w ++ [c])).tokens cs) := by
    intro hmark hblank
    obtain ⟨y, ts, hfirst⟩ := Lexer.tokens_word (w := w ++ [c]) (by simp) cs
    rw [add_other hmark hblank]
    exact ⟨rfl, (tokens_of_seen ⟨y, ts, .inl hfirst⟩).symm⟩
  rw [Lexer.tokens_cons, Lexer.step, Lexer.stepCode, if_neg hq]
  split_ifs with hmark hblank hslash
  · refine ⟨[], fun h => absurd rfl h, ?_⟩
    rw [tokens_append, tokens_append, hword, tokens_cons, tokens_nil, token_mark hmark]
  · refine ⟨[], fun h => absurd rfl h, ?_⟩
    rw [tokens_append, hword, add_blank hblank]
  · obtain ⟨hseen, hlonger⟩ := longer (by simpa using hmark) (by simpa using hblank)
    refine ⟨w ++ [c], fun _ => hseen, ?_⟩
    rw [← hlonger, List.nil_append, hslash]
    cases cs with
    | nil => rfl
    | cons d ds =>
      rw [Lexer.tokens_slash_cons w (fun e => hline ds hslash (by rw [e]))
        fun e => hblock ds hslash (by rw [e])]
  · obtain ⟨hseen, hlonger⟩ := longer (by simpa using hmark) (by simpa using hblank)
    exact ⟨w ++ [c], fun _ => hseen, hlonger⟩

end Tally

/-- The scan of a line counts its tokens. -/
theorem scanFrom_tokens {t : Tally} {region : Region} {m : Lexer} (h : Stands t region m)
    (offset : Nat) {l : Text} (hl : '\n' ∉ l) :
    ∃ k b, scanFrom offset t region l = (t.tokens (m.tokens l)).finish k b := by
  fun_induction scanFrom offset t region l generalizing m with
  | case1 offset t region =>
    refine ⟨none, region = .comment, ?_⟩
    rw [Lexer.tokens_nil]
    cases h with
    | code h => rw [Lexer.finish, Tally.tokens_wordToken h]
    | string h => rw [Lexer.finish, Tally.tokens_cons, Tally.token_string, Tally.seen_eq_self h]; rfl
    | comment => rw [Lexer.finish, Tally.tokens_cons, Tally.token_comment]; rfl
  | case2 offset t cs ih =>
    cases h with | comment s => ?_
    rw [Lexer.tokens_blockEnd, Tally.tokens_cons, Tally.token_comment]
    exact ih (.code (by simp)) (by simp_all)
  | case3 offset t c cs hend ih =>
    cases h with | comment s => ?_
    rw [Lexer.tokens_cons, Lexer.step]
    by_cases hc : c = '*'
    · -- a star that no slash follows might as well be any character of the comment
      subst hc
      have htokens : (Lexer.star (s ++ ['*'])).tokens cs = (Lexer.block (s ++ ['*'])).tokens cs := by
        cases cs with
        | nil => rfl
        | cons d ds => exact Lexer.tokens_star_cons _ (fun e => hend ds rfl (by rw [e])) ds
      rw [if_pos rfl, htokens]
      exact ih (.comment _) (by simp_all)
    · rw [if_neg hc]
      exact ih (.comment _) (by simp_all)
  | case4 offset t c cs ih =>
    cases h with | string h => ?_
    exact ih (.string h) (by simp_all)
  | case5 offset t c cs hend ih =>
    cases h with | @string s h => ?_
    rw [Lexer.tokens_cons, Lexer.step]
    by_cases hq : c = '"'
    · simp only [if_pos hq, Tally.tokens_append, Tally.tokens_cons, Tally.token_string,
        Tally.seen_eq_self h, Tally.tokens_nil] at ih ⊢
      exact ih (.code fun _ => h) (by simp_all)
    · simp only [if_neg hq, List.nil_append] at ih ⊢
      by_cases hb : c = '\\'
      · -- nothing follows a backslash here
        cases cs with
        | nil => rw [if_pos hb]; exact ih (m := .string (s ++ [c])) (.string h) (by simp)
        | cons d ds => exact (hend d ds hb rfl).elim
      · rw [if_neg hb]
        exact ih (.string h) (by simp_all)
  | case6 offset t r =>
    cases h with | @code w h => ?_
    rw [Lexer.tokens_lineComment w (by simp_all), Tally.tokens_append, Tally.tokens_wordToken h,
      Tally.tokens_cons, Tally.token_comment]
    exact ⟨some offset, false, rfl⟩
  | case7 offset t cs ih =>
    cases h with | @code w h => ?_
    rw [Lexer.tokens_blockComment, Tally.tokens_append, Tally.tokens_wordToken h]
    exact ih (.comment _) (by simp_all)
  | case8 offset t c cs hline hblock ih =>
    cases h with | @code w h => ?_
    have hcs : '\n' ∉ cs := fun hn => hl (List.mem_cons_of_mem _ hn)
    by_cases hq : c = '"'
    · subst hq
      obtain ⟨y, ts, hfirst⟩ := Lexer.tokens_literal (.inl rfl) ['"'] cs
      have hquote : (Lexer.code w).tokens ('"' :: cs) =
          wordToken w ++ (Lexer.string ['"']).tokens cs := by
        rw [Lexer.tokens_cons]; rfl
      rw [hquote, Tally.tokens_append, Tally.tokens_wordToken h,
        ← Tally.tokens_of_seen ⟨_, ts, .inr hfirst⟩]
      exact ih (.string rfl) hcs
    · simp only [if_neg hq] at ih ⊢
      obtain ⟨v, hv, htokens⟩ := Tally.tokens_code_cons h hq (fun r e => hline r e)
        fun r e => hblock r e
      rw [htokens]
      exact ih (.code hv) hcs

/-! ## Line by line -/

/-- A scan counts the delimiters that a line completes. -/
structure Counts (scan : LineScan) (ts : List Token) : Prop where
  outdents : scan.leadingClosers = outdents ts
  openers : scan.opened = openers ts
  closers : scan.closed = closers ts

/-- Tokens that look the same are counted the same. -/
theorem Counts.congr {v : View} {scan : LineScan} {ts us : List Token} (h : Counts scan ts)
    (hview : v.tokens ts = v.tokens us) : Counts scan us := by
  obtain ⟨hopeners, hclosers, houtdents⟩ := delimiters_of_view hview
  exact ⟨houtdents ▸ h.outdents, hopeners ▸ h.openers, hclosers ▸ h.closers⟩

theorem Tally.counts_tokens (ts : List Token) (k : Option Nat) (b : Bool) :
    Counts ((Tally.none.tokens ts).finish k b) ts := by
  refine ⟨?_, ?_, ?_⟩
  · rw [Tally.finish, Tally.leadingClosers_tokens]
    simp [Tally.none]
  · rw [Tally.finish, Tally.opened_tokens]
    simp [Tally.none]
  · rw [Tally.finish, Tally.closed_tokens]
    simp [Tally.none]

/-- Unless a literal is open, what the end of a text completes counts as what the end of a line does. -/
theorem Lexer.tokens_finish {m : Lexer} (h : m.inString = false) (t : Tally) :
    t.tokens m.finish = t.tokens (m.step '\n').1 := by
  rw [Lexer.step_newline]
  cases m with
  | string s => cases h
  | escape s => cases h
  | block s => rw [Lexer.finish, Tally.tokens_cons, Tally.token_comment]
  | star s => rw [Lexer.finish, Tally.tokens_cons, Tally.token_comment]
  | _ => rfl

theorem scanLine_counts {m : Lexer} (hm : m.AtLineStart) {l : Text} (hl : '\n' ∉ l)
    (hs : (m.read l).2.inString = false) :
    Counts (scanLine l m.inBlock) (m.read (l ++ ['\n'])).1 := by
  have hstands : Stands .none (if m.inBlock then .comment else .code) m := by
    rcases hm with rfl | ⟨s, rfl⟩
    · exact .code fun h => absurd rfl h
    · exact .comment _
  obtain ⟨k, b, hscan⟩ := scanFrom_tokens hstands 0 hl
  have hown : Tally.none.tokens (m.tokens l) = Tally.none.tokens (m.read (l ++ ['\n'])).1 := by
    rw [Lexer.read_append, Lexer.tokens, Tally.tokens_append, Lexer.tokens_finish hs,
      ← Tally.tokens_append, Lexer.read_cons, Lexer.read_nil, List.append_nil]
  rw [scanLine, hscan, hown]
  exact Tally.counts_tokens _ k b

theorem nestLine_state (s : Nesting) (l : Text) :
    (nestLine s l).1 =
      ⟨s.depth + (scanLine (trim l) s.inBlockComment).opened -
          (scanLine (trim l) s.inBlockComment).closed,
        (scanLine (trim l) s.inBlockComment).inBlockComment⟩ := by
  cases ht : trim l with
  | nil =>
    rw [nestLine_of_blank s ((trim_eq_nil_iff l).1 ht)]
    obtain ⟨depth, inBlock⟩ := s
    cases inBlock <;> rfl
  | cons c cs => rw [nestLine_of_visible s ht]

/-- A visible line is printed at its depth, with nothing blank in front. -/
theorem nestLine_printed (s : Nesting) {l : Text} (hl : ¬ isBlankLine l) :
    ∃ c cs, isBlank c = false ∧ (nestLine s l).2 =
      indent (s.depth - (scanLine (trim l) s.inBlockComment).leadingClosers) ++ c :: cs := by
  cases ht : trim l with
  | nil => exact absurd ((trim_eq_nil_iff l).1 ht) hl
  | cons c cs =>
    obtain ⟨hhead, -⟩ := @spacedAt_settled s.inBlockComment c cs (trim_cons ht)
    obtain ⟨ds, hds⟩ := List.head?_eq_some_iff.1 hhead
    refine ⟨c, ds, trim_cons ht, ?_⟩
    rw [nestLine_of_visible s ht]
    simp only
    rw [hds]

/-- Comments are looked at without the margins of their lines. -/
def marginless : View := ⟨trimLines, id⟩

theorem marginless_ignoresMargins : marginless.IgnoresMargins := trimLines_ignoresMargins

/-- What has been read up to a line, in a text and in what is printed of it, and the nesting that is
handed to the line. -/
structure Tracks (s : Nesting) (r r' : List Token × Lexer) : Prop where
  start : r.2.AtLineStart
  same : Same marginless r r'
  block : s.inBlockComment = r.2.inBlock
  depth : s.depth + closers r.1 = openers r.1

/-- Neither the depth of a line nor the depth behind it is cut off at zero. -/
def Nesting.Unclamped (s : Nesting) (l : Text) : Prop :=
  (scanLine (trim l) s.inBlockComment).leadingClosers ≤ s.depth ∧
    (scanLine (trim l) s.inBlockComment).closed ≤
      s.depth + (scanLine (trim l) s.inBlockComment).opened

section
variable {s : Nesting} {r r' : List Token × Lexer} {l : Text}

theorem Tracks.counts (h : Tracks s r r') (hl : '\n' ∉ l) (hs : (r.2.read l).2.inString = false) :
    Counts (scanLine (trim l) s.inBlockComment) (r.2.read (l ++ ['\n'])).1 := by
  have htrim := same_trim marginless_ignoresMargins h.start hl hs
  have hs' := inString_trim marginless_ignoresMargins h.start hl hs
  rw [h.block]
  exact (scanLine_counts h.start (fun hn => hl (mem_of_mem_trim hn)) hs').congr htrim.tokens.symm

theorem Tracks.unclamped (h : Tracks s r r') (hl : '\n' ∉ l)
    (hs : (r.2.read l).2.inString = false)
    (hopened : OpenedFirst (r.1 ++ (r.2.read (l ++ ['\n'])).1)) : s.Unclamped l := by
  have hcounts := h.counts hl hs
  have hdepth := h.depth
  have hleading := hopened.outdents_le
  have hall := hopened _ (List.prefix_refl _)
  rw [closers_append, openers_append] at hall
  rw [Nesting.Unclamped, hcounts.outdents, hcounts.openers, hcounts.closers]
  omega

theorem Tracks.next (h : Tracks s r r') (hl : '\n' ∉ l) (hs : (r.2.read l).2.inString = false)
    (hopened : OpenedFirst (r.1 ++ (r.2.read (l ++ ['\n'])).1)) :
    Tracks (nestLine s l).1 (r.1 ++ (r.2.read (l ++ ['\n'])).1, (r.2.read (l ++ ['\n'])).2)
      (r'.1 ++ (r'.2.read ((nestLine s l).2 ++ ['\n'])).1,
        (r'.2.read ((nestLine s l).2 ++ ['\n'])).2) := by
  obtain ⟨hsame, hblock⟩ := same_nestLine marginless_ignoresMargins h.start h.block hl hs
  have hline := hsame.trans (h.same.lexer.read ((nestLine s l).2 ++ ['\n']))
  refine ⟨?_, ⟨?_, hline.lexer⟩, hblock, ?_⟩
  · rw [Lexer.read_append]
    exact Lexer.atLineStart_step hs
  · rw [View.tokens_append, View.tokens_append, h.same.tokens, hline.tokens]
  · obtain ⟨-, hclosed⟩ := h.unclamped hl hs hopened
    have hcounts := h.counts hl hs
    have hdepth := h.depth
    rw [nestLine_state, closers_append, openers_append, ← hcounts.openers, ← hcounts.closers]
    simp only
    omega

end

/-! ## Whole texts -/

/-- Every string literal is closed on the line on which it starts. -/
def OneLineStrings (s : Text) : Prop :=
  EachLine (fun m l => (m.read l).2.inString = false) (.code []) (splitOn '\n' s)

instance (s : Text) : Decidable (OneLineStrings s) := by
  unfold OneLineStrings
  infer_instance

theorem tracks_lines {ls : List Text} (hls : ∀ l ∈ ls, '\n' ∉ l)
    (hstrings : EachLine (fun m l => (m.read l).2.inString = false) (.code []) ls)
    (hopened : OpenedFirst ((Lexer.code []).read (terminated ls)).1) :
    Tracks (threadedState nestLine .outermost ls) ((Lexer.code []).read (terminated ls))
      ((Lexer.code []).read (terminated (threaded nestLine .outermost ls))) := by
  induction ls using List.reverseRecOn with
  | nil => exact ⟨.inl rfl, .refl _, rfl, rfl⟩
  | append_singleton ls l ih =>
    have hread : ∀ ks : List Text, ∀ k, (Lexer.code []).read (terminated (ks ++ [k])) =
        (((Lexer.code []).read (terminated ks)).1 ++
            (((Lexer.code []).read (terminated ks)).2.read (k ++ ['\n'])).1,
          (((Lexer.code []).read (terminated ks)).2.read (k ++ ['\n'])).2) := by
      intro ks k
      rw [terminated_append, terminated_line, terminated_nil, List.append_nil, Lexer.read_append]
    obtain ⟨hfront, hl⟩ := eachLine_append.1 hstrings
    rw [hread] at hopened
    have ih := ih (fun k hk => hls k (List.mem_append_left _ hk)) hfront
      (hopened.of_prefix (List.prefix_append _ _))
    rw [threadedState_append, threaded_append, threaded_cons, threaded_nil, hread, hread]
    exact ih.next (hls l (by simp)) hl.1 hopened

theorem Lexer.step_newline_prefix (m : Lexer) : (m.step '\n').1 <+: m.finish := by
  rw [Lexer.step_newline]
  cases m with
  | code w => exact List.prefix_refl _
  | slash w => exact List.prefix_refl _
  | line s => exact List.prefix_refl _
  | _ => exact List.nil_prefix

/-- The tokens that the first lines of a text complete are its first tokens. -/
theorem tokens_of_first_lines {s : Text} {ls rest : List Text} (h : splitOn '\n' s = ls ++ rest) :
    ((Lexer.code []).read (terminated ls)).1 <+: tokens s := by
  have hlines : terminated ls ++ terminated rest = s ++ ['\n'] := by
    rw [← terminated_append, ← h, terminated_splitOn]
  have hfirst : ((Lexer.code []).read (terminated ls)).1 <+:
      ((Lexer.code []).read (s ++ ['\n'])).1 := by
    rw [← hlines, Lexer.read_append]
    exact List.prefix_append _ _
  refine hfirst.trans ?_
  rw [Lexer.read_append, Lexer.read_cons, Lexer.read_nil, List.append_nil]
  exact (List.prefix_append_right_inj _).2 (Lexer.step_newline_prefix _)

/-- What is read before a line of a text tracks the nesting, no literal is open at the end of the
line, and no more blocks are closed on it than are open. -/
theorem tracks_line {s : Text} (hstrings : OneLineStrings s) (hopened : OpenedFirst (tokens s))
    {ls rest : List Text} {l : Text} (h : splitOn '\n' s = ls ++ l :: rest) :
    let r := (Lexer.code []).read (terminated ls)
    Tracks (threadedState nestLine .outermost ls) r
        ((Lexer.code []).read (terminated (threaded nestLine .outermost ls))) ∧
      '\n' ∉ l ∧ (r.2.read l).2.inString = false ∧
      OpenedFirst (r.1 ++ (r.2.read (l ++ ['\n'])).1) := by
  intro r
  have hlines : ∀ k ∈ ls ++ l :: rest, '\n' ∉ k := by
    rw [← h]
    exact fun k => not_mem_of_mem_splitOn k
  rw [OneLineStrings, h, eachLine_append] at hstrings
  have hfront := hopened.of_prefix (tokens_of_first_lines h)
  have hline : OpenedFirst (r.1 ++ (r.2.read (l ++ ['\n'])).1) := by
    have hlonger : splitOn '\n' s = (ls ++ [l]) ++ rest := by rw [h, List.append_cons]
    have := hopened.of_prefix (tokens_of_first_lines hlonger)
    rwa [terminated_append, terminated_line, terminated_nil, List.append_nil, Lexer.read_append]
      at this
  exact ⟨tracks_lines (fun k hk => hlines k (List.mem_append_left _ hk)) hstrings.1 hfront,
    hlines l (by simp), hstrings.2.1, hline⟩

/-- Every line with something on it starts with two spaces for each block that is open in front of it,
less those that the line closes before anything but white space, commas and comments. -/
def IndentedByNesting (t : Text) : Prop :=
  ∀ ls l rest, splitOn '\n' t = ls ++ l :: rest → ¬ isBlankLine l →
    let before := (Lexer.code []).read (terminated ls)
    let own := (before.2.read (l ++ ['\n'])).1
    closers before.1 + outdents own ≤ openers before.1 ∧
      ∃ c cs, isBlank c = false ∧
        l = indent (openers before.1 - (closers before.1 + outdents own)) ++ c :: cs

/-- The depth that is handed to a line is the number of blocks that are open in front of it, and it is
cut off at zero neither there nor behind the line. -/
def NestingCounted (s : Text) : Prop :=
  ∀ ls l rest, splitOn '\n' s = ls ++ l :: rest →
    let before := (Lexer.code []).read (terminated ls)
    let nesting := threadedState nestLine .outermost ls
    nesting.depth + closers before.1 = openers before.1 ∧ nesting.Unclamped l

/-- Where no more blocks are closed than opened, indenting by delimiters goes by the real nesting. -/
theorem reindentNested_goes_by_nesting {s : Text} (hstrings : OneLineStrings s)
    (hopened : OpenedFirst (tokens s)) :
    IndentedByNesting (reindentNested s) ∧ NestingCounted s := by
  constructor
  · intro front out rest' hsplit hvisible before own
    rw [reindentNested, threaded_lines nestLine nestLine_trim] at hsplit
    obtain ⟨ls, l, rest, hlines, rfl, rfl⟩ :=
      nestLine_settles.exists_line nestLine_keepsLineEnds hsplit hvisible
    obtain ⟨htracks, hl, hs, hline⟩ := tracks_line hstrings hopened hlines
    -- what is printed has the delimiters of the text, in front of the line and on it
    obtain ⟨hsame, -⟩ := same_nestLine marginless_ignoresMargins htracks.start htracks.block hl hs
    obtain ⟨hopeners, hclosers, -⟩ := delimiters_of_view htracks.same.tokens
    obtain ⟨-, -, houtdents⟩ :=
      delimiters_of_view (hsame.trans (htracks.same.lexer.read _)).tokens
    have hdepth := htracks.depth
    have hleading := hline.outdents_le
    have hscan := (htracks.counts hl hs).outdents
    rw [hopeners, hclosers] at hdepth hleading
    rw [houtdents] at hleading hscan
    refine ⟨hleading, ?_⟩
    obtain ⟨c, cs, hc, hprinted⟩ := nestLine_printed (threadedState nestLine .outermost ls)
      fun hblank => hvisible (by rw [nestLine_of_blank _ hblank]; rfl)
    have hindent : (threadedState nestLine .outermost ls).depth - outdents own =
        openers before.1 - (closers before.1 + outdents own) := by
      change _ + closers before.1 = openers before.1 at hdepth
      omega
    refine ⟨c, cs, hc, ?_⟩
    rw [← hindent, hprinted, hscan]
  · intro ls l rest hsplit before nesting
    obtain ⟨htracks, hl, hs, hline⟩ := tracks_line hstrings hopened hsplit
    exact ⟨htracks.depth, htracks.unclamped hl hs hline⟩

theorem reindentNested_goes_by_nesting_of_comments :
    let s := lit "\x7b \"a\": [\x7b // \x7d\n\"\x7d\": 1 /* ]\n */ \x7d, ]\n, \x7d /* ["
    OneLineStrings s ∧ OpenedFirst (tokens s) ∧
      IndentedByNesting (reindentNested s) ∧ NestingCounted s := by
  intro s
  have hstrings : OneLineStrings s := by decide
  have hopened : OpenedFirst (tokens s) := by decide
  exact ⟨hstrings, hopened, reindentNested_goes_by_nesting hstrings hopened⟩

end ConfigCare.Jsonc
