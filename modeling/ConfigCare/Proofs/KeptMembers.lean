import ConfigCare.Proofs.LineComments
import ConfigCare.Proofs.NestingDepth
import ConfigCare.Proofs.ReadTokens

/-! The members of a JSON text and those of what it is formatted to. Indenting keeps the tokens of a
text without comments, and so every member of it. The canonical form writes the value that has been
read, in which a key that comes again has lost all its members but the last: nothing is lost there if
and only if no table holds a key twice. -/

namespace ConfigCare

namespace Jsonc

open Text (threaded_lines)

/-! ## Texts of whole tokens -/

/-- No comment, and no literal that is open at its end or goes over a line. -/
def Token.IsWhole : Token → Prop
  | .string s => Ends s [.string s] ∧ '\n' ∉ s
  | .comment _ => False
  | _ => True

namespace Lexer

/-- A literal has been read from its quote on. -/
def FromQuote (m : Lexer) : Prop :=
  ∀ s, m = .string s ∨ m = .escape s → (code []).read s = ([], m)

theorem fromQuote_stepCode (w : Text) (c : Char) : (stepCode w c).2.FromQuote := by
  intro s hs
  rw [stepCode] at hs ⊢
  split_ifs at hs ⊢ with hq
  · subst hq
    simp only [string.injEq, or_false] at hs
    subst hs
    rfl
  all_goals simp at hs

theorem FromQuote.step {m : Lexer} (h : m.FromQuote) (c : Char) : (m.step c).2.FromQuote := by
  -- a literal that goes on has one character more
  have goes_on : ∀ {s : Text} {m' : Lexer}, (m = .string s ∨ m = .escape s) → m.step c = ([], m') →
      m' = .string (s ++ [c]) ∨ m' = .escape (s ++ [c]) → m'.FromQuote := by
    intro s m' hm hstep hm' x hx
    obtain rfl : x = s ++ [c] := by rcases hm' with rfl | rfl <;> simpa [eq_comm] using hx
    rw [read_append, h s hm, read_cons, hstep, read_nil]
    rfl
  cases m with
  | code w => exact fromQuote_stepCode w c
  | slash w =>
    simp only [Lexer.step]
    split_ifs
    · simp [FromQuote]
    · simp [FromQuote]
    · exact fromQuote_stepCode _ c
  | string s =>
    by_cases hq : c = '"'
    · rw [Lexer.step, if_pos hq]
      simp [FromQuote]
    · by_cases hb : c = '\\'
      · have hstep : (string s).step c = ([], .escape (s ++ [c])) := by
          rw [Lexer.step, if_neg hq, if_pos hb]
        exact hstep ▸ goes_on (.inl rfl) hstep (.inr rfl)
      · have hstep : (string s).step c = ([], .string (s ++ [c])) := by
          rw [Lexer.step, if_neg hq, if_neg hb]
        exact hstep ▸ goes_on (.inl rfl) hstep (.inl rfl)
  | escape s => exact goes_on (.inr rfl) rfl (.inl rfl)
  | _ =>
    simp only [Lexer.step]
    split_ifs <;> simp [FromQuote]

theorem FromQuote.closes_of_isWhole {m : Lexer} (h : m.FromQuote) {s : Text}
    (hs : ∀ t ∈ m.tokens s, t.IsWhole) : m.closes s := by
  induction s generalizing m with
  | nil =>
    cases m with
    | string x =>
      have hwhole := hs (.string x) (by simp [tokens_nil, finish])
      cases hwhole.1.symm.trans (h x (.inl rfl))
    | escape x =>
      have hwhole := hs (.string x) (by simp [tokens_nil, finish])
      cases hwhole.1.symm.trans (h x (.inr rfl))
    | block x => exact (hs (.comment x) (by simp [tokens_nil, finish])).elim
    | star x => exact (hs (.comment x) (by simp [tokens_nil, finish])).elim
    | _ => rfl
  | cons c cs ih =>
    have hlater : (m.step c).2.closes cs :=
      ih (h.step c) fun t ht => hs t (by rw [tokens_cons]; exact List.mem_append_right _ ht)
    rw [closes, hlater, Bool.and_true]
    by_contra hopen
    obtain ⟨hin, rfl⟩ : m.inString = true ∧ c = '\n' := by simpa using hopen
    -- the literal holds the line feed
    obtain ⟨x, hstep⟩ : ∃ x, m.step '\n' = ([], .string (x ++ ['\n'])) := by
      cases m with
      | string x => exact ⟨x, rfl⟩
      | escape x => exact ⟨x, rfl⟩
      | _ => cases hin
    obtain ⟨y, ts, htokens⟩ := tokens_literal (.inl rfl) (x ++ ['\n']) cs
    have hwhole := hs (.string (x ++ ['\n'] ++ y)) (by rw [tokens_cons, hstep, htokens]; simp)
    exact hwhole.2 (by simp)

end Lexer

theorem closed_of_isWhole {s : Text} (h : ∀ t ∈ tokens s, t.IsWhole) : Closed s :=
  Lexer.FromQuote.closes_of_isWhole (m := .code []) (fun _ h => by simp at h) h

/-! ## Indenting texts without comments -/

theorem View.eq_of_no_comment {f : Text → Text} {ts us : List Token}
    (h : View.tokens ⟨f, id⟩ us = View.tokens ⟨f, id⟩ ts) (hno : ∀ t ∈ ts, t.IsWhole) : us = ts := by
  have token : ∀ {t u : Token}, View.token ⟨f, id⟩ u = View.token ⟨f, id⟩ t → t.IsWhole → u = t := by
    intro t u h ht
    cases t with
    | comment => exact ht.elim
    | _ => cases u <;> first | exact h | cases h
  induction ts generalizing us with
  | nil => exact List.map_eq_nil_iff.1 h
  | cons t ts ih =>
    cases us with
    | nil => cases h
    | cons u us =>
      obtain ⟨hhead, htail⟩ := List.cons.inj h
      obtain ⟨ht, hts⟩ := List.forall_mem_cons.1 hno
      rw [token hhead ht, ih htail hts]

/-- A text of whole tokens keeps them when it is indented. -/
theorem tokens_indented (strict : Bool) {s : Text} (h : ∀ t ∈ tokens s, t.IsWhole) :
    tokens (Format.indented strict s) = tokens s := by
  have hclosed := closed_of_isWhole h
  refine View.eq_of_no_comment (f := Text.visible) ?_ h
  cases strict
  · refine tokens_reindent_of_no_block hclosed ?_
    rw [hasBlock, List.any_eq_false]
    intro t ht
    cases t with
    | comment => exact (h _ ht).elim
    | _ => exact Bool.false_ne_true
  · rw [Format.indented, if_pos rfl, reindentNested, threaded_lines nestLine nestLine_trim]
    exact tokens_unlines_threaded nestLine_keepsLineEnds
      (I := fun s m => s.inBlockComment = m.inBlock) (P := fun _ _ => True)
      (fun s m l hs hm hl hstring _ => same_nestLine visible_ignoresMargins hm hs hl hstring)
      rfl hclosed (eachLine_of_forall (fun _ _ _ => trivial) _)

end Jsonc

namespace Json

open Jsonc (Token tokens looksCommented)
open WideText (ofText spelled)

theorem mem_separated {t : Token} {tss : List (List Token)} (h : t ∈ separated tss) :
    t = .mark ',' ∨ ∃ ts ∈ tss, t ∈ ts := by
  cases tss with
  | nil => simp [separated] at h
  | cons ts tss =>
    rw [separated_cons, List.mem_append, List.mem_flatMap] at h
    rcases h with h | ⟨us, hus, h⟩
    · exact .inr ⟨ts, by simp, h⟩
    · exact (List.mem_cons.1 h).imp_right fun h => ⟨us, by simp [hus], h⟩

theorem Literal.isWhole {s : Text} {v : WideText} (h : Literal s v) : (Token.string s).IsWhole := by
  obtain ⟨q, n, rfl, hstring⟩ := h
  obtain ⟨q', hq, -, hends, hbreak⟩ := exists_literal hstring
  obtain rfl : '"' :: q = q' := by simpa using hq
  exact ⟨hends, hbreak⟩

theorem Denotes.isWhole {ts : List Token} {v : Data} (h : Denotes ts v) : ∀ t ∈ ts, t.IsWhole := by
  induction h with
  | word | numeral => simp [Token.IsWhole]
  | text h => simpa using h.isWhole
  | list items h ih =>
    intro t ht
    simp only [List.mem_cons, List.mem_append, List.not_mem_nil, or_false] at ht
    rcases ht with rfl | ht | rfl
    · trivial
    · rcases mem_separated ht with rfl | ⟨ts, hts, ht⟩
      · trivial
      · obtain ⟨i, hi, rfl⟩ := List.mem_map.1 hts
        exact ih i hi t ht
    · trivial
  | table ms hkeys h ih =>
    intro t ht
    simp only [List.mem_cons, List.mem_append, List.not_mem_nil, or_false] at ht
    rcases ht with rfl | ht | rfl
    · trivial
    · rcases mem_separated ht with rfl | ⟨ts, hts, ht⟩
      · trivial
      · obtain ⟨m, hm, rfl⟩ := List.mem_map.1 hts
        rcases List.mem_cons.1 ht with rfl | ht
        · exact (hkeys m hm).isWhole
        rcases List.mem_cons.1 ht with rfl | ht
        · trivial
        · exact ih m hm t ht
    · trivial

end Json

namespace Format

open Jsonc (tokens looksCommented)
open Json (Denotes Literal canonicalText)
open WideText (ofText spelled)

/-- What a JSON text is formatted to, before it is encoded. -/
def jsonGlyphs (strict : Bool) (s : Text) : WideText :=
  if looksCommented s then ofText (indented strict s)
  else
    match Json.canonical s with
    | .ok t => t
    | .error _ => ofText (indented strict s)

theorem formatJson_eq (strict : Bool) (s : Text) :
    formatJson strict s = WideText.encode (jsonGlyphs strict s) := by
  unfold formatJson jsonGlyphs
  split
  · rw [WideText.encode_ofText]
  · cases Json.canonical s with
    | ok t => rfl
    | error e => exact (WideText.encode_ofText _).symm

/-- A text that is written anew from its value. -/
def Rewritten (s : Text) : Prop := looksCommented s = false ∧ ∃ v, Json.read true s = .ok v

theorem jsonGlyphs_of_rewritten {s : Text} (strict : Bool) (hlooks : looksCommented s = false)
    {v : Data} (hv : Json.read true s = .ok v) : jsonGlyphs strict s = canonicalText v := by
  rw [jsonGlyphs, hlooks, Json.canonical, hv]
  rfl

theorem jsonGlyphs_of_not_rewritten {s : Text} (strict : Bool) (h : ¬ Rewritten s) :
    jsonGlyphs strict s = ofText (indented strict s) := by
  unfold jsonGlyphs
  split
  · rfl
  · next hlooks =>
    split
    · next t ht =>
      obtain ⟨v, hv, -⟩ := Json.exists_of_map_ok ht
      exact absurd ⟨by simpa using hlooks, v, hv⟩ h
    · rfl

/-- What becomes of the members of a strict JSON text, whatever its depth and the length of its
numbers. As long as it is only indented, every member is written again in its place. Written anew from
its value, a key that comes again in a table is written once, at the first place and with the last
value; so all members are kept if and only if no table holds a key twice. -/
theorem formatJson_keeps_members_iff (strict : Bool) {s : Text} {w : Data}
    (h : Denotes (tokens s) w) :
    formatJson strict s = WideText.encode (jsonGlyphs strict s) ∧
      (¬ Rewritten s → Denotes (tokens (spelled (jsonGlyphs strict s))) w) ∧
      (Rewritten s → Denotes (tokens (spelled (jsonGlyphs strict s))) w.settled) ∧
      (Denotes (tokens (spelled (jsonGlyphs strict s))) w ↔
        (Rewritten s → w.repeatsKey = false)) := by
  have hindented : ¬ Rewritten s → Denotes (tokens (spelled (jsonGlyphs strict s))) w := by
    intro hno
    rw [jsonGlyphs_of_not_rewritten strict hno, WideText.spelled_ofText,
      Jsonc.tokens_indented strict h.isWhole]
    exact h
  have hanew : Rewritten s → Denotes (tokens (spelled (jsonGlyphs strict s))) w.settled := by
    rintro ⟨hlooks, v, hv⟩
    obtain ⟨w', hw', rfl⟩ := Json.exists_denotes_of_read hv
    rw [jsonGlyphs_of_rewritten strict hlooks hv, h.unique hw']
    exact Json.denotes_canonicalText (Json.readable_read hv)
  refine ⟨formatJson_eq strict s, hindented, hanew, fun hw hr => ?_, fun hkeys => ?_⟩
  · exact w.settled_eq_iff.1 ((hanew hr).unique hw)
  · by_cases hr : Rewritten s
    · exact w.settled_eq_iff.2 (hkeys hr) ▸ hanew hr
    · exact hindented hr

/-- The slashes keep the text from being read, and the key stays twice. -/
theorem formatJson_keeps_members_of_slashes :
    let s := Text.lit "\x7b\"a\":1,\"a\":\" //\"\x7d"
    let w := Data.table [(ofText ['a'], .int 1), (ofText ['a'], .text (ofText (Text.lit " //")))]
    Denotes (tokens s) w ∧ w.repeatsKey = true ∧ ¬ Rewritten s ∧
      Denotes (tokens (spelled (jsonGlyphs true s))) w := by
  intro s w
  have hkey : Literal (Text.lit "\"a\"") (ofText ['a']) := ⟨_, _, rfl, rfl⟩
  have hslashes : Literal (Text.lit "\" //\"") (ofText (Text.lit " //")) := ⟨_, _, rfl, rfl⟩
  have hs : Denotes (tokens s) w :=
    Denotes.table [⟨_, _, .int 1, [.word ['1']]⟩, ⟨_, _, _, [.string _]⟩]
      (List.forall_mem_cons.2 ⟨hkey, List.forall_mem_singleton.2 hkey⟩)
      (List.forall_mem_cons.2 ⟨.digit rfl, List.forall_mem_singleton.2 (.text hslashes)⟩)
  have hno : ¬ Rewritten s := fun h => absurd h.1 (by decide)
  exact ⟨hs, rfl, hno, (formatJson_keeps_members_iff true hs).2.1 hno⟩

/-- The first of two members with one key is lost, whichever way the text would be indented. -/
theorem formatJson_loses_member :
    let s := Text.lit "\x7b\"a\": 1, \"a\": 2\x7d"
    let t := Text.lit "\x7b\n  \"a\": 2\n\x7d\n"
    let w := Data.table [(ofText ['a'], .int 1), (ofText ['a'], .int 2)]
    Denotes (tokens s) w ∧ formatJson false s = .ok t ∧ formatJson true s = .ok t ∧
      ¬ Denotes (tokens t) w := by
  intro s t w
  have hkey : Literal (Text.lit "\"a\"") (ofText ['a']) := ⟨_, _, rfl, rfl⟩
  have hs : Denotes (tokens s) w :=
    Denotes.table [⟨_, _, .int 1, [.word ['1']]⟩, ⟨_, _, .int 2, [.word ['2']]⟩]
      (List.forall_mem_cons.2 ⟨hkey, List.forall_mem_singleton.2 hkey⟩)
      (List.forall_mem_cons.2 ⟨.digit rfl, List.forall_mem_singleton.2 (.digit rfl)⟩)
  have ht : Denotes (tokens t) (.table [(ofText ['a'], .int 2)]) :=
    Denotes.table [⟨_, _, .int 2, [.word ['2']]⟩]
      (List.forall_mem_singleton.2 hkey) (List.forall_mem_singleton.2 (.digit rfl))
  refine ⟨hs, by decide +kernel, by decide +kernel, fun hw => ?_⟩
  have hone := congrArg Data.repeatsKey (ht.unique hw)
  exact absurd hone (by decide)

end Format

end ConfigCare
