import ConfigCare.Proofs.CanonicalLines
import ConfigCare.Proofs.DenotedValues
import ConfigCare.Proofs.JsonLineBreaks

/-! The tokens of a text that is read as JSON denote a value that settles to what is read, and the
tokens of the canonical form denote the very value that is written. Both go over the parts of a text
that lead the lexer from code to code. -/

namespace ConfigCare

namespace Jsonc

open Text (isBlank isBlankLine)

/-! ## Passages from code to code -/

/-- The text leads from code to code, and its tokens are these. A word at its end may go on. -/
def Spans (p : Text) (ts : List Token) : Prop :=
  ∃ us w, (Lexer.code []).read p = (us, .code w) ∧ us ++ wordToken w = ts

/-- The text leads from code to code with no word that may go on, and its tokens are these. -/
def Ends (p : Text) (ts : List Token) : Prop := (Lexer.code []).read p = (ts, .code [])

theorem Spans.tokens_eq {p : Text} {ts : List Token} (h : Spans p ts) : tokens p = ts := by
  obtain ⟨us, w, hread, rfl⟩ := h
  rw [tokens, Lexer.tokens, hread]
  rfl

theorem Ends.spans {p : Text} {ts : List Token} (h : Ends p ts) : Spans p ts :=
  ⟨ts, [], h, List.append_nil ts⟩

theorem Ends.append {p q : Text} {ts us : List Token} (hp : Ends p ts) (hq : Ends q us) :
    Ends (p ++ q) (ts ++ us) := by
  rw [Ends] at hp hq ⊢
  rw [Lexer.read_append, hp, hq]

theorem Ends.append_spans {p q : Text} {ts us : List Token} (hp : Ends p ts) (hq : Spans q us) :
    Spans (p ++ q) (ts ++ us) := by
  obtain ⟨vs, w, hread, rfl⟩ := hq
  refine ⟨ts ++ vs, w, ?_, List.append_assoc ..⟩
  rw [Ends] at hp
  rw [Lexer.read_append, hp, hread]

theorem ends_blank {p : Text} (h : isBlankLine p) : Ends p [] := by
  rw [Ends, Lexer.read_code_blank h [] fun _ => rfl]
  rfl

theorem ends_mark {c : Char} (h : isMark c) : Ends [c] [.mark c] := by
  have hq : c ≠ '"' := by rintro rfl; exact absurd h (by decide)
  rw [Ends, Lexer.read_cons, Lexer.step, Lexer.stepCode, if_neg hq, if_pos h]
  rfl

/-- White space and a mark end what stands in front of them. -/
theorem Spans.mark {p b : Text} {ts : List Token} (hp : Spans p ts) (hb : isBlankLine b) {c : Char}
    (hc : isMark c) : Ends (p ++ (b ++ [c])) (ts ++ [.mark c]) := by
  obtain ⟨us, w, hread, rfl⟩ := hp
  have hq : c ≠ '"' := by rintro rfl; exact absurd hc (by decide)
  have hstep : ∀ x, (Lexer.code x).read [c] = (wordToken x ++ [.mark c], .code []) := by
    intro x
    rw [Lexer.read_cons, Lexer.step, Lexer.stepCode, if_neg hq, if_pos hc]
    simp
  rw [Ends, Lexer.read_append, hread]
  by_cases hnil : b = []
  · rw [hnil, List.nil_append, hstep, List.append_assoc]
  · rw [Lexer.read_append, Lexer.read_code_blank hb w fun h => absurd h hnil, hstep]
    simp [wordToken]

theorem Spans.blank {p b : Text} {ts : List Token} (hp : Spans p ts) (hb : isBlankLine b) :
    Spans (p ++ b) ts := by
  obtain ⟨us, w, hread, rfl⟩ := hp
  by_cases hnil : b = []
  · rw [hnil, List.append_nil]
    exact ⟨us, w, hread, rfl⟩
  · refine ⟨us ++ wordToken w, [], ?_, List.append_nil _⟩
    rw [Lexer.read_append, hread, Lexer.read_code_blank hb w fun h => absurd h hnil]

theorem spans_word {p : Text} (h : p.all isWordChar) (hne : p ≠ []) : Spans p [.word p] := by
  have hread : ∀ w, (Lexer.code w).read p = ([], .code (w ++ p)) := by
    clear hne
    induction p with
    | nil => simp
    | cons c cs ih =>
      intro w
      rw [List.all_cons, Bool.and_eq_true] at h
      have hne : ∀ x, isWordChar x = false → c ≠ x := fun _ hx => ne_of_isWordChar h.1 hx
      have hmark : isMark c = false := by
        simp [isMark, isOpener, isCloser, hne '\x7b' (by decide), hne '[' (by decide),
          hne '\x7d' (by decide), hne ']' (by decide), hne ',' (by decide), hne ':' (by decide)]
      rw [Lexer.read_cons, Lexer.step, Lexer.stepCode, if_neg (hne '"' (by decide)), hmark,
        isBlank_of_isWordChar h.1, if_neg (hne '/' (by decide))]
      simp [ih h.2]
  obtain ⟨c, cs, rfl⟩ := List.exists_cons_of_ne_nil hne
  exact ⟨[], c :: cs, by rw [hread, List.nil_append], rfl⟩

end Jsonc

end ConfigCare

namespace ConfigCare.Json

open Jsonc (Token Lexer Spans Ends tokens isMark ends_mark ends_blank spans_word isWordChar)
open Text (isBlankLine)

/-! ## Strings -/

/-- What stands behind a string has no part in it, and no line feed is part of it. -/
theorem stringFrom_alone {start offset : Nat} {done v : WideText} {s : Text} {c : Cursor}
    (h : stringFrom start done offset s = .ok (v, c)) :
    ∃ q, s = q ++ c.rest ∧ '\n' ∉ q ∧
      ∀ start offset, ∃ n, stringFrom start done offset q = .ok (v, ⟨n, []⟩) := by
  fun_induction stringFrom start done offset s with
  | case2 done offset cs =>
    cases h
    exact ⟨['"'], rfl, by decide, fun _ offset => ⟨offset + 1, rfl⟩⟩
  | case4 done offset a b c d e cs hex ih =>
    obtain ⟨q, hq, hn, halone⟩ := ih h
    cases q with
    | nil =>
      obtain ⟨n, hn⟩ := halone 0 0
      cases hn
    | cons x q =>
      have hdigits : '\n' ∉ [a, b, c, d] := fun hmem =>
        absurd (List.all_eq_true.1 hex _ hmem) (by decide)
      refine ⟨'\\' :: 'u' :: ([a, b, c, d] ++ x :: q), by rw [hq]; rfl, ?_, fun start offset => ?_⟩
      · rw [List.mem_cons, List.mem_cons, List.mem_append]
        rintro (h | h | h | h)
        · exact absurd h (by decide)
        · exact absurd h (by decide)
        · exact hdigits h
        · exact hn h
      · rw [List.cons_append, List.cons_append, List.cons_append, List.cons_append, List.nil_append,
          stringFrom, if_pos hex]
        exact halone start _
  | case7 done offset e cs _ hu c hc ih =>
    obtain ⟨q, rfl, hn, halone⟩ := ih h
    have he : e ≠ '\n' := by rintro rfl; cases hc
    refine ⟨'\\' :: e :: q, rfl, by simp [hn, he.symm], fun start offset => ?_⟩
    rw [stringFrom_escape hu, hc]
    exact halone start _
  | case10 done offset c cs hq hend _ hesc hlow ih =>
    obtain ⟨q, rfl, hn, halone⟩ := ih h
    have hbreak : c ≠ '\n' := by rintro rfl; exact hlow (by decide)
    refine ⟨c :: q, rfl, by simp [hn, hbreak.symm], fun start offset => ?_⟩
    rw [stringFrom_char hq (ne_backslash hend hesc), if_neg hlow]
    exact halone start _
  | _ => cases h

theorem exists_literal {start offset : Nat} {v : WideText} {s : Text} {c : Cursor}
    (h : stringFrom start [] offset s = .ok (v, c)) :
    ∃ q, '"' :: s = q ++ c.rest ∧ Literal q v ∧ Ends q [.string q] ∧ '\n' ∉ q := by
  obtain ⟨q, rfl, hread⟩ := read_stringFrom h
  obtain ⟨q', heq, hn, halone⟩ := stringFrom_alone h
  obtain rfl := List.append_cancel_right heq
  obtain ⟨n, hstring⟩ := halone 0 1
  refine ⟨'"' :: q, rfl, ⟨q, n, rfl, hstring⟩, ?_, by simp [hn]⟩
  rw [Ends, Lexer.read_cons, Lexer.step, Lexer.stepCode, if_pos rfl, hread]
  rfl

/-! ## What is read -/

/-- What stands in a text in front of the rest are the tokens of a piece that settles to this. -/
abbrev Passed {α β : Type} (written : β → List Token) (sound : β → Prop) (settle : β → α) (s : Text)
    (a : α) (rest : Text) : Prop :=
  ∃ p b, s = p ++ rest ∧ Spans p (written b) ∧ sound b ∧ settle b = a

/-- Whatever a step comes to is what it has passed over. -/
def Tells {α β : Type} (written : β → List Token) (sound : β → Prop) (settle : β → α)
    (read : Step α) : Prop :=
  ∀ ⦃c a c'⦄, read c = .ok (a, c') → Passed written sound settle c.rest a c'.rest

abbrev PassedValue : Text → Data → Text → Prop :=
  Passed Prod.fst (fun i => Denotes i.1 i.2) fun i => i.2.settled

def TellsValue : Step Data → Prop :=
  Tells Prod.fst (fun i => Denotes i.1 i.2) fun i => i.2.settled

def TellsMember : Step (WideText × Data) → Prop :=
  Tells WrittenMember.written (fun m => Literal m.literal m.key ∧ Denotes m.tokens m.value)
    fun m => (m.key, m.value.settled)

theorem isBlankLine_of_isSpace {s : Text} (h : s.all isSpace = true) : isBlankLine s := by
  refine List.all_eq_true.2 fun x hx => ?_
  have hs : isSpace x := List.all_eq_true.1 h x hx
  simp only [isSpace, Bool.or_eq_true, decide_eq_true_eq] at hs
  rcases hs with ((rfl | rfl) | rfl) | rfl <;> decide

theorem exists_skip (c : Cursor) : ∃ b, c.rest = b ++ (skip c).rest ∧ isBlankLine b := by
  rw [skip, Cursor.skipWhile, Cursor.skipFrom_rest]
  exact ⟨_, List.takeWhile_append_dropWhile.symm, isBlankLine_of_isSpace List.all_takeWhile⟩

section

variable {α β : Type} {piece : Step α} {closing : Char} {pieces : Nat → List α → Step (List α)}
variable {written : β → List Token} {sound : β → Prop} {settle : β → α}

/-- A reader of pieces that succeeds has come to the closing character or to a comma behind the first
of them. -/
theorem Separates.of_ok (h : Separates piece closing pieces) {fuel : Nat} {done as : List α}
    {c c' : Cursor} (hok : pieces (fuel + 1) done c = .ok (as, c')) :
    ∃ a c₁ n cs, piece c = .ok (a, c₁) ∧
      ((skip c₁ = ⟨n, closing :: cs⟩ ∧ as = (a :: done).reverse ∧ c' = ⟨n + 1, cs⟩) ∨
        (skip c₁ = ⟨n, ',' :: cs⟩ ∧ pieces fuel (a :: done) (skip ⟨n + 1, cs⟩) = .ok (as, c'))) := by
  rcases hp : piece c with e | ⟨a, c₁⟩
  · rw [h.error hp] at hok
    cases hok
  · rcases hskip : skip c₁ with ⟨n, cs⟩
    have hstray : ¬ ∀ x ∈ cs.head?, x ≠ closing ∧ x ≠ ',' := by
      intro hno
      obtain ⟨e, he⟩ := h.stray hp (by rwa [hskip]) fuel done
      rw [he] at hok
      cases hok
    cases cs with
    | nil => exact absurd (by simp) hstray
    | cons z cs =>
      refine ⟨a, c₁, n, cs, rfl, ?_⟩
      by_cases hclose : z = closing
      · subst hclose
        rw [h.close hp hskip] at hok
        cases hok
        exact .inl ⟨hskip, rfl, rfl⟩
      by_cases hcomma : z = ','
      · subst hcomma
        rw [h.comma hp hskip] at hok
        exact .inr ⟨hskip, hok⟩
      · exact absurd (by simp [hclose, hcomma]) hstray

theorem Separates.tells (h : Separates piece closing pieces)
    (hzero : ∀ done c, ∃ e, pieces 0 done c = .error e) (hclosing : isMark closing)
    (hpiece : Tells written sound settle piece) {fuel : Nat} {done as : List α} {c c' : Cursor}
    (hok : pieces fuel done c = .ok (as, c')) :
    ∃ p bs, c.rest = p ++ c'.rest ∧ Ends p (separated (bs.map written) ++ [.mark closing]) ∧
      (∀ b ∈ bs, sound b) ∧ bs ≠ [] ∧ as = done.reverse ++ bs.map settle := by
  induction fuel generalizing done c with
  | zero =>
    obtain ⟨e, he⟩ := hzero done c
    rw [he] at hok
    cases hok
  | succ fuel ih =>
    obtain ⟨a, c₁, n, cs, hp, hnext⟩ := h.of_ok hok
    obtain ⟨p, b, hrest, hspans, hsound, rfl⟩ := hpiece hp
    obtain ⟨w, hw, hblank⟩ := exists_skip c₁
    rcases hnext with ⟨hskip, rfl, rfl⟩ | ⟨hskip, hlater⟩
    · rw [hskip] at hw
      refine ⟨p ++ (w ++ [closing]), [b], by simp [hrest, hw], ?_, by simpa using hsound,
        List.cons_ne_nil _ _, by simp⟩
      simpa [separated] using hspans.mark hblank hclosing
    · obtain ⟨q, bs, hq, hends, hbs, hne, rfl⟩ := ih hlater
      obtain ⟨w', hw', hblank'⟩ := exists_skip ⟨n + 1, cs⟩
      rw [hskip] at hw
      have hcomma := hspans.mark hblank (c := ',') (by decide)
      refine ⟨p ++ (w ++ [',']) ++ (w' ++ q), b :: bs, ?_, ?_,
        List.forall_mem_cons.2 ⟨hsound, hbs⟩, List.cons_ne_nil _ _, by simp⟩
      · have hcs : cs = w' ++ (q ++ c'.rest) := hq ▸ hw'
        rw [hrest, hw, hcs]
        simp
      · obtain ⟨b', bs, rfl⟩ := List.exists_cons_of_ne_nil hne
        have hall := hcomma.append ((ends_blank hblank').append hends)
        simpa [separated, List.intercalate_cons_cons] using hall

end

theorem tells_list {read : Step Data} (hread : TellsValue read) {fuel n : Nat} {cs : Text} {v : Data}
    {c : Cursor} (h : list read fuel ⟨n, cs⟩ = .ok (v, c)) : PassedValue ('[' :: cs) v c.rest := by
  have hopen : Ends ['['] [.mark '['] := ends_mark (by decide)
  obtain ⟨b, hb, hblank⟩ := exists_skip ⟨n, cs⟩
  unfold list at h
  split at h
  · next m r hskip =>
    cases h
    rw [hskip] at hb
    refine ⟨'[' :: (b ++ [']']), ⟨_, _⟩, by rw [show cs = _ from hb]; simp,
      (hopen.spans.mark hblank (c := ']') (by decide)).spans,
      Denotes.list [] (by simp), rfl⟩
  · obtain ⟨⟨vs, c₁⟩, hitems, he⟩ := exists_of_map_ok h
    cases he
    obtain ⟨p, items, hp, hends, hsound, -, rfl⟩ :=
      (separates_items read).tells (fun _ _ => ⟨_, rfl⟩) (by decide) hread hitems
    refine ⟨['['] ++ (b ++ p), ⟨_, _⟩, ?_, (hopen.append ((ends_blank hblank).append hends)).spans,
      Denotes.list items hsound, ?_⟩
    · rw [show cs = _ from hb, hp]
      simp
    · simp only [Data.settled, Data.settledItems_eq, List.map_map]
      rfl

theorem tells_key {c c' : Cursor} {k : WideText} (h : key c = .ok (k, c')) :
    ∃ p q, c.rest = p ++ c'.rest ∧ Ends p [.string q, .mark ':'] ∧ Literal q k := by
  unfold key at h
  split at h
  · next cs hcs =>
    split at h
    · cases h
    · next k' c₁ hstring =>
      obtain ⟨q, hq, hliteral, hends, -⟩ := exists_literal hstring
      obtain ⟨b, hb, hblank⟩ := exists_skip c₁
      split at h
      · next n r hskip =>
        cases h
        obtain ⟨b', hb', hblank'⟩ := exists_skip ⟨n + 1, r⟩
        rw [hskip] at hb
        refine ⟨q ++ (b ++ [':']) ++ b', q, ?_, ?_, hliteral⟩
        · have hr : r = b' ++ (skip ⟨n + 1, r⟩).rest := hb'
          rw [hcs, hq, hb]
          simp [← hr]
        · simpa using (hends.spans.mark hblank (c := ':') (by decide)).append (ends_blank hblank')
      · cases h
  · cases h

theorem tells_member {read : Step Data} (hread : TellsValue read) : TellsMember (member read) := by
  intro c a c' h
  unfold member at h
  split at h
  · cases h
  · next k c₁ hk =>
    obtain ⟨⟨v, c₂⟩, hv, he⟩ := exists_of_map_ok h
    cases he
    obtain ⟨p, q, hp, hends, hliteral⟩ := tells_key hk
    obtain ⟨p', ⟨ts, w⟩, hp', hspans, hdenotes, rfl⟩ := hread hv
    exact ⟨p ++ p', ⟨q, k, w, ts⟩, by rw [hp, hp', List.append_assoc], hends.append_spans hspans,
      ⟨hliteral, hdenotes⟩, rfl⟩

theorem tells_table {read : Step Data} (hread : TellsValue read) {fuel n : Nat} {cs : Text} {v : Data}
    {c : Cursor} (h : table read fuel ⟨n, cs⟩ = .ok (v, c)) : PassedValue ('\x7b' :: cs) v c.rest := by
  have hopen : Ends ['\x7b'] [.mark '\x7b'] := ends_mark (by decide)
  obtain ⟨b, hb, hblank⟩ := exists_skip ⟨n, cs⟩
  unfold table at h
  split at h
  · next m r hskip =>
    cases h
    rw [hskip] at hb
    refine ⟨'\x7b' :: (b ++ ['\x7d']), ⟨_, _⟩, by rw [show cs = _ from hb]; simp,
      (hopen.spans.mark hblank (c := '\x7d') (by decide)).spans,
      Denotes.table [] (by simp) (by simp), rfl⟩
  · obtain ⟨⟨es, c₁⟩, hmembers, he⟩ := exists_of_map_ok h
    cases he
    obtain ⟨p, ms, hp, hends, hsound, -, rfl⟩ :=
      (separates_members read).tells (fun _ _ => ⟨_, rfl⟩) (by decide) (tells_member hread) hmembers
    refine ⟨['\x7b'] ++ (b ++ p), ⟨_, _⟩, ?_, (hopen.append ((ends_blank hblank).append hends)).spans,
      Denotes.table ms (fun m hm => (hsound m hm).1) (fun m hm => (hsound m hm).2), ?_⟩
    · rw [show cs = _ from hb, hp]
      simp
    · simp only [Data.settled, Data.settledMembers_eq, List.map_map]
      rfl

/-! ## Words and numbers -/

theorem Numeral.wellFormed_exponent {s : Text} {e : Char} {sign : Option Char} {digits : Text}
    (h : Numeral.exponent? s = some (e, sign, digits)) :
    (e = 'e' ∨ e = 'E') ∧ (∀ c ∈ sign, c = '+' ∨ c = '-') ∧ digits ≠ [] ∧
      digits.all Text.isAsciiDigit = true := by
  unfold Numeral.exponent? at h
  split at h
  · next c cs =>
    split at h
    · next he =>
      simp only [Option.ite_none_left_eq_some, Option.some.injEq, Prod.mk.injEq] at h
      obtain ⟨hne, rfl, rfl, rfl⟩ := h
      refine ⟨by simpa using he, ?_, by simpa using hne, List.all_takeWhile⟩
      split <;> simp
    · cases h
  · cases h

theorem Numeral.wellFormed_of_read? {s : Text} {n : Numeral} (h : Numeral.read? s = some n) :
    n.WellFormed := by
  obtain ⟨t, -, hwhole, hfraction, hexponent⟩ := Numeral.read?_eq_some h
  refine ⟨?_, all_whole? hwhole, ?_, ?_, ?_⟩
  · rintro hnil
    rw [hnil] at hwhole
    unfold Numeral.whole? at hwhole
    split at hwhole
    · cases hwhole
    · split at hwhole <;> cases hwhole
    · cases hwhole
  · intro hzero
    unfold Numeral.whole? at hwhole
    split at hwhole
    · exact (Option.some.inj hwhole).symm
    · next c cs hno =>
      split at hwhole
      · rw [← Option.some.inj hwhole] at hzero
        exact (hno (Option.some.inj hzero)).elim
      · cases hwhole
    · cases hwhole
  · rw [hfraction]
    unfold Numeral.fractionAt
    split
    · exact List.all_takeWhile
    · rfl
  · intro e sign digits he
    rw [he] at hexponent
    exact wellFormed_exponent hexponent.symm

theorem Numeral.settled_data (n : Numeral) : n.data.settled = n.data := by
  unfold Numeral.data
  split <;> rfl

theorem spans_of_mem_words {refuse : Bool} {w : Text} {x : Except Failure Data}
    (h : (w, x) ∈ words refuse) : Spans w [.word w] := by
  have hname : w ∈ (words false).map Prod.fst := List.mem_map_of_mem (f := Prod.fst) h
  have hall : ∀ w ∈ (words false).map Prod.fst, w.all isWordChar ∧ w ≠ [] := by decide
  exact spans_word (hall w hname).1 (hall w hname).2

/-- A word that is not refused stands for the value that it does if none is. -/
theorem word_of_mem_words {refuse : Bool} {w : Text} {v : Data} (h : (w, .ok v) ∈ words refuse) :
    (w, .ok v) ∈ words false ∧ v.settled = v := by
  cases refuse <;>
    simp only [words, words.constant, List.mem_cons, Prod.mk.injEq, Except.ok.injEq,
      List.not_mem_nil, or_false, reduceIte, reduceCtorEq, and_false, Bool.false_eq_true] at h ⊢
  · rcases h with ⟨rfl, rfl⟩ | ⟨rfl, rfl⟩ | ⟨rfl, rfl⟩ | ⟨rfl, rfl⟩ | ⟨rfl, rfl⟩ | ⟨rfl, rfl⟩ <;>
      simp [Data.settled]
  · rcases h with ⟨rfl, rfl⟩ | ⟨rfl, rfl⟩ | ⟨rfl, rfl⟩ <;> simp [Data.settled]

theorem tells_scalar (refuse : Bool) : TellsValue (scalar refuse) := by
  intro c v c' h
  unfold scalar at h
  split at h
  · next w v' hw =>
    cases h
    have hmem := List.mem_of_find?_eq_some hw
    have hstart := List.find?_some hw
    obtain ⟨r, hr⟩ := Text.startsWith_iff.1 hstart
    obtain ⟨hword, hsettled⟩ := word_of_mem_words hmem
    exact ⟨w, ⟨[.word w], v⟩, by simp [← hr], spans_of_mem_words hmem, .word hword, hsettled⟩
  · cases h
  · split at h
    · cases h
    · next n hn =>
      split at h
      · cases h
      · next hv =>
        cases h
        obtain ⟨r, hr⟩ := Numeral.prefix_read? hn
        have hwell := Numeral.wellFormed_of_read? hn
        obtain ⟨x, xs, -, htext⟩ := n.exists_digit hwell
        refine ⟨n.text, ⟨[.word n.text], n.data⟩, by simp [← hr, ← n.length_text],
          spans_word (Jsonc.all_isWordChar_text hwell) (by simp [htext]), .numeral hwell, ?_⟩
        exact n.settled_data.trans (Numeral.data_of_value hv)

/-! ## Values and documents -/

theorem tells_value (refuse : Bool) (fuel levels : Nat) : TellsValue (value refuse fuel levels) := by
  have one : ∀ inner : Option (Step Data), (∀ read ∈ inner, TellsValue read) →
      TellsValue (valueWith refuse fuel inner) := by
    intro inner hinner c v c' h
    unfold valueWith at h
    split at h
    · next cs hcs =>
      obtain ⟨⟨t, c₁⟩, hstring, he⟩ := exists_of_map_ok h
      cases he
      obtain ⟨q, hq, hliteral, hends, -⟩ := exists_literal hstring
      exact ⟨q, ⟨_, _⟩, by rw [hcs, hq], hends.spans, .text hliteral, rfl⟩
    · next cs read hcs =>
      rw [hcs]
      exact tells_list (hinner read rfl) h
    · next cs read hcs =>
      rw [hcs]
      exact tells_table (hinner read rfl) h
    · cases h
    · cases h
    · exact tells_scalar refuse h
  induction levels with
  | zero => exact one none (by simp)
  | succ levels ih => exact one _ (by simpa using ih)

/-- The tokens of a text that is read as JSON denote a value, and it settles to the one that is
read. -/
theorem exists_denotes_of_read {refuse : Bool} {s : Text} {v : Data} (h : read refuse s = .ok v) :
    ∃ w, Denotes (tokens s) w ∧ w.settled = v := by
  obtain ⟨c, hvalue, hend⟩ := exists_value_of_read h
  obtain ⟨p, ⟨ts, w⟩, hp, hspans, hdenotes, hsettled⟩ := tells_value _ _ _ hvalue
  obtain ⟨b, hb, hblank⟩ := exists_skip ⟨0, s⟩
  obtain ⟨b', hb', hblank'⟩ := exists_skip c
  have hs : s = b ++ (p ++ b') := by
    rw [hend, List.append_nil] at hb'
    rw [← hb', ← hp]
    exact hb
  refine ⟨w, ?_, hsettled⟩
  rw [hs, ((ends_blank hblank).append_spans (hspans.blank hblank')).tokens_eq]
  exact hdenotes

/-! ## What is written -/

/-- Pieces with a comma and white space between them. -/
theorem spans_intercalate {β : Type} {b : Text} (hb : isBlankLine b) {text : β → Text}
    {written : β → List Token} {xs : List β} (hne : xs ≠ [])
    (h : ∀ x ∈ xs, Spans (text x) (written x)) :
    Spans (List.intercalate (',' :: b) (xs.map text)) (separated (xs.map written)) := by
  induction xs with
  | nil => exact absurd rfl hne
  | cons x xs ih =>
    cases xs with
    | nil => simpa [separated] using h x (by simp)
    | cons y ys =>
      have hcomma := (h x (by simp)).mark (b := []) rfl (c := ',') (by decide)
      have hlater := ih (List.cons_ne_nil _ _) fun z hz => h z (List.mem_cons_of_mem _ hz)
      have hall := (hcomma.append (ends_blank hb)).append_spans hlater
      simpa [separated, List.intercalate_cons_cons] using hall

/-- Pieces between delimiters. -/
theorem spans_enclosed {β : Type} (l : Layout) (depth : Nat) {opening closing : Char}
    (ho : isMark opening) (hc : isMark closing) {text : β → Text} {written : β → List Token}
    {xs : List β} (hne : xs ≠ []) (h : ∀ x ∈ xs, Spans (text x) (written x)) :
    Spans (opening :: (l.lineBreak (depth + 1) ++
        (List.intercalate (l.separator (depth + 1)) (xs.map text) ++
          (l.lineBreak depth ++ [closing]))))
      (.mark opening :: (separated (xs.map written) ++ [.mark closing])) := by
  obtain ⟨b, hsep, hb⟩ := exists_separator l (depth + 1)
  have hbreak : ∀ depth, isBlankLine (l.lineBreak depth) :=
    fun depth => isBlankLine_of_isSpace (all_isSpace_lineBreak l depth)
  have hinside := (spans_intercalate (isBlankLine_of_isSpace hb) hne h).mark (hbreak depth) hc
  have hall := ((ends_mark ho).append ((ends_blank (hbreak (depth + 1))).append hinside)).spans
  rw [hsep]
  simpa using hall

theorem spans_string {s : WideText} (hs : s.Unpaired) :
    Spans (WideText.spelled (string s)) [.string (WideText.spelled (string s))] ∧
      Literal (WideText.spelled (string s)) s := by
  obtain ⟨n, hn⟩ := stringFrom_inside hs 0 1 [] (by simp) []
  obtain ⟨q, hq, hliteral, hends, -⟩ := exists_literal hn
  rw [List.append_nil] at hq
  rw [spelled_string, hq]
  exact ⟨hends.spans, hliteral⟩

/-- The text leads from code to code, and its tokens denote the value. -/
structure IsTextOf (p : Text) (v : Data) : Prop where
  spans : Spans p (tokens p)
  denotes : Denotes (tokens p) v

theorem Denotes.isTextOf {ts : List Token} {v : Data} (h : Denotes ts v) {p : Text}
    (hspans : Spans p ts) : IsTextOf p v := by
  obtain rfl := hspans.tokens_eq
  exact ⟨hspans, h⟩

theorem isTextOf_word {w : Text} {v : Data} (h : (w, .ok v) ∈ words false) : IsTextOf w v :=
  (Denotes.word h).isTextOf (spans_of_mem_words h)

theorem isTextOf_numeral {n : Numeral} {v : Data} (hn : n.WellFormed) (hv : n.value = .ok v) :
    IsTextOf n.text v := by
  obtain ⟨c, cs, -, htext⟩ := n.exists_digit hn
  have hdenotes : Denotes [.word n.text] v := Numeral.data_of_value hv ▸ .numeral hn
  exact hdenotes.isTextOf (spans_word (Jsonc.all_isWordChar_text hn) (by simp [htext]))

/-- A value that is written is the one that its tokens denote. -/
theorem isTextOf_source {levels : Nat} {v : Data} (hv : Data.Readable levels v) (l : Layout)
    (depth : Nat) : IsTextOf (source l depth v) v := by
  induction hv generalizing depth with
  | null => exact isTextOf_word (w := Text.lit "null") (by simp [words])
  | bool b =>
    cases b
    · exact isTextOf_word (w := Text.lit "false") (by simp [words])
    · exact isTextOf_word (w := Text.lit "true") (by simp [words])
  | @int _ n h =>
    rw [source, render, WideText.spelled_ofText, ← Numeral.text_ofInt]
    exact isTextOf_numeral (Numeral.wellFormed_ofInt n) (Numeral.value_ofInt h)
  | @float _ x h =>
    rw [source, render, WideText.spelled_ofText]
    cases x with
    | notANumber => exact isTextOf_word (w := Text.lit "NaN") (by simp [words, words.constant])
    | infinite negative =>
      cases negative
      · exact isTextOf_word (w := Text.lit "Infinity") (by simp [words, words.constant])
      · exact isTextOf_word (w := Text.lit "-Infinity") (by simp [words, words.constant])
    | finite negative m e =>
      obtain ⟨n, hn, htext, hvalue⟩ := Numeral.exists_numeral negative h
      rw [← htext]
      exact isTextOf_numeral hn hvalue
  | text h =>
    obtain ⟨hspans, hliteral⟩ := spans_string h
    exact (Denotes.text hliteral).isTextOf hspans
  | @list _ vs h ih =>
    refine (Denotes.list_of _ fun v hv => (ih v hv (depth + 1)).denotes).isTextOf ?_
    cases vs with
    | nil => exact ((ends_mark (by decide)).spans.mark (b := []) rfl (c := ']') (by decide)).spans
    | cons v vs =>
      rw [source_list]
      exact spans_enclosed l depth (by decide) (by decide) (List.cons_ne_nil v vs)
        fun v hv => (ih v hv (depth + 1)).spans
  | @table _ es hkeys hdistinct h ih =>
    refine (Denotes.table_of (fun k => WideText.spelled (string k))
      (fun v => tokens (source l (depth + 1) v)) (fun e he => (spans_string (hkeys e he)).2)
      fun e he => (ih e he (depth + 1)).denotes).isTextOf ?_
    cases es with
    | nil => exact ((ends_mark (by decide)).spans.mark (b := []) rfl (c := '\x7d') (by decide)).spans
    | cons e es =>
      rw [source_table]
      refine spans_enclosed l depth (by decide) (by decide) (List.cons_ne_nil e es) fun e he => ?_
      have hkey := (spans_string (hkeys e he)).1.mark (b := []) rfl (c := ':') (by decide)
      have hmember := (hkey.append (ends_blank (p := [' ']) rfl)).append_spans (ih e he (depth + 1)).spans
      simpa [memberSource] using hmember

theorem denotes_canonicalText {v : Data} (hv : Data.Readable depthLimit v) :
    Denotes (tokens (WideText.spelled (canonicalText v))) v := by
  obtain ⟨hspans, hdenotes⟩ := isTextOf_source hv .indented 0
  rw [spelled_canonicalText, (hspans.blank (b := ['\n']) rfl).tokens_eq]
  exact hdenotes

end ConfigCare.Json
