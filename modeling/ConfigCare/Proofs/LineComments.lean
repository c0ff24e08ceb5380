import ConfigCare.Proofs.InlineComments

/-! Indenting line by line keeps the tokens of a text that has no block comment. As long as none
is open, the search for the `//` of a line stands in code and in literals just as the lexer does. -/

namespace ConfigCare.Jsonc

open Text

/-! ## The search for a comment -/

/-- The lexer stands where the search for a comment does. -/
inductive InPlace : Place → Lexer → Prop where
  | code (w : Text) : InPlace .code (.code w)
  | string (s : Text) : InPlace .string (.string s)
  | escaped (s : Text) : InPlace .escaped (.escape s)

theorem InPlace.step {place : Place} {m : Lexer} (hm : InPlace place m) {c : Char}
    (hc : place = .code → c ≠ '/') : InPlace (place.next c) (m.step c).2 := by
  cases hm with
  | code w =>
    by_cases hq : c = '"'
    · subst hq; exact .string _
    · obtain ⟨ts, w', hstep, -⟩ := Lexer.stepCode_plain w hq (hc rfl)
      rw [Place.next, if_neg hq, Lexer.step, hstep]
      exact .code w'
  | string s =>
    by_cases hq : c = '"'
    · subst hq; exact .code []
    · by_cases hb : c = '\\'
      · subst hb; exact .escaped _
      · simp only [Place.next, if_neg hq, if_neg hb, Lexer.step]
        exact .string _
  | escaped s => exact .string _

/-- The lexer is in code behind a text, or a block comment has been open in it. -/
def CodeOrBlock (m : Lexer) (a : Text) : Prop :=
  (∃ w, (m.read a).2 = .code w) ∨ ∃ b c, a = b ++ c ∧ (m.read b).2.inBlock

theorem CodeOrBlock.cons {m : Lexer} {c : Char} {a : Text} (h : CodeOrBlock (m.step c).2 a) :
    CodeOrBlock m (c :: a) := by
  rcases h with h | ⟨b, d, rfl, hin⟩
  · exact .inl h
  · exact .inr ⟨c :: b, d, rfl, hin⟩

/-- A slash that opens no comment belongs to a word. -/
theorem CodeOrBlock.slash {w a : Text} {c : Char} (hs : c ≠ '/') (hb : c ≠ '*')
    (h : CodeOrBlock (.code (w ++ ['/'])) (c :: a)) : CodeOrBlock (.slash w) (c :: a) := by
  rcases h with ⟨w', hw⟩ | ⟨b, d, hbd, hin⟩
  · exact .inl ⟨w', by rw [Lexer.read_slash_cons w hs hb, hw]⟩
  · cases b with
    | nil => cases hin
    | cons e b =>
      obtain ⟨rfl, rfl⟩ := List.cons.inj hbd
      exact .inr ⟨c :: b, d, rfl, by rw [Lexer.read_slash_cons w hs hb, hin]⟩

/-- The search goes wrong behind a block comment only. -/
theorem commentFrom_codeOrBlock {place : Place} {m : Lexer} (hm : InPlace place m) {offset n : Nat}
    {l : Text} (h : commentFrom place offset l = some n) :
    ∃ a r, l = a ++ '/' :: '/' :: r ∧ n = offset + a.length ∧ CodeOrBlock m a := by
  induction l generalizing place m offset with
  | nil => cases h
  | cons c cs ih =>
    rw [commentFrom] at h
    split at h
    · next hstop =>
      cases h
      rw [Bool.and_eq_true, decide_eq_true_eq] at hstop
      obtain ⟨r, hr⟩ := startsWith_lineComment hstop.2
      obtain ⟨rfl, -⟩ := hstop
      obtain ⟨w⟩ := hm
      exact ⟨[], r, hr, rfl, .inl ⟨w, rfl⟩⟩
    · next hgo =>
      have goes_on : ∀ {m' : Lexer}, InPlace (place.next c) m' →
          (∀ a r, cs = a ++ '/' :: '/' :: r → CodeOrBlock m' a → CodeOrBlock m (c :: a)) →
          ∃ a r, c :: cs = a ++ '/' :: '/' :: r ∧ n = offset + a.length ∧ CodeOrBlock m a := by
        intro m' hm' hcons
        obtain ⟨a, r, hcs, rfl, ha⟩ := ih hm' h
        exact ⟨c :: a, r, by rw [hcs]; rfl, by simp only [List.length_cons]; omega,
          hcons a r hcs ha⟩
      by_cases hslash : place = .code ∧ c = '/'
      · obtain ⟨rfl, rfl⟩ := hslash
        obtain ⟨w⟩ := hm
        refine goes_on (.code (w ++ ['/'])) fun a r hcs ha => .cons ?_
        cases a with
        | nil => exact absurd rfl (hcs ▸ hgo)
        | cons d a =>
          rw [List.cons_append] at hcs
          have hs : d ≠ '/' := by
            rintro rfl
            exact absurd rfl (hcs ▸ hgo)
          by_cases hb : d = '*'
          · exact .inr ⟨['*'], a, by rw [hb]; rfl, rfl⟩
          · exact ha.slash hs hb
      · exact goes_on (hm.step fun hcode hc => hslash ⟨hcode, hc⟩) fun _ _ _ ha => ha.cons

/-! ## Tokens of block comments -/

def Token.isBlock : Token → Bool
  | .comment s => startsWith blockComment s
  | _ => false

def hasBlock (s : Text) : Bool := (tokens s).any Token.isBlock

namespace Lexer

/-- A block comment has been read from its first characters on. -/
def Opened : Lexer → Prop
  | .block s | .star s => ∃ r, s = '/' :: '*' :: r
  | _ => True

theorem opened_stepCode (w : Text) (c : Char) : (stepCode w c).2.Opened := by
  rw [stepCode]
  split_ifs <;> trivial

theorem Opened.step {m : Lexer} (h : m.Opened) (c : Char) : (m.step c).2.Opened := by
  cases m with
  | code w => exact opened_stepCode w c
  | slash w =>
    simp only [Lexer.step]
    split
    · trivial
    · split
      · exact ⟨[], rfl⟩
      · exact opened_stepCode _ c
  | string s =>
    simp only [Lexer.step]
    split_ifs <;> trivial
  | escape s => trivial
  | line s =>
    simp only [Lexer.step]
    split_ifs <;> trivial
  | block s =>
    obtain ⟨r, rfl⟩ := h
    simp only [Lexer.step]
    split_ifs <;> exact ⟨r ++ [c], rfl⟩
  | star s =>
    obtain ⟨r, rfl⟩ := h
    simp only [Lexer.step]
    split_ifs <;> first | trivial | exact ⟨r ++ [c], rfl⟩

theorem Opened.read {m : Lexer} (h : m.Opened) (s : Text) : (m.read s).2.Opened := by
  induction s generalizing m with
  | nil => exact h
  | cons c cs ih => exact ih (h.step c)

/-- What is open in a block comment becomes a token. -/
theorem Opened.inBlock_eq_false {m : Lexer} (hm : m.Opened) {a b : Text}
    (h : (m.tokens (a ++ b)).any Token.isBlock = false) : (m.read a).2.inBlock = false := by
  have hopened := hm.read a
  rw [tokens_append, List.any_append, Bool.or_eq_false_iff] at h
  have no_block : ∀ kind : Text → Lexer, kind = .block ∨ kind = .star →
      ∀ r, (m.read a).2 ≠ kind ('/' :: '*' :: r) := by
    intro kind hk r hkind
    obtain ⟨y, ts, htokens⟩ := tokens_comment hk ('/' :: '*' :: r) b
    rw [hkind, htokens] at h
    cases h.2
  cases hstate : (m.read a).2 with
  | block s =>
    rw [hstate] at hopened
    obtain ⟨r, rfl⟩ := hopened
    exact absurd hstate (no_block .block (.inl rfl) r)
  | star s =>
    rw [hstate] at hopened
    obtain ⟨r, rfl⟩ := hopened
    exact absurd hstate (no_block .star (.inr rfl) r)
  | _ => rfl

end Lexer

/-! ## Lines -/

theorem keeps_of_no_block {l x : Text}
    (h : ((Lexer.code []).tokens (l ++ x)).any Token.isBlock = false) :
    KeepsEnd (.code []) l ∧ KeepsLiteral (.code []) l := by
  have hcode : ∀ n ∈ splitPoint l, ∃ w, ((Lexer.code []).read ((trim l).take n)).2 = .code w := by
    intro n hn
    unfold splitPoint at hn
    split at hn
    · cases hn
    · obtain ⟨a, r, hl, hlen, ha⟩ := commentFrom_codeOrBlock (.code []) hn
      rw [Nat.zero_add] at hlen
      rw [hl, hlen, List.take_left]
      rcases ha with hw | ⟨b, c, rfl, hin⟩
      · exact hw
      · obtain ⟨before, behind, hbefore, -, e⟩ := exists_margins l
        rw [e, hl, List.append_assoc, Lexer.tokens_append,
          Lexer.read_code_blank hbefore [] fun _ => rfl, List.append_assoc, List.append_assoc,
          List.append_assoc] at h
        have hout := Lexer.Opened.inBlock_eq_false (m := .code []) trivial (a := b) h
        rw [hin] at hout
        cases hout
  constructor
  · intro n hn
    obtain ⟨w, hw⟩ := hcode n hn
    rw [hw]; rfl
  · intro n hn hstring
    obtain ⟨w, hw⟩ := hcode n hn
    rw [hw] at hstring
    cases hstring

theorem eachLine_of_no_block {ls : List Text} (hls : ∀ l ∈ ls, '\n' ∉ l) {m : Lexer}
    (hm : m.AtLineStart) (hopened : m.Opened) {rest : Text} (hc : m.closes (terminated ls ++ rest))
    (h : (m.tokens (terminated ls)).any Token.isBlock = false) :
    EachLine (fun m l => KeepsEnd m l ∧ KeepsLiteral m l) m ls := by
  induction ls generalizing m with
  | nil => trivial
  | cons l ls ih =>
    have hout := hopened.inBlock_eq_false (a := []) h
    rcases hm with rfl | ⟨s, rfl⟩
    · obtain ⟨-, hstart, hrest⟩ := Lexer.closes_first (hls l (by simp)) hc
      refine ⟨keeps_of_no_block (by rwa [terminated_cons] at h), ?_⟩
      rw [terminated_line, Lexer.tokens_append, List.any_append, Bool.or_eq_false_iff] at h
      exact ih (fun l' hl' => hls l' (by simp [hl'])) hstart (hopened.read _) hrest h.2
    · cases hout

/-- A text without block comments keeps its tokens. -/
theorem tokens_reindent_of_no_block {s : Text} (h : Closed s) (hb : hasBlock s = false) :
    View.tokens ⟨visible, id⟩ (tokens (reindent s)) = View.tokens ⟨visible, id⟩ (tokens s) := by
  obtain ⟨-, hend, htokens⟩ := Lexer.closes_concat h
  have hlines : (Lexer.code []).tokens (terminated (splitOn '\n' s)) = tokens s := by
    rw [terminated_splitOn, tokens, htokens, Lexer.tokens, hend]
    simp [Lexer.finish, wordToken]
  have hkeeps := eachLine_of_no_block not_mem_of_mem_splitOn (.inl rfl) trivial
    (by rw [List.append_nil]; exact closes_lines h) (by rw [hlines]; exact hb)
  exact tokens_reindent And.left (fun hp => .inl hp.2) h hkeeps

end ConfigCare.Jsonc
