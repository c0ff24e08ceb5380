import ConfigCare.Proofs.FormattedAgain

/-! Canonical JSON text handed to the two reindenters. It may hold halves of surrogate pairs, which no
`Text` has. They stand in string literals only, and there a reindenter takes them for any character
that means nothing to it. So an ordinary character stands in for each half, and the canonical text with
these is the canonical text of a value with these. -/

namespace ConfigCare

namespace Jsonc

open Text

/-- A character without a meaning in JSON with comments: it is visible, it is written as it is, and it
neither delimits anything nor belongs to the ends of a literal or a comment. -/
def isOrdinary (c : Char) : Bool :=
  32 ≤ c.toNat && !isBlank c && !isMark c && c ≠ '"' && c ≠ '\\' && c ≠ '/' && c ≠ '*'

/-- Ordinary characters that stand in for the halves of surrogate pairs, by their codes. -/
structure StandIns where
  char : Nat → Char
  ordinary (code : Nat) : isOrdinary (char code) = true

/-- The replacement character, whatever the half. -/
def StandIns.replacement : StandIns := ⟨fun _ => '\uFFFD', fun _ => by decide⟩

theorem ne_of_isOrdinary {c x : Char} (h : isOrdinary c = true) (hx : isOrdinary x = false) :
    x ≠ c := by
  rintro rfl
  rw [hx] at h
  cases h

theorem escapedChar_of_isOrdinary {c : Char} (h : isOrdinary c = true) :
    Json.escapedChar c = [c] := by
  have hlow : 32 ≤ c.toNat := by
    simp only [isOrdinary, Bool.and_eq_true, decide_eq_true_eq] at h
    exact h.1.1.1.1.1.1
  unfold Json.escapedChar
  split
  · exact absurd rfl (ne_of_isOrdinary h (by decide))
  · exact absurd rfl (ne_of_isOrdinary h (by decide))
  · exact absurd rfl (ne_of_isOrdinary h (by decide))
  · exact absurd rfl (ne_of_isOrdinary h (by decide))
  · exact absurd rfl (ne_of_isOrdinary h (by decide))
  · rw [if_neg (by omega), if_neg (by omega), if_neg (by omega)]

end Jsonc

open Jsonc (StandIns)

/-! ## Stand-ins -/

def Glyph.filled (f : StandIns) : Glyph → Char
  | .char c => c
  | .half code => f.char code

namespace WideText

def filled (f : StandIns) (s : WideText) : Text := s.map (Glyph.filled f)

theorem spells_filled (f : StandIns) : Spells (filled f) where
  ofText s := by
    rw [filled, ofText, List.map_map]
    exact List.map_id s
  append _ _ := List.map_append

@[simp] theorem filled_ofText (f : StandIns) (s : Text) : filled f (ofText s) = s :=
  (spells_filled f).ofText s

@[simp] theorem filled_append (f : StandIns) (s t : WideText) :
    filled f (s ++ t) = filled f s ++ filled f t :=
  (spells_filled f).append s t

end WideText

namespace Data

open WideText (ofText)

mutual

/-- A value with stand-ins in its strings and keys. -/
def filled (f : StandIns) : Data → Data
  | .null => .null
  | .bool b => .bool b
  | .int n => .int n
  | .float x => .float x
  | .text s => .text (ofText (s.filled f))
  | .moment m => .moment m
  | .list vs => .list (filledItems f vs)
  | .table es => .table (filledMembers f es)

def filledItems (f : StandIns) : List Data → List Data
  | [] => []
  | v :: vs => filled f v :: filledItems f vs

def filledMembers (f : StandIns) : List (WideText × Data) → List (WideText × Data)
  | [] => []
  | (k, v) :: es => (ofText (k.filled f), filled f v) :: filledMembers f es

end

theorem filledItems_eq (f : StandIns) (vs : List Data) : filledItems f vs = vs.map (filled f) := by
  induction vs with
  | nil => rfl
  | cons v vs ih => rw [filledItems, ih, List.map_cons]

theorem filledMembers_eq (f : StandIns) (es : Entries) :
    filledMembers f es = es.map fun e => (ofText (e.1.filled f), filled f e.2) := by
  induction es with
  | nil => rfl
  | cons e es ih => rw [filledMembers, ih, List.map_cons]

theorem Printable.filled {v : Data} (hv : v.Printable) (f : StandIns) : (v.filled f).Printable := by
  induction hv with
  | null => exact .null
  | bool b => exact .bool b
  | int n => exact .int n
  | float h => exact .float h
  | text s => exact .text _
  | list _ ih =>
    rw [Data.filled, filledItems_eq]
    exact .list (List.forall_mem_map.2 ih)
  | table _ ih =>
    rw [Data.filled, filledMembers_eq]
    exact .table (List.forall_mem_map.2 ih)

theorem isBlock_filled (f : StandIns) (v : Data) : (v.filled f).isBlock = v.isBlock := by
  cases v with
  | list vs => cases vs <;> rfl
  | table es => cases es <;> rfl
  | _ => rfl

end Data

namespace Json

open WideText (spelled ofText filled)
open Jsonc (escapedChar_of_isOrdinary)

theorem inside_ofText_filled (f : StandIns) (s : WideText) :
    inside (ofText (s.filled f)) = filled f (s.flatMap escapedGlyph) := by
  induction s with
  | nil => rfl
  | cons g s ih =>
    have hglyph : escapedChar (g.filled f) = filled f (escapedGlyph g) := by
      cases g with
      | char c => rw [escapedGlyph, WideText.filled_ofText]; rfl
      | half code => exact escapedChar_of_isOrdinary (f.ordinary code)
    have hcons : ofText (filled f (g :: s)) = .char (g.filled f) :: ofText (filled f s) := rfl
    rw [hcons, inside_cons, escapedGlyph, WideText.spelled_ofText, ih, hglyph, List.flatMap_cons,
      WideText.filled_append]

theorem string_filled (f : StandIns) (s : WideText) :
    spelled (string (ofText (s.filled f))) = filled f (string s) := by
  have hstring : filled f (string s) = '"' :: (filled f (s.flatMap escapedGlyph) ++ ['"']) :=
    congrArg ('"' :: ·) (WideText.filled_append f _ [quote])
  rw [spelled_string, inside_ofText_filled, hstring]

/-- A value with stand-ins is written as the value is, with stand-ins. -/
theorem source_filled {v : Data} (hv : v.Printable) (f : StandIns) (l : Layout) (depth : Nat) :
    source l depth (v.filled f) = filled f (render l depth v) := by
  induction hv generalizing depth with
  | null => rw [render, WideText.filled_ofText]; rfl
  | bool b => cases b <;> rw [render, WideText.filled_ofText] <;> rfl
  | int n => rw [render, WideText.filled_ofText, Data.filled, source, render, WideText.spelled_ofText]
  | float h => rw [render, WideText.filled_ofText, Data.filled, source, render, WideText.spelled_ofText]
  | text s => rw [Data.filled, source, render, render, string_filled]
  | @list vs _ ih =>
    have hitems : (vs.map (Data.filled f)).map (source l (depth + 1)) =
        (renderItems l (depth + 1) vs).map (filled f) := by
      rw [renderItems_eq, List.map_map, List.map_map]
      exact List.map_congr_left fun v hv => ih v hv _
    cases vs with
    | nil => rfl
    | cons v vs =>
      rw [Data.filled, Data.filledItems_eq, List.map_cons, source_list, render,
        spelled_enclosed (WideText.spells_filled f), ← hitems]
      rfl
  | @table es _ ih =>
    have hmembers : (es.map fun e => (ofText (e.1.filled f), Data.filled f e.2)).map
        (memberSource l (depth + 1)) = (renderMembers l (depth + 1) es).map (filled f) := by
      rw [renderMembers_eq, List.map_map, List.map_map]
      refine List.map_congr_left fun e he => ?_
      simp only [Function.comp, memberSource, string_filled, ih e he, WideText.filled_append,
        WideText.filled_ofText, List.append_assoc]
      rfl
    cases es with
    | nil => rfl
    | cons e es =>
      rw [Data.filled, Data.filledMembers_eq, List.map_cons, source_table, render,
        spelled_enclosed (WideText.spells_filled f), ← hmembers]
      rfl

theorem filled_canonicalText {v : Data} (hv : v.Printable) (f : StandIns) :
    filled f (canonicalText v) = source .indented 0 (v.filled f) ++ ['\n'] := by
  rw [canonicalText, write, WideText.filled_append, source_filled hv]
  rfl

end Json

namespace Jsonc

open Text
open WideText (ofText spelled)
open Json (canonical canonicalText)

/-! ## Brackets in keys -/

theorem not_mem_escape {x : Char} (h : isMark x = true ∨ x = '\n') (code : Nat) :
    x ∉ '\\' :: 'u' :: hexDigits 4 code := by
  have hx : x ≠ '\\' ∧ x ≠ 'u' ∧ isHexDigit x = false := by
    simp only [isMark, isOpener, isCloser, Bool.or_eq_true, decide_eq_true_eq] at h
    rcases h with ((((rfl | rfl) | rfl | rfl) | rfl) | rfl) | rfl <;> decide
  rw [List.mem_cons, List.mem_cons, not_or, not_or]
  refine ⟨hx.1, hx.2.1, fun hmem => ?_⟩
  rw [List.all_eq_true.1 (all_isHexDigit_hexDigits 4 code) x hmem] at hx
  exact absurd hx.2.2 (by decide)

theorem not_mem_standIn {x : Char} (h : isMark x = true ∨ x = '\n') (f : StandIns) (code : Nat) :
    x ∉ [f.char code] := by
  have hx : isOrdinary x = false := by
    rcases h with h | rfl
    · simp [isOrdinary, h]
    · decide
  exact fun hmem => ne_of_isOrdinary (f.ordinary code) hx (List.mem_singleton.1 hmem)

theorem holdsPair_inside_filled {opening closing : Char} (ho : isMark opening = true)
    (hc : isMark closing = true) (f : StandIns) (k : WideText) (seen : Bool) (rest : Text) :
    holdsPair opening closing seen (Json.inside (ofText (k.filled f)) ++ rest) =
      holdsPair opening closing seen (Json.inside k ++ rest) := by
  induction k generalizing seen with
  | nil => rfl
  | cons g k ih =>
    have hcons : ofText (WideText.filled f (g :: k)) =
        .char (g.filled f) :: ofText (WideText.filled f k) := rfl
    rw [hcons, Json.inside_cons, Json.inside_cons, List.append_assoc, List.append_assoc]
    cases g with
    | char c => exact holdsPair_append_congr ih _ seen
    | half code =>
      -- neither half a pair's escape nor its stand-in holds a bracket
      have hstandIn : spelled (Json.escapedGlyph (.char (f.char code))) = [f.char code] := by
        rw [Json.escapedGlyph, WideText.spelled_ofText, escapedChar_of_isOrdinary (f.ordinary code)]
      have hescape : spelled (Json.escapedGlyph (.half code)) =
          '\\' :: 'u' :: hexDigits 4 code := by
        rw [Json.escapedGlyph, WideText.spelled_cons, WideText.spelled_nil, List.append_nil,
          Glyph.spelled]
      rw [Glyph.filled, hstandIn, hescape,
        holdsPair_skip (not_mem_standIn (.inl ho) f code) (not_mem_standIn (.inl hc) f code)
          (not_mem_standIn (.inr rfl) f code),
        holdsPair_skip (not_mem_escape (.inl ho) code) (not_mem_escape (.inl hc) code)
          (not_mem_escape (.inr rfl) code)]
      exact ih seen

theorem holdsBrackets_filled (f : StandIns) (k : WideText) :
    holdsBrackets (ofText (k.filled f)) = holdsBrackets k := by
  have hpair : ∀ opening closing : Char, isMark opening = true → isMark closing = true →
      holdsPair opening closing false (spelled (Json.string (ofText (k.filled f)))) =
        holdsPair opening closing false (spelled (Json.string k)) := by
    intro opening closing ho hc
    rw [Json.spelled_string, Json.spelled_string]
    exact holdsPair_append_congr (holdsPair_inside_filled ho hc f k · ['"']) ['"'] false
  rw [holdsBrackets, holdsBrackets, hpair _ _ (by decide) (by decide),
    hpair _ _ (by decide) (by decide)]

end Jsonc

theorem Data.Printable.hidesBlock_filled {v : Data} (hv : v.Printable) (f : StandIns) :
    (v.filled f).hidesBlock = v.hidesBlock := by
  induction hv with
  | list _ ih =>
    rw [Data.filled, Data.filledItems_eq, Data.hidesBlock, Data.hidesBlock, Data.hidesBlockInItems_eq,
      Data.hidesBlockInItems_eq, List.any_map, Bool.eq_iff_iff, List.any_eq_true, List.any_eq_true]
    exact exists_congr fun v => and_congr_right fun hv => by rw [Function.comp, ih v hv]
  | table _ ih =>
    rw [Data.filled, Data.filledMembers_eq, Data.hidesBlock, Data.hidesBlock,
      Data.hidesBlockInMembers_eq, Data.hidesBlockInMembers_eq, List.any_map, Bool.eq_iff_iff,
      List.any_eq_true, List.any_eq_true]
    refine exists_congr fun e => and_congr_right fun he => ?_
    rw [Function.comp, ih e he, Data.isBlock_filled, Jsonc.holdsBrackets_filled]
  | _ => rfl

namespace Jsonc

open Text (lit)
open WideText (ofText)
open Json (canonical canonicalText)

/-! ## Canonical texts -/

/-- Indenting by delimiters keeps every canonical text. -/
theorem reindentNested_canonical {s : Text} {u : WideText} (h : canonical s = .ok u) (f : StandIns) :
    reindentNested (u.filled f) = u.filled f := by
  obtain ⟨v, hv, rfl⟩ := Json.exists_of_map_ok h
  have hprintable := (Json.readable_read hv).printable
  rw [Json.filled_canonicalText hprintable]
  exact reindentNested_source (hprintable.filled f)

/-- Brackets, slashes, quotes and backslashes in strings, half a surrogate pair, and empty blocks. -/
theorem reindentNested_canonical_of_delimiters :
    let s := lit "\x7b\"\\ud83d\x7b[\": [\"// ]\", \x7b\"/*\\\"\\\\\": \x7b\x7d\x7d, [], 1]\x7d"
    let u := ofText (lit "\x7b\n  \"") ++ .half 0xd83d :: ofText (lit
      "\x7b[\": [\n    \"// ]\",\n    \x7b\n      \"/*\\\"\\\\\": \x7b\x7d\n    \x7d,\n    [],\n    1\n  ]\n\x7d\n")
    canonical s = .ok u ∧ reindentNested (u.filled .replacement) = u.filled .replacement := by
  intro s u
  have hcanonical : canonical s = .ok u := by decide +kernel
  exact ⟨hcanonical, reindentNested_canonical hcanonical .replacement⟩

/-- Indenting line by line keeps a canonical text if and only if no block in it stands behind a key
that holds a pair of brackets. -/
theorem reindent_canonical_iff {s : Text} {v : Data} (h : Json.read true s = .ok v) (f : StandIns) :
    canonical s = .ok (canonicalText v) ∧
      (reindent ((canonicalText v).filled f) = (canonicalText v).filled f ↔ v.hidesBlock = false) := by
  refine ⟨by rw [canonical, h]; rfl, ?_⟩
  have hprintable := (Json.readable_read h).printable
  rw [Json.filled_canonicalText hprintable, reindent_source_iff (hprintable.filled f),
    hprintable.hidesBlock_filled]

/-- Brackets in the key of a number and half a pair of them in the key of a block. -/
theorem reindent_canonical_of_brackets :
    ∃ v, Json.read true (lit "\x7b\"[x]\": 1, \"\\udc00]\": \x7b\"a\": []\x7d\x7d") = .ok v ∧
      v.hidesBlock = false ∧
      reindent ((canonicalText v).filled .replacement) = (canonicalText v).filled .replacement := by
  obtain ⟨v, hv, hsees⟩ := Json.exists_of_map_ok (show (Json.read true
    (lit "\x7b\"[x]\": 1, \"\\udc00]\": \x7b\"a\": []\x7d\x7d")).map Data.hidesBlock = .ok false by
      decide +kernel)
  exact ⟨v, hv, hsees, (reindent_canonical_iff hv .replacement).2.2 hsees⟩

/-- The block behind the key `[x]` is indented by a level less. -/
theorem reindent_canonical_ne :
    let t := lit "\x7b\n  \"[x]\": \x7b\n    \"a\": 1\n  \x7d\n\x7d\n"
    canonical (lit "\x7b\"[x]\": \x7b\"a\": 1\x7d\x7d") = .ok (ofText t) ∧ reindent t ≠ t ∧
      reindent t = lit "\x7b\n  \"[x]\": \x7b\n  \"a\": 1\n\x7d\n\x7d\n" := by
  refine ⟨?_, ?_, ?_⟩ <;> decide +kernel

end Jsonc

end ConfigCare
