import ConfigCare.Proofs.WrittenNumbers
import ConfigCare.Proofs.WrittenStrings

/-! A value as it is written, on one line or indented, is read back as the same value:
`value_source`. Numbers that are not finite are written as words, and the first of these is what
reading fails with if such words are refused. -/

namespace ConfigCare

namespace Data

/-- A value that a JSON text of at most so many levels can denote. -/
inductive Readable : Nat → Data → Prop where
  | null {levels : Nat} : Readable levels .null
  | bool {levels : Nat} (b : Bool) : Readable levels (.bool b)
  | int {levels : Nat} {n : Int} (h : n.natAbs < 10 ^ Json.digitLimit) : Readable levels (.int n)
  | float {levels : Nat} {x : Binary64} (h : x.IsCanonical) : Readable levels (.float x)
  | text {levels : Nat} {s : WideText} (h : s.Unpaired) : Readable levels (.text s)
  | list {levels : Nat} {vs : List Data} (h : ∀ v ∈ vs, Readable levels v) :
    Readable (levels + 1) (.list vs)
  | table {levels : Nat} {es : Entries} (hkeys : ∀ e ∈ es, e.1.Unpaired)
    (hdistinct : (es.map Prod.fst).Nodup) (h : ∀ e ∈ es, Readable levels e.2) :
    Readable (levels + 1) (.table es)

mutual

/-- The words for the numbers in a value that are not finite, in order. -/
def constants : Data → List Text
  | .null => []
  | .bool _ => []
  | .int _ => []
  | .float x => if x.isFinite then [] else [x.text]
  | .text _ => []
  | .moment _ => []
  | .list vs => constantsOfItems vs
  | .table es => constantsOfMembers es

def constantsOfItems : List Data → List Text
  | [] => []
  | v :: vs => constants v ++ constantsOfItems vs

def constantsOfMembers : List (WideText × Data) → List Text
  | [] => []
  | (_, v) :: es => constants v ++ constantsOfMembers es

end

theorem setKey_eq_append {α β : Type} [DecidableEq α] {key : α} (value : β) {es : List (α × β)}
    (h : key ∉ es.map Prod.fst) : setKey key value es = es ++ [(key, value)] := by
  induction es with
  | nil => rfl
  | cons e es ih =>
    rw [List.map_cons, List.mem_cons, not_or] at h
    rw [setKey, if_neg (Ne.symm h.1), ih h.2]
    rfl

/-- Members with keys of their own are the entries of their table. -/
theorem ofMembers_eq_self {α β : Type} [DecidableEq α] {es : List (α × β)}
    (h : (es.map Prod.fst).Nodup) : ofMembers es = es := by
  have hfold : ∀ ms done : List (α × β), ((done ++ ms).map Prod.fst).Nodup →
      ms.foldl (fun entries m => setKey m.1 m.2 entries) done = done ++ ms := by
    intro ms
    induction ms with
    | nil => simp
    | cons m ms ih =>
      intro done h
      have hfresh : m.1 ∉ done.map Prod.fst := by
        rw [List.map_append, List.nodup_append] at h
        exact fun hm => h.2.2 m.1 hm m.1 (by simp) rfl
      rw [List.foldl_cons, setKey_eq_append _ hfresh, ih _ (by simpa using h)]
      simp
  exact hfold es [] h

end Data

namespace WideText

/-- A way to write wide texts that goes from left to right and keeps characters. -/
structure Spells (f : WideText → Text) : Prop where
  ofText (s : Text) : f (ofText s) = s
  append (s t : WideText) : f (s ++ t) = f s ++ f t

theorem spells_spelled : Spells spelled := ⟨spelled_ofText, spelled_append⟩

theorem Spells.intercalate {f : WideText → Text} (h : Spells f) (sep : Text) (ts : List WideText) :
    f (List.intercalate (WideText.ofText sep) ts) = List.intercalate sep (ts.map f) := by
  induction ts with
  | nil => exact h.ofText []
  | cons t ts ih =>
    cases ts with
    | nil => simp
    | cons t' ts =>
      rw [List.intercalate_cons_cons, h.append, h.append, ih, h.ofText, List.map_cons, List.map_cons,
        List.map_cons, List.intercalate_cons_cons]

end WideText

namespace Json

open WideText (spelled ofText)
open Data (Readable constantsOfItems constantsOfMembers)

/-! ## What reading comes to -/

/-- What a step comes to that has passed over these words: the first of them if they are refused,
else what has been read. -/
def outcome {α : Type} (refuse : Bool) (names : List Text) (r : α × Cursor) :
    Except Failure (α × Cursor) :=
  match refuse, names with
  | true, name :: _ => .error (.constant name)
  | _, _ => .ok r

section

variable {α β : Type} {refuse : Bool} {names : List Text}

@[simp] theorem outcome_nil (r : α × Cursor) : outcome refuse [] r = .ok r := by
  cases refuse <;> rfl

theorem refused_or (refuse : Bool) (names : List Text) :
    (refuse = true ∧ ∃ a b, names = a :: b) ∨ (refuse = false ∨ names = []) := by
  cases refuse
  · exact .inr (.inl rfl)
  · cases names
    · exact .inr (.inr rfl)
    · exact .inl ⟨rfl, _, _, rfl⟩

theorem outcome_append (h : refuse = false ∨ names = []) (more : List Text) (r : α × Cursor) :
    outcome refuse (names ++ more) r = outcome refuse more r := by
  rcases h with rfl | rfl
  · cases names ++ more <;> cases more <;> rfl
  · rfl

theorem outcome_ok (h : refuse = false ∨ names = []) (r : α × Cursor) :
    outcome refuse names r = .ok r := by
  simpa using outcome_append h [] r

theorem map_outcome (f : α × Cursor → β × Cursor) (r : α × Cursor) :
    (outcome refuse names r).map f = outcome refuse names (f r) := by
  cases refuse <;> cases names <;> rfl

end

/-! ## White space -/

theorem skip_append {w s : Text} (hw : w.all isSpace = true) (hs : ∀ c ∈ s.head?, isSpace c = false)
    (offset : Nat) : ∃ n, skip ⟨offset, w ++ s⟩ = ⟨n, s⟩ := by
  have hrest : (skip ⟨offset, w ++ s⟩).rest = s := by
    rw [skip, Cursor.skipWhile, Cursor.skipFrom_rest,
      List.dropWhile_append_of_pos (List.all_eq_true.1 hw)]
    cases s with
    | nil => rfl
    | cons c cs => simp [hs c rfl]
  generalize skip ⟨offset, w ++ s⟩ = c at hrest ⊢
  obtain ⟨n, r⟩ := c
  exact ⟨n, congrArg _ hrest⟩

theorem all_isSpace_lineBreak (l : Layout) (depth : Nat) :
    (l.lineBreak depth).all isSpace = true := by
  cases l with
  | compact => rfl
  | indented =>
    refine List.all_eq_true.2 fun c hc => ?_
    rcases List.mem_cons.1 hc with rfl | hc
    · rfl
    · rw [List.eq_of_mem_replicate hc]; rfl

/-- A separator is a comma and white space. -/
theorem exists_separator (l : Layout) (depth : Nat) :
    ∃ w, l.separator depth = ',' :: w ∧ w.all isSpace = true := by
  cases l with
  | compact => exact ⟨[' '], rfl, rfl⟩
  | indented => exact ⟨_, rfl, all_isSpace_lineBreak .indented depth⟩

theorem stops_space_append {w s : Text} (hw : w.all isSpace = true) (hs : Stops s) :
    Stops (w ++ s) := by
  cases w with
  | nil => exact hs
  | cons x xs =>
    intro c hc
    obtain rfl : x = c := by simpa using hc
    have hx : isSpace x = true := (Bool.and_eq_true_iff.1 (List.all_cons ▸ hw)).1
    simp only [isSpace, Bool.or_eq_true, decide_eq_true_eq] at hx
    rcases hx with ((rfl | rfl) | rfl) | rfl <;> decide

theorem stops_cons {c : Char} (h : Text.isAsciiDigit c = false ∧ c ≠ '.' ∧ c ≠ 'e' ∧ c ≠ 'E')
    (cs : Text) : Stops (c :: cs) := by
  rintro _ ⟨⟩
  exact h

/-! ## Sources -/

/-- A value as it is written at a depth. -/
def source (l : Layout) (depth : Nat) (v : Data) : Text := spelled (render l depth v)

def memberSource (l : Layout) (depth : Nat) (e : WideText × Data) : Text :=
  spelled (string e.1) ++ ':' :: ' ' :: source l depth e.2

theorem renderItems_eq (l : Layout) (depth : Nat) (vs : List Data) :
    renderItems l depth vs = vs.map (render l depth) := by
  induction vs with
  | nil => rfl
  | cons v vs ih => rw [renderItems, List.map_cons, ih]

theorem renderMembers_eq (l : Layout) (depth : Nat) (es : List (WideText × Data)) :
    renderMembers l depth es =
      es.map fun e => string e.1 ++ ofText [':', ' '] ++ render l depth e.2 := by
  induction es with
  | nil => rfl
  | cons e es ih => rw [renderMembers, List.map_cons, ih]

theorem spelled_member (l : Layout) (depth : Nat) (e : WideText × Data) :
    spelled (string e.1 ++ ofText [':', ' '] ++ render l depth e.2) = memberSource l depth e := by
  rw [memberSource, WideText.spelled_append, WideText.spelled_append, WideText.spelled_ofText,
    List.append_assoc]
  rfl

theorem spelled_enclosed {f : WideText → Text} (h : WideText.Spells f) (l : Layout) (depth : Nat)
    (opening closing : Char) (ts : List WideText) :
    f (enclosed l (depth + 1) opening closing ts) =
      opening :: (l.lineBreak (depth + 1) ++
        (List.intercalate (l.separator (depth + 1)) (ts.map f) ++
          (l.lineBreak depth ++ [closing]))) := by
  rw [enclosed, h.append, h.append, h.ofText, h.ofText, h.intercalate, List.append_assoc]
  rfl

theorem source_list (l : Layout) (depth : Nat) (v : Data) (vs : List Data) :
    source l depth (.list (v :: vs)) =
      '[' :: (l.lineBreak (depth + 1) ++
        (List.intercalate (l.separator (depth + 1)) ((v :: vs).map (source l (depth + 1))) ++
          (l.lineBreak depth ++ [']']))) := by
  rw [source, render, spelled_enclosed WideText.spells_spelled, renderItems_eq, List.map_map]
  rfl

theorem source_table (l : Layout) (depth : Nat) (e : WideText × Data) (es : Entries) :
    source l depth (.table (e :: es)) =
      '\x7b' :: (l.lineBreak (depth + 1) ++
        (List.intercalate (l.separator (depth + 1)) ((e :: es).map (memberSource l (depth + 1))) ++
          (l.lineBreak depth ++ ['\x7d']))) := by
  rw [source, render, spelled_enclosed WideText.spells_spelled, renderMembers_eq, List.map_map,
    show spelled ∘ _ = memberSource l (depth + 1) from funext (spelled_member l (depth + 1))]

/-- There are no more pieces than characters in all. -/
theorem length_le_intercalate (sep : Text) {ts : List Text} (hne : ∀ t ∈ ts, t ≠ []) :
    ts.length ≤ (List.intercalate sep ts).length := by
  induction ts with
  | nil => exact Nat.zero_le _
  | cons t ts ih =>
    have ht : 0 < t.length := List.length_pos_of_ne_nil (hne t (by simp))
    have ih := ih fun t' ht' => hne t' (List.mem_cons_of_mem _ ht')
    cases ts with
    | nil =>
      rw [List.intercalate_singleton]
      exact ht
    | cons t' ts =>
      rw [List.intercalate_cons_cons]
      simp only [List.length_cons, List.length_append] at ih ⊢
      omega

theorem length_le_of_mem_intercalate (sep : Text) {t : Text} {ts : List Text} (h : t ∈ ts) :
    t.length ≤ (List.intercalate sep ts).length := by
  induction ts with
  | nil => cases h
  | cons t' ts ih =>
    cases ts with
    | nil =>
      rw [List.mem_singleton] at h
      rw [List.intercalate_singleton, h]
    | cons t'' ts =>
      rw [List.intercalate_cons_cons, List.length_append, List.length_append]
      rcases List.mem_cons.1 h with rfl | h
      · omega
      · have := ih h
        omega

/-- What a value starts with: no white space, and nothing that ends a list. -/
def Begins (s : Text) : Prop :=
  ∃ c cs, s = c :: cs ∧ isSpace c = false ∧ c ≠ ']' ∧ c ≠ '\uFEFF'

theorem Begins.ne_nil {s : Text} (h : Begins s) : s ≠ [] := by
  obtain ⟨c, cs, rfl, -⟩ := h
  exact List.cons_ne_nil _ _

theorem Begins.append {s : Text} (h : Begins s) (t : Text) : Begins (s ++ t) := by
  obtain ⟨c, cs, rfl, hc⟩ := h
  exact ⟨c, cs ++ t, rfl, hc⟩

theorem Begins.head {s : Text} (h : Begins s) : ∀ c ∈ s.head?, isSpace c = false := by
  obtain ⟨c, cs, rfl, hc, -⟩ := h
  rintro _ ⟨⟩
  exact hc

theorem begins_numeral {n : Numeral} (h : n.WellFormed) : Begins n.text := by
  obtain ⟨c, cs, hc, htext⟩ := n.exists_digit h
  rcases hn : n.negative
  · refine ⟨c, cs, by rw [htext, hn]; rfl, ?_⟩
    refine ⟨?_, ?_, ?_⟩
    · rw [isSpace, Bool.eq_false_iff]
      intro hspace
      simp only [Bool.or_eq_true, decide_eq_true_eq] at hspace
      rcases hspace with ((rfl | rfl) | rfl) | rfl <;> exact absurd hc (by decide)
    · rintro rfl; exact absurd hc (by decide)
    · rintro rfl; exact absurd hc (by decide)
  · exact ⟨'-', c :: cs, by rw [htext, hn]; rfl, by decide⟩

theorem begins_source {levels : Nat} {v : Data} (h : Readable levels v) (l : Layout) (depth : Nat) :
    Begins (source l depth v) := by
  cases h with
  | null => exact ⟨'n', _, rfl, by decide⟩
  | bool b => cases b <;> exact ⟨_, _, rfl, by decide⟩
  | int =>
    rw [source, render, WideText.spelled_ofText, ← Numeral.text_ofInt]
    exact begins_numeral (Numeral.wellFormed_ofInt _)
  | @float _ x h =>
    rw [source, render, WideText.spelled_ofText]
    cases x with
    | notANumber => exact ⟨'N', _, rfl, by decide⟩
    | infinite negative => cases negative <;> exact ⟨_, _, rfl, by decide⟩
    | finite negative m e =>
      obtain ⟨n, hn, htext, -⟩ := Numeral.exists_numeral negative h
      rw [← htext]
      exact begins_numeral hn
  | text => exact ⟨'"', _, by rw [source, render, spelled_string], by decide⟩
  | @list _ vs =>
    cases vs with
    | nil => exact ⟨'[', _, rfl, by decide⟩
    | cons v vs => exact ⟨'[', _, source_list .., by decide⟩
  | @table _ es =>
    cases es with
    | nil => exact ⟨'\x7b', _, rfl, by decide⟩
    | cons e es => exact ⟨'\x7b', _, source_table .., by decide⟩

theorem begins_memberSource (l : Layout) (depth : Nat) (e : WideText × Data) :
    Begins (memberSource l depth e) :=
  ⟨'"', _, by rw [memberSource, spelled_string]; rfl, by decide⟩

theorem exists_intercalate (sep : Text) {ts : List Text} (hne : ts ≠ []) :
    ∃ t ∈ ts, ∃ r, List.intercalate sep ts = t ++ r := by
  obtain ⟨t, ts, rfl⟩ := List.exists_cons_of_ne_nil hne
  refine ⟨t, List.mem_cons_self, ?_⟩
  cases ts with
  | nil => exact ⟨[], by rw [List.intercalate_singleton, List.append_nil]⟩
  | cons t' ts => exact ⟨_, by rw [List.intercalate_cons_cons, List.append_assoc]⟩

theorem Begins.intercalate {sep : Text} {ts : List Text} (hne : ts ≠ [])
    (h : ∀ t ∈ ts, Begins t) : Begins (List.intercalate sep ts) := by
  obtain ⟨t, ht, r, heq⟩ := exists_intercalate sep hne
  exact heq ▸ (h t ht).append r

/-- A list of pieces is as short as its text, and so is each piece. -/
theorem length_le_enclosed (l : Layout) (depth : Nat) {opening closing : Char} {ts : List Text}
    (hbegins : ∀ t ∈ ts, Begins t) {fuel : Nat}
    (hfuel : (opening :: (l.lineBreak (depth + 1) ++
      (List.intercalate (l.separator (depth + 1)) ts ++ (l.lineBreak depth ++ [closing])))).length ≤
        fuel) : ts.length ≤ fuel ∧ ∀ t ∈ ts, t.length ≤ fuel := by
  simp only [List.length_cons, List.length_append] at hfuel
  have hcount := length_le_intercalate (l.separator (depth + 1)) fun t ht => (hbegins t ht).ne_nil
  refine ⟨by omega, fun t ht => ?_⟩
  have := length_le_of_mem_intercalate (l.separator (depth + 1)) ht
  omega

/-! ## Pieces between commas -/

section

variable {α : Type} {piece : Step α} {closing : Char} {pieces : Nat → List α → Step (List α)}

/-- How a reader goes through pieces with commas between them, up to a closing character. -/
structure ReadsPieces (piece : Step α) (closing : Char) (pieces : Nat → List α → Step (List α)) :
    Prop where
  error {c : Cursor} {e : Failure} (h : piece c = .error e) (fuel : Nat) (done : List α) :
    pieces (fuel + 1) done c = .error e
  close {c c₁ : Cursor} {a : α} {n : Nat} {cs : Text} (h : piece c = .ok (a, c₁))
    (hskip : skip c₁ = ⟨n, closing :: cs⟩) (fuel : Nat) (done : List α) :
    pieces (fuel + 1) done c = .ok ((a :: done).reverse, ⟨n + 1, cs⟩)
  comma {c c₁ : Cursor} {a : α} {n : Nat} {cs : Text} (h : piece c = .ok (a, c₁))
    (hskip : skip c₁ = ⟨n, ',' :: cs⟩) (fuel : Nat) (done : List α) :
    pieces (fuel + 1) done c = pieces fuel (a :: done) (skip ⟨n + 1, cs⟩)
  visible : isSpace closing = false
  stops (rest : Text) : Stops (closing :: rest)

variable {refuse : Bool} {text : α → Text} {names : α → List Text}

theorem ReadsPieces.intercalate (h : ReadsPieces piece closing pieces) {w w' : Text}
    (hw : w.all isSpace = true) (hw' : w'.all isSpace = true) {as : List α} (hne : as ≠ [])
    (hbegins : ∀ a ∈ as, Begins (text a))
    (hread : ∀ a ∈ as, ∀ offset rest, Stops rest → ∃ n,
      piece ⟨offset, text a ++ rest⟩ = outcome refuse (names a) (a, ⟨n, rest⟩))
    {fuel : Nat} (hfuel : as.length ≤ fuel) (done : List α) (offset : Nat) (rest : Text) :
    ∃ n, pieces fuel done
        ⟨offset, List.intercalate (',' :: w) (as.map text) ++ (w' ++ closing :: rest)⟩ =
      outcome refuse (as.flatMap names) (done.reverse ++ as, ⟨n, rest⟩) := by
  induction as generalizing fuel done offset with
  | nil => exact absurd rfl hne
  | cons a as ih =>
    obtain ⟨fuel, rfl⟩ : ∃ k, fuel = k + 1 := ⟨fuel - 1, by simp at hfuel; omega⟩
    rw [List.flatMap_cons]
    cases as with
    | nil =>
      rw [List.map_singleton, List.intercalate_singleton]
      obtain ⟨n, hn⟩ := hread a (by simp) offset _ (stops_space_append hw' (h.stops rest))
      obtain ⟨m, hm⟩ := skip_append hw' (s := closing :: rest) (by simp [h.visible]) n
      refine ⟨m + 1, ?_⟩
      rcases refused_or refuse (names a) with ⟨rfl, x, xs, hnames⟩ | hok
      · rw [hnames] at hn ⊢
        exact h.error hn fuel done
      · rw [outcome_ok hok] at hn
        rw [h.close hn hm, outcome_append hok, List.reverse_cons]
        exact (outcome_nil _).symm
    | cons b as =>
      rw [List.map_cons, List.map_cons, List.intercalate_cons_cons, ← List.map_cons,
        List.append_assoc, List.append_assoc, List.cons_append]
      -- the pieces from the next one on, with what stands behind them
      have hgoes : Begins (List.intercalate (',' :: w) ((b :: as).map text)) :=
        Begins.intercalate (by simp) (List.forall_mem_map.2 fun x hx =>
          hbegins x (List.mem_cons_of_mem _ hx))
      generalize hlater : List.intercalate (',' :: w) ((b :: as).map text) ++
        (w' ++ closing :: rest) = later at ih
      have hlater' : Begins later := hlater ▸ hgoes.append _
      obtain ⟨n, hn⟩ := hread a (by simp) offset (',' :: (w ++ later)) (stops_cons (by decide) _)
      obtain ⟨m, hm⟩ := skip_append (w := []) rfl (s := ',' :: (w ++ later)) (by simp [isSpace]) n
      obtain ⟨k, hk⟩ := skip_append hw hlater'.head (m + 1)
      obtain ⟨z, hz⟩ := ih (by simp) (fun x hx => hbegins x (List.mem_cons_of_mem _ hx))
        (fun x hx => hread x (List.mem_cons_of_mem _ hx)) (by simpa using hfuel) (a :: done) k
      refine ⟨z, ?_⟩
      rcases refused_or refuse (names a) with ⟨rfl, x, xs, hnames⟩ | hok
      · rw [hnames] at hn ⊢
        exact h.error hn fuel done
      · rw [outcome_ok hok] at hn
        rw [h.comma hn hm, hk, hz, outcome_append hok, List.reverse_cons, List.append_assoc]
        rfl

/-- Pieces that are written between brackets are read back behind the opening one. -/
theorem ReadsPieces.enclosed (h : ReadsPieces piece closing pieces) (l : Layout) (depth : Nat)
    {as : List α} (hne : as ≠ []) (hbegins : ∀ a ∈ as, Begins (text a))
    (hread : ∀ a ∈ as, ∀ offset rest, Stops rest → ∃ n,
      piece ⟨offset, text a ++ rest⟩ = outcome refuse (names a) (a, ⟨n, rest⟩))
    {fuel : Nat} (hfuel : as.length ≤ fuel) (offset : Nat) (rest : Text) :
    ∃ c n, skip ⟨offset, l.lineBreak (depth + 1) ++
        (List.intercalate (l.separator (depth + 1)) (as.map text) ++
          (l.lineBreak depth ++ closing :: rest))⟩ = c ∧ (∃ a ∈ as, ∃ r, c.rest = text a ++ r) ∧
      pieces fuel [] c = outcome refuse (as.flatMap names) (as, ⟨n, rest⟩) := by
  obtain ⟨w, hsep, hw⟩ := exists_separator l (depth + 1)
  have hgoes : Begins (List.intercalate (',' :: w) (as.map text) ++
      (l.lineBreak depth ++ closing :: rest)) :=
    (Begins.intercalate (by simpa using hne) (List.forall_mem_map.2 hbegins)).append _
  obtain ⟨m, hm⟩ := skip_append (all_isSpace_lineBreak l (depth + 1)) hgoes.head offset
  obtain ⟨n, hn⟩ := h.intercalate hw (all_isSpace_lineBreak l depth) hne hbegins hread hfuel [] m
    rest
  obtain ⟨t, ht, r, hfirst⟩ := exists_intercalate (',' :: w) (show as.map text ≠ [] by simpa using hne)
  obtain ⟨a, ha, rfl⟩ := List.mem_map.1 ht
  rw [hsep]
  exact ⟨_, n, hm, ⟨a, ha, _, by rw [hfirst, List.append_assoc]⟩, hn⟩

end

/-! ## Lists -/

theorem readsPieces_items (read : Step Data) : ReadsPieces read ']' (items read) where
  error h fuel done := by rw [items, h]
  close h hskip fuel done := by
    rw [items, h]
    simp only [hskip]
  comma h hskip fuel done := by
    rw [items, h]
    simp only [hskip]
  visible := by decide
  stops := stops_cons (by decide)

theorem constantsOfItems_eq (vs : List Data) :
    constantsOfItems vs = vs.flatMap Data.constants := by
  induction vs with
  | nil => rfl
  | cons v vs ih => rw [constantsOfItems, ih, List.flatMap_cons]

theorem list_source {read : Step Data} {refuse : Bool} (l : Layout) (depth : Nat) {vs : List Data}
    (hne : vs ≠ []) (hbegins : ∀ v ∈ vs, Begins (source l (depth + 1) v))
    (hread : ∀ v ∈ vs, ∀ offset rest, Stops rest → ∃ n,
      read ⟨offset, source l (depth + 1) v ++ rest⟩ = outcome refuse v.constants (v, ⟨n, rest⟩))
    {fuel : Nat} (hfuel : vs.length ≤ fuel) (offset : Nat) (rest : Text) :
    ∃ n, list read fuel ⟨offset, l.lineBreak (depth + 1) ++
        (List.intercalate (l.separator (depth + 1)) (vs.map (source l (depth + 1))) ++
          (l.lineBreak depth ++ ']' :: rest))⟩ =
      outcome refuse (Data.list vs).constants (.list vs, ⟨n, rest⟩) := by
  obtain ⟨⟨m, x⟩, n, hskip, ⟨v, hv, r, rfl⟩, hitems⟩ :=
    (readsPieces_items read).enclosed l depth hne hbegins hread hfuel offset rest
  refine ⟨n, ?_⟩
  rw [list, hskip]
  split
  · next heq =>
    obtain ⟨a, x, hv, -, hbracket, -⟩ := hbegins v hv
    rw [hv] at heq
    cases heq
    exact absurd rfl hbracket
  · rw [hitems, map_outcome, Data.constants, constantsOfItems_eq]

/-! ## Tables -/

theorem key_string {k : WideText} (hk : k.Unpaired) (offset : Nat) {s : Text}
    (hs : ∀ c ∈ s.head?, isSpace c = false) :
    ∃ n, key ⟨offset, spelled (string k) ++ ':' :: ' ' :: s⟩ = .ok (k, ⟨n, s⟩) := by
  obtain ⟨n, hn⟩ := stringFrom_inside hk offset (offset + 1) [] (by simp) (':' :: ' ' :: s)
  obtain ⟨m, hm⟩ := skip_append (w := []) rfl (s := ':' :: ' ' :: s) (by simp [isSpace]) n
  obtain ⟨z, hz⟩ := skip_append (w := [' ']) rfl hs (m + 1)
  refine ⟨z, ?_⟩
  have htext : spelled (string k) ++ ':' :: ' ' :: s = '"' :: (inside k ++ '"' :: ':' :: ' ' :: s) := by
    rw [spelled_string, List.cons_append, List.append_assoc]; rfl
  rw [List.reverse_nil, List.nil_append] at hn
  rw [List.nil_append] at hm
  rw [key, htext]
  simp only [hn, hm]
  exact congrArg _ (congrArg _ hz)

/-- Reads one member of a table. -/
def member (read : Step Data) : Step (WideText × Data) := fun c =>
  match key c with
  | .error e => .error e
  | .ok (k, c) => (read c).map fun r => ((k, r.1), r.2)

theorem members_succ (read : Step Data) (fuel : Nat) (done : Entries) (c : Cursor) :
    members read (fuel + 1) done c =
      match member read c with
      | .error e => .error e
      | .ok (a, c) =>
        match skip c with
        | ⟨n, '\x7d' :: cs⟩ => .ok ((a :: done).reverse, ⟨n + 1, cs⟩)
        | ⟨n, ',' :: cs⟩ => members read fuel (a :: done) (skip ⟨n + 1, cs⟩)
        | c => fail .comma c.offset := by
  rw [members, member]
  rcases key c with e | ⟨k, c⟩
  · rfl
  · rcases h : read c with e | ⟨v, c⟩
    · simp only [h]; rfl
    · simp only [h]; rfl

theorem readsPieces_members (read : Step Data) :
    ReadsPieces (member read) '\x7d' (members read) where
  error h fuel done := by rw [members_succ, h]
  close h hskip fuel done := by
    rw [members_succ, h]
    simp only [hskip]
  comma h hskip fuel done := by
    rw [members_succ, h]
    simp only [hskip]
  visible := by decide
  stops := stops_cons (by decide)

theorem constantsOfMembers_eq (es : Entries) :
    constantsOfMembers es = es.flatMap fun e => e.2.constants := by
  induction es with
  | nil => rfl
  | cons e es ih => rw [constantsOfMembers, ih, List.flatMap_cons]

theorem length_source_le (l : Layout) (depth : Nat) (e : WideText × Data) :
    (source l depth e.2).length ≤ (memberSource l depth e).length := by
  simp only [memberSource, List.length_append, List.length_cons]
  omega

theorem member_source {read : Step Data} {refuse : Bool} {l : Layout} {depth : Nat}
    {e : WideText × Data} (hkey : e.1.Unpaired) (hbegins : Begins (source l depth e.2))
    (hread : ∀ offset rest, Stops rest → ∃ n,
      read ⟨offset, source l depth e.2 ++ rest⟩ = outcome refuse e.2.constants (e.2, ⟨n, rest⟩))
    (offset : Nat) {rest : Text} (hrest : Stops rest) :
    ∃ n, member read ⟨offset, memberSource l depth e ++ rest⟩ =
      outcome refuse e.2.constants (e, ⟨n, rest⟩) := by
  have htext : memberSource l depth e ++ rest =
      spelled (string e.1) ++ ':' :: ' ' :: (source l depth e.2 ++ rest) := by
    rw [memberSource, List.append_assoc]; rfl
  obtain ⟨m, hm⟩ := key_string hkey offset (hbegins.append rest).head
  obtain ⟨n, hn⟩ := hread m rest hrest
  exact ⟨n, by rw [member, htext, hm]; simp only [hn, map_outcome]⟩

theorem table_source {read : Step Data} {refuse : Bool} (l : Layout) (depth : Nat) {es : Entries}
    (hne : es ≠ []) (hkeys : ∀ e ∈ es, e.1.Unpaired) (hdistinct : (es.map Prod.fst).Nodup)
    (hbegins : ∀ e ∈ es, Begins (source l (depth + 1) e.2))
    (hread : ∀ e ∈ es, ∀ offset rest, Stops rest → ∃ n,
      read ⟨offset, source l (depth + 1) e.2 ++ rest⟩ =
        outcome refuse e.2.constants (e.2, ⟨n, rest⟩))
    {fuel : Nat} (hfuel : es.length ≤ fuel) (offset : Nat) (rest : Text) :
    ∃ n, table read fuel ⟨offset, l.lineBreak (depth + 1) ++
        (List.intercalate (l.separator (depth + 1)) (es.map (memberSource l (depth + 1))) ++
          (l.lineBreak depth ++ '\x7d' :: rest))⟩ =
      outcome refuse (Data.table es).constants (.table es, ⟨n, rest⟩) := by
  obtain ⟨⟨m, x⟩, n, hskip, ⟨e, -, r, rfl⟩, hmembers⟩ := (readsPieces_members read).enclosed l depth hne
    (fun e _ => begins_memberSource l (depth + 1) e)
    (fun e he offset rest hrest =>
      member_source (hkeys e he) (hbegins e he) (hread e he) offset hrest) hfuel offset rest
  refine ⟨n, ?_⟩
  rw [table, hskip]
  split
  · next heq =>
    rw [memberSource, spelled_string] at heq
    cases heq
  · rw [hmembers, map_outcome, Data.ofMembers_eq_self hdistinct, Data.constants,
      constantsOfMembers_eq]

/-! ## Values -/

section

variable {refuse : Bool} {fuel : Nat} {inner : Option (Step Data)} {offset : Nat}

theorem valueWith_quote (cs : Text) :
    valueWith refuse fuel inner ⟨offset, '"' :: cs⟩ =
      (stringFrom offset [] (offset + 1) cs).map fun r => (.text r.1, r.2) := by
  cases inner <;> rfl

theorem valueWith_scalar {c : Char} (h : c ≠ '"' ∧ c ≠ '[' ∧ c ≠ '\x7b') (cs : Text) :
    valueWith refuse fuel inner ⟨offset, c :: cs⟩ = scalar refuse ⟨offset, c :: cs⟩ := by
  unfold valueWith
  split
  · next heq => cases heq; exact absurd rfl h.1
  · next heq => cases heq; exact absurd rfl h.2.1
  · next heq => cases heq; exact absurd rfl h.2.2
  · next heq => cases heq; exact absurd rfl h.2.1
  · next heq => cases heq; exact absurd rfl h.2.2
  · rfl

end

/-- The reader for what a value of so many levels holds. -/
def innerReader (refuse : Bool) (fuel : Nat) : Nat → Option (Step Data)
  | 0 => none
  | levels + 1 => some (value refuse fuel levels)

theorem value_eq (refuse : Bool) (fuel levels : Nat) :
    value refuse fuel levels = valueWith refuse fuel (innerReader refuse fuel levels) := by
  cases levels <;> rfl

theorem value_numeral (refuse : Bool) (fuel levels : Nat) {n : Numeral} (h : n.WellFormed) {v : Data}
    (hv : n.value = .ok v) (offset : Nat) {rest : Text} (hr : Stops rest) :
    value refuse fuel levels ⟨offset, n.text ++ rest⟩ =
      .ok (v, ⟨offset + n.text.length, rest⟩) := by
  have hscalar := scalar_text refuse h hv offset hr
  obtain ⟨c, cs, hc, htext⟩ := n.exists_digit h
  have hne : ∀ x : Char, Text.isAsciiDigit x = false → c ≠ x := by
    rintro x hx rfl
    rw [hx] at hc
    cases hc
  rw [value_eq]
  rcases hn : n.negative
  · rw [hn] at htext
    rw [htext] at hscalar ⊢
    rw [← hscalar]
    exact valueWith_scalar ⟨hne _ (by decide), hne _ (by decide), hne _ (by decide)⟩ _
  · rw [hn] at htext
    rw [htext] at hscalar ⊢
    rw [← hscalar]
    exact valueWith_scalar (by decide) _

theorem value_constant (refuse : Bool) (fuel levels : Nat) {x : Binary64} (hx : x.isFinite = false)
    (offset : Nat) (rest : Text) :
    ∃ n, value refuse fuel levels ⟨offset, x.text ++ rest⟩ =
      outcome refuse [x.text] (.float x, ⟨n, rest⟩) := by
  cases x with
  | finite => cases hx
  | notANumber =>
    refine ⟨offset + 3, ?_⟩
    rw [value_eq]
    refine (valueWith_scalar (c := 'N') (by decide) _).trans ?_
    cases refuse <;> rfl
  | infinite negative =>
    cases negative
    · refine ⟨offset + 8, ?_⟩
      rw [value_eq]
      refine (valueWith_scalar (c := 'I') (by decide) _).trans ?_
      cases refuse <;> rfl
    · refine ⟨offset + 9, ?_⟩
      rw [value_eq]
      refine (valueWith_scalar (c := '-') (by decide) _).trans ?_
      cases refuse <;> rfl

/-- A value that is written is read back, or reading stops at its first constant. -/
theorem value_source (refuse : Bool) (l : Layout) {levels : Nat} {v : Data}
    (hv : Readable levels v) {fuel : Nat} {depth : Nat}
    (hfuel : (source l depth v).length ≤ fuel) (offset : Nat) {rest : Text} (hr : Stops rest) :
    ∃ n, value refuse fuel levels ⟨offset, source l depth v ++ rest⟩ =
      outcome refuse v.constants (v, ⟨n, rest⟩) := by
  induction hv generalizing depth offset rest with
  | null =>
    refine ⟨offset + 4, ?_⟩
    rw [value_eq, Data.constants, outcome_nil]
    exact (valueWith_scalar (c := 'n') (by decide) _).trans rfl
  | bool b =>
    rw [value_eq]
    cases b
    · exact ⟨offset + 5, ((valueWith_scalar (c := 'f') (by decide) _).trans rfl).trans
        (outcome_nil _).symm⟩
    · exact ⟨offset + 4, ((valueWith_scalar (c := 't') (by decide) _).trans rfl).trans
        (outcome_nil _).symm⟩
  | @int levels n h =>
    rw [Data.constants, source, render, WideText.spelled_ofText, ← Numeral.text_ofInt]
    exact ⟨_, (value_numeral refuse fuel levels (Numeral.wellFormed_ofInt n)
      (Numeral.value_ofInt h) offset hr).trans (outcome_nil _).symm⟩
  | @float levels x h =>
    rw [Data.constants, source, render, WideText.spelled_ofText]
    rcases hx : x.isFinite
    · exact value_constant refuse fuel levels hx offset rest
    · cases x with
      | finite negative m e =>
        obtain ⟨n, hn, htext, hvalue⟩ := Numeral.exists_numeral negative h
        rw [← htext]
        exact ⟨_, (value_numeral refuse fuel levels hn hvalue offset hr).trans
          (outcome_nil _).symm⟩
      | infinite => cases hx
      | notANumber => cases hx
  | @text levels s h =>
    obtain ⟨n, hn⟩ := stringFrom_inside h offset (offset + 1) [] (by simp) rest
    refine ⟨n, ?_⟩
    have htext : source l depth (.text s) ++ rest = '"' :: (inside s ++ '"' :: rest) := by
      rw [source, render, spelled_string, List.cons_append, List.append_assoc]; rfl
    rw [value_eq, htext, valueWith_quote, hn, Data.constants, outcome_nil]
    rfl
  | @list levels vs h ih =>
    rw [value_eq]
    cases vs with
    | nil =>
      exact ⟨offset + 2, (@outcome_nil Data refuse (.list [], ⟨offset + 2, rest⟩)).symm⟩
    | cons v vs =>
      have hbegins : ∀ x ∈ v :: vs, Begins (source l (depth + 1) x) :=
        fun x hx => begins_source (h x hx) l _
      rw [source_list] at hfuel ⊢
      obtain ⟨hcount, hlen⟩ := length_le_enclosed l depth (List.forall_mem_map.2 hbegins) hfuel
      rw [List.length_map] at hcount
      obtain ⟨n, hn⟩ := list_source l depth (List.cons_ne_nil v vs) hbegins
        (fun x hx o r => ih x hx (hlen _ (List.mem_map_of_mem hx)) o) hcount (offset + 1) rest
      refine ⟨n, ?_⟩
      rw [List.cons_append, List.append_assoc, List.append_assoc, List.append_assoc]
      exact hn
  | @table levels es hkeys hdistinct h ih =>
    rw [value_eq]
    cases es with
    | nil =>
      exact ⟨offset + 2, (@outcome_nil Data refuse (.table [], ⟨offset + 2, rest⟩)).symm⟩
    | cons e es =>
      have hbegins : ∀ x ∈ e :: es, Begins (source l (depth + 1) x.2) :=
        fun x hx => begins_source (h x hx) l _
      rw [source_table] at hfuel ⊢
      obtain ⟨hcount, hlen⟩ := length_le_enclosed l depth
        (List.forall_mem_map.2 fun x _ => begins_memberSource l (depth + 1) x) hfuel
      rw [List.length_map] at hcount
      obtain ⟨n, hn⟩ := table_source l depth (List.cons_ne_nil e es) hkeys hdistinct hbegins
        (fun x hx o r => ih x hx ((length_source_le l _ x).trans
          (hlen _ (List.mem_map_of_mem hx))) o) hcount (offset + 1) rest
      refine ⟨n, ?_⟩
      rw [List.cons_append, List.append_assoc, List.append_assoc, List.append_assoc]
      exact hn

end Json

end ConfigCare
