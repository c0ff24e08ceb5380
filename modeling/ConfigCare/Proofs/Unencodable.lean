import ConfigCare.Format.Document
import ConfigCare.Proofs.CanonicalForm

/-! Documents without a text to be written as. Only the canonical form of strict JSON can be one, and it
is where an escape has brought half a surrogate pair into a string or a key of it. -/

namespace ConfigCare

namespace WideText

/-- Whether a text holds half a surrogate pair. -/
def HasHalf (s : WideText) : Prop := ∃ code, Glyph.half code ∈ s

variable {s t : WideText}

@[simp] theorem not_hasHalf_ofText (s : Text) : ¬ HasHalf (ofText s) := by
  rintro ⟨code, h⟩
  simp [ofText] at h

@[simp] theorem hasHalf_append : HasHalf (s ++ t) ↔ HasHalf s ∨ HasHalf t := by
  simp only [HasHalf, List.mem_append, exists_or]

theorem hasHalf_intercalate {sep : Text} {ts : List WideText} :
    HasHalf (List.intercalate (ofText sep) ts) ↔ ∃ t ∈ ts, HasHalf t := by
  induction ts with
  | nil => simp [HasHalf, List.intercalate]
  | cons t ts ih =>
    cases ts with
    | nil => simp
    | cons t' ts =>
      rw [List.intercalate_cons_cons, hasHalf_append, hasHalf_append, ih, List.exists_mem_cons_iff]
      simp

theorem encodeFrom_eq_error_iff {n : Nat} : (∃ e, encodeFrom n s = .error e) ↔ HasHalf s := by
  induction s generalizing n with
  | nil => simp [encodeFrom, HasHalf]
  | cons g s ih =>
    cases g with
    | half code => exact ⟨fun _ => ⟨code, List.mem_cons_self⟩, fun _ => ⟨_, rfl⟩⟩
    | char c =>
      have hrest : HasHalf (.char c :: s) ↔ HasHalf s := by simp [HasHalf]
      rw [hrest, ← ih (n := n + 1), encodeFrom]
      cases encodeFrom (n + 1) s <;> simp [Except.map]

theorem encode_eq_error_iff : (∃ e, encode s = .error e) ↔ HasHalf s := encodeFrom_eq_error_iff

end WideText

open WideText (HasHalf ofText)

/-- Values in which a string or a key holds half a surrogate pair. -/
inductive Data.HoldsHalf : Data → Prop where
  | text {s : WideText} (h : HasHalf s) : HoldsHalf (.text s)
  | item {vs : List Data} {v : Data} (hv : v ∈ vs) (h : HoldsHalf v) : HoldsHalf (.list vs)
  | key {es : Entries} {e : WideText × Data} (he : e ∈ es) (h : HasHalf e.1) : HoldsHalf (.table es)
  | member {es : Entries} {e : WideText × Data} (he : e ∈ es) (h : HoldsHalf e.2) :
    HoldsHalf (.table es)

namespace Data

theorem holdsHalf_text {s : WideText} : HoldsHalf (.text s) ↔ HasHalf s := by
  constructor
  · rintro ⟨h⟩
    exact h
  · exact .text

theorem holdsHalf_list {vs : List Data} : HoldsHalf (.list vs) ↔ ∃ v ∈ vs, HoldsHalf v := by
  constructor
  · intro h
    cases h with
    | item hv h => exact ⟨_, hv, h⟩
  · rintro ⟨v, hv, h⟩
    exact .item hv h

theorem holdsHalf_table {es : Entries} :
    HoldsHalf (.table es) ↔ ∃ e ∈ es, HasHalf e.1 ∨ HoldsHalf e.2 := by
  constructor
  · intro h
    cases h with
    | key he h => exact ⟨_, he, .inl h⟩
    | member he h => exact ⟨_, he, .inr h⟩
  · rintro ⟨e, he, h | h⟩
    · exact .key he h
    · exact .member he h

end Data

namespace Json

open Data (HoldsHalf Readable)

theorem hasHalf_string {s : WideText} : HasHalf (string s) ↔ HasHalf s := by
  have hglyph : ∀ g code, Glyph.half code ∈ escapedGlyph g ↔ g = .half code := by
    intro g code
    cases g <;> simp [escapedGlyph, ofText, eq_comm]
  simp only [HasHalf, string, quote, List.mem_cons, List.mem_append, List.mem_flatMap, hglyph]
  simp

theorem hasHalf_enclosed {l : Layout} {depth : Nat} {opening closing : Char} {ts : List WideText} :
    HasHalf (enclosed l depth opening closing ts) ↔ ∃ t ∈ ts, HasHalf t := by
  rw [enclosed, WideText.hasHalf_append, WideText.hasHalf_append, WideText.hasHalf_intercalate]
  simp

theorem hasHalf_renderItems {l : Layout} {depth : Nat} {vs : List Data} :
    (∃ t ∈ renderItems l depth vs, HasHalf t) ↔ ∃ v ∈ vs, HasHalf (render l depth v) := by
  simp [renderItems_eq]

theorem hasHalf_renderMembers {l : Layout} {depth : Nat} {es : Entries} :
    (∃ t ∈ renderMembers l depth es, HasHalf t) ↔
      ∃ e ∈ es, HasHalf e.1 ∨ HasHalf (render l depth e.2) := by
  simp [renderMembers_eq, WideText.hasHalf_append, hasHalf_string]

theorem hasHalf_iff_of_eq_ofText {t : WideText} {s : Text} {v : Data} (ht : t = ofText s)
    (hv : ¬ HoldsHalf v) : HasHalf t ↔ HoldsHalf v :=
  iff_of_false (ht ▸ WideText.not_hasHalf_ofText s) hv

/-- Writing a value brings in no halves and drops none. -/
theorem hasHalf_render {levels : Nat} {v : Data} (hv : Readable levels v) (l : Layout)
    (depth : Nat) : HasHalf (render l depth v) ↔ HoldsHalf v := by
  induction hv generalizing depth with
  | null => exact hasHalf_iff_of_eq_ofText (by rw [render]) (by rintro ⟨⟩)
  | bool => exact hasHalf_iff_of_eq_ofText (by rw [render]) (by rintro ⟨⟩)
  | int => exact hasHalf_iff_of_eq_ofText (by rw [render]) (by rintro ⟨⟩)
  | float => exact hasHalf_iff_of_eq_ofText (by rw [render]) (by rintro ⟨⟩)
  | text => rw [render, hasHalf_string, Data.holdsHalf_text]
  | @list _ vs _ ih =>
    rw [Data.holdsHalf_list]
    cases vs with
    | nil => simp [render]
    | cons v vs =>
      rw [render, hasHalf_enclosed, hasHalf_renderItems]
      exact exists_congr fun v => and_congr_right fun hv => ih v hv _
  | @table _ es _ _ _ ih =>
    rw [Data.holdsHalf_table]
    cases es with
    | nil => simp [render]
    | cons e es =>
      rw [render, hasHalf_enclosed, hasHalf_renderMembers]
      exact exists_congr fun e => and_congr_right fun he => or_congr_right (ih e he _)

theorem hasHalf_canonicalText {levels : Nat} {v : Data} (hv : Readable levels v) :
    HasHalf (canonicalText v) ↔ HoldsHalf v := by
  rw [canonicalText, WideText.hasHalf_append, write, hasHalf_render hv]
  exact or_iff_left (WideText.not_hasHalf_ofText ['\n'])

end Json

namespace Format

/-- Strict JSON in a file of that extension that looks uncommented, and has no text to be written as. -/
structure Unencodable (s extension : Text) : Prop where
  json : Kind.ofExtension? extension = some .json
  plain : Jsonc.looksCommented s = false
  value : ∃ v, Json.read true s = .ok v ∧ v.HoldsHalf

theorem formatJson_eq_error_iff {strict : Bool} {s : Text} :
    (∃ e, formatJson strict s = .error e) ↔
      Jsonc.looksCommented s = false ∧ ∃ v, Json.read true s = .ok v ∧ v.HoldsHalf := by
  unfold formatJson Json.canonical
  split
  · next hlooks => simp [hlooks]
  · next hlooks =>
    cases hread : Json.read true s with
    | error e => simp [Except.map]
    | ok v =>
      simp only [Except.map, WideText.encode_eq_error_iff,
        Json.hasHalf_canonicalText (Json.readable_read hread)]
      simp [hlooks]

/-- Formatting fails on these documents alone. -/
theorem document_eq_error_iff {s extension : Text} (strict : Bool) :
    (∃ e, document s extension strict = .error e) ↔ Unencodable s extension := by
  unfold document
  constructor
  · rintro ⟨e, he⟩
    cases hkind : Kind.ofExtension? extension with
    | none => simp [hkind] at he
    | some kind =>
      simp only [hkind] at he
      cases kind with
      | json =>
        obtain ⟨hplain, hvalue⟩ := formatJson_eq_error_iff.1 ⟨e, he⟩
        exact ⟨hkind, hplain, hvalue⟩
      | _ => cases he
  · intro h
    simp only [h.json]
    exact formatJson_eq_error_iff.2 ⟨h.plain, h.value⟩

end Format

end ConfigCare
