import ConfigCare.Proofs.WrittenValues

/-! The canonical form of a JSON text denotes what the text does, as long as none of its numbers is
beyond the range of binary numbers. Whatever is read is `Readable`, by one lemma for each part of
the reader, and what is readable is written so that it reads back. A decimal is kept as the binary
number that it is read as, not digit by digit. -/

namespace ConfigCare

namespace Text

theorem numberOf_lt {digits : Text} (h : digits.all isAsciiDigit = true) :
    numberOf 10 digits < 10 ^ digits.length := by
  induction digits using List.reverseRecOn with
  | nil => decide
  | append_singleton digits c ih =>
    rw [List.all_append, Bool.and_eq_true] at h
    have hc : isAsciiDigit c = true := by simpa using h.2
    have hle : c.toNat ≤ '9'.toNat := (by simpa [isAsciiDigit] using hc : '0' ≤ c ∧ c ≤ '9').2
    have hvalue : digitValue c ≤ 9 := by
      rw [digitValue_of_isAsciiDigit hc]
      exact Nat.sub_le_of_le_add hle
    have ih := ih h.1
    rw [numberOf_append, List.foldl_cons, List.foldl_nil, List.length_append, List.length_singleton,
      pow_succ]
    omega

end Text

namespace Data

variable {α β : Type} [DecidableEq α]

theorem forall_setKey {P : α × β → Prop} {key : α} {value : β} {es : List (α × β)}
    (hnew : P (key, value)) (h : ∀ e ∈ es, P e) : ∀ e ∈ setKey key value es, P e := by
  induction es with
  | nil => simpa [setKey] using hnew
  | cons e es ih =>
    obtain ⟨he, hes⟩ := List.forall_mem_cons.1 h
    obtain ⟨k, v⟩ := e
    unfold setKey
    split
    · next hk => exact List.forall_mem_cons.2 ⟨hk ▸ hnew, hes⟩
    · exact List.forall_mem_cons.2 ⟨he, ih hes⟩

theorem mem_keys_setKey {key k : α} {value : β} {es : List (α × β)} :
    k ∈ (setKey key value es).map Prod.fst ↔ k = key ∨ k ∈ es.map Prod.fst := by
  induction es with
  | nil => simp [setKey]
  | cons e es ih =>
    obtain ⟨k', v⟩ := e
    unfold setKey
    split
    · next hk => subst hk; simp
    · rw [List.map_cons, List.mem_cons, ih, List.map_cons, List.mem_cons]
      tauto

theorem nodup_setKey {key : α} {value : β} {es : List (α × β)} (h : (es.map Prod.fst).Nodup) :
    ((setKey key value es).map Prod.fst).Nodup := by
  induction es with
  | nil => simp [setKey]
  | cons e es ih =>
    obtain ⟨k, v⟩ := e
    rw [List.map_cons, List.nodup_cons] at h
    unfold setKey
    split
    · exact List.nodup_cons.2 h
    · next hk =>
      rw [List.map_cons, List.nodup_cons, mem_keys_setKey]
      exact ⟨fun hmem => hmem.elim hk h.1, ih h.2⟩

theorem forall_ofMembers {P : α × β → Prop} {ms : List (α × β)} (h : ∀ m ∈ ms, P m) :
    ∀ e ∈ ofMembers ms, P e :=
  List.foldlRecOn ms _ (motive := fun es : List (α × β) => ∀ e ∈ es, P e) (by simp)
    fun _ hes m hm => forall_setKey (h m hm) hes

theorem nodup_ofMembers (ms : List (α × β)) : ((ofMembers ms).map Prod.fst).Nodup :=
  List.foldlRecOn ms _ (motive := fun es : List (α × β) => (es.map Prod.fst).Nodup) (by simp)
    fun _ hes _ _ => nodup_setKey hes

end Data

namespace Json

open WideText (spelled ofText)
open Data (Readable)

/-! ## What is read is readable -/

/-- Whatever a step comes to can be denoted in so many levels. -/
def Reads (levels : Nat) (read : Step Data) : Prop :=
  ∀ ⦃c v c'⦄, read c = .ok (v, c') → Readable levels v

theorem all_whole? {s w : Text} (h : Numeral.whole? s = some w) :
    w.all Text.isAsciiDigit = true := by
  unfold Numeral.whole? at h
  split at h
  · cases h; rfl
  · split at h
    · next hc =>
      cases h
      rw [List.all_cons, hc, List.all_takeWhile]
      rfl
    · cases h
  · cases h

theorem readable_numeral {s : Text} {n : Numeral} (hn : Numeral.read? s = some n) {v : Data}
    (hv : n.value = .ok v) (levels : Nat) : Readable levels v := by
  obtain ⟨t, -, hwhole, -, -⟩ := Numeral.read?_eq_some hn
  unfold Numeral.value at hv
  split at hv
  · split at hv
    · cases hv
    · next hlimit =>
      cases hv
      refine .int ?_
      have hlt := Text.numberOf_lt (all_whole? hwhole)
      have hle : 10 ^ n.whole.length ≤ 10 ^ digitLimit :=
        Nat.pow_le_pow_right (by decide) (not_lt.1 hlimit)
      split <;> omega
  · cases hv
    exact .float (Binary64.isCanonical_ofDecimal ..)

theorem reads_scalar (refuse : Bool) (levels : Nat) : Reads levels (scalar refuse) := by
  intro c v c' h
  unfold scalar at h
  split at h
  · next w v' hw =>
    cases h
    have hmem := List.mem_of_find?_eq_some hw
    simp only [words, words.constant, List.mem_cons, Prod.mk.injEq, List.not_mem_nil,
      or_false] at hmem
    rcases hmem with ⟨-, h⟩ | ⟨-, h⟩ | ⟨-, h⟩ | ⟨-, h⟩ | ⟨-, h⟩ | ⟨-, h⟩
    · cases h; exact .null
    · cases h; exact .bool _
    · cases h; exact .bool _
    all_goals
      split at h <;> cases h
      exact .float trivial
  · cases h
  · split at h
    · cases h
    · next n hn =>
      split at h
      · cases h
      · next hv =>
        cases h
        exact readable_numeral hn hv levels

theorem readable_items {levels : Nat} {read : Step Data} (hread : Reads levels read) {fuel : Nat}
    {done vs : List Data} {c c' : Cursor} (hdone : ∀ v ∈ done, Readable levels v)
    (h : items read fuel done c = .ok (vs, c')) : ∀ v ∈ vs, Readable levels v := by
  induction fuel generalizing done c with
  | zero => cases h
  | succ fuel ih =>
    unfold items at h
    split at h
    · cases h
    · next v c₁ hv =>
      have hcons : ∀ x ∈ v :: done, Readable levels x := List.forall_mem_cons.2 ⟨hread hv, hdone⟩
      split at h
      · cases h
        exact fun x hx => hcons x (List.mem_reverse.1 hx)
      · exact ih hcons h
      · cases h

theorem unpaired_key {c c' : Cursor} {k : WideText} (h : key c = .ok (k, c')) : k.Unpaired := by
  unfold key at h
  split at h
  · split at h
    · cases h
    · next hk =>
      split at h
      · cases h
        exact unpaired_stringFrom ⟨by simp, .nil⟩ hk
      · cases h
  · cases h

theorem readable_members {levels : Nat} {read : Step Data} (hread : Reads levels read) {fuel : Nat}
    {done ms : List (WideText × Data)} {c c' : Cursor}
    (hdone : ∀ m ∈ done, m.1.Unpaired ∧ Readable levels m.2)
    (h : members read fuel done c = .ok (ms, c')) :
    ∀ m ∈ ms, m.1.Unpaired ∧ Readable levels m.2 := by
  induction fuel generalizing done c with
  | zero => cases h
  | succ fuel ih =>
    unfold members at h
    split at h
    · cases h
    · next k c₁ hk =>
      split at h
      · cases h
      · next v c₂ hv =>
        have hcons : ∀ m ∈ (k, v) :: done, m.1.Unpaired ∧ Readable levels m.2 :=
          List.forall_mem_cons.2 ⟨⟨unpaired_key hk, hread hv⟩, hdone⟩
        split at h
        · cases h
          exact fun m hm => hcons m (List.mem_reverse.1 hm)
        · exact ih hcons h
        · cases h

theorem reads_list {levels : Nat} {read : Step Data} (hread : Reads levels read) (fuel : Nat) :
    Reads (levels + 1) (list read fuel) := by
  intro c v c' h
  unfold list at h
  split at h
  · cases h
    exact .list (by simp)
  · obtain ⟨⟨vs, c₁⟩, hitems, he⟩ := exists_of_map_ok h
    cases he
    exact .list (readable_items hread (by simp) hitems)

theorem reads_table {levels : Nat} {read : Step Data} (hread : Reads levels read) (fuel : Nat) :
    Reads (levels + 1) (table read fuel) := by
  intro c v c' h
  unfold table at h
  split at h
  · cases h
    exact .table (by simp) (by simp) (by simp)
  · obtain ⟨⟨ms, c₁⟩, hmembers, he⟩ := exists_of_map_ok h
    cases he
    have hms := Data.forall_ofMembers (readable_members hread (by simp) hmembers)
    exact .table (fun e he => (hms e he).1) (Data.nodup_ofMembers ms) (fun e he => (hms e he).2)

theorem reads_value (refuse : Bool) (fuel levels : Nat) : Reads levels (value refuse fuel levels) := by
  have one : ∀ {levels : Nat} {inner : Option (Step Data)},
      (∀ read ∈ inner, Reads (levels - 1) read ∧ 0 < levels) →
        Reads levels (valueWith refuse fuel inner) := by
    intro levels inner hinner c v c' h
    unfold valueWith at h
    split at h
    · obtain ⟨⟨t, c₁⟩, hstring, he⟩ := exists_of_map_ok h
      cases he
      exact .text (unpaired_stringFrom ⟨by simp, .nil⟩ hstring)
    · obtain ⟨hread, hpos⟩ := hinner _ rfl
      exact Nat.sub_add_cancel hpos ▸ reads_list hread fuel h
    · obtain ⟨hread, hpos⟩ := hinner _ rfl
      exact Nat.sub_add_cancel hpos ▸ reads_table hread fuel h
    · cases h
    · cases h
    · exact reads_scalar refuse levels h
  induction levels with
  | zero => exact one (by simp)
  | succ levels ih => exact one (by simpa using ih)

theorem readable_read {refuse : Bool} {s : Text} {v : Data} (h : read refuse s = .ok v) :
    Readable depthLimit v := by
  obtain ⟨c, hvalue, -⟩ := exists_value_of_read h
  exact reads_value _ _ _ hvalue

/-! ## Documents -/

/-- The document that holds a value alone is read as that value, or refused for its first
constant. -/
theorem document_source {refuse : Bool} {v : Data} (hv : Readable depthLimit v) (l : Layout)
    {w : Text} (hw : w.all isSpace = true) :
    document refuse (source l 0 v ++ w) = (outcome refuse v.constants (v, ⟨0, []⟩)).map Prod.fst := by
  have hbegins := begins_source hv l 0
  have hstops : Stops w := by
    simpa using stops_space_append hw (s := []) (by simp [Stops])
  obtain ⟨n, hn⟩ := skip_append (w := []) rfl (hbegins.append w).head 0
  obtain ⟨m, hm⟩ : ∃ m, value refuse ((source l 0 v ++ w).length + 1) depthLimit
      ⟨n, source l 0 v ++ w⟩ = outcome refuse v.constants (v, ⟨m, w⟩) :=
    value_source refuse l hv (by rw [List.length_append]; omega) n hstops
  obtain ⟨k, hk⟩ := skip_append hw (s := []) (by simp) m
  obtain ⟨c, cs, hc, -, -, hmark⟩ := hbegins
  rw [List.nil_append] at hn
  rw [List.append_nil] at hk
  unfold document
  split
  · next heq =>
    rw [hc] at heq
    cases heq
    exact absurd rfl hmark
  · rw [hn, hm]
    rcases refused_or refuse v.constants with ⟨rfl, a, b, hab⟩ | hok
    · rw [hab]
      rfl
    · rw [outcome_ok hok, outcome_ok hok]
      simp only [hk]
      rfl

theorem read_source {refuse : Bool} {v : Data} (hv : Readable depthLimit v) (l : Layout)
    {w : Text} (hw : w.all isSpace = true) (h : refuse = false ∨ v.constants = []) :
    read refuse (source l 0 v ++ w) = .ok v := by
  rw [read, document_source hv l hw, outcome_ok h]
  rfl

theorem read_source_refused {v : Data} (hv : Readable depthLimit v) (l : Layout) {w : Text}
    (hw : w.all isSpace = true) {name : Text} {names : List Text} (h : v.constants = name :: names) :
    read true (source l 0 v ++ w) = .error (.constant name) := by
  rw [read, document_source hv l hw, h]
  rfl

theorem spelled_canonicalText (v : Data) :
    spelled (canonicalText v) = source .indented 0 v ++ ['\n'] := by
  rw [canonicalText, write, WideText.spelled_append]
  rfl

/-- The canonical form of a text whose numbers are all in the range of binary numbers is strict JSON
that denotes the same value, and it is its own canonical form. -/
theorem canonical_keeps_value {s : Text} {v : Data} (h : read true s = .ok v)
    (hrange : v.constants = []) :
    ∃ t, canonical s = .ok t ∧ read true (spelled t) = .ok v ∧ canonical (spelled t) = .ok t := by
  have hread : read true (spelled (canonicalText v)) = .ok v := by
    rw [spelled_canonicalText]
    exact read_source (readable_read h) .indented (w := ['\n']) rfl (.inr hrange)
  exact ⟨canonicalText v, by rw [canonical, h]; rfl, hread, by rw [canonical, hread]; rfl⟩

/-- A key that comes twice, half a surrogate pair, an escape that needs none, an integer beyond the
precision of binary numbers and a negative zero. -/
theorem canonical_keeps_mixed_value :
    ∃ v t, read true (Text.lit
        "\x7b\"a\":1,\"b\":[1.50,-0.0,\"\\ud83d\",\"\\/\"],\"a\":12345678901234567890\x7d") = .ok v ∧
      v.constants = [] ∧ canonical (Text.lit
        "\x7b\"a\":1,\"b\":[1.50,-0.0,\"\\ud83d\",\"\\/\"],\"a\":12345678901234567890\x7d") = .ok t ∧
      read true (spelled t) = .ok v ∧ canonical (spelled t) = .ok t ∧
      spelled t = Text.lit
        "\x7b\n  \"a\": 12345678901234567890,\n  \"b\": [\n    1.5,\n    -0.0,\n    \"\\ud83d\",\n    \"/\"\n  ]\n\x7d\n" := by
  obtain ⟨v, hv, hrange⟩ := exists_of_map_ok (show (read true (Text.lit
    "\x7b\"a\":1,\"b\":[1.50,-0.0,\"\\ud83d\",\"\\/\"],\"a\":12345678901234567890\x7d")).map Data.constants =
      .ok [] by decide +kernel)
  obtain ⟨t, ht, hread, hagain⟩ := canonical_keeps_value hv hrange
  refine ⟨v, t, hv, hrange, ht, hread, hagain, ?_⟩
  have hsource : (canonical (Text.lit
    "\x7b\"a\":1,\"b\":[1.50,-0.0,\"\\ud83d\",\"\\/\"],\"a\":12345678901234567890\x7d")).map spelled =
      .ok (Text.lit "\x7b\n  \"a\": 12345678901234567890,\n  \"b\": [\n    1.5,\n    -0.0,\n    \"\\ud83d\",\n    \"/\"\n  ]\n\x7d\n") := by
    decide +kernel
  rw [ht] at hsource
  exact Except.ok.inj hsource

/-- The number that a numeral denotes, exactly. -/
def Numeral.rational (n : Numeral) : ℚ :=
  (if n.negative then -1 else 1) * (n.coefficient * 10 ^ (n.power - n.fraction.length))

/-- Digits beyond those that tell a binary number from its neighbours are lost. -/
theorem canonical_loses_digits :
    canonical (Text.lit "0.1000000000000000055511151231257827") = .ok (ofText (Text.lit "0.1\n")) ∧
      (Numeral.read? (Text.lit "0.1000000000000000055511151231257827")).map Numeral.rational ≠
        (Numeral.read? (Text.lit "0.1\n")).map Numeral.rational := by
  refine ⟨by decide +kernel, ?_⟩
  have hin : (Numeral.read? (Text.lit "0.1000000000000000055511151231257827")).map Numeral.rational =
      some (1 * (((1000000000000000055511151231257827 : ℕ) : ℚ) * 10 ^ (0 - (34 : ℕ) : Int))) := rfl
  have hout : (Numeral.read? (Text.lit "0.1\n")).map Numeral.rational =
      some (1 * (((1 : ℕ) : ℚ) * 10 ^ (0 - (1 : ℕ) : Int))) := rfl
  rw [hin, hout]
  norm_num

end Json

end ConfigCare
