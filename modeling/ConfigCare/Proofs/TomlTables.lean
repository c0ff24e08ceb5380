import ConfigCare.Proofs.DenotedValues
import ConfigCare.Proofs.Places
import ConfigCare.Proofs.TomlStatements

/-! The tables of a TOML text. Every statement and every inline table adds to the entries by `setKey`, so
however deep it lies, no table that is read holds a key twice. -/

namespace ConfigCare

namespace Data

variable {es es' : Entries} {key : WideText} {v : Data} {vs : List Data}

theorem repeatsKey_list : (list vs).repeatsKey = false ↔ ∀ v ∈ vs, v.repeatsKey = false := by
  rw [repeatsKey]
  induction vs with
  | nil => simp [itemsRepeatKey]
  | cons v vs ih => rw [itemsRepeatKey, Bool.or_eq_false_iff, ih, List.forall_mem_cons]

theorem repeatsKey_table : (table es).repeatsKey = false ↔
    (es.map Prod.fst).Nodup ∧ ∀ e ∈ es, e.2.repeatsKey = false := by
  have hmembers : membersRepeatKey es = false ↔ ∀ e ∈ es, e.2.repeatsKey = false := by
    induction es with
    | nil => simp [membersRepeatKey]
    | cons e es ih => rw [membersRepeatKey, Bool.or_eq_false_iff, ih, List.forall_mem_cons]
  rw [repeatsKey, Bool.or_eq_false_iff, hmembers]
  simp

/-- No key is there twice, neither among the entries nor in a table below them. -/
def Distinct (es : Entries) : Prop := (table es).repeatsKey = false

theorem Distinct.nil : Distinct [] := repeatsKey_table.2 ⟨.nil, by simp⟩

theorem Distinct.value (h : Distinct es) (hlookup : lookup? key es = some v) : v.repeatsKey = false :=
  (repeatsKey_table.1 h).2 _ (mem_of_lookup? hlookup)

theorem Distinct.setKey (h : Distinct es) (hv : v.repeatsKey = false) :
    Distinct (Data.setKey key v es) := by
  obtain ⟨hdistinct, hes⟩ := repeatsKey_table.1 h
  exact repeatsKey_table.2 ⟨nodup_setKey hdistinct, forall_setKey hv hes⟩

end Data

namespace Toml

open Data (Distinct repeatsKey_list)
open Text (startsWith)

variable {es es' : Entries} {k : Key} {v : Data}

/-- What is done to a table keeps its keys distinct. -/
def KeepsDistinct (f : Entries → Option Entries) : Prop :=
  ∀ es es', Distinct es → f es = some es' → Distinct es'

theorem keepsDistinct_updateNest {intoArrays : Bool} {f : Entries → Option Entries}
    (hf : KeepsDistinct f) (k : Key) : KeepsDistinct (updateNest intoArrays f k) := by
  induction k with
  | nil => exact hf
  | cons part k ih =>
    intro es es' hes h
    rw [updateNest] at h
    split at h
    · obtain ⟨inner, hinner, rfl⟩ := Option.map_eq_some_iff.1 h
      exact hes.setKey (ih _ _ .nil hinner)
    · next old hlookup =>
      obtain ⟨inner, hinner, rfl⟩ := Option.map_eq_some_iff.1 h
      exact hes.setKey (ih _ _ (hes.value hlookup) hinner)
    · next items hlookup =>
      split at h
      · next old hlast =>
        obtain ⟨inner, hinner, rfl⟩ := Option.map_eq_some_iff.1 h
        have hitems := repeatsKey_list.1 (hes.value hlookup)
        have hold : Distinct old := hitems _ (List.mem_of_getLast? hlast)
        refine hes.setKey (repeatsKey_list.2 (List.forall_mem_append.2 ⟨fun v hv => ?_, ?_⟩))
        · exact hitems v (List.mem_of_mem_dropLast hv)
        · exact List.forall_mem_singleton.2 (ih _ _ hold hinner)
      · cases h
    · cases h

theorem keepsDistinct_appendTable (name : Text) : KeepsDistinct (appendTable name) := by
  intro es es' hes h
  unfold appendTable at h
  simp only at h
  split at h
  · cases h
    exact hes.setKey (repeatsKey_list.2 (List.forall_mem_singleton.2 Distinct.nil))
  · next items hlookup =>
    cases h
    have hitems := repeatsKey_list.1 (hes.value hlookup)
    exact hes.setKey (repeatsKey_list.2 (List.forall_mem_append.2
      ⟨hitems, List.forall_mem_singleton.2 Distinct.nil⟩))
  · cases h

/-- A new entry, as pairs add it. -/
theorem keepsDistinct_setNew {stem : Text} (hv : v.repeatsKey = false) : KeepsDistinct fun nest =>
    if hasKey stem nest then none else some (Data.setKey (WideText.ofText stem) v nest) := by
  intro es es' hes h
  dsimp only at h
  split at h
  · cases h
  · cases h
    exact hes.setKey hv

theorem distinct_addInline {marks : List Mark} (hes : Distinct es) (hv : v.repeatsKey = false)
    (h : addInline marks es k v = .ok es') : Distinct es' := by
  unfold addInline at h
  split at h
  · cases h
  · dsimp only at h
    split at h
    · cases h
    · split at h
      · cases h
      · next hupdate =>
        cases h
        exact keepsDistinct_updateNest (keepsDistinct_setNew hv) _ _ _ hes hupdate

/-! ## Values -/

/-- A reader of values none of which repeats a key. -/
def ReadsDistinct (f : Step Data) : Prop := ∀ c v c', f c = .ok (v, c') → v.repeatsKey = false

theorem exists_int_of_prefixed? {s : Text} {n : Nat} (h : prefixed? s = some (v, n)) :
    ∃ i, v = .int i := by
  have hbase : ∀ {base p s}, inBase? base p s = some (v, n) → ∃ i, v = .int i := by
    intro base p s h
    unfold inBase? at h
    split at h
    · cases h
    · cases h
      exact ⟨_, rfl⟩
  unfold prefixed? at h
  split at h
  · exact hbase h
  · exact hbase h
  · exact hbase h
  · cases h

theorem exists_number_of_decimal? {s : Text} {n : Nat} (h : decimal? s = some (.ok v, n)) :
    (∃ i, v = .int i) ∨ ∃ x, v = .float x := by
  unfold decimal? at h
  extract_lets sign negative t whole rest fraction power length wholeDigits at h
  split at h
  · cases h
  · split at h
    · split at h
      · cases (Prod.mk.inj (Option.some.inj h)).1
      · exact .inl ⟨_, (Except.ok.inj (Prod.mk.inj (Option.some.inj h)).1).symm⟩
    · exact .inr ⟨_, (Except.ok.inj (Prod.mk.inj (Option.some.inj h)).1).symm⟩

theorem readsDistinct_plainValue : ReadsDistinct plainValue := by
  intro c v c' h
  unfold plainValue at h
  split at h
  · cases h
    rfl
  · split at h
    · cases h
      rfl
    · split at h
      · split at h <;> cases h
        rfl
      · split at h
        · cases h
          rfl
        · split at h
          · next hprefixed =>
            cases h
            obtain ⟨i, rfl⟩ := exists_int_of_prefixed? hprefixed
            rfl
          · split at h
            · next hdecimal =>
              obtain ⟨v, rfl, heq⟩ := Json.exists_of_map_ok h
              cases heq
              obtain ⟨i, rfl⟩ | ⟨x, rfl⟩ := exists_number_of_decimal? hdecimal <;> rfl
            · split at h <;> cases h
              rfl

variable {f : Step Data}

theorem ReadsDistinct.pair {fuel : Nat} {c c' : Cursor} (hf : ReadsDistinct f)
    (h : pair fuel f c = .ok ((k, v), c')) : v.repeatsKey = false := by
  unfold Toml.pair at h
  split at h
  · cases h
  · split at h
    · obtain ⟨⟨v, c₁⟩, hread, heq⟩ := Json.exists_of_map_ok h
      cases heq
      exact hf _ _ _ hread
    · cases h

theorem ReadsDistinct.arrayFrom (hf : ReadsDistinct f) {fuel n : Nat} {done vs : List Data}
    {c c' : Cursor} (hdone : ∀ v ∈ done, v.repeatsKey = false)
    (h : arrayFrom fuel f n done c = .ok (vs, c')) : ∀ v ∈ vs, v.repeatsKey = false := by
  induction n generalizing done c with
  | zero => cases h
  | succ n ih =>
    obtain ⟨v, c₁, o, a, x, hitem, -, hrest⟩ := arrayFrom_eq_ok_iff.1 h
    have hdone' : ∀ w ∈ v :: done, w.repeatsKey = false :=
      List.forall_mem_cons.2 ⟨hf _ _ _ hitem, hdone⟩
    rcases hrest with ⟨-, heq⟩ | ⟨-, c₂, -, ⟨p, y, -, heq⟩ | ⟨-, hnext⟩⟩
    · cases heq
      exact fun w hw => hdone' w (List.mem_reverse.1 hw)
    · cases heq
      exact fun w hw => hdone' w (List.mem_reverse.1 hw)
    · exact ih hdone' hnext

theorem ReadsDistinct.inlineFrom (hf : ReadsDistinct f) {fuel n : Nat} {marks : List Mark}
    {c c' : Cursor} (hes : Distinct es) (h : inlineFrom fuel f n marks es c = .ok (es', c')) :
    Distinct es' := by
  induction n generalizing marks es c with
  | zero => cases h
  | succ n ih =>
    obtain ⟨key, v, c₁, es₁, o, a, x, hpair, hadd, -, hrest⟩ := inlineFrom_eq_ok_iff.1 h
    have hes₁ := distinct_addInline hes (hf.pair hpair) hadd
    rcases hrest with ⟨-, heq⟩ | ⟨-, hnext⟩
    · cases heq
      exact hes₁
    · exact ih hes₁ hnext

theorem readsDistinct_valueWith (fuel : Nat) {inner : Option (Step Data)}
    (h : ∀ f ∈ inner, ReadsDistinct f) : ReadsDistinct (valueWith fuel inner) := by
  intro c v c' hread
  obtain ⟨o, x⟩ := c
  unfold valueWith at hread
  split at hread
  · obtain ⟨_, -, heq⟩ := Json.exists_of_map_ok hread
    cases heq
    rfl
  · obtain ⟨_, -, heq⟩ := Json.exists_of_map_ok hread
    cases heq
    rfl
  · next f hx =>
    obtain rfl := hx
    obtain ⟨c₁, -, ⟨p, y, -, heq⟩ | ⟨-, vs, hitems, rfl⟩⟩ := array_eq_ok_iff.1 hread
    · cases heq
      rfl
    · exact repeatsKey_list.2 ((h f rfl).arrayFrom (by simp) hitems)
  · next f hx =>
    obtain rfl := hx
    obtain ⟨c₁, -, ⟨p, y, -, heq⟩ | ⟨-, es, hpairs, rfl⟩⟩ := inline_eq_ok_iff.1 hread
    · cases heq
      exact Distinct.nil
    · exact (h f rfl).inlineFrom .nil hpairs
  · cases hread
  · cases hread
  · exact readsDistinct_plainValue _ _ _ hread

theorem readsDistinct_value (fuel depth : Nat) : ReadsDistinct (value fuel depth) := by
  induction depth with
  | zero => exact readsDistinct_valueWith fuel (by simp)
  | succ depth ih => exact readsDistinct_valueWith fuel (by simpa using ih)

/-! ## Statements -/

variable {d d' : Document} {fuel : Nat} {c c' : Cursor}

theorem distinct_add (hd : Distinct d.entries) (hv : v.repeatsKey = false) (h : d.add k v = .ok d') :
    Distinct d'.entries := by
  simp only [Document.add] at h
  split at h
  · cases h
  · split at h
    · cases h
    · split at h
      · cases h
      · next hupdate =>
        cases h
        exact keepsDistinct_updateNest (keepsDistinct_setNew hv) _ _ _ hd hupdate

theorem distinct_openTable (hd : Distinct d.entries) (h : d.openTable k = .ok d') :
    Distinct d'.entries := by
  simp only [Document.openTable] at h
  split at h
  · cases h
  · split at h
    · cases h
    · next hupdate =>
      cases h
      refine keepsDistinct_updateNest (fun es es' hes heq => ?_) _ _ _ hd hupdate
      cases heq
      exact hes

theorem distinct_openItem (hd : Distinct d.entries) (h : d.openItem k = .ok d') :
    Distinct d'.entries := by
  simp only [Document.openItem] at h
  split at h
  · cases h
  · split at h
    · cases h
    · next hupdate =>
      cases h
      exact keepsDistinct_updateNest (keepsDistinct_appendTable _) _ _ _ hd hupdate

theorem distinct_headerOf {width : Nat} {item : Bool} (hd : Distinct d.entries)
    (h : headerOf fuel d width item c = .ok (d', c')) : Distinct d'.entries := by
  unfold headerOf at h
  split at h
  · cases h
  · split at h
    · cases h
    · next e hopen =>
      have he : Distinct e.entries := by
        cases item
        · exact distinct_openTable hd hopen
        · exact distinct_openItem hd hopen
      rw [ite_eq_iff] at h
      obtain ⟨-, h⟩ | ⟨-, h⟩ := h
      · cases h
        exact he
      · cases h

theorem distinct_header (hd : Distinct d.entries) (h : header fuel d c = .ok (d', c')) :
    Distinct d'.entries := by
  rw [header_eq] at h
  split at h <;> exact distinct_headerOf hd h

theorem distinct_statement (hd : Distinct d.entries) (h : statement fuel d c = .ok (d', c')) :
    Distinct d'.entries := by
  obtain ⟨o, x⟩ := c
  cases x with
  | nil =>
    cases h
    exact hd
  | cons a x =>
    obtain ⟨-, heq⟩ | ⟨-, hheader⟩ | ⟨-, key, v, hadd, hpair⟩ := statement_eq_ok_iff.1 h
    · cases heq
      exact hd
    · exact distinct_header hd hheader
    · exact distinct_add hd ((readsDistinct_value fuel depthLimit).pair hpair) hadd

theorem distinct_statements {n : Nat} (hd : Distinct d.entries)
    (h : statements fuel n d c = .ok d') : Distinct d'.entries := by
  induction n generalizing d c with
  | zero =>
    cases h
    exact hd
  | succ n ih =>
    rw [statements] at h
    split at h
    · cases h
      exact hd
    · exact ih hd h
    · split at h
      · cases h
      · next hstatement =>
        have hd' := distinct_statement hd hstatement
        split at h
        · cases h
        · cases h
          exact hd'
        · exact ih hd' h
        · cases h

/-- No table of a TOML text has a key twice. -/
theorem distinct_read {s : Text} (h : read s = .ok es) : Distinct es := by
  obtain ⟨d, hread, rfl⟩ := read_eq_ok_iff.1 h
  exact distinct_statements .nil hread

end Toml

end ConfigCare
