import ConfigCare.Proofs.TomlTables
import ConfigCare.Settings.Load

/-! Where the value of a setting comes from. What a TOML file says of a section is put over what the
variables with two underscores say, and both over the variables of the section by itself; so for each field
there is a first source that gives it, whatever the others are given by. -/

namespace ConfigCare

namespace Data

/-! ## Tables put over others -/

section

variable {α β : Type} [DecidableEq α] {key k : α} {value v : β} {es es' : List (α × β)}

theorem lookup?_eq_none_iff : lookup? k es = none ↔ k ∉ es.map Prod.fst := by
  induction es with
  | nil => simp [lookup?]
  | cons e es ih =>
    rw [lookup?, List.map_cons, List.mem_cons, not_or, ← ih]
    split
    · next heq => simp [heq]
    · next hne => simp [Ne.symm hne]

theorem lookup?_append : lookup? k (es ++ es') = (lookup? k es).or (lookup? k es') := by
  induction es with
  | nil => rfl
  | cons e es ih =>
    rw [List.cons_append, lookup?, lookup?]
    split
    · rfl
    · exact ih

/-- A new key comes last; for an old one the first entry that is looked for stays, unless it is its own. -/
theorem find?_setKey {p : α → Bool} (h : p k = true → lookup? k es = none) :
    (setKey k v es).find? (fun e => p e.1) =
      (es.find? fun e => p e.1).or (if p k then some (k, v) else none) := by
  induction es with
  | nil => cases hp : p k <;> simp [setKey, hp]
  | cons e es ih =>
    obtain ⟨k', v'⟩ := e
    unfold setKey
    unfold lookup? at h
    split
    · next heq =>
      subst heq
      have hp : p k' = false := Bool.eq_false_iff.2 fun hp => by simpa using h hp
      simp [hp]
    · next hne =>
      rw [if_neg hne] at h
      rw [List.find?_cons, List.find?_cons]
      cases p k' with
      | true => rfl
      | false => exact ih h

end

variable {es new : Entries} {k : WideText} {v : Data}

theorem overlay_none (v : Data) : overlay none v = v := by
  cases v <;> rfl

theorem mergeInto_cons (es : Entries) (k : WideText) (v : Data) (rest : Entries) :
    mergeInto es ((k, v) :: rest) = mergeInto (setKey k (overlay (lookup? k es) v) es) rest := by
  rw [mergeInto]

theorem nodup_mergeInto (h : (es.map Prod.fst).Nodup) : ((mergeInto es new).map Prod.fst).Nodup := by
  induction new generalizing es with
  | nil => exact h
  | cons e new ih => exact mergeInto_cons .. ▸ ih (nodup_setKey h)

/-- Under a key of the new table stands its value over the old one, and else the old one. -/
theorem lookup?_mergeInto (h : (new.map Prod.fst).Nodup) :
    lookup? k (mergeInto es new) =
      match lookup? k new with
      | none => lookup? k es
      | some v => some (overlay (lookup? k es) v) := by
  induction new generalizing es with
  | nil => rfl
  | cons e new ih =>
    obtain ⟨k', v⟩ := e
    rw [List.map_cons, List.nodup_cons] at h
    rw [mergeInto_cons, ih h.2, lookup?]
    by_cases hk : k' = k
    · subst hk
      rw [if_pos rfl, lookup?_eq_none_iff.2 h.1, lookup?_setKey_self]
    · rw [if_neg hk, lookup?_setKey_of_ne (Ne.symm hk)]

/-- Old entries come first, then the new ones in their order. -/
theorem find?_mergeInto {p : WideText → Bool} (hnew : (new.map Prod.fst).Nodup)
    (h : ∀ k ∈ new.map Prod.fst, p k = true → lookup? k es = none) :
    (mergeInto es new).find? (fun e => p e.1) =
      (es.find? fun e => p e.1).or (new.find? fun e => p e.1) := by
  induction new generalizing es with
  | nil => rw [mergeInto, List.find?_nil, Option.or_none]
  | cons e new ih =>
    obtain ⟨k, v⟩ := e
    rw [List.map_cons, List.nodup_cons] at hnew
    rw [List.map_cons, List.forall_mem_cons] at h
    have hrest : ∀ k' ∈ new.map Prod.fst, p k' = true →
        lookup? k' (setKey k (overlay (lookup? k es) v) es) = none := by
      intro k' hk' hp
      have hne : k' ≠ k := by
        rintro rfl
        exact hnew.1 hk'
      rw [lookup?_setKey_of_ne hne]
      exact h.2 k' hk' hp
    rw [mergeInto_cons, ih hnew.2 hrest, find?_setKey h.1, List.find?_cons, Option.or_assoc]
    cases hp : p k with
    | true => simp [h.1 hp, overlay_none]
    | false => simp

theorem mergeInto_eq_append (h : ((es ++ new).map Prod.fst).Nodup) : mergeInto es new = es ++ new := by
  induction new generalizing es with
  | nil => rw [mergeInto, List.append_nil]
  | cons e new ih =>
    obtain ⟨k, v⟩ := e
    have hnew : k ∉ es.map Prod.fst := by
      rw [List.map_append, List.nodup_append] at h
      exact fun hk => h.2.2 k hk k (by simp) rfl
    rw [mergeInto_cons, lookup?_eq_none_iff.2 hnew, overlay_none, setKey_eq_append _ hnew,
      ih (by simpa using h), List.append_assoc, List.singleton_append]

/-- A value that another one was put over is still that value, unless both are tables. -/
def Over (d v : Data) : Prop := d = v ∨ ∃ es, d = .table es

theorem over_overlay (old : Option Data) (v : Data) : Over (overlay old v) v := by
  cases v with
  | table es =>
    cases old with
    | none => exact .inr ⟨_, rfl⟩
    | some d => cases d <;> exact .inr ⟨_, rfl⟩
  | _ => exact .inl rfl

theorem Over.overlay {d v : Data} (h : Over d v) (old : Option Data) : Over (overlay old d) v := by
  rcases over_overlay old d with heq | htable
  · rwa [heq]
  · exact .inr htable

end Data

namespace Settings

open Data (lookup? mergeInto setKey Over)
open WideText (ofText)

/-! ## Fields and keys -/

/-- Fields with names of their own, which are in lower case and have no two underscores in a row. -/
structure WellNamed (fields : List Field) : Prop where
  distinct : (fields.map Field.name).Nodup
  lower : ∀ f ∈ fields, Text.lower f.name = f.name
  whole : ∀ f ∈ fields, nameParts f.name = [f.name]

theorem ofText_inj {a b : Text} : ofText a = ofText b ↔ a = b :=
  List.map_inj_right fun _ _ h => by cases h; rfl

theorem isNamed_ofText {f : Field} {n : Text} : f.isNamed (ofText n) = true ↔ Text.lower n = f.name := by
  simp [Field.isNamed, WideText.text?, Except.toOption]

variable {α : Type} {fields : List Field} {f : Field} {es n t : Entries} {env : Environment}

/-- What stands under a key that differs from the name of a field in case only, or is the name. -/
def otherCase (f : Field) (es : Entries) : Option Data :=
  (es.find? fun e => f.isNamed e.1).map Prod.snd

/-- What entries give for a field. -/
def found (f : Field) (es : Entries) : Option Data := (lookup? (ofText f.name) es).or (otherCase f es)

/-- The entries of those names that have a value. -/
def assigned (values : List (Text × Option Data)) : Entries :=
  values.filterMap fun e => e.2.map fun d => (ofText e.1, d)

variable {values : List (Text × Option Data)}

theorem assigned_cons (name : Text) (value : Option Data) (values : List (Text × Option Data)) :
    assigned ((name, value) :: values) =
      (value.toList.map fun d => (ofText name, d)) ++ assigned values := by
  rw [assigned, List.filterMap_cons]
  cases value <;> rfl

theorem keys_assigned_sublist (values : List (Text × Option Data)) :
    ((assigned values).map Prod.fst).Sublist (values.map fun e => ofText e.1) := by
  induction values with
  | nil => exact .slnil
  | cons e values ih =>
    obtain ⟨name, value⟩ := e
    rw [assigned_cons]
    cases value with
    | none => exact ih.cons _
    | some d => exact ih.cons_cons _

theorem lookup?_assigned (h : (values.map fun e => ofText e.1).Nodup) {name : Text} {value : Option Data}
    (hmem : (name, value) ∈ values) : lookup? (ofText name) (assigned values) = value := by
  induction values with
  | nil => cases hmem
  | cons e values ih =>
    obtain ⟨n, v⟩ := e
    rw [List.map_cons, List.nodup_cons] at h
    rw [assigned_cons, Data.lookup?_append]
    rcases List.mem_cons.1 hmem with heq | hmem
    · cases heq
      have hrest : lookup? (ofText name) (assigned values) = none :=
        Data.lookup?_eq_none_iff.2 fun hmem => h.1 ((keys_assigned_sublist _).subset hmem)
      cases value <;> simp [lookup?, hrest]
    · have hne : ofText n ≠ ofText name := fun heq => h.1 (List.mem_map.2 ⟨_, hmem, heq.symm⟩)
      rw [ih h.2 hmem]
      cases v <;> simp [lookup?, hne]

theorem WellNamed.nodup_keys (h : WellNamed fields) (value : Field → Option Data) :
    ((fields.map fun f => (f.name, value f)).map fun e => ofText e.1).Nodup := by
  have hkeys := h.distinct.map fun _ _ heq => ofText_inj.1 heq
  rwa [List.map_map] at hkeys ⊢

/-- A field that has a value has it in the table of all fields. -/
theorem WellNamed.lookup?_assigned (h : WellNamed fields) (value : Field → Option Data) (hf : f ∈ fields) :
    lookup? (ofText f.name) (assigned (fields.map fun f => (f.name, value f))) = value f :=
  Settings.lookup?_assigned (h.nodup_keys value) (List.mem_map_of_mem hf)

/-- Keys that mean fields are put under the names of these, the others stay behind. -/
theorem given_eq (fields : List Field) (es : Entries) :
    given fields es = assigned (fields.map fun f => (f.name, found f es)) ++
      es.filter fun e => !fields.any fun f => f.isNamed e.1 := by
  rw [given, assigned, List.filterMap_map]
  congr 2
  funext f
  simp only [found, otherCase, Function.comp_apply]
  cases lookup? (ofText f.name) es with
  | some d => rfl
  | none => cases es.find? fun e => f.isNamed e.1 <;> rfl

/-- No key that stays behind is the name of a field. -/
theorem WellNamed.not_mem_others (h : WellNamed fields) (hf : f ∈ fields) :
    ofText f.name ∉ (es.filter fun e => !fields.any fun f => f.isNamed e.1).map Prod.fst := by
  intro hmem
  obtain ⟨e, he, hkey⟩ := List.mem_map.1 hmem
  have hnot := (List.mem_filter.1 he).2
  have hany : (fields.any fun f => f.isNamed e.1) = true :=
    List.any_eq_true.2 ⟨f, hf, hkey ▸ isNamed_ofText.2 (h.lower f hf)⟩
  rw [hany] at hnot
  cases hnot

theorem WellNamed.lookup?_given (h : WellNamed fields) (hf : f ∈ fields) :
    lookup? (ofText f.name) (given fields es) = found f es := by
  rw [given_eq, Data.lookup?_append, h.lookup?_assigned (found · es) hf,
    Data.lookup?_eq_none_iff.2 (h.not_mem_others hf), Option.or_none]

theorem WellNamed.nodup_given (h : WellNamed fields) (hes : (es.map Prod.fst).Nodup) :
    ((given fields es).map Prod.fst).Nodup := by
  rw [given_eq, List.map_append, List.nodup_append]
  have hassigned := keys_assigned_sublist (fields.map fun f => (f.name, found f es))
  refine ⟨(h.nodup_keys (found · es)).sublist hassigned, hes.sublist (List.filter_sublist.map _), ?_⟩
  rintro _ hk _ hk' rfl
  obtain ⟨e, he, rfl⟩ := List.mem_map.1 (hassigned.subset hk)
  obtain ⟨f, hf, rfl⟩ := List.mem_map.1 he
  exact h.not_mem_others hf hk'

/-! ## Variables -/

/-- The value of a variable for a field of a section by itself. -/
def ownDecoded (f : Field) (value : Text) : Except VariableError Data :=
  if f.isList then decoded f.name value else .ok (.text (ofText value))

/-- What the variable for a field of a section by itself gives. A JSON null gives nothing. -/
def ownGiven (start : Text) (env : Environment) (f : Field) : Option Data :=
  (env.get? (start ++ f.name)).bind fun value =>
    match ownDecoded f value with
    | .ok .null => none
    | .ok d => some d
    | .error _ => none

/-- What the variable for a field behind two underscores gives. -/
def nestedGiven (owner start : Text) (fields : List Field) (env : Environment) (f : Field) : Option Data :=
  (env.get? (start ++ f.name)).bind fun value => (nestedValue owner fields [f.name] value).toOption

variable {start owner : Text}

theorem ownValues_eq_ok (h : ownValues start env fields = .ok es) :
    es = assigned (fields.map fun f => (f.name, ownGiven start env f)) := by
  induction fields generalizing es with
  | nil =>
    cases h
    rfl
  | cons f fields ih =>
    rw [List.map_cons, assigned_cons, ownGiven]
    rw [ownValues] at h
    cases hget : env.get? (start ++ f.name) with
    | none =>
      rw [hget] at h
      exact ih h
    | some value =>
      rw [hget] at h
      have hdecoded : ownDecoded f value =
        if f.isList then decoded f.name value else .ok (.text (ofText value)) := rfl
      simp only [← hdecoded] at h
      simp only [Option.bind_some]
      split at h
      · cases h
      · next hnull =>
        rw [hnull]
        exact ih h
      · next d hne hd =>
        obtain ⟨rest, hrest, rfl⟩ := Json.exists_of_map_ok h
        rw [ih hrest, hd]
        cases d <;> first | exact (hne rfl).elim | rfl

/-- What the nested variables of a section give, when no key is there that is not a field. -/
structure Nested (owner start : Text) (fields : List Field) (env : Environment) (n : Entries) : Prop where
  distinct : (n.map Prod.fst).Nodup
  named : ∀ k ∈ n.map Prod.fst, ∃ f ∈ fields, k = ofText f.name
  lookup : ∀ f ∈ fields, lookup? (ofText f.name) n = nestedGiven owner start fields env f

/-- Every variable behind the two underscores of a section is for one of its fields. -/
def NestedFields (start : Text) (fields : List Field) (env : Environment) : Prop :=
  ∀ v ∈ env, ∀ rest ∈ Text.dropStart? start v.1, ∃ f ∈ fields, f.name = rest

instance (start : Text) (fields : List Field) (env : Environment) :
    Decidable (NestedFields start fields env) :=
  inferInstanceAs (Decidable (∀ v ∈ env, ∀ rest ∈ Text.dropStart? start v.1, _))

theorem get?_cons {name n value : Text} :
    Environment.get? ((name, value) :: env) n = if name = n then some value else env.get? n := rfl

theorem nestedValues_eq_ok (hfields : WellNamed fields) (henv : (env.map Prod.fst).Nodup)
    (hplain : NestedFields start fields env) (hes : (es.map Prod.fst).Nodup)
    (hnamed : ∀ k ∈ es.map Prod.fst, ∃ f ∈ fields, k = ofText f.name)
    (h : nestedValues owner start fields es env = .ok n) :
    (n.map Prod.fst).Nodup ∧ (∀ k ∈ n.map Prod.fst, ∃ f ∈ fields, k = ofText f.name) ∧
      ∀ f ∈ fields, lookup? (ofText f.name) n =
        (nestedGiven owner start fields env f).or (lookup? (ofText f.name) es) := by
  induction env generalizing es with
  | nil =>
    cases h
    exact ⟨hes, hnamed, fun f _ => rfl⟩
  | cons v env ih =>
    obtain ⟨name, value⟩ := v
    rw [List.map_cons, List.nodup_cons] at henv
    have hplain' : NestedFields start fields env := fun v hv => hplain v (List.mem_cons_of_mem _ hv)
    rw [nestedValues] at h
    split at h
    · next hstart =>
      obtain ⟨hdistinct, hkeys, hlookup⟩ := ih henv.2 hplain' hes hnamed h
      refine ⟨hdistinct, hkeys, fun f hf => ?_⟩
      have hne : name ≠ start ++ f.name := by
        rintro rfl
        rw [Text.dropStart?_append] at hstart
        cases hstart
      rw [hlookup f hf, nestedGiven, nestedGiven, get?_cons, if_neg hne]
    · next rest hstart =>
      -- The variable sets a field, and none after it sets that one again.
      obtain ⟨g, hg, rfl⟩ := hplain _ List.mem_cons_self _ hstart
      obtain rfl := Text.eq_append_of_dropStart? hstart
      dsimp only at h
      rw [hfields.whole g hg] at h
      split at h
      · cases h
      · next d hd =>
        have hnamed' : ∀ k ∈ (setKey (ofText g.name) d es).map Prod.fst, ∃ f ∈ fields, k = ofText f.name :=
          List.forall_mem_map.2 (Data.forall_setKey ⟨g, hg, rfl⟩ fun e he =>
            hnamed _ (List.mem_map_of_mem he))
        obtain ⟨hdistinct, hkeys, hlookup⟩ := ih henv.2 hplain' (Data.nodup_setKey hes) hnamed' h
        refine ⟨hdistinct, hkeys, fun f hf => ?_⟩
        rw [hlookup f hf, nestedGiven, nestedGiven, get?_cons]
        by_cases hname : f.name = g.name
        · have hnone : Environment.get? env (start ++ g.name) = none := Data.lookup?_eq_none_iff.2 henv.1
          rw [hname, if_pos rfl, hnone, Data.lookup?_setKey_self, Option.bind_some, hd]
          rfl
        · rw [if_neg (by simpa using Ne.symm hname),
            Data.lookup?_setKey_of_ne fun heq => hname (ofText_inj.1 heq)]

/-- Keys that are the names of fields keep their names. -/
theorem WellNamed.fieldNames_eq (h : WellNamed fields) (hes : (es.map Prod.fst).Nodup)
    (hnamed : ∀ k ∈ es.map Prod.fst, ∃ f ∈ fields, k = ofText f.name) : fieldNames fields es = es := by
  refine (congrArg Data.ofMembers (List.map_congr_left (g := id) fun e he => ?_)).trans ?_
  · obtain ⟨f, hf, hkey⟩ := hnamed _ (List.mem_map_of_mem he)
    cases hfind : fields.find? fun f => f.isNamed e.1 with
    | none => rfl
    | some g =>
      have hnames : g.isNamed e.1 = true := List.find?_some (p := fun f : Field => f.isNamed e.1) hfind
      rw [hkey, isNamed_ofText, h.lower f hf] at hnames
      change (ofText g.name, e.2) = e
      rw [← hnames, ← hkey]
  · rw [List.map_id, Data.ofMembers_eq_self hes]

/-- Without a variable for all of a section, the nested ones make its value. -/
theorem sectionValue_eq_ok (hfields : WellNamed fields) (henv : (env.map Prod.fst).Nodup)
    (hwhole : env.get? (start ++ owner) = none)
    (hplain : NestedFields (start ++ owner ++ ['_', '_']) fields env) {value : Option Data}
    (h : sectionValue start owner fields env = .ok value) :
    ∃ n, Nested owner (start ++ owner ++ ['_', '_']) fields env n ∧
      (n = [] ∧ value = none ∨ value = some (.table n)) := by
  unfold sectionValue at h
  rw [hwhole] at h
  dsimp only at h
  cases hnested : nestedValues owner (start ++ owner ++ ['_', '_']) fields [] env with
  | error e =>
    rw [hnested] at h
    cases h
  | ok n =>
    obtain ⟨hdistinct, hnamed, hlookup⟩ :=
      nestedValues_eq_ok hfields henv hplain (by simp) (by simp) hnested
    refine ⟨n, ⟨hdistinct, hnamed, fun f hf => by rw [hlookup f hf]; exact Option.or_none⟩, ?_⟩
    rw [hnested] at h
    cases n with
    | nil =>
      cases h
      exact .inl ⟨rfl, rfl⟩
    | cons e n =>
      simp only at h
      rw [hfields.fieldNames_eq hdistinct hnamed] at h
      cases h
      exact .inr rfl

/-! ## Sections -/

theorem otherCase_mergeInto (hfields : WellNamed fields) (ht : (t.map Prod.fst).Nodup)
    (hnamed : ∀ k ∈ n.map Prod.fst, ∃ f ∈ fields, k = ofText f.name)
    (hnone : lookup? (ofText f.name) n = none) : otherCase f (mergeInto n t) = otherCase f t := by
  have hn : ∀ k ∈ n.map Prod.fst, f.isNamed k ≠ true := by
    rintro _ hk hnames
    obtain ⟨g, hg, rfl⟩ := hnamed _ hk
    rw [isNamed_ofText, hfields.lower g hg] at hnames
    exact Data.lookup?_eq_none_iff.1 hnone (hnames ▸ hk)
  have hfirst : (n.find? fun e => f.isNamed e.1) = none :=
    List.find?_eq_none.2 fun e he => hn _ (List.mem_map_of_mem he)
  rw [otherCase, Data.find?_mergeInto ht fun k _ hk => Data.lookup?_eq_none_iff.2 fun hmem => hn k hmem hk,
    hfirst, Option.none_or, otherCase]

namespace Section

variable {s : Section α} {a : α}

/-- What gives the value of a field: what the TOML file has under the name of the field, else the variable
behind two underscores, else what the file has under a key that differs from the name in case only, else
the variable behind one underscore. -/
def source (s : Section α) (env : Environment) (t : Entries) (f : Field) : Option Data :=
  (lookup? (ofText f.name) t).or
    ((nestedGiven s.name (variablePrefix ++ s.name ++ ['_', '_']) s.fields env f).or
      ((otherCase f t).or (ownGiven (variablePrefix ++ s.name ++ ['_']) env f)))

/-- The values that a section is checked with are those of the first sources; only tables may have been
put over others. -/
theorem exists_values (hfields : WellNamed s.fields) (ht : (t.map Prod.fst).Nodup)
    (hn : Nested s.name (variablePrefix ++ s.name ++ ['_', '_']) s.fields env n)
    (h : s.read env (mergeInto n t) = .ok a) :
    ∃ values, s.check values = .ok a ∧ ∀ f ∈ s.fields,
      Option.Rel Over (lookup? (ofText f.name) values) (s.source env t f) := by
  unfold read at h
  split at h
  · cases h
  · next own hown =>
    dsimp only at h
    split at h
    · next hcheck hunknown =>
      cases h
      refine ⟨_, hcheck, fun f hf => ?_⟩
      have hgiven : ((given s.fields (mergeInto n t)).map Prod.fst).Nodup :=
        hfields.nodup_given (Data.nodup_mergeInto hn.distinct)
      rw [Data.lookup?_mergeInto hgiven, hfields.lookup?_given hf, found, Data.lookup?_mergeInto ht,
        hn.lookup f hf, ownValues_eq_ok hown, hfields.lookup?_assigned _ hf, source]
      -- From here one case for each source, the first that gives something; what lies behind it has been
      -- put below.
      cases lookup? (ofText f.name) t with
      | some d => exact .some ((Data.over_overlay _ d).overlay _)
      | none =>
        cases hnested : nestedGiven s.name (variablePrefix ++ s.name ++ ['_', '_']) s.fields env f with
        | some d => exact .some (Data.over_overlay _ d)
        | none =>
          rw [otherCase_mergeInto hfields ht hn.named ((hn.lookup f hf).trans hnested)]
          cases otherCase f t with
          | some d => exact .some (Data.over_overlay _ d)
          | none =>
            cases ownGiven (variablePrefix ++ s.name ++ ['_']) env f with
            | some d => exact .some (.inl rfl)
            | none => exact .none
    · cases h
    · cases h

end Section

/-! ## All settings -/

/-- The entries of a value that is a table. -/
def tableOf : Option Data → Entries
  | some (.table es) => es
  | _ => []

/-- What a file says of a section: its table, under its name or else under the first key that differs from
it in case only. -/
def sectionTable (name : Text) (es : Entries) : Entries := tableOf (found ⟨name, false⟩ es)

theorem nodup_sectionTable (name : Text) (h : Data.Distinct es) :
    ((sectionTable name es).map Prod.fst).Nodup := by
  have hfound : ∀ d, found ⟨name, false⟩ es = some d → d.repeatsKey = false := by
    intro d hd
    rcases Option.or_eq_some_iff.1 hd with hkey | ⟨-, hother⟩
    · exact h.value hkey
    · obtain ⟨e, he, rfl⟩ := Option.map_eq_some_iff.1 hother
      exact (Data.repeatsKey_table.1 h).2 e (List.mem_of_find?_eq_some he)
  rw [sectionTable]
  cases hd : found ⟨name, false⟩ es with
  | none => exact .nil
  | some d =>
    cases d with
    | table t => exact (Data.repeatsKey_table.1 (hfound _ hd)).1
    | _ => exact .nil

variable {s : Section α} {subject : Text} {value : Option Data} {a : α}

theorem sectionOf_eq_ok (h : sectionOf s subject env value = .ok (.ok a)) :
    (value = none ∨ ∃ es, value = some (.table es)) ∧ s.read env (tableOf value) = .ok a := by
  unfold sectionOf at h
  split at h
  · split at h
    · next hread =>
      cases h
      exact ⟨.inl rfl, hread⟩
    · cases h
    · cases h
  · next es =>
    split at h
    · next hread =>
      cases h
      exact ⟨.inr ⟨es, rfl⟩, hread⟩
    · cases h
    · cases h
    · cases h
  · cases h

theorem exists_of_bind_ok {ε β γ : Type} {x : Except ε β} {f : β → Except ε γ} {c : γ}
    (h : x >>= f = .ok c) : ∃ b, x = .ok b ∧ f b = .ok c := by
  cases x with
  | error => cases h
  | ok b => exact ⟨b, rfl, h⟩

theorem variableValues_eq_ok {vars : Entries} (h : variableValues env = .ok vars) :
    sectionValue variablePrefix scannerSection.name scannerSection.fields env =
        .ok (lookup? (ofText scannerSection.name) vars) ∧
      sectionValue variablePrefix formatterSection.name formatterSection.fields env =
        .ok (lookup? (ofText formatterSection.name) vars) ∧
      sectionValue variablePrefix loggingSection.name loggingSection.fields env =
        .ok (lookup? (ofText loggingSection.name) vars) := by
  unfold variableValues at h
  obtain ⟨scanner, hscanner, h⟩ := exists_of_bind_ok h
  obtain ⟨formatter, hformatter, h⟩ := exists_of_bind_ok h
  obtain ⟨logging, hlogging, h⟩ := exists_of_bind_ok h
  cases h
  have hkeys : ([Text.lit "concurrency", scannerSection.name, formatterSection.name,
    loggingSection.name].map ofText).Nodup := by decide
  refine ⟨hscanner.trans (congrArg Except.ok (lookup?_assigned ?_ ?_).symm),
    hformatter.trans (congrArg Except.ok (lookup?_assigned ?_ ?_).symm),
    hlogging.trans (congrArg Except.ok (lookup?_assigned ?_ ?_).symm)⟩
  all_goals first | exact hkeys | simp

/-- The variables that are looked at: none for all of a section, and those behind its two underscores are
for its fields. -/
structure Plain (s : Section α) (env : Environment) : Prop where
  whole : env.get? (variablePrefix ++ s.name) = none
  nested : NestedFields (variablePrefix ++ s.name ++ ['_', '_']) s.fields env

theorem wellNamed_topFields : WellNamed topFields := ⟨by decide, by decide, by decide⟩

/-- A section is checked with what the first sources give for its fields. -/
theorem exists_values_of_sectionOf (hfields : WellNamed s.fields) (henv : (env.map Prod.fst).Nodup)
    (hplain : Plain s env) (hes : Data.Distinct es) (htop : ⟨s.name, false⟩ ∈ topFields)
    {vars : Entries}
    (hvars : sectionValue variablePrefix s.name s.fields env = .ok (lookup? (ofText s.name) vars))
    (h : sectionOf s subject env (lookup? (ofText s.name) (mergeInto vars (given topFields es))) =
      .ok (.ok a)) :
    ∃ values, s.check values = .ok a ∧ ∀ f ∈ s.fields,
      Option.Rel Over (lookup? (ofText f.name) values) (s.source env (sectionTable s.name es) f) := by
  obtain ⟨n, hn, hnested⟩ := sectionValue_eq_ok hfields henv hplain.whole hplain.nested hvars
  have ht := nodup_sectionTable s.name hes
  have hgiven := wellNamed_topFields.nodup_given (Data.repeatsKey_table.1 hes).1
  have hfound : lookup? (ofText s.name) (given topFields es) = found ⟨s.name, false⟩ es :=
    wellNamed_topFields.lookup?_given htop
  obtain ⟨htable, hread⟩ := sectionOf_eq_ok h
  refine Section.exists_values (n := n) hfields ht hn ?_
  rw [Data.lookup?_mergeInto hgiven, hfound] at htable hread
  generalize lookup? (ofText s.name) vars = value at hnested htable hread
  rw [sectionTable] at ht ⊢
  cases hd : found ⟨s.name, false⟩ es with
  | none =>
    rw [hd] at hread
    obtain ⟨rfl, rfl⟩ | rfl := hnested <;> exact hread
  | some d =>
    rw [hd] at hread htable ht
    cases d with
    | table t =>
      obtain ⟨rfl, rfl⟩ | rfl := hnested
      · rw [tableOf] at ht ⊢
        rwa [Data.mergeInto_eq_append (by simpa using ht), List.nil_append]
      · exact hread
    | _ =>
      -- No table, and nothing that a section could be read from.
      obtain hnone | ⟨_, htable⟩ := htable
      · cases hnone
      · cases htable

/-- A field has the value that its source gives, as the check of the field takes it, or else its default. -/
def Obtains {β : Type} (source : Option Data) (check : Data → Schema.Checked β) (default value : β) : Prop :=
  match source with
  | none => value = default
  | some d => check d = .ok value

instance {β : Type} [DecidableEq β] (source : Option Data) (check : Data → Schema.Checked β)
    (default value : β) : Decidable (Obtains source check default value) :=
  match source with
  | none => inferInstanceAs (Decidable (value = default))
  | some d => inferInstanceAs (Decidable (check d = .ok value))

section

variable {β γ : Type} {check : Data → Schema.Checked β} {default b : β}

theorem within_eq_ok {x : Schema.Checked β} {place : Schema.Step} : x.within place = .ok b ↔ x = .ok b := by
  cases x <;> simp [Schema.Checked.within]

theorem withDefault_eq_ok {name : String} :
    Schema.withDefault es name check default = .ok b ↔
      Obtains (lookup? (ofText name.toList) es) check default b := by
  unfold Schema.withDefault Schema.entry? Obtains
  cases lookup? (ofText name.toList) es with
  | none => exact ⟨fun h => (Except.ok.inj h).symm, fun h => congrArg _ h.symm⟩
  | some d => exact within_eq_ok

theorem apply_eq_ok {g : Schema.Checked (β → γ)} {x : Schema.Checked β} {c : γ} :
    g.apply x = .ok c ↔ ∃ k b, g = .ok k ∧ x = .ok b ∧ k b = c := by
  cases g <;> cases x <;> simp [Schema.Checked.apply]

/-- Where tables are refused, what is obtained has not been put over a table. -/
theorem Obtains.of_over {d v : Option Data} (hrefused : ∀ es b, check (.table es) ≠ .ok b)
    (hover : Option.Rel Over d v) (h : Obtains d check default b) : Obtains v check default b := by
  cases hover with
  | none => exact h
  | some hover =>
    obtain rfl | ⟨es, rfl⟩ := hover
    · exact h
    · exact absurd h (hrefused es b)

end

/-- The entries of a file of settings, if it can be read. Without a file there are none. -/
def fileEntries (disk : Files.Disk) (file : Option Files.Path) : Option Entries :=
  match file.bind fun p => (disk.find? p).map fun _ => p with
  | none => some []
  | some p => (disk.read p).toOption.bind fun content =>
    (Utf8.decode content).toOption.bind fun text => (Toml.read text).toOption

theorem ok_of_mapError {ε ε' β : Type} {x : Except ε β} {f : ε → ε'} {b : β}
    (h : x.mapError f = .ok b) : x = .ok b := by
  cases x with
  | error => cases h
  | ok =>
    cases h
    rfl

theorem load_eq_ok {disk : Files.Disk} {file : Option Files.Path} {settings : Settings}
    (h : load env disk file = .ok settings) :
    ∃ es, fileEntries disk file = some es ∧ Data.Distinct es ∧ read env es = .ok settings := by
  cases hfile : file.bind fun p => (disk.find? p).map fun _ => p with
  | none =>
    rw [load, hfile] at h
    exact ⟨[], by rw [fileEntries, hfile], .nil, ok_of_mapError h⟩
  | some p =>
    rw [load, hfile] at h
    rw [fileEntries, hfile]
    cases hcontent : disk.read p with
    | error =>
      simp only [hcontent] at h
      cases h
    | ok content =>
      cases htext : Utf8.decode content with
      | error =>
        simp only [hcontent, htext] at h
        cases h
      | ok t =>
        cases hes : Toml.read t with
        | error =>
          simp only [hcontent, htext, ofToml, hes] at h
          cases h
        | ok es =>
          simp only [hcontent, htext, ofToml, hes] at h
          refine ⟨es, ?_, Toml.distinct_read hes, ok_of_mapError h⟩
          dsimp only
          rw [hcontent, Except.toOption, Option.bind_some, htext, Except.toOption, Option.bind_some, hes,
            Except.toOption]

theorem read_eq_ok {settings : Settings} (h : read env es = .ok settings) :
    ∃ vars, variableValues env = .ok vars ∧
      let value (name : Text) := lookup? (ofText name) (mergeInto vars (given topFields es))
      sectionOf scannerSection (Text.lit "ScannerSettings") env (value scannerSection.name) =
        .ok (.ok settings.scanner) ∧
      sectionOf formatterSection (Text.lit "FormatterSettings") env (value formatterSection.name) =
        .ok (.ok settings.formatter) ∧
      sectionOf loggingSection (Text.lit "LoggingSettings") env (value loggingSection.name) =
        .ok (.ok settings.logging) := by
  unfold read at h
  split at h
  · cases h
  · next vars hvars =>
    dsimp only at h
    refine ⟨vars, hvars, ?_⟩
    intro value
    obtain ⟨scanner, hscanner, h⟩ := exists_of_bind_ok h
    obtain ⟨formatter, hformatter, h⟩ := exists_of_bind_ok h
    obtain ⟨logging, hlogging, h⟩ := exists_of_bind_ok h
    split at h
    · next hchecked =>
      cases h
      obtain ⟨_, l, h₁, rfl, rfl⟩ := apply_eq_ok.1 hchecked
      obtain ⟨_, f, h₂, rfl, rfl⟩ := apply_eq_ok.1 h₁
      obtain ⟨_, s, h₃, rfl, rfl⟩ := apply_eq_ok.1 h₂
      obtain ⟨_, c, h₄, -, rfl⟩ := apply_eq_ok.1 h₃
      cases h₄
      exact ⟨hscanner, hformatter, hlogging⟩
    · cases h

/-! ## The fields of each section -/

theorem text_table (es : Entries) (s : Text) : Schema.text (.table es) ≠ .ok s := nofun

theorem optional_table (es : Entries) (s : Option Text) : Schema.optional Schema.text (.table es) ≠ .ok s :=
  nofun

theorem list_table (es : Entries) (ss : List Text) : Schema.list 0 Schema.text (.table es) ≠ .ok ss := nofun

theorem truth_table (es : Entries) (b : Bool) : Schema.truth (.table es) ≠ .ok b := nofun

theorem wellNamed_scanner : WellNamed scannerSection.fields := ⟨by decide, by decide, by decide⟩

theorem wellNamed_formatter : WellNamed formatterSection.fields := ⟨by decide, by decide, by decide⟩

theorem wellNamed_logging : WellNamed loggingSection.fields := ⟨by decide, by decide, by decide⟩

open Schema (text truth optional list)

theorem check_scanner {vs : Entries} {a : Scanner} (h : scannerSection.check vs = .ok a) :
    Obtains (lookup? (ofText (Text.lit "patterns_file")) vs) text Scanner.default.patternsFile
        a.patternsFile ∧
      Obtains (lookup? (ofText (Text.lit "report_file")) vs) text Scanner.default.reportFile
        a.reportFile := by
  obtain ⟨_, r, h₁, hreport, rfl⟩ := apply_eq_ok.1 h
  obtain ⟨_, p, hmk, hpatterns, rfl⟩ := apply_eq_ok.1 h₁
  cases hmk
  exact ⟨withDefault_eq_ok.1 hpatterns, withDefault_eq_ok.1 hreport⟩

theorem check_formatter {vs : Entries} {a : Formatter} (h : formatterSection.check vs = .ok a) :
    Obtains (lookup? (ofText (Text.lit "extensions")) vs) (list 0 text) Formatter.default.extensions
        a.extensions ∧
      Obtains (lookup? (ofText (Text.lit "ignore_globs")) vs) (list 0 text) Formatter.default.ignoreGlobs
        a.ignoreGlobs ∧
      Obtains (lookup? (ofText (Text.lit "strict_jsonc")) vs) truth Formatter.default.strict a.strict := by
  obtain ⟨_, t, h₂, hstrict, rfl⟩ := apply_eq_ok.1 h
  obtain ⟨_, i, h₁, hignored, rfl⟩ := apply_eq_ok.1 h₂
  obtain ⟨_, e, hmk, hextensions, rfl⟩ := apply_eq_ok.1 h₁
  cases hmk
  exact ⟨withDefault_eq_ok.1 hextensions, withDefault_eq_ok.1 hignored, withDefault_eq_ok.1 hstrict⟩

theorem check_logging {vs : Entries} {a : Logging} (h : loggingSection.check vs = .ok a) :
    Obtains (lookup? (ofText (Text.lit "level")) vs) text Logging.default.level a.level ∧
      Obtains (lookup? (ofText (Text.lit "format")) vs) text Logging.default.format a.format ∧
      Obtains (lookup? (ofText (Text.lit "file")) vs) (optional text) Logging.default.file a.file := by
  obtain ⟨_, p, h₂, hfile, rfl⟩ := apply_eq_ok.1 h
  obtain ⟨_, f, h₁, hformat, rfl⟩ := apply_eq_ok.1 h₂
  obtain ⟨_, l, hmk, hlevel, rfl⟩ := apply_eq_ok.1 h₁
  cases hmk
  exact ⟨withDefault_eq_ok.1 hlevel, withDefault_eq_ok.1 hformat, withDefault_eq_ok.1 hfile⟩

/-- What the first source gives for a field of a section, by a file with those entries and variables. -/
def Section.firstSource (s : Section α) (env : Environment) (es : Entries) (f : Field) : Option Data :=
  s.source env (sectionTable s.name es) f

/-- Every field of each section has the value of its first source, whatever gives the others theirs. -/
theorem load_takes_first_sources {vars : List (Text × Text)} {disk : Files.Disk}
    {file : Option Files.Path} {settings : Settings} (hscanner : Plain scannerSection (.ofVariables vars))
    (hformatter : Plain formatterSection (.ofVariables vars))
    (hlogging : Plain loggingSection (.ofVariables vars))
    (h : load (.ofVariables vars) disk file = .ok settings) :
    ∃ es, fileEntries disk file = some es ∧
      (let source := scannerSection.firstSource (.ofVariables vars) es
      Obtains (source ⟨Text.lit "patterns_file", false⟩) text Scanner.default.patternsFile
          settings.scanner.patternsFile ∧
        Obtains (source ⟨Text.lit "report_file", false⟩) text Scanner.default.reportFile
          settings.scanner.reportFile) ∧
      (let source := formatterSection.firstSource (.ofVariables vars) es
      Obtains (source ⟨Text.lit "extensions", true⟩) (list 0 text) Formatter.default.extensions
          settings.formatter.extensions ∧
        Obtains (source ⟨Text.lit "ignore_globs", true⟩) (list 0 text) Formatter.default.ignoreGlobs
          settings.formatter.ignoreGlobs ∧
        Obtains (source ⟨Text.lit "strict_jsonc", false⟩) truth Formatter.default.strict
          settings.formatter.strict) ∧
      (let source := loggingSection.firstSource (.ofVariables vars) es
      Obtains (source ⟨Text.lit "level", false⟩) text Logging.default.level settings.logging.level ∧
        Obtains (source ⟨Text.lit "format", false⟩) text Logging.default.format settings.logging.format ∧
        Obtains (source ⟨Text.lit "file", false⟩) (optional text) Logging.default.file
          settings.logging.file) := by
  obtain ⟨es, hfile, hes, hread⟩ := load_eq_ok h
  obtain ⟨given, hgiven, hscan, hform, hlog⟩ := read_eq_ok hread
  obtain ⟨hs, hf, hl⟩ := variableValues_eq_ok hgiven
  have henv := Data.nodup_ofMembers (vars.map fun v => (Text.lower v.1, v.2))
  obtain ⟨scanner, hcheck₁, hsources₁⟩ :=
    exists_values_of_sectionOf wellNamed_scanner henv hscanner hes (by simp [topFields]) hs hscan
  obtain ⟨formatter, hcheck₂, hsources₂⟩ :=
    exists_values_of_sectionOf wellNamed_formatter henv hformatter hes (by simp [topFields]) hf hform
  obtain ⟨logging, hcheck₃, hsources₃⟩ :=
    exists_values_of_sectionOf wellNamed_logging henv hlogging hes (by simp [topFields]) hl hlog
  obtain ⟨hpatterns, hreport⟩ := check_scanner hcheck₁
  obtain ⟨hextensions, hignored, hstrict⟩ := check_formatter hcheck₂
  obtain ⟨hlevel, hformat, hlogfile⟩ := check_logging hcheck₃
  refine ⟨es, hfile, ⟨?_, ?_⟩, ⟨?_, ?_, ?_⟩, ?_, ?_, ?_⟩
  · exact .of_over text_table (hsources₁ _ (.head _)) hpatterns
  · exact .of_over text_table (hsources₁ _ (.tail _ (.head _))) hreport
  · exact .of_over list_table (hsources₂ _ (.head _)) hextensions
  · exact .of_over list_table (hsources₂ _ (.tail _ (.head _))) hignored
  · exact .of_over truth_table (hsources₂ _ (.tail _ (.tail _ (.head _)))) hstrict
  · exact .of_over text_table (hsources₃ _ (.head _)) hlevel
  · exact .of_over text_table (hsources₃ _ (.tail _ (.head _))) hformat
  · exact .of_over optional_table (hsources₃ _ (.tail _ (.tail _ (.head _)))) hlogfile


open Text in
/-- A file, variables behind two underscores and variables behind one say something each. -/
theorem load_takes_first_sources_of_three :
    let vars := [(lit "CFGW_SCANNER__PATTERNS_FILE", lit "two.json"),
      (lit "CFGW_SCANNER_PATTERNS_FILE", lit "one.json"), (lit "CFGW_SCANNER_REPORT_FILE", lit "one.json"),
      (lit "CFGW_FORMATTER__EXTENSIONS", lit "[\".b\"]"), (lit "CFGW_LOGGING__LEVEL", lit "ERROR"),
      (lit "CFGW_LOGGING_FORMAT", lit "json")]
    let content := Utf8.encode (lit "[logging]\nlevel = 'INFO'\n")
    let disk : Files.Disk := ⟨.folder [(lit "c.toml", .file content)], []⟩
    let file := some (Files.Path.ofText (lit "c.toml"))
    ∃ es, fileEntries disk file = some es ∧
      (let source := scannerSection.firstSource (.ofVariables vars) es
      Obtains (source ⟨lit "patterns_file", false⟩) text Scanner.default.patternsFile (lit "two.json") ∧
        Obtains (source ⟨lit "report_file", false⟩) text Scanner.default.reportFile (lit "one.json")) ∧
      (let source := formatterSection.firstSource (.ofVariables vars) es
      Obtains (source ⟨lit "extensions", true⟩) (list 0 text) Formatter.default.extensions [lit ".b"]) ∧
      (let source := loggingSection.firstSource (.ofVariables vars) es
      Obtains (source ⟨lit "level", false⟩) text Logging.default.level (lit "INFO") ∧
        Obtains (source ⟨lit "format", false⟩) text Logging.default.format (lit "json") ∧
        Obtains (source ⟨lit "file", false⟩) (optional text) Logging.default.file none) := by
  intro vars content disk file
  have hload : (load (.ofVariables vars) disk file).toOption =
    some ⟨1, ⟨lit "two.json", lit "one.json"⟩, { Formatter.default with extensions := [lit ".b"] },
      ⟨lit "INFO", lit "json", none⟩⟩ := by decide +kernel
  cases hresult : load (.ofVariables vars) disk file with
  | error =>
    rw [hresult] at hload
    cases hload
  | ok settings =>
    rw [hresult] at hload
    cases hload
    obtain ⟨es, hes, hscanner, ⟨hextensions, -⟩, hlogging⟩ := load_takes_first_sources
      ⟨by decide +kernel, by decide +kernel⟩ ⟨by decide +kernel, by decide +kernel⟩
      ⟨by decide +kernel, by decide +kernel⟩ hresult
    exact ⟨es, hes, hscanner, hextensions, hlogging⟩

/-- The source of a field if keys counted by their exact names only, and a JSON null like other values. -/
def Section.plainSource (s : Section α) (env : Environment) (es : Entries) (f : Field) : Option Data :=
  (lookup? (ofText f.name) (sectionTable s.name es)).or
    ((nestedGiven s.name (variablePrefix ++ s.name ++ ['_', '_']) s.fields env f).or
      ((env.get? (variablePrefix ++ s.name ++ ['_'] ++ f.name)).bind fun value =>
        (ownDecoded f value).toOption))

open Text in
/-- A null in a variable leaves the default, and a key in another case sets its field. -/
theorem load_differs_from_plainSource :
    let env := Environment.ofVariables [(lit "CFGW_FORMATTER_EXTENSIONS", lit "null")]
    let content := Utf8.encode (lit "[scanner]\nPatterns_File = 'toml'")
    let disk : Files.Disk := ⟨.folder [(lit "c.toml", .file content)], []⟩
    let file := some (Files.Path.ofText (lit "c.toml"))
    Plain scannerSection env ∧ Plain formatterSection env ∧ Plain loggingSection env ∧
      ∃ settings, (load env disk file).toOption = some settings ∧ ∀ es, fileEntries disk file = some es →
        ¬ Obtains (formatterSection.plainSource env es ⟨lit "extensions", true⟩) (list 0 text)
            Formatter.default.extensions settings.formatter.extensions ∧
          ¬ Obtains (scannerSection.plainSource env es ⟨lit "patterns_file", false⟩) text
            Scanner.default.patternsFile settings.scanner.patternsFile := by
  intro env content disk file
  refine ⟨⟨by decide +kernel, by decide +kernel⟩, ⟨by decide +kernel, by decide +kernel⟩,
    ⟨by decide +kernel, by decide +kernel⟩,
    { Settings.default with scanner := { Scanner.default with patternsFile := lit "toml" } },
    by decide +kernel, fun es hes => ?_⟩
  have hboth : ((fileEntries disk file).map fun es =>
      decide (Obtains (formatterSection.plainSource env es ⟨lit "extensions", true⟩) (list 0 text)
        Formatter.default.extensions Formatter.default.extensions) ||
      decide (Obtains (scannerSection.plainSource env es ⟨lit "patterns_file", false⟩) text
        Scanner.default.patternsFile (lit "toml"))) = some false := by decide +kernel
  rw [hes, Option.map_some, Option.some_inj, Bool.or_eq_false_iff, decide_eq_false_iff_not,
    decide_eq_false_iff_not] at hboth
  exact hboth

end Settings

end ConfigCare
