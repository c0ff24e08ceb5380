import Mathlib.Tactic
import ConfigCare.Files.Tree

/-! Reading and writing at the places of a tree. Where a file lies, another content can be written, and
then that place holds it while every other place reads as before: `write_of_read`. A tree is proper if
no folder holds two entries of one name, as no folder of a disk does; a path made of the names of its
entries leads to the place of these names. -/

namespace ConfigCare

namespace Data

variable {α β : Type} [DecidableEq α] {key k : α} {value v : β} {es : List (α × β)}

@[simp] theorem lookup?_setKey_self (key : α) (value : β) (es : List (α × β)) :
    lookup? key (setKey key value es) = some value := by
  induction es with
  | nil => simp [setKey, lookup?]
  | cons e es ih =>
    obtain ⟨k, v⟩ := e
    unfold setKey
    split
    · next hk => simp [lookup?, hk]
    · next hk => simpa [lookup?, hk] using ih

theorem lookup?_setKey_of_ne (h : k ≠ key) (value : β) (es : List (α × β)) :
    lookup? k (setKey key value es) = lookup? k es := by
  induction es with
  | nil => simp [setKey, lookup?, h.symm]
  | cons e es ih =>
    obtain ⟨k', v⟩ := e
    unfold setKey
    split
    · next hk => simp [lookup?, hk, h.symm]
    · simp only [lookup?, ih]

theorem lookup?_of_mem (hdistinct : (es.map Prod.fst).Nodup) (h : (k, v) ∈ es) :
    lookup? k es = some v := by
  induction es with
  | nil => cases h
  | cons e es ih =>
    obtain ⟨k', v'⟩ := e
    rw [List.map_cons, List.nodup_cons] at hdistinct
    unfold lookup?
    rcases List.mem_cons.1 h with heq | hmem
    · cases heq
      exact if_pos rfl
    · have hk : k ∈ es.map Prod.fst := List.mem_map_of_mem hmem
      rw [if_neg, ih hdistinct.2 hmem]
      rintro rfl
      exact hdistinct.1 hk

theorem mem_of_lookup? (h : lookup? k es = some v) : (k, v) ∈ es := by
  induction es with
  | nil => cases h
  | cons e es ih =>
    obtain ⟨k', v'⟩ := e
    unfold lookup? at h
    split at h
    · next hk =>
      cases h
      exact hk ▸ List.mem_cons_self
    · exact List.mem_cons_of_mem _ (ih h)

end Data

namespace Files.Entry

open Data (lookup? setKey)

variable {place : List Text} {content b : Bytes} {e : Entry}

/-- No folder holds two entries of one name. -/
inductive Proper : Entry → Prop where
  | file (content : Bytes) : Proper (.file content)
  | folder {es : List (Text × Entry)} (hdistinct : (es.map Prod.fst).Nodup)
    (h : ∀ e ∈ es, Proper e.2) : Proper (.folder es)

theorem find_append (a b : List Text) (e : Entry) : find (a ++ b) e = (find a e).bind (find b) := by
  induction a generalizing e with
  | nil => rfl
  | cons n ns ih =>
    cases e with
    | file => rfl
    | folder es =>
      simp only [List.cons_append, find]
      cases lookup? n es with
      | none => rfl
      | some e => exact ih e

theorem read_eq_ok_iff : read place e = .ok content ↔ find place e = .ok (.file content) := by
  unfold read
  cases hfind : find place e with
  | error => simp
  | ok found => cases found <;> simp

theorem read_append {a b : List Text} {e e' : Entry} (h : find a e = .ok e') :
    read (a ++ b) e = read b e' := by
  rw [read, find_append, h]
  rfl

theorem read_cons (n : Text) (ns : List Text) (es : List (Text × Entry)) :
    read (n :: ns) (.folder es) =
      match lookup? n es with
      | none => .error .missing
      | some e => read ns e := by
  rw [read, find]
  cases lookup? n es <;> rfl

theorem exists_of_read_cons {n : Text} {ns : List Text} (h : read (n :: ns) e = .ok content) :
    ∃ es e', e = .folder es ∧ lookup? n es = some e' ∧ read ns e' = .ok content := by
  cases e with
  | file => cases h
  | folder es =>
    rw [read_cons] at h
    cases hlookup : lookup? n es with
    | none => rw [hlookup] at h; cases h
    | some e' =>
      rw [hlookup] at h
      exact ⟨es, e', rfl, hlookup, h⟩

/-- Where a file lies, another content can be written, and nothing else is changed. -/
theorem write_of_read (h : read place e = .ok content) (b : Bytes) :
    ∃ e', write b place e = .ok e' ∧
      ∀ p, read p e' = if p = place then .ok b else read p e := by
  induction place generalizing e with
  | nil =>
    cases e with
    | folder => cases h
    | file =>
      refine ⟨.file b, rfl, fun p => ?_⟩
      cases p <;> rfl
  | cons n ns ih =>
    obtain ⟨es, e₁, rfl, hlookup, hread⟩ := exists_of_read_cons h
    obtain ⟨e₁', hwrite, hframe⟩ := ih hread
    refine ⟨.folder (setKey n e₁' es), by rw [write, hlookup]; simp only [hwrite]; rfl, fun p => ?_⟩
    cases p with
    | nil => rfl
    | cons m ms =>
      rw [read_cons, read_cons]
      by_cases hm : m = n
      · subst hm
        rw [Data.lookup?_setKey_self, hlookup]
        simp only [hframe, List.cons.injEq, true_and]
      · rw [Data.lookup?_setKey_of_ne hm, if_neg (by simp [hm])]

/-! ## Names -/

/-- What can name an entry of a folder: it is not empty, has no slash in it, and stands neither for the
folder itself nor for the one above. -/
structure IsEntryName (name : Text) : Prop where
  ne_nil : name ≠ []
  noSlash : '/' ∉ name
  notHere : name ≠ ['.']
  notAbove : name ≠ Path.parentName

/-- Every entry of every folder is named as one can be. -/
inductive Named : Entry → Prop where
  | file (content : Bytes) : Named (.file content)
  | folder {es : List (Text × Entry)} (hnames : ∀ e ∈ es, IsEntryName e.1)
    (h : ∀ e ∈ es, Named e.2) : Named (.folder es)

theorem Named.isEntryName {e' : Entry} (h : e.Named) (hfind : find place e = .ok e') :
    ∀ n ∈ place, IsEntryName n := by
  induction h generalizing place with
  | file content =>
    cases place with
    | nil => simp
    | cons n ns => cases hfind
  | @folder es hnames _ ih =>
    cases place with
    | nil => simp
    | cons n ns =>
      rw [find] at hfind
      split at hfind
      · cases hfind
      · next e hlookup =>
        have hmem := Data.mem_of_lookup? hlookup
        exact List.forall_mem_cons.2 ⟨hnames _ hmem, ih _ hmem hfind⟩

/-- A path without double dots leads to the place that its names tell. -/
theorem follow_eq (h : Path.parentName ∉ place) (e : Entry) (done : List Text) :
    follow e done place = .ok (done ++ place) := by
  induction place generalizing done with
  | nil => rw [follow, List.append_nil]
  | cons n ns ih =>
    rw [List.mem_cons, not_or] at h
    rw [follow, if_neg (Ne.symm h.1), ih h.2, List.append_assoc, List.singleton_append]

end Files.Entry

/-- All files lie in one folder. No folder holds two entries of one name, and every entry has a name. -/
structure Files.Disk.Proper (d : Files.Disk) : Prop where
  folder : d.tree.isFile = false
  distinct : d.tree.Proper
  named : d.tree.Named

end ConfigCare
