import ConfigCare.Number.Binary64
import ConfigCare.Text.Wide
/-!
The values that configuration data is made of: what a JSON text or a TOML file denotes, and what
a setting can be given.
-/

namespace ConfigCare

structure Date where
  year : Nat
  month : Nat
  day : Nat
deriving DecidableEq

structure TimeOfDay where
  hour : Nat
  minute : Nat
  second : Nat
  microsecond : Nat
deriving DecidableEq

/-- A date, a time of day, or both, then possibly with the distance from UTC in minutes. -/
inductive Moment where
  | day (d : Date)
  | time (t : TimeOfDay)
  | floating (d : Date) (t : TimeOfDay)
  | fixed (d : Date) (t : TimeOfDay) (offset : Int)
deriving DecidableEq

/-- A table keeps its entries in the order in which their keys were first written. -/
inductive Data where
  | null
  | bool (b : Bool)
  | int (n : Int)
  | float (x : Binary64)
  | text (s : WideText)
  | moment (m : Moment)
  | list (items : List Data)
  | table (entries : List (WideText × Data))

/-- The entries of a table. -/
abbrev Entries := List (WideText × Data)

namespace Data

instance : Inhabited Data := ⟨.null⟩

/-- The table with a key set to a value: an old key keeps its place, a new one comes last. -/
def setKey {α β : Type} [DecidableEq α] (key : α) (value : β) : List (α × β) → List (α × β)
  | [] => [(key, value)]
  | (k, v) :: rest => if k = key then (k, value) :: rest else (k, v) :: setKey key value rest

/-- The table that members written one after another make. -/
def ofMembers {α β : Type} [DecidableEq α] (members : List (α × β)) : List (α × β) :=
  members.foldl (fun entries m => setKey m.1 m.2 entries) []

def lookup? {α β : Type} [DecidableEq α] (key : α) : List (α × β) → Option β
  | [] => none
  | (k, v) :: rest => if k = key then some v else lookup? key rest

mutual

/-- A value over another one. Two tables are merged, entry by entry; anything else replaces what was
there. -/
def overlay (old : Option Data) : Data → Data
  | .table new =>
    match old with
    | some (.table es) => .table (mergeInto es new)
    | _ => .table new
  | d => d

/-- The entries of a table over those of another. -/
def mergeInto (es : Entries) : Entries → Entries
  | [] => es
  | (k, v) :: rest => mergeInto (setKey k (overlay (lookup? k es) v) es) rest

end

end Data

end ConfigCare
