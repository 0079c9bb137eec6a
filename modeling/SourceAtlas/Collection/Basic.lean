/-!
# Sets, tables and slices

A set of names is a list in which no name stands twice; answers show sets in the order of code
points. A table holds one value per name, in the order in which the names came first, and giving a
name a new value keeps its place. A slice is the part of a list between two positions, of which a
negative one counts from the end and those beyond either end stop there.
-/

set_option autoImplicit false

namespace SourceAtlas

/-! ## Sets of names -/

/-- A list without repetitions, read as a set. -/
abbrev Names := List String

namespace Names

/-- The set with one more name. -/
def insert (names : Names) (name : String) : Names :=
  if names.contains name then names else names ++ [name]

/-- The set with more names. -/
def insertAll (names : Names) (more : List String) : Names := more.foldl insert names

/-- The names of a list, each once, in order of first occurrence. -/
def ofList (names : List String) : Names := insertAll [] names

/-- Names in the order of code points. -/
def sorted (names : List String) : List String := names.mergeSort fun a b => a ≤ b

end Names

/-! ## Tables -/

/-- A table from names to values, in order of first entry. -/
abbrev Assoc (β : Type) := List (String × β)

namespace Assoc

variable {β : Type}

/-- The value of a name. -/
def get? (t : Assoc β) (key : String) : Option β := t.lookup key

/-- The name has a value. -/
def has (t : Assoc β) (key : String) : Bool := (t.get? key).isSome

/-- The names of the table, in order. -/
def keys (t : Assoc β) : List String := t.map Prod.fst

/-- The table with `value` for the name, which keeps its place or comes last. -/
def put : Assoc β → String → β → Assoc β
  | [], key, value => [(key, value)]
  | (k, v) :: t, key, value => if k == key then (k, value) :: t else (k, v) :: put t key value

/-- The table without the name. -/
def erase (t : Assoc β) (key : String) : Assoc β := t.filter (·.1 != key)

/-- The table of pairs entered one after the other. -/
def ofPairs (pairs : List (String × β)) : Assoc β := pairs.foldl (fun t (k, v) => t.put k v) []

end Assoc

/-! ## Slices -/

/-- The index in a list of length `n` that a position stands for. -/
def sliceIndex (n : Nat) (position : Int) : Nat :=
  if position < 0 then (position + n).toNat else min position.toNat n

/-- The items from position `first` up to, and not including, position `last`. -/
def slice {α : Type} (items : List α) (first last : Int) : List α :=
  let low := sliceIndex items.length first
  let high := sliceIndex items.length last
  (items.drop low).take (high - low)

/-- The first `limit` items; a limit that is not positive is none. -/
def limited {α : Type} (limit : Int) (items : List α) : List α :=
  if limit > 0 then items.take limit.toNat else items

end SourceAtlas
