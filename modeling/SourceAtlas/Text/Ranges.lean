/-!
# Character ranges

A property of characters beyond ASCII is kept as an ascending array of code point ranges, and
`RangeTable.mem` looks a code point up by binary search. A table is written as the lengths of runs
of characters, by turns without the property and with it, from U+0080 on. A length stands in octal
digits, all but the last of them raised by eight, so that one hexadecimal number holds a row of
lengths. `RangeTable.ofRows` reads the rows.
-/

set_option autoImplicit false

namespace SourceAtlas.Text

/-- The value of a hexadecimal digit. -/
def hexDigit? (c : Char) : Option Nat :=
  if '0' ≤ c ∧ c ≤ '9' then some (c.toNat - 48)
  else if 'a' ≤ c ∧ c ≤ 'f' then some (c.toNat - 87)
  else if 'A' ≤ c ∧ c ≤ 'F' then some (c.toNat - 55)
  else none

/-- Ascending, disjoint ranges of code points, ends included. -/
structure RangeTable where
  ranges : Array (Nat × Nat)

namespace RangeTable

/-- The digits of a hexadecimal number of at most `fuel` digits, in front of others. -/
def digitsOnto (digits : List Nat) : (fuel : Nat) → Nat → List Nat
  | 0, _ => digits
  | fuel + 1, n => if n = 0 then digits else digitsOnto (n % 16 :: digits) fuel (n / 16)

/-- The lengths that digits stand for, of which `value` has been read. -/
def lengths (value : Nat) : List Nat → List Nat
  | [] => []
  | d :: ds => if d < 8 then (8 * value + d) :: lengths 0 ds else lengths (8 * value + (d - 8)) ds

/-- The ranges from `start` on that runs of these lengths make up. -/
def rangesFrom (start : Nat) : List Nat → List (Nat × Nat)
  | absent :: present :: rest =>
    (start + absent, start + absent + present - 1) :: rangesFrom (start + absent + present) rest
  | _ => []

/-- The ranges of a table in rows of at most 120 digits. -/
def listOfRows (rows : List Nat) : List (Nat × Nat) :=
  rangesFrom 0x80 (lengths 0 (rows.flatMap (digitsOnto [] 120)))

/-- The table in rows. -/
def ofRows (rows : List Nat) : RangeTable := ⟨(listOfRows rows).toArray⟩

/-- Binary search among the ranges from `lo` to `hi` (excluded), halving at most `fuel` times. -/
def search (t : RangeTable) (n : Nat) : Nat → Nat → Nat → Option (Nat × Nat)
  | 0, _, _ => none
  | fuel + 1, lo, hi =>
    if lo < hi then
      let mid := (lo + hi) / 2
      match t.ranges[mid]? with
      | none => none
      | some (a, b) =>
        if n < a then search t n fuel lo mid
        else if b < n then search t n fuel (mid + 1) hi
        else some (a, b)
    else none

/-- The range of a code point. -/
def find? (t : RangeTable) (n : Nat) : Option (Nat × Nat) :=
  t.search n (t.ranges.size + 1) 0 t.ranges.size

/-- Is the code point in the table? -/
def mem (t : RangeTable) (n : Nat) : Bool := (t.find? n).isSome

end RangeTable

end SourceAtlas.Text
