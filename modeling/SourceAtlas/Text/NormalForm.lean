import Std.Data.HashMap
import SourceAtlas.Text.Cut
import SourceAtlas.Text.NormalTable
import SourceAtlas.Text.Packed
import SourceAtlas.Text.Ranges

/-!
# Compatibility normal form

Two texts name the same identifier when their compatibility normal forms agree: characters are
decomposed, combining marks are put in the order of their classes, and what composes is composed
again. Hangul syllables are decomposed and composed by arithmetic.
-/

set_option autoImplicit false

namespace SourceAtlas.Text.NormalForm

/-- An entry of a table: code points, and what they are mapped to. -/
structure Entry where
  keys : List Nat
  values : List Nat

/-- Reader state: the entries so far, the keys once the sign behind them is read, the numbers of the
list being read, the last first, and the number being read. -/
structure Reader where
  done : Array Entry
  keys : Option (List Nat)
  numbers : List Nat
  value : Nat

/-- The entry is read. -/
def Reader.close (r : Reader) : Reader :=
  ⟨r.done.push ⟨r.keys.getD [], (r.value :: r.numbers).reverse⟩, none, [], 0⟩

/-- Reads one character. -/
def Reader.step (r : Reader) (c : Char) : Reader :=
  match hexDigit? c with
  | some d => { r with value := r.value * 16 + d }
  | none =>
    if c == ' ' || c == '-' then { r with numbers := r.value :: r.numbers, value := 0 }
    else if c == '@' then
      { r with keys := some (r.value :: r.numbers).reverse, numbers := [], value := 0 }
    else r.close

/-- The texts of the tables. -/
def tables : List (List Char) :=
  splitOn '|' (Packed.unpack NormalTable.length NormalTable.packed)

/-- The entries of a table. -/
def entries (table : Nat) : Array Entry :=
  ((tables.getD table []).foldl Reader.step ⟨#[], none, [], 0⟩).close.done

/-- The rows of entries with one key each. The key of an entry without one follows the key before
it. -/
def rows (es : Array Entry) : Array (Nat × List Nat) :=
  (es.foldl
    (fun (rows, next) e =>
      let key := e.keys.headD next
      (rows.push (key, e.values), key + 1))
    (#[], 0)).1

/-- Decompositions by code point, with a zero in front of two code points that do not compose. -/
def decompositions : Std.HashMap Nat (List Nat) := .ofArray (rows (entries 0))

/-- Combining classes by code point. -/
def classes : Std.HashMap Nat Nat :=
  .ofArray ((entries 1).flatMap fun e =>
    let low := e.keys.headD 0
    let high := e.keys.getLastD 0
    ((List.range (high + 1 - low)).map fun i => (low + i, e.values.headD 0)).toArray)

/-- The code points that stand for two. -/
def compositions : Std.HashMap (Nat × Nat) Nat :=
  .ofList (decompositions.toList.filterMap fun
    | (n, [a, b]) => some ((a, b), n)
    | _ => none)

/-- First syllable, first leading consonant, first vowel, and the code point before the first
trailing consonant of Hangul. -/
def hangul : Nat × Nat × Nat × Nat := (0xAC00, 0x1100, 0x1161, 0x11A7)

/-- The decomposition of a code point, whose parts are decomposed in turn at most `fuel` times. -/
def decomposeBy : (fuel : Nat) → Nat → List Nat
  | 0, n => [n]
  | fuel + 1, n =>
    let (s, l, v, t) := hangul
    if n < 128 then [n]
    else if s ≤ n ∧ n < s + 11172 then
      let i := n - s
      let head := [l + i / 588, v + (i % 588) / 28]
      if i % 28 = 0 then head else head ++ [t + i % 28]
    else
      match decompositions[n]? with
      | none => [n]
      | some parts => (parts.filter (· != 0)).flatMap (decomposeBy fuel)

/-- The decomposition of a code point. None has to be decomposed more than three times. -/
def decompose (n : Nat) : List Nat := decomposeBy 3 n

/-- The combining class of a code point. -/
def combiningClass (n : Nat) : Nat := if n < 128 then 0 else classes[n]?.getD 0

/-- The code point that stands for two. -/
def compose? (a b : Nat) : Option Nat :=
  let (s, l, v, t) := hangul
  if l ≤ a ∧ a < l + 19 ∧ v ≤ b ∧ b < v + 21 then some (s + ((a - l) * 21 + (b - v)) * 28)
  else if s ≤ a ∧ a < s + 11172 ∧ (a - s) % 28 = 0 ∧ t < b ∧ b < t + 28 then some (a + (b - t))
  else compositions[(a, b)]?

/-- Puts a mark of class `k` into a run of marks in ascending order of class, behind those of its
own class. -/
def insertMark (k n : Nat) : List (Nat × Nat) → List (Nat × Nat)
  | [] => [(k, n)]
  | (j, m) :: rest => if j ≤ k then (j, m) :: insertMark k n rest else (k, n) :: (j, m) :: rest

/-- Puts each run of combining marks in the order of its classes; `run` is the run being read. -/
def order : List (Nat × Nat) → List Nat → List Nat
  | run, [] => run.map Prod.snd
  | run, n :: ns =>
    let k := combiningClass n
    if k = 0 then run.map Prod.snd ++ n :: order [] ns else order (insertMark k n run) ns

/-- Composes the code points behind a starter: the starter so far, what stays behind it, the last
first, and the class of the last of those. -/
def composeFrom (starter : Nat) (kept : List Nat) (lastClass : Nat) : List Nat → List Nat
  | [] => starter :: kept.reverse
  | n :: ns =>
    let k := combiningClass n
    let blocked := !kept.isEmpty && (lastClass == 0 || lastClass ≥ k)
    match if blocked then none else compose? starter n with
    | some c => composeFrom c kept lastClass ns
    | none =>
      if k = 0 then starter :: kept.reverse ++ composeFrom n [] 0 ns
      else composeFrom starter (n :: kept) k ns

/-- Composes an ordered sequence; marks in front of the first starter stay. -/
def composeAll : List Nat → List Nat
  | [] => []
  | n :: ns => if combiningClass n = 0 then composeFrom n [] 0 ns else n :: composeAll ns

/-- The normal form of a text. -/
def ofText (cs : List Char) : List Char :=
  if cs.all (·.toNat < 128) then cs
  else (composeAll (order [] (cs.flatMap fun c => decompose c.toNat))).map Char.ofNat

end SourceAtlas.Text.NormalForm
