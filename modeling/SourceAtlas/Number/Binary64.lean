/-!
# Binary floating-point numbers

The non-negative numbers with a significand of 53 bits, as exact values: `m · 2 ^ q` with natural
`m`. `ofRatio` rounds a quotient to the nearest of them, a tie to the one with an even significand,
and every operation is one exact computation followed by that rounding.
-/

set_option autoImplicit false

namespace SourceAtlas

/-- The natural number nearest to `n / d`, a tie going to the even one. -/
def roundDiv (n d : Nat) : Nat :=
  let q := n / d
  let r := n % d
  if 2 * r < d then q else if d < 2 * r then q + 1 else if q % 2 = 0 then q else q + 1

/-- A non-negative number with a significand of 53 bits: `mantissa · 2 ^ exponent`, or infinity. -/
inductive Binary64 where
  | finite (mantissa : Nat) (exponent : Int)
  | infinite
  deriving DecidableEq, Repr

namespace Binary64

/-- The exact quotient `n / d` divided by `2 ^ e`, as a quotient. -/
def scaled (n d : Nat) (e : Int) : Nat × Nat :=
  match e with
  | .ofNat k => (n, d * Nat.pow 2 k)
  | .negSucc k => (n * Nat.pow 2 (k + 1), d)

/-- The exponent for which `n / d`, divided by its power of two, has 53 bits before the point; not
below the least exponent. -/
def exponentOf (n d : Nat) : Int :=
  let guess : Int := (n.log2 : Int) - (d.log2 : Int) - 52
  let (a, b) := scaled n d guess
  let e :=
    if a / b < Nat.pow 2 52 then guess - 1
    else if a / b ≥ Nat.pow 2 53 then guess + 1
    else guess
  max e (-1074)

/-- The number nearest to `n / d`, with a tie to the even significand. -/
def ofRatio (n d : Nat) : Binary64 :=
  if n = 0 then .finite 0 0
  else
    let e := exponentOf n d
    let (a, b) := scaled n d e
    let m := roundDiv a b
    let (m, e) := if m = Nat.pow 2 53 then (Nat.pow 2 52, e + 1) else (m, e)
    if e > 971 then .infinite else .finite m e

/-- The number nearest to `digits · 10 ^ e`. Exponents so large or small that they decide the answer
are not computed with. -/
def ofDecimal (digits : Nat) (e : Int) : Binary64 :=
  if digits = 0 then .finite 0 0
  else
    let size : Int := (Nat.toDigits 10 digits).length
    if size + e > 310 then .infinite
    else if size + e < -330 then .finite 0 0
    else
      match e with
      | .ofNat k => ofRatio (digits * Nat.pow 10 k) 1
      | .negSucc k => ofRatio digits (Nat.pow 10 (k + 1))

/-- The exact value as a quotient. -/
def toRatio (m : Nat) (e : Int) : Nat × Nat :=
  match e with
  | .ofNat k => (m * Nat.pow 2 k, 1)
  | .negSucc k => (m, Nat.pow 2 (k + 1))

/-- The product. -/
def mul : Binary64 → Binary64 → Binary64
  | .finite m e, .finite n f =>
    let (a, b) := toRatio m e
    let (c, d) := toRatio n f
    ofRatio (a * c) (b * d)
  | _, _ => .infinite

/-- The quotient by a number other than zero. -/
def div : Binary64 → Binary64 → Binary64
  | .finite m e, .finite n f =>
    let (a, b) := toRatio m e
    let (c, d) := toRatio n f
    ofRatio (a * d) (b * c)
  | .infinite, _ => .infinite
  | _, .infinite => .finite 0 0

/-- The sum. -/
def add : Binary64 → Binary64 → Binary64
  | .finite m e, .finite n f =>
    let (a, b) := toRatio m e
    let (c, d) := toRatio n f
    ofRatio (a * d + c * b) (b * d)
  | _, _ => .infinite

/-- The number's integer part; zero for infinity. -/
def floor : Binary64 → Nat
  | .finite m e => let (a, b) := toRatio m e; a / b
  | .infinite => 0

/-- The exact value times `10 ^ places`, rounded to the nearest integer, a tie to the even one. -/
def fixedDigits (places : Nat) : Binary64 → Nat
  | .finite m e => let (a, b) := toRatio m e; roundDiv (a * Nat.pow 10 places) b
  | .infinite => 0

/-- The number `n · 10 ^ e` as a quotient. -/
def decimalRatio (n : Nat) (e : Int) : Nat × Nat :=
  match e with
  | .ofNat k => (n * Nat.pow 10 k, 1)
  | .negSucc k => (n, Nat.pow 10 (k + 1))

/-- The number of digits before the point of `a / b`: the `p` with `10 ^ (p - 1) ≤ a / b < 10 ^ p`,
looked for from `p` upwards. -/
def pointFrom (a b : Nat) : Nat → Int → Int
  | 0, p => p
  | fuel + 1, p =>
    let (n, d) := decimalRatio 1 p
    if a * d < n * b then p else pointFrom a b fuel (p + 1)

/-- The candidates with `k` digits next to `a / b`, the nearer first, as numbers of units `10 ^ (p -
k)`. -/
def candidates (a b : Nat) (unit : Int) : List Nat :=
  let (n, d) := decimalRatio 1 unit
  let low := (a * d) / (b * n)
  let rest := (a * d) % (b * n)
  if 2 * rest ≤ b * n then [low, low + 1] else [low + 1, low]

/-- The fewest digits, at least `k` of them, that read back as `m · 2 ^ e`, and the exponent of
their unit. -/
def shortestFrom (m : Nat) (e p : Int) : Nat → Nat → Nat × Int
  | 0, k => (0, p - k)
  | fuel + 1, k =>
    let (a, b) := toRatio m e
    let unit := p - k
    match (candidates a b unit).find? fun n => decide (ofDecimal n unit = .finite m e) with
    | some n => (n, unit)
    | none => shortestFrom m e p fuel (k + 1)

/-- The fewest digits that read back as `m · 2 ^ e`, and the number of them in front of the
point. -/
def shortest (m : Nat) (e : Int) : List Char × Int :=
  if m = 0 then (['0'], 1)
  else
    let (a, b) := toRatio m e
    let low := Int.fdiv (((m.log2 : Int) + e) * 30103) 100000 - 1
    let p := pointFrom a b 5 low
    let (n, unit) := shortestFrom m e p 17 1
    let digits := Nat.toDigits 10 n
    ((digits.reverse.dropWhile (· == '0')).reverse, digits.length + unit)

/-- How a number is written from its shortest digits: positional from `10 ^ -4` to below `10 ^ 16`,
else with an exponent of two digits or more. -/
def shortestText (pointZero : Bool) : Binary64 → List Char
  | .infinite => ['i', 'n', 'f']
  | .finite m e =>
    let (digits, point) := shortest m e
    let count : Int := digits.length
    if point ≤ -4 ∨ 16 < point then
      let power := point - 1
      let size := Nat.toDigits 10 power.natAbs
      let tail :=
        'e' :: (if power < 0 then '-' else '+') :: (List.replicate (2 - size.length) '0' ++ size)
      match digits with
      | [d] => d :: tail
      | d :: ds => d :: '.' :: ds ++ tail
      | [] => tail
    else if point ≤ 0 then '0' :: '.' :: List.replicate (-point).toNat '0' ++ digits
    else if count ≤ point then
      digits ++ List.replicate (point - count).toNat '0' ++ (if pointZero then ['.', '0'] else [])
    else digits.take point.toNat ++ '.' :: digits.drop point.toNat

end Binary64

/-! ## Binary floating-point numbers with a sign

A sign beside a non-negative number of 53 bits. A difference is computed exactly and then rounded
once; the text with fixed places is the exact value rounded once, a tie to the even digit. -/

/-- A number of 53 bits with its sign. -/
structure Real64 where
  negative : Bool
  size : Binary64
  deriving DecidableEq, Repr

namespace Real64

/-- The number nearest to an integer. -/
def ofInt (n : Int) : Real64 := ⟨n < 0, .ofRatio n.natAbs 1⟩

/-- The number nearest to a quotient. -/
def ofRatio (n : Int) (d : Nat) : Real64 := ⟨n < 0, .ofRatio n.natAbs d⟩

/-- The exact value of a finite number as a quotient. -/
def toRatio? (x : Real64) : Option (Int × Nat) :=
  match x.size with
  | .finite m e =>
    let (a, b) := Binary64.toRatio m e
    some (if x.negative then -(a : Int) else a, b)
  | .infinite => none

/-- The difference. -/
def sub (x y : Real64) : Real64 :=
  match x.toRatio?, y.toRatio? with
  | some (a, b), some (c, d) => ofRatio (a * d - c * b) (b * d)
  | none, _ => x
  | some _, none => { y with negative := !y.negative }

/-- The product with a number that is not negative. -/
def scale (x : Real64) (factor : Binary64) : Real64 := { x with size := x.size.mul factor }

/-- The value of decimal digits; other characters are passed over. -/
def digitsValue (cs : List Char) : Nat :=
  cs.foldl (fun n c => if c.isDigit then 10 * n + (c.toNat - 48) else n) 0

/-- The number nearest to a decimal numeral: a sign, digits, and possibly a point with more digits
and an exponent behind the letter e. Any other text stands for infinity. -/
def ofNumeral (text : List Char) : Real64 :=
  let negative := text.head? == some '-'
  let lower := (if negative then text.drop 1 else text).map Char.toLower
  let mantissa := lower.takeWhile (· != 'e')
  let power := lower.drop (mantissa.length + 1)
  let whole := mantissa.takeWhile (· != '.')
  let fraction := mantissa.drop (whole.length + 1)
  if !(whole ++ fraction).all Char.isDigit then ⟨negative, .infinite⟩
  else
    let size : Int := digitsValue power
    let exponent := if power.head? == some '-' then -size else size
    ⟨negative, .ofDecimal (digitsValue (whole ++ fraction)) (exponent - fraction.length)⟩

/-- The text with a fixed number of places behind the point. -/
def fixedText (places : Nat) (x : Real64) : String :=
  let sign := if x.negative then "-" else ""
  match x.size with
  | .infinite => sign ++ "inf"
  | .finite _ _ =>
    let digits := Nat.toDigits 10 (x.size.fixedDigits places)
    let padded := List.replicate (places + 1 - digits.length) '0' ++ digits
    let whole := padded.take (padded.length - places)
    let rest := padded.drop (padded.length - places)
    sign ++ String.ofList (if places = 0 then whole else whole ++ '.' :: rest)

end Real64

end SourceAtlas
