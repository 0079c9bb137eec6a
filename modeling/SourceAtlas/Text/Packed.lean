/-!
# Packed texts

A long text is kept as one number. Its letters are read bit by bit: each bit is foretold from what
followed the same views of the text so far, and the numbers of the current range are divided between
a zero and a one by what is expected. The number tells which part is meant, and this part is the
next range. So the better the text can be foretold, the shorter is the number.

The text is a row of records that end with a semicolon. A record that begins with a digit goes on
from so many words of the last one of this kind.
-/

set_option autoImplicit false

namespace SourceAtlas.Text.Packed

/-- The letters of packed texts. The six bits of a letter are its number here. -/
def letters : Array Char := "0123456789ABCDEFGHIJKLMNOPQRSTUVWXYZ -;@|".toList.toArray

/-- The number of the blank. -/
def blank : Nat := 36

/-- The number of the hyphen. -/
def hyphen : Nat := 37

/-- The number of the semicolon. -/
def semicolon : Nat := 38

/-- The digits of packed numbers. -/
def digits : List Char :=
  " !$%&'()*+,./0123456789:;<=>?@ABCDEFGHIJKLMNOPQRSTUVWXYZ[]^_`abcdefghijklmnopqrstuvwxyz|~".toList

/-- The base of packed numbers. -/
def base : Nat := digits.length

/-! ## What lies behind -/

/-- What was read: the last six letters, the first letter of the last record, how the current record
began (not yet, with a digit, with another letter), what is left of the record before, the words
taken over from it, and the letters since. Letters behind are kept with the last one first. -/
structure Past where
  recent : List Nat
  first : Nat
  beginning : Nat
  left : List Nat
  shared : List Nat
  own : List Nat

/-- So many words of a record move to those taken over. -/
def share : Nat → List Nat → List Nat → List Nat × List Nat
  | 0, shared, left => (shared, left)
  | n + 1, shared, left =>
    share n (blank :: ((left.takeWhile (· != blank)).reverse ++ shared))
      (left.dropWhile (· != blank)).tail

/-- What lies behind once one more letter is read. -/
def Past.push (p : Past) (n : Nat) : Past :=
  let recent := n :: p.recent.take 5
  if n = semicolon then
    ⟨recent, p.first, 0, if p.beginning = 1 then (p.own ++ p.shared).reverse else p.left, [], []⟩
  else if p.beginning = 0 then
    if n < 10 then
      let (shared, left) := share n [] p.left
      ⟨recent, n, 1, left, shared, []⟩
    else ⟨recent, n, 2, p.left, [], [n]⟩
  else { p with recent, own := n :: p.own }

/-- The current record. -/
def Past.record (p : Past) : List Nat := p.own ++ p.shared

/-- Is the letter one of those inside of words? -/
def isInner (n : Nat) : Bool := n != blank && n != hyphen

/-- The current word. -/
def Past.word (p : Past) : List Nat := p.record.takeWhile isInner

/-- The views that bits are foretold from: the last letters, the current word alone, behind the word
before, behind the first word of the record and behind the word in its place of the record before,
the word before alone, and the next letters of the record before. -/
def Past.views (p : Past) : List (List Nat) :=
  let last := p.recent.take 1
  let word := p.word
  let between := p.record.dropWhile isInner
  let before := between.tail.takeWhile isInner
  let behind := fun other => other.takeWhile (· != blank) ++ 63 :: word
  let below := (p.left.drop p.own.length).take 4
  [last, p.recent.take 2, p.recent.take 3, p.recent] ++
    [word, word ++ between.take 1 ++ before, behind p.record.reverse, last ++ below.take 1,
      below.take 3, behind (share (p.own.count blank) [] p.left).2, word.length :: before,
      last ++ below].map (p.beginning :: ·)

/-- The number of views, and of weights in a row. -/
def width : Nat := 12

/-- A number scattered over all numbers of 64 bits. -/
def scatter (h : UInt64) (n : Nat) : UInt64 :=
  let next : UInt64 := (h + n.toUInt64 + 1) * 0x1E3779B97F4A7C15
  next ^^^ (h >>> 31)

/-! ## Expectations -/

/-- The binary logarithms of counts, times 256. -/
def logarithms : Array Int :=
  (Array.range 256).map fun count =>
    let n := 14 * count + 1
    256 * n.log2 + ((n * 256) >>> n.log2) - 256

/-- How many of 65536 numbers are for the likelier bit, by the logarithm of its odds. -/
def likelihoods : Array Nat :=
  (Array.range 3073).map fun n =>
    let weight := (256 + n % 256) <<< (n / 256)
    65536 * weight / (weight + 256)

/-- How many of 65536 numbers are for a zero, by the logarithm of its odds. -/
def expectation (odds : Int) : Nat :=
  let likely := likelihoods[min odds.natAbs 3072]!
  if odds < 0 then 65536 - likely else likely

/-- The state of a reader: the size of the range, the place of the number in it, the digits to come,
how often each view was followed by a zero and by a one, side by side, and rows of weights of the
views. -/
structure Reader where
  range : Nat
  place : Nat
  code : List Nat
  counts : ByteArray
  weights : Array Int

/-- Digits are taken up until the range is wide enough to be divided. -/
def widen (range place : Nat) : List Nat → Nat × Nat × List Nat
  | [] => (range, place, [])
  | d :: ds =>
    if range / 65536 < 0x1000000 then widen (range * base) (place * base + d) ds
    else (range, place, d :: ds)

/-- Behind each of these places, the count of one bit goes up and the count of the other down to
one. -/
def adjust (up down : Nat) : List Nat → ByteArray → ByteArray
  | [], counts => counts
  | place :: places, counts =>
    let met := counts.get! (place + up)
    let missed := counts.get! (place + down)
    let counts := if met < 255 then counts.set! (place + up) (met + 1) else counts
    adjust up down places
      (if missed > 1 then counts.set! (place + down) 1 else counts)

/-- The sum of the odds by the weights from a place on. -/
def total (weights : Array Int) (place : Nat) : List Int → Int
  | [] => 0
  | x :: xs => weights[place]! * x + total weights (place + 1) xs

/-- Changes the weights from a place on after a bit, of which so much was missing from what was
expected. -/
def learn (missing : Int) (place : Nat) : List Int → Array Int → Array Int
  | [], weights => weights
  | x :: xs, weights =>
    learn missing (place + 1) xs (weights.set! place (weights[place]! + x * missing / 110000))

/-- Reads one bit by rows of weights; the views have its counts so far behind these places. -/
def Reader.bit (r : Reader) (rows places : List Nat) (behind : Nat) : Nat × Reader :=
  let ⟨range, place, code, counts, weights⟩ := r
  let odds := places.map fun k =>
    logarithms[(counts.get! (k + behind)).toNat]! -
      logarithms[(counts.get! (k + behind + 1)).toNat]!
  let sum := rows.foldl (fun sum i => sum + total weights (width * i) odds) 0
  let share := expectation (sum / 65536)
  let bound := range / 65536 * share
  let learned := fun missing =>
    rows.foldl (fun weights i => learn missing (width * i) odds weights) weights
  if place < bound then
    let (range, place, code) := widen bound place code
    (0, ⟨range, place, code, adjust behind (behind + 1) places counts, learned (65536 - share)⟩)
  else
    let (range, place, code) := widen (range - bound) (place - bound) code
    (1, ⟨range, place, code, adjust (behind + 1) behind places counts, learned (-share)⟩)

/-- Reads the bits of half a letter that are left. `node` is a one with those of this half read
before, and `path` with all those of the letter. -/
def Reader.half (r : Reader) (past : Past) (places : List Nat) :
    (left node path : Nat) → Nat × Reader
  | 0, _, path => (path, r)
  | left + 1, node, path =>
    -- The rows of the letters in the record, of its beginning, and of the letters in the word.
    let rows := [min 3 past.own.length, 4 + 3 * past.first + past.beginning,
      128 + 64 * min 7 past.word.length + path]
    let (b, r) := r.bit rows places (2 * node)
    r.half past places left (2 * node + b) (2 * path + b)

/-- Reads a letter. -/
def Reader.letter (r : Reader) (past : Past) : Nat × Reader :=
  let views := past.views.zipIdx.map fun (v, i) => scatter (v.foldl scatter 0) i
  let places := fun node => views.map fun h => 16 * (scatter h node >>> 42).toNat
  let (high, r) := r.half past (places 0) 3 1 1
  let (path, r) := r.half past (places high) 3 1 high
  (path - 64, r)

/-- Reads so many letters. -/
def Reader.text (r : Reader) (past : Past) (text : Array Char) : Nat → Array Char
  | 0 => text
  | left + 1 =>
    let (n, r) := r.letter past
    r.text (past.push n) (text.push (letters.getD n ' ')) left

/-- The text of a length that is packed in digits. Line breaks mean nothing. -/
def unpack (length : Nat) (packed : String) : List Char :=
  let code := (packed.toList.filter (· != '\n')).map fun c => digits.idxOf c
  let (range, place, code) := widen 1 0 code
  let unseen := Nat.repeat (fun counts => counts ++ counts) 26 (ByteArray.mk #[0])
  let start : Past := ⟨[], 0, 0, [], [], []⟩
  let weights := .replicate (4 * width) 16000 ++ .replicate (636 * width) 0
  ((Reader.mk range place code unseen weights).text start #[] length).toList

end SourceAtlas.Text.Packed
