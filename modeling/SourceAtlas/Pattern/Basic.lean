import SourceAtlas.Text.Blank
import SourceAtlas.Text.Letter

/-!
# Patterns

A `Pattern` is a regular expression with captures, references to captures, look-around and atomic
parts. `Pattern.run` matches by backtracking: it takes what has to match afterwards as a
continuation, so a choice is undone exactly when the rest fails. A repetition stops after a round
that consumed nothing, so the number of rounds is bounded by the characters ahead and every match
ends.
-/

set_option autoImplicit false

namespace SourceAtlas

/-- How a comparison of characters treats case: not at all, for ASCII letters, or for every
letter. -/
inductive CaseRule where
  | exact | ascii | unicode
  deriving DecidableEq, Repr

/-- The classes of characters that a pattern can name. -/
inductive CharClass where
  | digit | blank | word
  deriving DecidableEq, Repr

/-- Membership in a class; with `ascii` the class has ASCII characters only. -/
def CharClass.mem (k : CharClass) (ascii : Bool) (c : Char) : Bool :=
  if ascii then
    match k with
    | .digit => Text.isAsciiDigit c
    | .blank => c == ' ' || (9 ≤ c.toNat && c.toNat ≤ 13)
    | .word => Text.isAsciiLetter c || Text.isAsciiDigit c || c == '_'
  else
    match k with
    | .digit => Text.isDecimal c
    | .blank => Text.isBlank c
    | .word => Text.isWordChar c

/-- A member of a character set: the code points from `low` to `high`, or a class or its
complement. -/
inductive SetItem where
  | range (low high : Nat)
  | named (k : CharClass) (negated : Bool)
  deriving DecidableEq, Repr

/-- A set of characters. -/
structure CharSet where
  items : List SetItem
  negated : Bool
  case : CaseRule
  ascii : Bool
  deriving DecidableEq, Repr

/-- The code points that a set compares a character by. -/
def CaseRule.variants (rule : CaseRule) (n : Nat) : List Nat :=
  match rule with
  | .exact => [n]
  | .ascii => if 65 ≤ n ∧ n ≤ 90 then [n, n + 32] else if 97 ≤ n ∧ n ≤ 122 then [n, n - 32] else [n]
  | .unicode => Text.caseVariants n

/-- Is the character in the set? -/
def CharSet.mem (s : CharSet) (c : Char) : Bool :=
  let codes := s.case.variants c.toNat
  let hit := s.items.any fun item =>
    match item with
    | .range low high => codes.any fun n => low ≤ n && n ≤ high
    | .named k negated => k.mem s.ascii c != negated
  hit != s.negated

/-- Tests of a position. -/
inductive Anchor where
  | textStart | lineStart | textEnd | lineEnd | lastEnd
  | boundary (ascii : Bool)
  | interior (ascii : Bool)
  deriving DecidableEq, Repr

/-- How a repetition tries its rounds: as many as it can first, as few as it can first, or as many
as it can for good. -/
inductive Eagerness where
  | greedy | lazy | possessive
  deriving DecidableEq, Repr

/-- Regular expressions. -/
inductive Pattern where
  | empty
  | one (set : CharSet)
  | seq (first second : Pattern)
  | alt (first second : Pattern)
  | group (index : Nat) (body : Pattern)
  | rep (low : Nat) (high : Option Nat) (mode : Eagerness) (body : Pattern)
  | atomic (body : Pattern)
  | ahead (positive : Bool) (body : Pattern)
  | behind (positive : Bool) (width : Nat) (body : Pattern)
  | anchor (test : Anchor)
  | backref (index : Nat) (case : CaseRule)
  | cond (index : Nat) (yes no : Pattern)
  deriving DecidableEq, Repr

/-- Where a match stands: the number of characters behind it, those characters, the last one first,
the characters ahead, and the texts captured so far, the latest first. -/
structure Cursor where
  place : Nat
  behind : List Char
  ahead : List Char
  groups : List (Nat × List Char)
  deriving DecidableEq, Repr

namespace Cursor

/-- The cursor in front of a text. -/
def start (cs : List Char) : Cursor := ⟨0, [], cs, []⟩

/-- The text that group `index` captured last. -/
def group? (s : Cursor) (index : Nat) : Option (List Char) := s.groups.lookup index

/-- One character further. -/
def next? (s : Cursor) : Option (Char × Cursor) :=
  match s.ahead with
  | [] => none
  | c :: cs => some (c, { s with place := s.place + 1, behind := c :: s.behind, ahead := cs })

/-- So many characters back. -/
def back? : Nat → Cursor → Option Cursor
  | 0, s => some s
  | n + 1, s =>
    match s.behind with
    | [] => none
    | c :: cs => back? n { s with place := s.place - 1, behind := cs, ahead := c :: s.ahead }

/-- The cursor behind the text `cs`, compared by `same`. -/
def skip? (same : Char → Char → Bool) : List Char → Cursor → Option Cursor
  | [], s => some s
  | c :: cs, s =>
    match s.next? with
    | some (d, t) => if same c d then skip? same cs t else none
    | none => none

/-- Whether a word character lies behind, and whether one lies ahead. -/
def wordSides (s : Cursor) (ascii : Bool) : Bool × Bool :=
  (s.behind.head?.any (CharClass.word.mem ascii), s.ahead.head?.any (CharClass.word.mem ascii))

/-- The cursor `t` with the text consumed since `s` captured as group `index`. -/
def capture (s t : Cursor) (index : Nat) : Cursor :=
  { t with groups := (index, s.ahead.take (t.place - s.place)) :: t.groups }

end Cursor

/-- What a group of a match has captured; nothing if it took no part. -/
def groupText (m : Cursor) (index : Nat) : List Char := (m.group? index).getD []

/-- The text of a group, or nothing. -/
def groupString (m : Cursor) (index : Nat) : String := String.ofList (groupText m index)

/-- The test holds at this place. `lastEnd` holds at the end and before a newline that ends the
text. An empty text has neither a boundary nor an interior. -/
def Anchor.holds (a : Anchor) (s : Cursor) : Bool :=
  match a with
  | .textStart => s.behind.isEmpty
  | .lineStart => s.behind.isEmpty || s.behind.head? == some '\n'
  | .textEnd => s.ahead.isEmpty
  | .lineEnd => s.ahead.isEmpty || s.ahead.head? == some '\n'
  | .lastEnd => s.ahead.isEmpty || s.ahead == ['\n']
  | .boundary ascii => (s.wordSides ascii).1 != (s.wordSides ascii).2
  | .interior ascii =>
    (s.wordSides ascii).1 == (s.wordSides ascii).2 && !(s.behind.isEmpty && s.ahead.isEmpty)

/-- Two characters have the same lower-case form under the rule. -/
def CaseRule.same (rule : CaseRule) (c d : Char) : Bool :=
  match rule with
  | .exact => c == d
  | .ascii => c.toLower == d.toLower
  | .unicode => Text.lowerCode c.toNat == Text.lowerCode d.toNat

namespace Pattern

/-- What has to match after a part of a pattern. -/
abbrev Rest := Cursor → Option Cursor

/-- A part of a pattern, ready to be matched before a rest. -/
abbrev Part := Cursor → Rest → Option Cursor

/-- A part so many times. -/
def times (body : Part) : Nat → Part
  | 0, s, k => k s
  | n + 1, s, k => body s fun t => times body n t k

/-- Up to `high` further rounds of `body`, as many as possible first. Every round but the last
consumes one of the characters in `room` or more; where none is left, a round can only match
nothing. -/
def greedily (body : Part) : (room : List Char) → Option Nat → Part
  | [], high, s, k =>
    if high = some 0 then k s
    else
      match body s k with
      | some r => some r
      | none => k s
  | _ :: room, high, s, k =>
    if high = some 0 then k s
    else
      match body s fun t =>
          if s.place = t.place then k t else greedily body room (high.map (· - 1)) t k with
      | some r => some r
      | none => k s

/-- Up to `high` further rounds of `body`, as few as possible first, with `room` as above. -/
def lazily (body : Part) : (room : List Char) → Option Nat → Part
  | [], high, s, k =>
    match k s with
    | some r => some r
    | none => if high = some 0 then none else body s k
  | _ :: room, high, s, k =>
    match k s with
    | some r => some r
    | none =>
      if high = some 0 then none
      else body s fun t =>
        if s.place = t.place then k t else lazily body room (high.map (· - 1)) t k

/-- The cursor after up to `high` further rounds of `body`, each of them matched on its own, with
`room` as above. -/
def possessively (body : Part) : (room : List Char) → Option Nat → Cursor → Cursor
  | [], high, s => if high = some 0 then s else (body s some).getD s
  | _ :: room, high, s =>
    if high = some 0 then s
    else
      match body s some with
      | some t => if s.place = t.place then t else possessively body room (high.map (· - 1)) t
      | none => s

/-- A part between `low` and `high` times. -/
def rounds (body : Part) (low : Nat) (high : Option Nat) (mode : Eagerness) : Part := fun s k =>
  let more := high.map (· - low)
  match mode with
  | .greedy => times body low s fun t => greedily body t.ahead more t k
  | .lazy => times body low s fun t => lazily body t.ahead more t k
  | .possessive =>
    match times (fun u k' => (body u some).bind k') low s some with
    | some t => k (possessively body t.ahead more t)
    | none => none

/-- Matches the pattern from the cursor on, before the rest `k`. -/
def run : Pattern → Part
  | .empty, s, k => k s
  | .one set, s, k =>
    match s.next? with
    | some (c, t) => if set.mem c then k t else none
    | none => none
  | .seq p q, s, k => run p s fun t => run q t k
  | .alt p q, s, k =>
    match run p s k with
    | some r => some r
    | none => run q s k
  | .group index p, s, k => run p s fun t => k (s.capture t index)
  | .rep low high mode p, s, k => rounds (run p) low high mode s k
  | .atomic p, s, k => (run p s some).bind k
  | .ahead positive p, s, k =>
    match run p s some with
    | some t => if positive then k { s with groups := t.groups } else none
    | none => if positive then none else k s
  | .behind positive width p, s, k =>
    match (s.back? width).bind fun b => run p b some with
    | some t => if positive then k { s with groups := t.groups } else none
    | none => if positive then none else k s
  | .anchor test, s, k => if test.holds s then k s else none
  | .backref index rule, s, k =>
    match s.group? index with
    | some text => (s.skip? rule.same text).bind k
    | none => none
  | .cond index p q, s, k => if (s.group? index).isSome then run p s k else run q s k

/-- The cursor after a match at the head of the text. -/
def atHead? (p : Pattern) (cs : List Char) : Option Cursor := run p (.start cs) some

/-- The first place at which the pattern matches, with `place` characters of the text already
behind: the cursors before and after the match. -/
def findFrom? (p : Pattern) : Nat → List Char → List Char → Option (Cursor × Cursor)
  | place, passed, [] =>
    (run p ⟨place, passed, [], []⟩ some).map fun t => (⟨place, passed, [], []⟩, t)
  | place, passed, c :: cs =>
    match run p ⟨place, passed, c :: cs, []⟩ some with
    | some t => some (⟨place, passed, c :: cs, []⟩, t)
    | none => findFrom? p (place + 1) (c :: passed) cs

/-- The leftmost match in the text: the cursors before and after it. -/
def find? (p : Pattern) (cs : List Char) : Option (Cursor × Cursor) := findFrom? p 0 [] cs

/-- The pattern matches somewhere in the text. -/
def occursIn (p : Pattern) (cs : List Char) : Bool := (find? p cs).isSome

end Pattern

/-! ## Building patterns

Small patterns from which the outlines put theirs together. Sequence is written with `++`, and each
builder says in its name what it matches. -/

namespace Pattern

instance : Append Pattern := ⟨.seq⟩

/-- One character of a set. -/
def ofItems (items : List SetItem) (negated : Bool) : Pattern :=
  .one ⟨items, negated, .exact, false⟩

/-- A single character. -/
def item (c : Char) : SetItem := .range c.toNat c.toNat

/-- Word characters. -/
def wordItem : SetItem := .named .word false

/-- Blanks. -/
def blankItem : SetItem := .named .blank false

/-- Exactly these characters, one after the other. -/
def chars : List Char → Pattern
  | [] => .empty
  | [c] => ofItems [item c] false
  | c :: cs => ofItems [item c] false ++ chars cs

/-- Exactly this text. -/
def exactly (s : String) : Pattern := chars s.toList

/-- One of the characters of the text. -/
def oneOf (s : String) : Pattern := ofItems (s.toList.map item) false

/-- A character that is not in the text. -/
def noneOf (s : String) : Pattern := ofItems (s.toList.map item) true

/-- Any character on a line. -/
def anyChar : Pattern := noneOf "\n"

/-- A word character. -/
def wordChar : Pattern := ofItems [wordItem] false

/-- A blank. -/
def blank : Pattern := ofItems [blankItem] false

/-- Any number of times, as often as possible. -/
def many (p : Pattern) : Pattern := .rep 0 none .greedy p

/-- Once or more, as often as possible. -/
def oneOrMore (p : Pattern) : Pattern := .rep 1 none .greedy p

/-- Once or more, as rarely as possible. -/
def fewest (p : Pattern) : Pattern := .rep 1 none .lazy p

/-- At most once, and once if possible. -/
def maybe (p : Pattern) : Pattern := .rep 0 (some 1) .greedy p

/-- A word. -/
def word : Pattern := oneOrMore wordChar

/-- Any number of blanks. -/
def blanks : Pattern := many blank

/-- One or more blanks. -/
def gap : Pattern := oneOrMore blank

/-- The first pattern that matches. -/
def firstOf : List Pattern → Pattern
  | [] => .empty
  | [p] => p
  | p :: ps => .alt p (firstOf ps)

/-- One of these texts. -/
def wordsOf (names : List String) : Pattern := firstOf (names.map exactly)

end Pattern

end SourceAtlas
