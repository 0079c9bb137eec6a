import SourceAtlas.Source.Place

/-!
# Matching braces

A block of code ends on the line where the braces opened since its first line are all closed again.
Which characters are code depends on the language: its `Lexis` says, character by character, what
belongs to a literal or a comment. A literal that runs on over line breaks is followed to the line
on which it ends, and the rest of that line is read as part of the line it began on.
-/

set_option autoImplicit false

namespace SourceAtlas

/-- The braces seen so far: how many more were opened than closed, and whether any was opened. -/
structure Balance where
  depth : Int
  opened : Bool
  deriving DecidableEq, Repr

namespace Balance

/-- Nothing seen yet. -/
def start : Balance := ⟨0, false⟩

/-- The balance after a character of code, or none if it closes the block. -/
def step (b : Balance) (c : Char) : Option Balance :=
  if c == '\x7b' then some ⟨b.depth + 1, true⟩
  else if c == '\x7d' then
    if b.opened && b.depth - 1 == 0 then none else some ⟨b.depth - 1, b.opened⟩
  else some b

end Balance

/-- What a character is to a language: code, something to pass over, or the start of a comment to
the end of the line. The first two come with the mode after the character. -/
inductive Reading (μ : Type) where
  | code (mode : μ)
  | pass (mode : μ)
  | comment
  deriving Repr

/-- The literals and comments of a language. `read` says what a character is, given the mode and the
rest of the line; `carry` gives the mode in which the next line starts, or none if the line has
ended inside a literal that runs on. -/
structure Lexis (μ : Type) where
  fresh : μ
  read : μ → Char → List Char → Reading μ
  carry : μ → Option μ

/-- How the reading of a line ends: the block is closed on it, or it ends in a mode. -/
inductive LineEnd (μ : Type) where
  | closed
  | ended (mode : μ) (balance : Balance)

/-- The number of characters behind an apostrophe that belong to a character literal. -/
def charLength? (rest : List Char) : Option Nat :=
  match rest with
  | '\\' :: a :: more => ((a :: more).take 3).findIdx? (· == '\'') |>.map (· + 2)
  | _ :: '\'' :: _ => some 2
  | _ => none

namespace Lexis

variable {μ : Type}

/-- Reads a line. -/
def scan (l : Lexis μ) : μ → Balance → Line → LineEnd μ
  | m, b, [] => .ended m b
  | m, b, c :: cs =>
    match l.read m c cs with
    | .comment => .ended l.fresh b
    | .pass m' => scan l m' b cs
    | .code m' =>
      match b.step c with
      | none => .closed
      | some b' => scan l m' b' cs

/-- How the reading of a line and of the literal that runs on from it ends: the block is closed
so many lines further on, the lines end inside the literal, or the next line is to be read in a
mode. -/
inductive Passage (μ : Type) where
  | closed (distance : Nat)
  | unfinished
  | next (mode : μ) (balance : Balance)

/-- Reads the first of the lines, and those after it as far as a literal runs on. -/
def passage (l : Lexis μ) (m : μ) (b : Balance) (distance : Nat) : List Line → Passage μ
  | [] => .unfinished
  | line :: rest =>
    match l.scan m b line with
    | .closed => .closed distance
    | .ended m' b' =>
      match l.carry m' with
      | some next => .next next b'
      | none => passage l m' b' (distance + 1) rest

/-- The number of lines from the first to the one that closes the block. -/
def closingFrom? (l : Lexis μ) : μ → Balance → List Line → Option Nat
  | _, _, [] => none
  | m, b, line :: rest =>
    match l.passage m b 0 (line :: rest) with
    | .closed distance => some distance
    | .unfinished => none
    | .next m' b' => (closingFrom? l m' b' rest).map (· + 1)

/-- The number of lines from the first to the one that closes the block opened there. -/
def closing? (l : Lexis μ) (lines : List Line) : Option Nat := l.closingFrom? l.fresh .start lines

/-- The number of lines from a place to the end of its block; a block that is not closed reaches to
the last line. -/
def extent (l : Lexis μ) (p : Place) : Nat := (l.closing? p.onward).getD p.after.length

/-- The index of the line that ends the block on line `start`; minus one if there are no lines. -/
def blockEnd (l : Lexis μ) (lines : List Line) (start : Nat) : Int :=
  match l.closing? (lines.drop start) with
  | some distance => start + distance
  | none => lines.length - 1

/-- The lexis of a language in which every character counts as code. -/
def plain : Lexis Unit where
  fresh := ()
  read := fun _ _ _ => .code ()
  carry := fun _ => some ()

end Lexis

/-! ## The first group in parentheses

The text between the first opening parenthesis and the one that closes it, with line breaks left
out. -/

namespace Parens

/-- What has been read: how many more parentheses were opened than closed, whether the group has
begun, and its text, the last character first. -/
structure State where
  depth : Int
  inside : Bool
  done : List Char
  deriving DecidableEq, Repr

/-- Nothing read yet. -/
def State.start : State := ⟨0, false, []⟩

/-- The state with a character of the group, if the group has begun. -/
def State.keep (s : State) (c : Char) : State :=
  if s.inside then { s with done := c :: s.done } else s

/-- Reads a character, or gives the text of the group if the character ends it. -/
def State.step (s : State) (c : Char) : Except (List Char) State :=
  if c == '(' then
    let kept := s.keep c
    .ok { kept with depth := s.depth + 1, inside := s.inside || s.depth + 1 == 1 }
  else if c == ')' then
    if s.depth - 1 == 0 && s.inside then .error s.done.reverse
    else .ok { s.keep c with depth := s.depth - 1 }
  else .ok (s.keep c)

/-- Reads a line, up to the end of the group. -/
def State.line (s : State) : Line → Except (List Char) State
  | [] => .ok s
  | c :: cs =>
    match s.step c with
    | .error text => .error text
    | .ok s' => s'.line cs

/-- The text of the group, and the number of lines from the first to the one that ends it, or none
if no line does. -/
def groupFrom (s : State) : List Line → List Char × Option Nat
  | [] => (s.done.reverse, none)
  | line :: rest =>
    match s.line line with
    | .error text => (text, some 0)
    | .ok s' =>
      let (text, distance) := groupFrom s' rest
      (text, distance.map (· + 1))

/-- The text of the first group from line `start` on, and the index of the line that ends it, or
`start` if none does. -/
def group (lines : List Line) (start : Nat) : List Char × Nat :=
  let (text, distance) := groupFrom .start (lines.drop start)
  (text, start + distance.getD 0)

/-- The group behind a place. -/
def textAt (p : Place) : List Char := (groupFrom .start p.onward).1

end Parens

end SourceAtlas
