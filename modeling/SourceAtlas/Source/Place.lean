import SourceAtlas.Text.Blank

/-!
# Places in a source

A `Place` is a line of a source together with the lines before and after it. `sweep` visits the
lines from top to bottom; a visit may say that some of the following lines are covered, and those
are passed over.
-/

set_option autoImplicit false

namespace SourceAtlas

/-- A line of text, without its line break. -/
abbrev Line := List Char

/-- A line, its index from zero, the lines before it, the nearest first, and the lines after it. -/
structure Place where
  index : Nat
  before : List Line
  line : Line
  after : List Line
  deriving Repr

namespace Place

open SourceAtlas.Text

/-- The line without blanks at its ends. -/
def stripped (p : Place) : Line := trim p.line

/-- The lines from the place on. -/
def onward (p : Place) : List Line := p.line :: p.after

/-- Is the character on the line? -/
def has (p : Place) (c : Char) : Bool := p.line.contains c

/-- A brace opens on the line or on the next one. -/
def opensSoon (p : Place) : Bool := p.has '\x7b' || p.after.head?.any (·.contains '\x7b')

/-- The number of lines from here to the first one that satisfies the test, if there is one. -/
def distance? (p : Place) (test : Line → Bool) : Option Nat := p.onward.findIdx? test

/-- The lines in `before` turned round, then the rest: every line with its surroundings. -/
def allFrom (index : Nat) (before : List Line) : List Line → List Place
  | [] => []
  | line :: after => ⟨index, before, line, after⟩ :: allFrom (index + 1) (line :: before) after

/-- The places of all lines. -/
def all (lines : List Line) : List Place := allFrom 0 [] lines

/-- The places after this one. -/
def following (p : Place) : List Place := allFrom (p.index + 1) (p.line :: p.before) p.after

/-- Visits places from the first to the last, passing over the next `covered` ones. A visit gives
the new state and the number of places to pass over. -/
def sweep {σ : Type} (visit : σ → Place → σ × Nat) : Nat → σ → List Place → σ
  | _, s, [] => s
  | 0, s, p :: ps =>
    let (s', covered) := visit s p
    sweep visit covered s' ps
  | covered + 1, s, _ :: ps => sweep visit covered s ps

/-- What the visits of a sweep find. -/
def collect {α : Type} (visit : Place → List α × Nat) : Nat → List Place → List α
  | _, [] => []
  | 0, p :: ps =>
    let (found, covered) := visit p
    found ++ collect visit covered ps
  | covered + 1, _ :: ps => collect visit covered ps

end Place

/-- Ranges of lines by index, both ends included, that have been dealt with. -/
abbrev Covered := List (Nat × Nat)

/-- Is the line covered? -/
def Covered.mem (ranges : Covered) (index : Nat) : Bool :=
  ranges.any fun (a, b) => a ≤ index && index ≤ b

end SourceAtlas
