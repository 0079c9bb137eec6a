/-!
# Pattern flags

What a pattern text can switch on for the whole pattern or for a group: disregard of case, anchors
at every line, a dot that matches newlines, blanks for layout, and whether classes and case follow
ASCII or all of Unicode.
-/

set_option autoImplicit false

namespace SourceAtlas.Pattern

/-- A set of flags. -/
structure Flags where
  ignoreCase : Bool
  multiline : Bool
  dotAll : Bool
  verbose : Bool
  ascii : Bool
  unicode : Bool
  template : Bool
  deriving DecidableEq, Repr

namespace Flags

/-- No flags. -/
def none : Flags := ⟨false, false, false, false, false, false, false⟩

/-- The flag of a letter. -/
def ofLetter? : Char → Option Flags
  | 'i' => some { none with ignoreCase := true }
  | 'm' => some { none with multiline := true }
  | 's' => some { none with dotAll := true }
  | 'x' => some { none with verbose := true }
  | 'a' => some { none with ascii := true }
  | 'u' => some { none with unicode := true }
  | 't' => some { none with template := true }
  | _ => Option.none

/-- The flags of either set. -/
def union (f g : Flags) : Flags where
  ignoreCase := f.ignoreCase || g.ignoreCase
  multiline := f.multiline || g.multiline
  dotAll := f.dotAll || g.dotAll
  verbose := f.verbose || g.verbose
  ascii := f.ascii || g.ascii
  unicode := f.unicode || g.unicode
  template := f.template || g.template

/-- The flags of the first set that are not in the second. -/
def minus (f g : Flags) : Flags where
  ignoreCase := f.ignoreCase && !g.ignoreCase
  multiline := f.multiline && !g.multiline
  dotAll := f.dotAll && !g.dotAll
  verbose := f.verbose && !g.verbose
  ascii := f.ascii && !g.ascii
  unicode := f.unicode && !g.unicode
  template := f.template && !g.template

/-- Some flag is in both sets. -/
def meets (f g : Flags) : Bool := f.minus g != f

/-- The set names a rule for classes and case. -/
def hasType (f : Flags) : Bool := f.ascii || f.unicode

/-- The flags inside a group that switches `on` and `off` under the flags `f`: a rule for classes
and case displaces the other. -/
def within (f on off : Flags) : Flags :=
  let base := if on.hasType then { f with ascii := false, unicode := false } else f
  (base.union on).minus off

end Flags

end SourceAtlas.Pattern
