import SourceAtlas.Collection.Basic
import SourceAtlas.Number.Binary64

/-!
# Usage

How often each tool was called, how many characters were answered, and since when. The report
compares the characters answered with an estimate of what would have been read otherwise.
-/

set_option autoImplicit false

namespace SourceAtlas

/-! ## Times in seconds

A clock shows a whole number of seconds or a binary fraction of one. Times below a minute are
written in seconds, those below an hour in minutes and seconds, and all others in hours and minutes.
-/

/-- A number of seconds. -/
inductive Seconds where
  | whole (n : Int)
  | real (x : Real64)
  deriving DecidableEq, Repr

namespace Seconds

/-- The time as a binary fraction. -/
def toReal : Seconds → Real64
  | .whole n => .ofInt n
  | .real x => x

/-- The time since a start. -/
def since (now start : Seconds) : Seconds :=
  match now, start with
  | .whole n, .whole m => .whole (n - m)
  | n, m => .real (n.toReal.sub m.toReal)

/-- The time is below a minute. -/
def isShort : Seconds → Bool
  | .whole n => n < 60
  | .real x =>
    match x.toRatio? with
    | some (a, b) => a < 60 * b
    | none => x.negative

/-- The full minutes of a quotient `a / b` of seconds, computed in binary fractions: what is left
over is taken away first, then the rest divided. -/
def fullMinutes (a b : Nat) : Nat :=
  let left := a % (60 * b)
  match (Binary64.ofRatio (a - left) b).div (.ofRatio 60 1) with
  | .infinite => 0
  | .finite m e =>
    let (c, d) := Binary64.toRatio m e
    if 2 * (c % d) > d then c / d + 1 else c / d

/-- The full minutes of a time of at least a minute, and the full seconds beside them. An endless
time has neither. -/
def minutes? : Seconds → Option (Nat × Nat)
  | .whole n => some (n.toNat / 60, n.toNat % 60)
  | .real x =>
    match x.toRatio? with
    | some (a, b) => some (fullMinutes a.toNat b, a.toNat % (60 * b) / b)
    | none => none

/-- The text of a time; an endless time has none. -/
def text? (t : Seconds) : Option String :=
  if t.isShort then some (t.toReal.fixedText 0 ++ "s")
  else
    t.minutes?.map fun (minutes, seconds) =>
      if minutes < 60 then toString minutes ++ "m " ++ toString seconds ++ "s"
      else toString (minutes / 60) ++ "h " ++ toString (minutes % 60) ++ "m"

end Seconds

/-- The usage of a service since its start. -/
structure Usage where
  counts : Assoc Nat
  chars : Nat
  start : Seconds

namespace Usage

/-- No usage yet. -/
def since (start : Seconds) : Usage := ⟨[], 0, start⟩

/-- One more call of a tool. -/
def count (u : Usage) (tool : String) : Usage :=
  { u with counts := u.counts.put tool ((u.counts.get? tool).getD 0 + 1) }

/-- More characters answered. -/
def addChars (u : Usage) (n : Nat) : Usage := { u with chars := u.chars + n }

/-- The tool that writes the report; its calls do not count as questions. -/
def reportTool : String := "get_usage_stats"

/-- The calls other than those for the report. -/
def questions (u : Usage) : Assoc Nat := u.counts.filter fun (tool, _) => tool != reportTool

/-- How many questions were asked. -/
def questionCount (u : Usage) : Nat := (u.questions.map Prod.snd).foldr (· + ·) 0

/-- How much of all sources, in hundredths, would be read in place of a call of each tool. -/
def readShare : Assoc Nat :=
  [("get_project_summary", 10), ("list_files", 1), ("get_structure_summary", 5),
    ("get_functions", 5), ("get_classes", 5), ("get_imports", 3), ("get_function_source", 2),
    ("get_class_source", 3),
    ("find_symbol", 5), ("get_dependencies", 10), ("get_dependents", 15), ("get_change_impact", 30),
    ("get_call_chain", 20), ("get_file_dependencies", 2), ("get_file_dependents", 10),
    ("search_codebase", 15), ("reindex", 0)]

/-- The characters that would be read in place of calls of a tool. Each product is rounded to a
binary fraction, and the last one cut to a whole number. -/
def readInstead (sourceChars : Nat) (tool : String) (calls : Nat) : Nat :=
  let share := Binary64.ofRatio ((readShare.get? tool).getD 10) 100
  (((Binary64.ofRatio sourceChars 1).mul share).mul (.ofRatio calls 1)).floor

/-- The characters that would be read in place of all questions. -/
def readInsteadOfAll (u : Usage) (sourceChars : Nat) : Nat :=
  (u.questions.map fun (tool, calls) => readInstead sourceChars tool calls).foldr (· + ·) 0

/-- The part of `others` characters, in percent, that answering with `chars` saves; it is negative
where more was answered. -/
def savings (chars others : Nat) : Real64 :=
  if others = 0 then .ofInt 0
  else ((Real64.ofInt 1).sub (.ofRatio chars others)).scale (.ofRatio 100 1)

/-- Digits with commas between thousands. -/
def groupDigits : List Char → List Char
  | [] => []
  | c :: cs =>
    c :: (if cs.length % 3 = 0 && !cs.isEmpty then ',' :: groupDigits cs else groupDigits cs)

/-- A number with commas between groups of three digits. -/
def grouped (n : Nat) : String := String.ofList (groupDigits (Nat.toDigits 10 n))

/-- The lines of the report that say how often each tool was called, the most used first. -/
def countLines (u : Usage) : List String :=
  if u.counts.isEmpty then []
  else
    ["", "Queries by tool:"] ++
      (u.questions.mergeSort fun a b => a.2 ≥ b.2).map fun (tool, n) =>
        "  " ++ tool ++ ": " ++ toString n

/-- The lines of the report that compare the answers with the sources. -/
def estimateLines (u : Usage) (sourceChars : Nat) : List String :=
  if u.questionCount = 0 || sourceChars ≤ u.chars then []
  else
    let others := u.readInsteadOfAll sourceChars
    ["Estimated without indexer: " ++ grouped others ++ " chars (" ++ grouped (others / 4) ++
        " tokens) over " ++ toString u.questionCount ++ " queries",
      "Estimated with indexer: " ++ grouped u.chars ++ " chars (" ++ grouped (u.chars / 4) ++
        " tokens)",
      "Estimated token savings: " ++ (savings u.chars others).fixedText 1 ++ "%"]

/-- The report at a time, with `sourceChars` characters of sources in the index. There is none after
an endless time. -/
def report? (u : Usage) (now : Seconds) (sourceChars : Nat) : Option String :=
  (now.since u.start).text?.map fun duration =>
    "\n".intercalate
      (["Session duration: " ++ duration, "Total queries: " ++ toString u.questionCount] ++
        u.countLines ++
        ["", "Total chars returned: " ++ grouped u.chars] ++
        (if sourceChars = 0 then []
          else ("Total source in index: " ++ grouped sourceChars ++ " chars") ::
            u.estimateLines sourceChars))

end Usage

end SourceAtlas
