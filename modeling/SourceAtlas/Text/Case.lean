import SourceAtlas.Text.Ranges

/-!
# Letter case

The lower-case form of a character, and the characters that a comparison without regard to case
takes for one another: those with the same lower-case form, and the few lower-case letters that
share an upper-case form.
-/

set_option autoImplicit false

namespace SourceAtlas.Text

/-- A run of characters with lower-case forms: the characters from `low` to `high` in steps of
`step`, the first of which has the form `target` and the others lie as far from it as from `low`. -/
structure CaseRun where
  low : Nat
  high : Nat
  step : Nat
  target : Nat

namespace CaseRun

/-- Reader state of `ofText`: the runs so far and the numbers of the run being read, the last of
them first. -/
structure Reader where
  done : Array CaseRun
  low : Nat
  high? : Option Nat
  step : Nat
  value : Nat

/-- The run is read. -/
def Reader.close (r : Reader) : Reader :=
  ⟨r.done.push ⟨r.low, r.high?.getD r.low, r.step, r.value⟩, 0, none, 1, 0⟩

/-- Reads one character of a text of runs such as `C0-D6:E0` or `100-12E/2:101`. -/
def Reader.step1 (r : Reader) (c : Char) : Reader :=
  match hexDigit? c with
  | some d => { r with value := r.value * 16 + d }
  | none =>
    if c == '-' then { r with low := r.value, value := 0 }
    else if c == '/' then { r with high? := some r.value, step := 2, value := 2 }
    else if c == ':' then
      if r.step == 2 then { r with value := 0 }
      else if r.low == 0 then { r with low := r.value, value := 0 }
      else { r with high? := some r.value, value := 0 }
    else r.close

/-- The runs written one after the other with a blank between. -/
def ofText (text : String) : Array CaseRun :=
  (text.toList.foldl Reader.step1 ⟨#[], 0, none, 1, 0⟩).close.done

/-- The lower-case form of a character of the run. -/
def lower? (r : CaseRun) (n : Nat) : Option Nat :=
  if r.low ≤ n ∧ n ≤ r.high ∧ (n - r.low) % r.step = 0 then some (r.target + (n - r.low)) else none

/-- The character of the run whose lower-case form is `m`. -/
def upper? (r : CaseRun) (m : Nat) : Option Nat :=
  if r.target ≤ m ∧ m ≤ r.target + (r.high - r.low) ∧ (m - r.target) % r.step = 0 then
    some (r.low + (m - r.target))
  else none

end CaseRun

/-- The runs beyond ASCII. A character whose lower-case form has several characters is mapped to the
first of them. -/
def caseRuns : Array CaseRun :=
  CaseRun.ofText
    "C0-D6:E0 D8-DE:F8 100-12E/2:101 130:69 132-136/2:133 139-147/2:13A 14A-176/2:14B 178:FF
179-17D/2:17A 181:253 182-184/2:183 186:254 187:188 189-18A:256 18B:18C 18E:1DD 18F:259 190:25B
191:192 193:260 194:263 196:269 197:268 198:199 19C:26F 19D:272 19F:275 1A0-1A4/2:1A1 1A6:280
1A7:1A8 1A9:283 1AC:1AD 1AE:288 1AF:1B0 1B1-1B2:28A 1B3-1B5/2:1B4 1B7:292 1B8:1B9 1BC:1BD 1C4:1C6
1C5:1C6 1C7:1C9 1C8:1C9 1CA:1CC 1CB-1DB/2:1CC 1DE-1EE/2:1DF 1F1:1F3 1F2-1F4/2:1F3 1F6:195 1F7:1BF
1F8-21E/2:1F9 220:19E 222-232/2:223 23A:2C65 23B:23C 23D:19A 23E:2C66 241:242 243:180 244:289
245:28C 246-24E/2:247 370-372/2:371 376:377 37F:3F3 386:3AC 388-38A:3AD 38C:3CC 38E-38F:3CD
391-3A1:3B1 3A3-3AB:3C3 3CF:3D7 3D8-3EE/2:3D9 3F4:3B8 3F7:3F8 3F9:3F2 3FA:3FB 3FD-3FF:37B
400-40F:450 410-42F:430 460-480/2:461 48A-4BE/2:48B 4C0:4CF 4C1-4CD/2:4C2 4D0-52E/2:4D1
531-556:561 10A0-10C5:2D00 10C7:2D27 10CD:2D2D 13A0-13EF:AB70 13F0-13F5:13F8 1C90-1CBA:10D0
1CBD-1CBF:10FD 1E00-1E94/2:1E01 1E9E:DF 1EA0-1EFE/2:1EA1 1F08-1F0F:1F00 1F18-1F1D:1F10
1F28-1F2F:1F20 1F38-1F3F:1F30 1F48-1F4D:1F40 1F59-1F5F/2:1F51 1F68-1F6F:1F60 1F88-1F8F:1F80
1F98-1F9F:1F90 1FA8-1FAF:1FA0 1FB8-1FB9:1FB0 1FBA-1FBB:1F70 1FBC:1FB3 1FC8-1FCB:1F72 1FCC:1FC3
1FD8-1FD9:1FD0 1FDA-1FDB:1F76 1FE8-1FE9:1FE0 1FEA-1FEB:1F7A 1FEC:1FE5 1FF8-1FF9:1F78
1FFA-1FFB:1F7C 1FFC:1FF3 2126:3C9 212A:6B 212B:E5 2132:214E 2160-216F:2170 2183:2184
24B6-24CF:24D0 2C00-2C2F:2C30 2C60:2C61 2C62:26B 2C63:1D7D 2C64:27D 2C67-2C6B/2:2C68 2C6D:251
2C6E:271 2C6F:250 2C70:252 2C72:2C73 2C75:2C76 2C7E-2C7F:23F 2C80-2CE2/2:2C81 2CEB-2CED/2:2CEC
2CF2:2CF3 A640-A66C/2:A641 A680-A69A/2:A681 A722-A72E/2:A723 A732-A76E/2:A733 A779-A77B/2:A77A
A77D:1D79 A77E-A786/2:A77F A78B:A78C A78D:265 A790-A792/2:A791 A796-A7A8/2:A797 A7AA:266 A7AB:25C
A7AC:261 A7AD:26C A7AE:26A A7B0:29E A7B1:287 A7B2:29D A7B3:AB53 A7B4-A7C2/2:A7B5 A7C4:A794
A7C5:282 A7C6:1D8E A7C7-A7C9/2:A7C8 A7D0:A7D1 A7D6-A7D8/2:A7D7 A7F5:A7F6 FF21-FF3A:FF41
10400-10427:10428 104B0-104D3:104D8 10570-1057A:10597 1057C-1058A:105A3 1058C-10592:105B3
10594-10595:105BB 10C80-10CB2:10CC0 118A0-118BF:118C0 16E40-16E5F:16E60 1E900-1E921:1E922"

/-- The lower-case form. -/
def lowerCode (n : Nat) : Nat :=
  if n < 128 then (if 65 ≤ n ∧ n ≤ 90 then n + 32 else n)
  else (caseRuns.findSome? (·.lower? n)).getD n

/-- The code points, other than `m`, whose lower-case form is `m`. -/
def raisedForms (m : Nat) : List Nat :=
  let ascii := if 97 ≤ m ∧ m ≤ 122 then [m - 32] else []
  ascii ++ caseRuns.toList.filterMap (·.upper? m)

/-- Groups of lower-case letters that have one upper-case form. -/
def sharedCases : List (List Nat) :=
  [[0x69, 0x131], [0x73, 0x17F], [0xB5, 0x3BC], [0x345, 0x3B9, 0x1FBE], [0x390, 0x1FD3],
    [0x3B0, 0x1FE3], [0x3B2, 0x3D0],
    [0x3B5, 0x3F5], [0x3B8, 0x3D1], [0x3BA, 0x3F0], [0x3C0, 0x3D6], [0x3C1, 0x3F1], [0x3C2, 0x3C3],
      [0x3C6, 0x3D5],
    [0x432, 0x1C80], [0x434, 0x1C81], [0x43E, 0x1C82], [0x441, 0x1C83], [0x442, 0x1C84, 0x1C85],
      [0x44A, 0x1C86],
    [0x463, 0x1C87], [0x1C88, 0xA64B], [0x1E61, 0x1E9B], [0xFB05, 0xFB06]]

/-- All code points that equal `n` when case is not regarded, `n` among them. -/
def caseVariants (n : Nat) : List Nat :=
  let m := lowerCode n
  let lowers := ((sharedCases.find? (·.contains m)).getD [m])
  n :: lowers.flatMap fun l => l :: raisedForms l

end SourceAtlas.Text
