import SourceAtlas.Proofs.BraceScans

/-!
# Lines without literals and comments

The end of a block can be looked for in two ways: by a scan that knows the literals and comments of
the language and carries its mode from line to line, or by a count of braces over lines from which
literals and comments have been taken out, each line by itself. `Go.blockEnd_eq_blockEnd_codeOnly`
says that the two agree wherever no line ends inside of a literal or comment that goes on.

Any scan is a count over what it takes to be code (`Lexis.scan_eq`), so lines that each end in code
may be read one by one (`Lexis.closingFrom?_eq_plain`). What remains is that the two take the same
characters to be code. The scan goes through a literal character by character, the other reading
measures it and skips it: for each kind of literal one lemma says that the scan is back in code
where the measured length ends (`Go.codeOf_raw`, `Go.codeOf_string`, `Go.codeOf_comment`).
-/

set_option autoImplicit false

namespace SourceAtlas

open Lexis

namespace Lexis

variable {μ : Type} (l : Lexis μ)

/-- The characters of a line that are code, for a scan that reads the line in a mode. -/
def codeOf : μ → Line → Line
  | _, [] => []
  | m, c :: cs =>
    match l.read m c cs with
    | .comment => []
    | .pass m' => codeOf m' cs
    | .code m' => c :: codeOf m' cs

/-- The mode behind a line. -/
def modeBehind : μ → Line → μ
  | m, [] => m
  | m, c :: cs =>
    match l.read m c cs with
    | .comment => l.fresh
    | .pass m' | .code m' => modeBehind m' cs

section Reading

variable {l} {m m' : μ} {c : Char} {cs : Line}

theorem codeOf_of_pass (h : l.read m c cs = .pass m') :
    l.codeOf m (c :: cs) = l.codeOf m' cs := by
  rw [codeOf, h]

theorem codeOf_of_code (h : l.read m c cs = .code m') :
    l.codeOf m (c :: cs) = c :: l.codeOf m' cs := by
  rw [codeOf, h]

theorem codeOf_of_comment (h : l.read m c cs = .comment) : l.codeOf m (c :: cs) = [] := by
  rw [codeOf, h]

end Reading

/-- A scan counts the braces among the characters that it takes to be code. -/
theorem scan_eq (m : μ) (b : Balance) (line : Line) :
    l.scan m b line =
      match b.run (l.codeOf m line) with
      | none => .closed
      | some b' => .ended (l.modeBehind m line) b' := by
  induction line generalizing m b with
  | nil => rfl
  | cons c cs ih =>
    rw [scan, codeOf, modeBehind]
    cases l.read m c cs with
    | comment => rfl
    | pass m' => exact ih m' b
    | code m' =>
      dsimp only
      rw [Balance.run_cons]
      cases b.step c with
      | none => rfl
      | some b' => exact ih m' b'

/-- **Lines that each end in code may be stripped one by one.** The scan over them is a count of
braces over what is left of each line. -/
theorem closingFrom?_eq_plain {lines : List Line} (b : Balance)
    (h : ∀ line ∈ lines, l.carry (l.modeBehind l.fresh line) = some l.fresh) :
    l.closingFrom? l.fresh b lines =
      plain.closingFrom? () b (lines.map (l.codeOf l.fresh)) := by
  induction lines generalizing b with
  | nil => rfl
  | cons line lines ih =>
    have hplain := closingFrom?_of_clear (b := b) (l := plain) rfl
      (clear_plain (l.codeOf l.fresh line)) (lines.map (l.codeOf l.fresh))
    rw [List.map_cons, hplain, closingFrom?, passage, scan_eq]
    cases b.run (l.codeOf l.fresh line) with
    | none => rfl
    | some b' =>
      dsimp only
      rw [h line List.mem_cons_self]
      dsimp only
      rw [ih b' (List.forall_mem_cons.1 h).2]

end Lexis

namespace Go

open Text

/-! ## Measured literals -/

/-- A raw string ends where it is measured to end. -/
theorem codeOf_raw (cs : Line) :
    lexis.codeOf .raw cs = lexis.codeOf .code (cs.drop (rawLength cs)) := by
  induction cs with
  | nil => rfl
  | cons c cs ih =>
    cases hc : c.toNat == 96 with
    | true =>
      have hread : lexis.read .raw c cs = .pass .code := by simp [lexis, read, hc]
      have hlength : rawLength (c :: cs) = 1 := by simp [rawLength, List.findIdx_cons, hc]
      rw [codeOf_of_pass hread, hlength, List.drop_one, List.tail_cons]
    | false =>
      have hread : lexis.read .raw c cs = .pass .raw := by simp [lexis, read, hc]
      have hlength : rawLength (c :: cs) = rawLength cs + 1 := by
        simp [rawLength, List.findIdx_cons, hc]
      rw [codeOf_of_pass hread, hlength, List.drop_succ_cons, ih]

/-- A string ends where it is measured to end, whatever backslashes it holds. -/
theorem codeOf_string (cs : Line) :
    lexis.codeOf .string cs = lexis.codeOf .code (cs.drop (stringLength cs)) := by
  fun_induction stringLength cs with
  | case1 => rfl
  | case2 c =>
    -- Nothing is left behind the last character, whatever it is.
    obtain ⟨m', hread⟩ : ∃ m', lexis.read .string c [] = .pass m' := by
      dsimp only [lexis, read]
      split_ifs <;> exact ⟨_, rfl⟩
    rw [codeOf_of_pass hread]
    rfl
  | case3 c d cs hquote =>
    have hread : lexis.read .string c (d :: cs) = .pass .code := by simp [lexis, read, hquote]
    rw [codeOf_of_pass hread, List.drop_one, List.tail_cons]
  | case4 c d cs hquote hslash ih =>
    have hread : lexis.read .string c (d :: cs) = .pass .escape := by
      simp [lexis, read, hquote, hslash]
    have hhidden : lexis.read .escape d cs = .pass .string := rfl
    rw [codeOf_of_pass hread, codeOf_of_pass hhidden, ih]
    rfl
  | case5 c d cs hquote hslash ih =>
    have hread : lexis.read .string c (d :: cs) = .pass .string := by
      simp [lexis, read, hquote, hslash]
    rw [codeOf_of_pass hread, List.drop_succ_cons, ih]

theorem commentLength?_cons (c : Char) (cs : Line) :
    commentLength? (c :: cs) =
      if c == '*' && cs.head? == some '/' then some 2 else (commentLength? cs).map (· + 1) := by
  have hmark : after? "*/".toList (c :: cs) =
      if c == '*' && cs.head? == some '/' then some (cs.drop 1) else none := by
    rw [show "*/".toList = ['*', '/'] from rfl, after?]
    rcases eq_or_ne c '*' with rfl | hstar
    · rcases cs with - | ⟨d, more⟩
      · rfl
      rcases eq_or_ne d '/' with rfl | hslash
      · rfl
      · simp [after?, hslash, Ne.symm hslash]
    · simp [hstar, Ne.symm hstar]
  rw [commentLength?, indexOf?, cutAt?, hmark]
  split_ifs with h
  · rfl
  · simp [commentLength?, indexOf?, Function.comp_def]

/-- A block comment ends where it is measured to end; one without an end takes all of the line. -/
theorem codeOf_comment (cs : Line) :
    lexis.codeOf .comment cs =
      match commentLength? cs with
      | some length => lexis.codeOf .code (cs.drop length)
      | none => [] := by
  induction cs with
  | nil => rfl
  | cons c cs ih =>
    rw [commentLength?_cons]
    cases hmark : c == '*' && cs.head? == some '/' with
    | true =>
      have hread : lexis.read .comment c cs = .pass .closing := by simp [lexis, read, hmark]
      obtain ⟨more, rfl⟩ : ∃ more, cs = '/' :: more := by
        apply List.head?_eq_some_iff.1
        simp only [Bool.and_eq_true, beq_iff_eq] at hmark
        exact hmark.2
      have hclosing : lexis.read .closing '/' more = .pass .code := rfl
      rw [codeOf_of_pass hread, codeOf_of_pass hclosing]
      rfl
    | false =>
      have hread : lexis.read .comment c cs = .pass .comment := by simp [lexis, read, hmark]
      rw [codeOf_of_pass hread, ih]
      cases commentLength? cs <;> rfl

theorem codeBehind_eq_drop (skip : Nat) (cs : Line) :
    codeBehind skip cs = codeBehind 0 (cs.drop skip) := by
  induction cs generalizing skip with
  | nil => simp [codeBehind]
  | cons c cs ih =>
    cases skip with
    | zero => rfl
    | succ skip => exact ih skip

/-! ## The two readings -/

/-- **The scan and the stripping take the same characters of a line to be code.** -/
theorem codeOf_code (line : Line) : lexis.codeOf .code line = codeOnly line := by
  -- A literal is skipped as a whole, so the rest of the line may be much shorter.
  induction hlength : line.length using Nat.strong_induction_on generalizing line with
  | _ n ih =>
    rcases line with - | ⟨c, cs⟩
    · rfl
    have hskip : ∀ skip, lexis.codeOf .code (cs.drop skip) = codeBehind skip cs := by
      intro skip
      rw [codeBehind_eq_drop]
      apply ih _ _ _ rfl
      rw [← hlength, List.length_drop, List.length_cons]
      omega
    rw [codeOnly, codeBehind]
    split_ifs with hraw hquote hslashes hstar
    · have hc : c = '\x60' := Char.toNat_inj.1 (beq_iff_eq.1 hraw)
      have hread : lexis.read .code c cs = .pass .raw := by
        rw [hc]
        rfl
      rw [codeOf_of_pass hread, codeOf_raw, hskip]
    · have hread : lexis.read .code c cs = .pass .string := by
        rw [beq_iff_eq.1 hquote]
        rfl
      rw [codeOf_of_pass hread, codeOf_string, hskip]
    · have hread : lexis.read .code c cs = .comment := by simp [lexis, read, hslashes]
      exact codeOf_of_comment hread
    · have hread : lexis.read .code c cs = .pass .opening := by simp [lexis, read, hslashes, hstar]
      obtain ⟨rest, rfl⟩ : ∃ rest, cs = '*' :: rest := by
        apply List.head?_eq_some_iff.1
        simp only [Bool.and_eq_true, beq_iff_eq] at hstar
        exact hstar.2
      have hopening : lexis.read .opening '*' rest = .pass .comment := rfl
      rw [codeOf_of_pass hread, codeOf_of_pass hopening, codeOf_comment,
        List.drop_one, List.tail_cons]
      cases commentLength? rest with
      | none => rfl
      | some length => exact hskip (length + 1)
    · have hread : lexis.read .code c cs = .code .code := by
        simp [lexis, read, hslashes, hstar, hquote, hraw]
      rw [codeOf_of_code hread]
      apply congrArg (c :: ·)
      exact hskip 0

/-- The last character of a line does not open a comment: the mark has two characters. -/
theorem read_nil_ne_opening (m : Mode) (c : Char) :
    lexis.read m c [] ≠ .pass .opening ∧ lexis.read m c [] ≠ .code .opening := by
  cases m with
  | escape | opening | closing => simp [lexis, read]
  | code | string | raw | comment =>
    dsimp only [lexis, read]
    split_ifs <;> simp_all

theorem modeBehind_ne_opening {m : Mode} {line : Line} (h : m = .opening → line ≠ []) :
    lexis.modeBehind m line ≠ .opening := by
  induction line generalizing m with
  | nil =>
    intro hm
    exact h hm rfl
  | cons c cs ih =>
    rw [modeBehind]
    cases hread : lexis.read m c cs with
    | comment =>
      intro hfresh
      cases hfresh
    | pass m' =>
      apply ih
      rintro rfl rfl
      exact (read_nil_ne_opening m c).1 hread
    | code m' =>
      apply ih
      rintro rfl rfl
      exact (read_nil_ne_opening m c).2 hread

/-- The line by itself does not end inside of a raw string or a block comment. -/
def EndsInCode (line : Line) : Prop :=
  lexis.modeBehind .code line ≠ .raw ∧ lexis.modeBehind .code line ≠ .comment

instance (line : Line) : Decidable (EndsInCode line) := by
  unfold EndsInCode
  infer_instance

/-- Behind a line that ends in code the next one is read in code. -/
theorem EndsInCode.carry_eq {line : Line} (h : EndsInCode line) :
    lexis.carry (lexis.modeBehind .code line) = some .code := by
  obtain ⟨hraw, hcomment⟩ := h
  have hopening : lexis.modeBehind .code line ≠ .opening :=
    modeBehind_ne_opening fun hm => absurd hm (by decide)
  cases hmode : lexis.modeBehind .code line with
  | raw => exact absurd hmode hraw
  | comment => exact absurd hmode hcomment
  | opening => exact absurd hmode hopening
  | code | string | escape | closing => rfl

/-- **To scan the lines, or to strip them and count the braces, gives the same end of the block,**
if no line by itself ends inside of a raw string or a block comment. -/
theorem blockEnd_eq_blockEnd_codeOnly (lines : List Line) (start : Nat)
    (h : ∀ line ∈ lines.drop start, EndsInCode line) :
    lexis.blockEnd lines start = Lexis.plain.blockEnd (lines.map codeOnly) start := by
  have hclosing : lexis.closing? (lines.drop start) =
      Lexis.plain.closing? ((lines.map codeOnly).drop start) := by
    rw [← List.map_drop, ← funext codeOf_code]
    apply lexis.closingFrom?_eq_plain
    intro line hline
    exact (h line hline).carry_eq
  rw [Lexis.blockEnd, Lexis.blockEnd, hclosing, List.length_map]

/-- Braces in comments, behind an escaped quote and in a raw string, marks of comments in strings, a
comment that seems to end where it opens, and a string that is not closed. -/
def braceTraps : List Line :=
  ["func f() \x7b // \x7b".toList, "a := \"\\\"\x7d/*\" /*/ \x7d */ + b".toList,
    "if a == \x60\x7d//\x60 \x7b return \"\\".toList, "\x7d /**/ \x7d".toList]

theorem blockEnd_braceTraps :
    (∀ line ∈ braceTraps.drop 0, EndsInCode line) ∧ lexis.blockEnd braceTraps 0 = 3 ∧
      Lexis.plain.blockEnd (braceTraps.map codeOnly) 0 = 3 := by
  have hends : ∀ line ∈ braceTraps.drop 0, EndsInCode line := by decide +kernel
  have hend : lexis.blockEnd braceTraps 0 = 3 := by decide +kernel
  refine ⟨hends, hend, ?_⟩
  rw [← blockEnd_eq_blockEnd_codeOnly braceTraps 0 hends, hend]

end Go

end SourceAtlas
