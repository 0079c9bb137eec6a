import SourceAtlas.Proofs.StrippedLines

/-!
# Brace scans without literals

The scans of four languages for the end of a block differ in the literals and comments they know.
Where no character can open one, they all count the same braces: `blockEnds_agree` says that they
give the same line, and which line that is.
-/

set_option autoImplicit false

namespace SourceAtlas

namespace Lexis

variable {μ : Type} {l : Lexis μ} {P : Char → Prop} {line : Line} {lines : List Line}

/-- A line is all code if each of its characters is, in front of the others. -/
theorem codeOf_eq_self
    (hread : ∀ c rest, P c → (∀ d ∈ rest, P d) → l.read l.fresh c rest = .code l.fresh)
    (h : ∀ c ∈ line, P c) :
    l.codeOf l.fresh line = line ∧ l.modeBehind l.fresh line = l.fresh := by
  induction line with
  | nil => exact ⟨rfl, rfl⟩
  | cons c cs ih =>
    have hrest : ∀ d ∈ cs, P d := (List.forall_mem_cons.1 h).2
    obtain ⟨hcode, hmode⟩ := ih hrest
    have hc := hread c cs (h c List.mem_cons_self) hrest
    rw [codeOf_of_code hc, hcode, modeBehind, hc]
    exact ⟨rfl, hmode⟩

theorem blockEnd_eq_plain (hcarry : l.carry l.fresh = some l.fresh)
    (hread : ∀ c rest, P c → (∀ d ∈ rest, P d) → l.read l.fresh c rest = .code l.fresh)
    {start : Nat} (h : ∀ line ∈ lines.drop start, ∀ c ∈ line, P c) :
    l.blockEnd lines start = plain.blockEnd lines start := by
  have hlines : ∀ line ∈ lines.drop start, l.codeOf l.fresh line = line := by
    intro line hline
    exact (codeOf_eq_self hread (h line hline)).1
  have hclosing : l.closing? (lines.drop start) = plain.closing? (lines.drop start) := by
    rw [closing?, l.closingFrom?_eq_plain, List.map_congr_left hlines, List.map_id']
    · rfl
    · intro line hline
      rw [(codeOf_eq_self hread (h line hline)).2, hcarry]
  rw [blockEnd, blockEnd, hclosing]

/-- The count over lines ends on the first line that has brought it back to nothing. -/
theorem closingFrom?_plain_eq_some_iff {b : Balance} {k : Nat} :
    plain.closingFrom? () b lines = some k ↔
      k < lines.length ∧ b.run (lines.take (k + 1)).flatten = none ∧
        b.run (lines.take k).flatten ≠ none := by
  induction lines generalizing b k with
  | nil => simp [closingFrom?]
  | cons line lines ih =>
    rw [closingFrom?_of_clear (l := plain) rfl (clear_plain line)]
    cases hrun : b.run line with
    | none => cases k <;> simp [Balance.run_append, hrun, Balance.run]
    | some b' => cases k <;> simp [Balance.run_append, hrun, Balance.run, ih]

theorem closingFrom?_plain_eq_none_iff {b : Balance} :
    plain.closingFrom? () b lines = none ↔ b.run lines.flatten ≠ none := by
  induction lines generalizing b with
  | nil => simp [closingFrom?, Balance.run]
  | cons line lines ih =>
    rw [closingFrom?_of_clear (l := plain) rfl (clear_plain line)]
    cases hrun : b.run line <;> simp [Balance.run_append, hrun, ih]

/-- The block that begins on line `start` ends on line `last`: with that line, and not before it,
the braces opened since its beginning are closed again. If they never are, it ends on the last of
all lines. -/
def EndsBlock (lines : List Line) (start : Nat) (last : Int) : Prop :=
  (∃ k < (lines.drop start).length, last = start + k ∧
      ClosesBlock ((lines.drop start).take (k + 1)).flatten ∧
      ¬ ClosesBlock ((lines.drop start).take k).flatten) ∨
    (¬ ClosesBlock (lines.drop start).flatten ∧ last = lines.length - 1)

theorem EndsBlock.start_le {start : Nat} {last : Int} (h : EndsBlock lines start last)
    (hstart : start < lines.length) : start ≤ last ∧ last < lines.length := by
  rcases h with ⟨k, hk, rfl, -⟩ | ⟨-, rfl⟩
  · rw [List.length_drop] at hk
    omega
  · omega

theorem endsBlock_plain (lines : List Line) (start : Nat) :
    EndsBlock lines start (plain.blockEnd lines start) := by
  rw [blockEnd]
  cases hclosing : plain.closing? (lines.drop start) with
  | some k =>
    obtain ⟨hk, hclosed, hopen⟩ := closingFrom?_plain_eq_some_iff.1 hclosing
    rw [Balance.run_start_eq_none_iff] at hclosed
    rw [ne_eq, Balance.run_start_eq_none_iff] at hopen
    exact .inl ⟨k, hk, rfl, hclosed, hopen⟩
  | none =>
    have hopen := closingFrom?_plain_eq_none_iff.1 hclosing
    rw [ne_eq, Balance.run_start_eq_none_iff] at hopen
    exact .inr ⟨hopen, rfl⟩

end Lexis

/-! ## The languages -/

variable {c : Char} {rest : List Char}

/-- Without quotes the hashes behind an `r` open no raw string. -/
theorem Rust.read_code_of_opensNothing (hc : OpensNothing c) (hrest : ∀ d ∈ rest, OpensNothing d) :
    lexis.read .code c rest = .code .code := by
  obtain ⟨hquote, hchar, -, hslash⟩ := hc
  have hraw : rawHashes? rest = none := by
    rw [rawHashes?, if_neg]
    intro hmark
    exact (hrest _ (List.mem_of_getElem? (beq_iff_eq.1 hmark))).1 rfl
  simp [lexis, read, hquote, hchar, hslash, hraw]

/-- Without quotes the signs `@` and `$` open no string. -/
theorem CSharp.read_code_of_opensNothing (hc : OpensNothing c)
    (hrest : ∀ d ∈ rest, OpensNothing d) : lexis.read .code c rest = .code .code := by
  obtain ⟨hquote, hchar, -, hslash⟩ := hc
  have hmark : verbatimMark? c rest = none := by
    unfold verbatimMark?
    split
    · exact absurd rfl (hrest '"' (by simp)).1
    · exact absurd rfl (hrest '"' (by simp)).1
    · exact absurd rfl (hrest '"' (by simp)).1
    · rfl
  simp [lexis, read, hquote, hchar, hslash, hmark]

/-- **Without characters that open a literal or a comment, all scans for the end of a block agree.**
The end they give is the line that closes what was opened from the first line on, and it is one of
the lines from the first on if that line exists. -/
theorem blockEnds_agree (lines : List Line) (start : Nat)
    (h : ∀ line ∈ lines.drop start, ∀ c ∈ line, OpensNothing c) :
    Go.lexis.blockEnd lines start = Lexis.plain.blockEnd lines start ∧
      Rust.lexis.blockEnd lines start = Lexis.plain.blockEnd lines start ∧
      CSharp.lexis.blockEnd lines start = Lexis.plain.blockEnd lines start ∧
      Lexis.EndsBlock lines start (Lexis.plain.blockEnd lines start) ∧
      (start < lines.length →
        start ≤ Lexis.plain.blockEnd lines start ∧
          Lexis.plain.blockEnd lines start < lines.length) := by
  have hends := Lexis.endsBlock_plain lines start
  refine ⟨?_, ?_, ?_, hends, hends.start_le⟩
  · apply Lexis.blockEnd_eq_plain rfl _ h
    intro c rest hc hrest
    exact Go.clear_of_opensNothing (t := [c]) (by simpa using hc) c (by simp) rest
  · exact Lexis.blockEnd_eq_plain rfl (fun _ _ => Rust.read_code_of_opensNothing) h
  · exact Lexis.blockEnd_eq_plain rfl (fun _ _ => CSharp.read_code_of_opensNothing) h

/-- Braces that are closed too early, and signs that could open a literal in front of others. -/
def strayBraces : List Line :=
  ["\x7d fn r##\x7b".toList, "@$\x7b $@ r#".toList, "\x7d r".toList, "\x7d \x7b\x7d".toList]

theorem blockEnds_agree_strayBraces :
    (∀ line ∈ strayBraces.drop 0, ∀ c ∈ line, OpensNothing c) ∧
      Rust.lexis.blockEnd strayBraces 0 = Lexis.plain.blockEnd strayBraces 0 ∧
      Lexis.plain.blockEnd strayBraces 0 = 2 := by
  have hclear : ∀ line ∈ strayBraces.drop 0, ∀ c ∈ line, OpensNothing c := by decide +kernel
  exact ⟨hclear, (blockEnds_agree strayBraces 0 hclear).2.1, by decide +kernel⟩

end SourceAtlas
