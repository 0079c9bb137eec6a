import SourceAtlas.Proofs.BraceScans

/-!
# Literals that run on over line breaks

A raw literal may reach over several lines. A scan for the end of a block follows it to the line on
which it ends and reads the rest of that line; but then it goes on with the line after the one on
which the literal began, and so reads the lines inside of the literal as code.

`raw_content_opaque_iff` says for the raw literals of Go, Rust and C# when that shows. What stands
in a literal has no influence on the end of the block if the block has ended before the literal, or
if the scan comes to the literal in code and ends with what stands behind it. A scan that goes on
from there sees the content, unless only one line is left: of two contents with the same number of
lines, one closes the block on the line after the first, and the other makes a comment of that line
(`RawLiteral.not_opaque_of_next`).

The argument is the same for all three. `RawLiteral` lists what it needs to know about a literal,
and `Lexis.Usual` what it needs to know about the language.
-/

set_option autoImplicit false

namespace SourceAtlas

open Lexis

variable {w : Line}

namespace Lexis

variable {μ : Type}
variable {distance : Nat}

/-! ## Reading a part of the lines -/

/-- Reads lines one after the other, as far as the line behind them. -/
def reach (l : Lexis μ) : μ → Balance → List Line → Passage μ
  | m, b, [] => .next m b
  | m, b, line :: rest =>
    match l.passage m b 0 (line :: rest) with
    | .closed distance => .closed distance
    | .unfinished => .unfinished
    | .next m' b' =>
      match l.reach m' b' rest with
      | .closed distance => .closed (distance + 1)
      | .unfinished => .unfinished
      | .next m'' b'' => .next m'' b''

variable {l : Lexis μ} {m m' : μ} {b b' : Balance} {lines : List Line}

/-- Lines behind those that were read make no difference. -/
theorem passage_append (h : l.passage m b distance lines ≠ .unfinished) (more : List Line) :
    l.passage m b distance (lines ++ more) = l.passage m b distance lines := by
  induction lines generalizing m b distance with
  | nil => exact absurd rfl h
  | cons line lines ih =>
    rw [passage] at h
    rw [List.cons_append, passage, passage]
    cases hscan : l.scan m b line with
    | closed => rfl
    | ended m' b' =>
      rw [hscan] at h
      dsimp only at h ⊢
      cases hcarry : l.carry m' with
      | some next => rfl
      | none =>
        rw [hcarry] at h
        exact ih h

/-- Distances are counted from where one starts to count. -/
theorem passage_add (distance k : Nat) :
    l.passage m b (distance + k) lines =
      match l.passage m b distance lines with
      | .closed d => .closed (d + k)
      | .unfinished => .unfinished
      | .next m' b' => .next m' b' := by
  induction lines generalizing m b distance with
  | nil => rfl
  | cons line lines ih =>
    rw [passage, passage]
    cases l.scan m b line with
    | closed => rfl
    | ended m' b' =>
      dsimp only
      cases l.carry m' with
      | some next => rfl
      | none =>
        have hrest := ih (m := m') (b := b') (distance + 1)
        rw [Nat.add_right_comm] at hrest
        exact hrest

/-- A scan over lines reads the first of them and goes on from there. -/
theorem closingFrom?_append (h : l.reach m b lines ≠ .unfinished) (more : List Line) :
    l.closingFrom? m b (lines ++ more) =
      match l.reach m b lines with
      | .closed distance => some distance
      | .unfinished => none
      | .next m' b' => (l.closingFrom? m' b' more).map (· + lines.length) := by
  induction lines generalizing m b with
  | nil => simp [reach]
  | cons line lines ih =>
    -- A literal that is open behind the lines would leave the whole reading unfinished.
    have hread : l.passage m b 0 (line :: lines) ≠ .unfinished := by
      intro hpassage
      rw [reach, hpassage] at h
      exact h rfl
    have hmore := passage_append hread more
    rw [reach] at h
    rw [List.cons_append] at hmore ⊢
    rw [closingFrom?, hmore, reach]
    cases hpassage : l.passage m b 0 (line :: lines) with
    | closed distance => rfl
    | unfinished => exact absurd hpassage hread
    | next m₁ b₁ =>
      rw [hpassage] at h
      dsimp only at h ⊢
      have hlater : l.reach m₁ b₁ lines ≠ .unfinished := by
        intro hreach
        rw [hreach] at h
        exact h rfl
      rw [ih hlater]
      cases hreach : l.reach m₁ b₁ lines with
      | closed distance => rfl
      | unfinished => exact absurd hreach hlater
      | next m₂ b₂ =>
        dsimp only
        rw [Option.map_map]
        rfl

theorem closingFrom?_append_of_next (h : l.reach m b lines = .next m' b') (more : List Line) :
    l.closingFrom? m b (lines ++ more) =
      (l.closingFrom? m' b' more).map (· + lines.length) := by
  rw [closingFrom?_append, h]
  intro hunfinished
  rw [h] at hunfinished
  cases hunfinished

theorem closingFrom?_append_of_closed (h : l.reach m b lines = .closed distance)
    (more : List Line) :
    l.closingFrom? m b (lines ++ more) = some distance := by
  rw [closingFrom?_append, h]
  intro hunfinished
  rw [h] at hunfinished
  cases hunfinished

/-- The next line is read in a mode that some line has carried over. -/
theorem carry_of_passage_next (h : l.passage m b distance lines = .next m' b') :
    ∃ m₀, l.carry m₀ = some m' := by
  induction lines generalizing m b distance with
  | nil => cases h
  | cons line lines ih =>
    rw [passage] at h
    cases hscan : l.scan m b line with
    | closed => simp [hscan] at h
    | ended m₀ b₀ =>
      rw [hscan] at h
      dsimp only at h
      cases hcarry : l.carry m₀ with
      | some next =>
        rw [hcarry] at h
        cases h
        exact ⟨m₀, hcarry⟩
      | none =>
        rw [hcarry] at h
        exact ih h

theorem closingFrom?_of_ne_nil (h : lines ≠ []) :
    l.closingFrom? m b lines =
      match l.passage m b 0 lines with
      | .closed distance => some distance
      | .unfinished => none
      | .next m' b' => (l.closingFrom? m' b' lines.tail).map (· + 1) := by
  cases lines with
  | nil => exact absurd rfl h
  | cons line lines => rfl

/-! ## What the languages have in common -/

/-- Signs that end comments and blocks, or begin a comment. No literal begins or ends with one. -/
def closingSigns : List Char := ['*', '/', '\x7b', '\x7d']

/-- Some closing signs lead from the mode to code. -/
def Leavable (l : Lexis μ) (m : μ) : Prop :=
  ∃ w : Line, (∀ c ∈ w, c ∈ closingSigns) ∧ ∀ b t, l.scan m b (w ++ t) = l.scan l.fresh b t

theorem leavable_fresh (l : Lexis μ) : l.Leavable l.fresh :=
  ⟨[], fun _ hc => absurd hc List.not_mem_nil, fun _ _ => rfl⟩

/-- A language in which braces are code, two slashes begin a comment to the end of the line, and
what is carried to a line can be ended there. -/
structure Usual (l : Lexis μ) : Prop where
  carry_fresh : l.carry l.fresh = some l.fresh
  clear_braces : l.Clear ['\x7b', '\x7d']
  read_slashes : ∀ rest, l.read l.fresh '/' ('/' :: rest) = .comment
  leavable : ∀ m m', l.carry m = some m' → l.Leavable m'

/-- A line can close the block, and it can say nothing. -/
theorem Usual.exists_lines (hl : l.Usual) (hm : ∃ m₀, l.carry m₀ = some m) (b : Balance) :
    (∃ w : Line, (∀ c ∈ w, c ∈ closingSigns) ∧ ∀ t, l.scan m b (w ++ t) = .closed) ∧
      ∃ w : Line, (∀ c ∈ w, c ∈ closingSigns) ∧ ∀ t, l.scan m b (w ++ t) = .ended l.fresh b := by
  obtain ⟨m₀, hm⟩ := hm
  obtain ⟨w, hw, hleave⟩ := hl.leavable m₀ m hm
  constructor
  · obtain ⟨braces, hbraces, hrun⟩ := b.exists_run_eq_none
    have hclear : l.Clear braces := by
      intro c hc rest
      apply hl.clear_braces c
      rcases hbraces c hc with rfl | rfl <;> simp
    refine ⟨w ++ braces, ?_, ?_⟩
    · intro c hc
      rcases List.mem_append.1 hc with hc | hc
      · exact hw c hc
      · rcases hbraces c hc with rfl | rfl <;> decide
    · intro t
      rw [List.append_assoc, hleave, scan_append_of_clear hclear, hrun]
  · refine ⟨w ++ ['/', '/'], ?_, ?_⟩
    · intro c hc
      rcases List.mem_append.1 hc with hc | hslash
      · exact hw c hc
      · have heq : c = '/' := by simpa using hslash
        rw [heq]
        decide
    · intro t
      rw [List.append_assoc, hleave, List.cons_append, scan, List.cons_append, hl.read_slashes]

end Lexis

/-! ## Raw literals -/

/-- A kind of raw literal: its delimiters, what may stand on a line of it, and what may stand behind
it. The laws say that a scan passes over it and comes out in code. -/
structure RawLiteral {μ : Type} (l : Lexis μ) where
  opener : List Char
  closer : List Char
  inside : μ
  Holds : Line → Prop
  Follows : Line → Prop
  scan_opener : ∀ b t, l.scan l.fresh b (opener ++ t) = l.scan inside b t
  carry_inside : l.carry inside = none
  scan_content : ∀ b t, Holds t → l.scan inside b t = .ended inside b
  scan_closer : ∀ b t u, Holds t → Follows u →
    l.scan inside b (t ++ (closer ++ u)) = l.scan l.fresh b u
  holds_of_closingSigns : ∀ t : Line, (∀ c ∈ t, c ∈ closingSigns) → Holds t

/-- What stands in a literal of at least two lines: the rest of its first line, the lines between,
and the beginning of its last line. -/
structure RawContent where
  first : Line
  inner : List Line
  last : Line

/-- What stands around a literal in a source: the lines before it, the text before it on its first
line, the text behind it on its last line, and the lines after it. A scan starts on its first line
or before. -/
structure Surroundings where
  before : List Line
  lead : Line
  tail : Line
  after : List Line
  start : Nat
  start_le : start ≤ before.length

/-- The scan reads the lines before the literal up to some last ones, `mid`, and goes on there in
the mode `m` and with the balance `b`. With these begins the reading that comes to the literal: an
earlier literal runs on over them, or there are none and the first line of the literal is read from
its start. -/
def Surroundings.Arrives {μ : Type} (s : Surroundings) (l : Lexis μ) (mid : List Line) (m : μ)
    (b : Balance) : Prop :=
  ∃ front, s.before.drop s.start = front ++ mid ∧ l.reach l.fresh .start front = .next m b

/-- A scan that arrives goes on from there. -/
theorem Surroundings.Arrives.closing? {μ : Type} {s : Surroundings} {l : Lexis μ} {mid : List Line}
    {m : μ} {b : Balance} (h : s.Arrives l mid m b) (rest : List Line) :
    l.closing? (s.before.drop s.start ++ rest) =
      (l.closingFrom? m b (mid ++ rest)).map (· + (s.before.length - s.start - mid.length)) := by
  obtain ⟨front, hsplit, hreach⟩ := h
  have hlength : front.length = s.before.length - s.start - mid.length := by
    rw [← List.length_drop, hsplit, List.length_append]
    omega
  rw [Lexis.closing?, hsplit, List.append_assoc, closingFrom?_append_of_next hreach,
    ← hlength]

namespace RawLiteral

variable {μ : Type} {l : Lexis μ} (r : RawLiteral l)

/-- The content may stand in the literal, with so many lines between the first and the last. -/
structure Admits (n : Nat) (c : RawContent) : Prop where
  first : r.Holds c.first
  inner : ∀ t ∈ c.inner, r.Holds t
  last : r.Holds c.last
  length : c.inner.length = n

/-- The lines after the first line of the literal. -/
def later (s : Surroundings) (c : RawContent) : List Line :=
  c.inner ++ (c.last ++ (r.closer ++ s.tail)) :: s.after

/-- The source with the literal in it. -/
def lines (s : Surroundings) (c : RawContent) : List Line :=
  s.before ++ (s.lead ++ (r.opener ++ c.first)) :: r.later s c

/-- The content has no influence on the end of the block. -/
def Opaque (s : Surroundings) (n : Nat) : Prop :=
  ∀ c c', r.Admits n c → r.Admits n c' →
    l.blockEnd (r.lines s c) s.start = l.blockEnd (r.lines s c') s.start

/-- The scan comes to the literal in code, with the balance `b`, in the reading that began with
`mid`. -/
def OpensInCode (s : Surroundings) (mid : List Line) (b : Balance) : Prop :=
  ∃ m b₀, s.Arrives l mid m b₀ ∧
    ∀ t rest, l.passage m b₀ 0 (mid ++ (s.lead ++ (r.opener ++ t)) :: rest) =
      l.passage l.fresh b mid.length ((r.opener ++ t) :: rest)

/-- The scan has found the end of the block before it comes to the literal. -/
def ClosedBefore (s : Surroundings) : Prop :=
  (∃ k, l.reach l.fresh .start (s.before.drop s.start) = .closed k) ∨
    ∃ mid m b₀ k, s.Arrives l mid m b₀ ∧
      ∀ t rest, l.passage m b₀ 0 (mid ++ (s.lead ++ (r.opener ++ t)) :: rest) = .closed k

variable {r} {s : Surroundings} {n : Nat} {mid : List Line} {b : Balance} {c : RawContent}

theorem drop_lines (c : RawContent) : (r.lines s c).drop s.start =
    s.before.drop s.start ++ (s.lead ++ (r.opener ++ c.first)) :: r.later s c := by
  rw [lines, List.drop_append_of_le_length s.start_le]

theorem length_lines (hc : r.Admits n c) :
    (r.lines s c).length = s.before.length + n + s.after.length + 2 := by
  simp only [lines, later, List.length_append, List.length_cons, hc.length]
  omega

/-- The lines of the literal are passed over, by induction along those between its ends. -/
theorem passage_inside {inner : List Line} {last : Line} (hinner : ∀ t ∈ inner, r.Holds t)
    (hlast : r.Holds last) (htail : r.Follows s.tail) (distance : Nat) :
    l.passage r.inside b distance (inner ++ (last ++ (r.closer ++ s.tail)) :: s.after) =
      l.passage l.fresh b (distance + inner.length) (s.tail :: s.after) := by
  induction inner generalizing distance with
  | nil =>
    rw [List.nil_append, passage, r.scan_closer b last s.tail hlast htail, passage]
    rfl
  | cons t inner ih =>
    rw [List.cons_append, passage, r.scan_content b t (hinner t List.mem_cons_self)]
    dsimp only
    rw [r.carry_inside]
    dsimp only
    rw [ih (List.forall_mem_cons.1 hinner).2, List.length_cons,
      Nat.add_assoc, Nat.add_comm 1]

/-- A reading that comes to the literal goes on with what stands behind the literal. -/
theorem passage_lines {m : μ} {b₀ : Balance}
    (h : ∀ t rest, l.passage m b₀ 0 (mid ++ (s.lead ++ (r.opener ++ t)) :: rest) =
      l.passage l.fresh b mid.length ((r.opener ++ t) :: rest))
    (htail : r.Follows s.tail) (hc : r.Admits n c) :
    l.passage m b₀ 0 (mid ++ (s.lead ++ (r.opener ++ c.first)) :: r.later s c) =
      match l.passage l.fresh b 0 (s.tail :: s.after) with
      | .closed distance => .closed (distance + (mid.length + n + 1))
      | .unfinished => .unfinished
      | .next m' b' => .next m' b' := by
  rw [h, passage, r.scan_opener, r.scan_content b c.first hc.first]
  dsimp only
  rw [r.carry_inside]
  dsimp only
  rw [later, passage_inside hc.inner hc.last htail, hc.length, ← passage_add]
  apply congrArg (fun k => l.passage l.fresh b k (s.tail :: s.after))
  omega

theorem opaque_of_closing? {end? : Option Nat}
    (h : ∀ c, r.Admits n c → l.closing? ((r.lines s c).drop s.start) = end?) : r.Opaque s n := by
  intro c d hc hd
  rw [blockEnd, blockEnd, h c hc, h d hd, length_lines hc, length_lines hd]

/-- A scan that does not go on behind the literal sees nothing of its content. -/
theorem opaque_of_ne_next (hcode : r.OpensInCode s mid b) (htail : r.Follows s.tail)
    (h : ∀ m' b', l.passage l.fresh b 0 (s.tail :: s.after) ≠ .next m' b') : r.Opaque s n := by
  obtain ⟨m, b₀, harrives, hpassage⟩ := hcode
  have hclosing : ∀ c, r.Admits n c →
      l.closingFrom? m b₀ (mid ++ (s.lead ++ (r.opener ++ c.first)) :: r.later s c) =
        match l.passage l.fresh b 0 (s.tail :: s.after) with
        | .closed distance => some (distance + (mid.length + n + 1))
        | .unfinished | .next _ _ => none := by
    intro c hc
    rw [closingFrom?_of_ne_nil (by simp), passage_lines hpassage htail hc]
    cases hbehind : l.passage l.fresh b 0 (s.tail :: s.after) with
    | closed distance => rfl
    | unfinished => rfl
    | next m' b' => exact absurd hbehind (h m' b')
  apply opaque_of_closing?
  intro c hc
  rw [drop_lines, harrives.closing?, hclosing c hc]

variable (r) in
/-- The number of lines from the second line of the literal to the end of the block, for a scan that
comes to the literal with the balance `b`: what stands behind the literal is read first, and then
the lines of the literal after its first. -/
def distance? (s : Surroundings) (n : Nat) (b : Balance) (c : RawContent) : Option Nat :=
  match l.passage l.fresh b 0 (s.tail :: s.after) with
  | .closed distance => some (distance + n)
  | .unfinished => none
  | .next m' b' => l.closingFrom? m' b' (r.later s c)

/-- The end of the block, for a scan that reads the first line of the literal from its start. -/
theorem blockEnd_lines (hcode : r.OpensInCode s [] b) (htail : r.Follows s.tail)
    (hc : r.Admits n c) :
    l.blockEnd (r.lines s c) s.start =
      (s.before.length + (r.distance? s n b c).getD (n + s.after.length) + 1 : Nat) := by
  obtain ⟨m, b₀, harrives, hpassage⟩ := hcode
  have hclosing : l.closingFrom? m b₀ ((s.lead ++ (r.opener ++ c.first)) :: r.later s c) =
      (r.distance? s n b c).map (· + 1) := by
    have hlines := passage_lines hpassage htail hc
    rw [List.nil_append, List.length_nil, Nat.zero_add] at hlines
    rw [closingFrom?, hlines, distance?]
    cases l.passage l.fresh b 0 (s.tail :: s.after) with
    | closed distance => rfl
    | unfinished => rfl
    | next m' b' => rfl
  have hle := s.start_le
  have htotal := length_lines (s := s) hc
  rw [blockEnd, drop_lines, harrives.closing?, List.nil_append, hclosing, Option.map_map,
    List.length_nil]
  cases r.distance? s n b c with
  | none =>
    simp only [Option.map_none, Option.getD_none]
    omega
  | some k =>
    simp only [Option.map_some, Option.getD_some, Function.comp_apply]
    omega

/-- A block that has ended before the literal ends where it does, whatever stands in the literal. -/
theorem opaque_of_closedBefore (h : r.ClosedBefore s) : r.Opaque s n := by
  rcases h with ⟨k, hreach⟩ | ⟨mid, m, b₀, k, harrives, hpassage⟩
  · apply opaque_of_closing?
    intro c _
    rw [Lexis.closing?, drop_lines, closingFrom?_append_of_closed hreach]
  · have hclosing : ∀ c : RawContent, l.closing? ((r.lines s c).drop s.start) =
        some (k + (s.before.length - s.start - mid.length)) := by
      intro c
      rw [drop_lines, harrives.closing?, closingFrom?_of_ne_nil (by simp), hpassage]
      rfl
    exact opaque_of_closing? fun c _ => hclosing c

/-- The line after the first of the literal can begin with any text that may stand in it. -/
theorem exists_admits (hw : r.Holds w) (s : Surroundings) (n : Nat) :
    ∃ c, r.Admits n c ∧
      ∃ t rest, r.later s c = (w ++ t) :: rest ∧ rest.length = n + s.after.length := by
  have hnil : r.Holds [] := r.holds_of_closingSigns [] (fun c hc => absurd hc List.not_mem_nil)
  -- Without lines between its ends, the line after the first of the literal is its last.
  cases n with
  | zero =>
    refine ⟨⟨[], [], w⟩, ⟨hnil, fun t ht => absurd ht List.not_mem_nil, hw, rfl⟩, ?_⟩
    exact ⟨r.closer ++ s.tail, s.after, rfl, by simp⟩
  | succ n =>
    refine ⟨⟨[], w :: List.replicate n [], []⟩, ⟨hnil, ?_, hnil, by simp⟩, ?_⟩
    · intro t ht
      rcases List.mem_cons.1 ht with rfl | ht
      · exact hw
      · rw [List.eq_of_mem_replicate ht]
        exact hnil
    · refine ⟨[], List.replicate n [] ++ (r.closer ++ s.tail) :: s.after, by simp [later], ?_⟩
      simp only [List.length_append, List.length_replicate, List.length_cons]
      omega

/-- Two contents after which a scan that goes on ends differently: one closes the block on the line
after the first, the other makes a comment of that line. -/
theorem not_opaque_of_next (hl : l.Usual) (hcode : r.OpensInCode s [] b) (htail : r.Follows s.tail)
    {m' : μ} {b' : Balance} (hnext : l.passage l.fresh b 0 (s.tail :: s.after) = .next m' b')
    (hmore : 0 < n + s.after.length) : ¬ r.Opaque s n := by
  -- The mode in which the scan goes on was carried over from some line, so it can be left.
  obtain ⟨⟨w, hw, hclosed⟩, v, hv, hcomment⟩ :=
    hl.exists_lines (carry_of_passage_next hnext) b'
  obtain ⟨c, hc, t, rest, hlater, -⟩ := exists_admits (r.holds_of_closingSigns w hw) s n
  obtain ⟨d, hd, u, more, hlater', hlength⟩ := exists_admits (r.holds_of_closingSigns v hv) s n
  have hclosing : r.distance? s n b c = some 0 := by
    rw [distance?, hnext]
    dsimp only
    rw [hlater, closingFrom?, passage, hclosed]
  have hpassing : r.distance? s n b d = (l.closingFrom? l.fresh b' more).map (· + 1) := by
    rw [distance?, hnext]
    dsimp only
    rw [hlater', closingFrom?, passage, hcomment]
    dsimp only
    rw [hl.carry_fresh]
  intro hopaque
  have hsame := hopaque c d hc hd
  rw [blockEnd_lines hcode htail hc, blockEnd_lines hcode htail hd, hclosing, hpassing] at hsame
  cases hrest : l.closingFrom? l.fresh b' more with
  | none =>
    simp only [hrest, Option.map_none, Option.getD_none, Option.getD_some] at hsame
    omega
  | some k =>
    simp only [hrest, Option.map_some, Option.getD_some] at hsame
    omega

variable (r) in
/-- **When the content of a literal shows.** It has no influence on the end of the block exactly if
the scan does not go on behind the literal, or if there is only one line to go on with. -/
theorem opaque_iff (hl : l.Usual) (hcode : r.OpensInCode s [] b) (htail : r.Follows s.tail)
    (n : Nat) :
    r.Opaque s n ↔ (∀ m' b', l.passage l.fresh b 0 (s.tail :: s.after) ≠ .next m' b') ∨
      n = 0 ∧ s.after = [] := by
  constructor
  · intro hopaque
    by_contra hnot
    rw [not_or] at hnot
    obtain ⟨hgoes, hsome⟩ := hnot
    apply hgoes
    intro m' b' hnext
    refine not_opaque_of_next hl hcode htail hnext ?_ hopaque
    by_contra hnone
    exact hsome ⟨by omega, List.eq_nil_of_length_eq_zero (by omega)⟩
  · rintro (hends | ⟨rfl, hafter⟩)
    · exact opaque_of_ne_next hcode htail hends
    -- One line is left, and it is the last of the source.
    intro c d hc hd
    have hzero : ∀ e, r.Admits 0 e → (r.distance? s 0 b e).getD (0 + s.after.length) = 0 := by
      intro e he
      rw [distance?]
      cases hbehind : l.passage l.fresh b 0 (s.tail :: s.after) with
      | closed distance =>
        have hlt := l.passage_closed_lt hbehind
        rw [hafter, List.length_singleton] at hlt
        rw [Option.getD_some]
        omega
      | unfinished => simp [hafter]
      | next m' b' =>
        have hlength : (r.later s e).length = 1 := by
          simp [later, List.eq_nil_of_length_eq_zero he.length, hafter]
        dsimp only
        cases hclosing : l.closingFrom? m' b' (r.later s e) with
        | none => simp [hafter]
        | some k =>
          have hlt := l.closingFrom?_lt hclosing
          rw [Option.getD_some]
          omega
    rw [blockEnd_lines hcode htail hc, blockEnd_lines hcode htail hd, hzero c hc, hzero d hd]

/-- Whether the content of a literal shows. It does not if the block has ended before the literal,
and it does not if the scan comes to the literal in code and does not go on behind it. A scan that
reads the first line of the literal from its start and goes on behind it sees the content, unless
there is only one line to go on with. -/
structure OpacityRule (r : RawLiteral l) (s : Surroundings) (n : Nat) : Prop where
  of_closedBefore : r.ClosedBefore s → r.Opaque s n
  of_ne_next : ∀ mid b, r.OpensInCode s mid b → r.Follows s.tail →
    (∀ m' b', l.passage l.fresh b 0 (s.tail :: s.after) ≠ .next m' b') → r.Opaque s n
  iff_of_opensInCode : ∀ b, r.OpensInCode s [] b → r.Follows s.tail →
    (r.Opaque s n ↔ (∀ m' b', l.passage l.fresh b 0 (s.tail :: s.after) ≠ .next m' b') ∨
      n = 0 ∧ s.after = [])

theorem opacityRule (hl : l.Usual) (r : RawLiteral l) (s : Surroundings) (n : Nat) :
    r.OpacityRule s n where
  of_closedBefore := opaque_of_closedBefore
  of_ne_next _ _ hcode htail := opaque_of_ne_next hcode htail
  iff_of_opensInCode _ hcode htail := r.opaque_iff hl hcode htail n

end RawLiteral

/-- Characters that a mode lets pass by number. -/
theorem Lexis.scan_passing {μ : Type} {l : Lexis μ} {passing : Nat → μ → μ}
    (hread : ∀ count next c rest, l.read (passing count next) c rest =
      .pass (if count ≤ 1 then next else passing (count - 1) next)) (hw : w ≠ []) (next : μ)
    (b : Balance) (t : Line) :
    l.scan (passing w.length next) b (w ++ t) = l.scan next b t := by
  induction w with
  | nil => exact absurd rfl hw
  | cons c w ih =>
    rw [List.cons_append, scan, hread]
    dsimp only
    cases w with
    | nil => rfl
    | cons d w =>
      rw [if_neg (by simp)]
      exact ih (List.cons_ne_nil d w)

/-! ## Go -/

namespace Go

theorem usual_lexis : lexis.Usual where
  carry_fresh := rfl
  clear_braces := clear_of_opensNothing (by simp [OpensNothing])
  read_slashes _ := rfl
  leavable := by
    intro m m' h
    cases m with
    | raw => cases h
    | comment | opening =>
      cases h
      exact ⟨['*', '/'], by simp [closingSigns], fun _ _ => rfl⟩
    | code | string | escape | closing =>
      cases h
      exact lexis.leavable_fresh

theorem scan_raw_cons {c : Char} (h : c ≠ '\x60') (b : Balance) (t : Line) :
    lexis.scan .raw b (c :: t) = lexis.scan .raw b t := by
  have hnumber : ¬ (c.toNat == 96) = true := by
    rw [beq_iff_eq]
    exact fun heq => h (Char.toNat_inj.1 heq)
  have hread : lexis.read .raw c t = .pass .raw := if_neg hnumber
  rw [scan, hread]

/-- Strings in backquotes. -/
def rawString : RawLiteral lexis where
  opener := ['\x60']
  closer := ['\x60']
  inside := .raw
  Holds t := '\x60' ∉ t
  Follows _ := True
  scan_opener _ _ := rfl
  carry_inside := rfl
  scan_content b t h := by
    induction t with
    | nil => rfl
    | cons c t ih =>
      rw [List.mem_cons, not_or] at h
      rw [scan_raw_cons (Ne.symm h.1), ih h.2]
  scan_closer b t u h _ := by
    induction t with
    | nil => rfl
    | cons c t ih =>
      rw [List.mem_cons, not_or] at h
      rw [List.cons_append, scan_raw_cons (Ne.symm h.1), ih h.2]
  holds_of_closingSigns t h hmem := absurd (h _ hmem) (by decide)

end Go

/-! ## Rust -/

namespace Rust

/-- Comments can be ended, however deep they are nested. -/
theorem leavable_comment (depth : Nat) : lexis.Leavable (.comment depth) := by
  induction depth with
  | zero => exact ⟨['*', '/'], by simp [closingSigns], fun _ _ => rfl⟩
  | succ depth ih =>
    cases depth with
    | zero => exact ⟨['*', '/'], by simp [closingSigns], fun _ _ => rfl⟩
    | succ depth =>
      obtain ⟨w, hw, hleave⟩ := ih
      refine ⟨'*' :: '/' :: w, ?_, fun b t => hleave b t⟩
      intro c hc
      simp only [List.mem_cons] at hc
      rcases hc with rfl | rfl | hc
      · decide
      · decide
      · exact hw c hc

theorem usual_lexis : lexis.Usual where
  carry_fresh := rfl
  clear_braces := List.forall_mem_cons.2 ⟨fun _ => rfl, List.forall_mem_singleton.2 fun _ => rfl⟩
  read_slashes _ := rfl
  leavable := by
    intro m m' h
    cases m with
    | raw hashes => cases h
    | comment depth =>
      cases h
      exact leavable_comment depth
    | code | string | escape | passing count next =>
      cases h
      exact lexis.leavable_fresh

section RawString

variable (hashes : Nat)

/-- What opens a raw string. -/
def rawOpener : List Char := 'r' :: (List.replicate hashes '#' ++ ['"'])

/-- What closes a raw string. -/
def rawCloser : List Char := '"' :: List.replicate hashes '#'

theorem rawHashes?_opener (t : Line) :
    rawHashes? (List.replicate hashes '#' ++ '"' :: t) = some hashes := by
  have htake : (List.replicate hashes '#' ++ '"' :: t).takeWhile (· == '#') =
      List.replicate hashes '#' := by
    rw [List.takeWhile_append_of_pos (by simp)]
    simp
  have hquote : (List.replicate hashes '#' ++ '"' :: t)[hashes]? = some '"' := by
    simp
  rw [rawHashes?, htake, List.length_replicate, hquote]
  rfl

theorem scan_passing (hw : w ≠ []) (next : Mode) (b : Balance) (t : Line) :
    lexis.scan (.passing w.length next) b (w ++ t) = lexis.scan next b t :=
  Lexis.scan_passing (fun _ _ _ _ => rfl) hw next b t

theorem scan_rawOpener (b : Balance) (t : Line) :
    lexis.scan .code b (rawOpener hashes ++ t) = lexis.scan (.raw hashes) b t := by
  have hlength : (List.replicate hashes '#' ++ ['"']).length = hashes + 1 := by simp
  have hread : lexis.read .code 'r' (List.replicate hashes '#' ++ ['"'] ++ t) =
      .pass (.passing (hashes + 1) (.raw hashes)) := by
    rw [List.append_assoc, List.singleton_append]
    simp [lexis, read, rawHashes?_opener]
  rw [rawOpener, List.cons_append, scan, hread, ← hlength]
  exact scan_passing (by simp) (.raw hashes) b t

/-- A character inside of the string that does not begin its end. -/
theorem scan_raw_cons {c : Char} {t : Line} (h : ¬ rawCloser hashes <+: c :: t) (b : Balance) :
    lexis.scan (.raw hashes) b (c :: t) = lexis.scan (.raw hashes) b t := by
  have hends : ¬ (c == '"' && Text.startsWith (List.replicate hashes '#') t) = true := by
    intro hends
    rw [Bool.and_eq_true, beq_iff_eq, Text.startsWith, List.isPrefixOf_iff_prefix] at hends
    apply h
    rw [hends.1]
    exact (List.prefix_cons_inj '"').2 hends.2
  have hread : lexis.read (.raw hashes) c t = .pass (.raw hashes) := if_neg hends
  rw [scan, hread]

theorem scan_rawCloser (b : Balance) (u : Line) :
    lexis.scan (.raw hashes) b (rawCloser hashes ++ u) = lexis.scan .code b u := by
  have hstarts : Text.startsWith (List.replicate hashes '#') (List.replicate hashes '#' ++ u) =
      true := by
    rw [Text.startsWith, List.isPrefixOf_iff_prefix]
    exact List.prefix_append _ u
  have hread : lexis.read (.raw hashes) '"' (List.replicate hashes '#' ++ u) =
      .pass (if hashes = 0 then .code else .passing hashes .code) := by
    simp [lexis, read, hstarts]
  rw [rawCloser, List.cons_append, Lexis.scan, hread]
  dsimp only
  cases hashes with
  | zero => rfl
  | succ hashes =>
    have hpassing := scan_passing (w := List.replicate (hashes + 1) '#') (by simp) .code b u
    rw [List.length_replicate] at hpassing
    exact hpassing

/-- The end of the string does not begin inside of it: a quote stands first in it, and hashes
behind. -/
theorem prefix_of_prefix_append {c : Char} {t u : Line}
    (h : rawCloser hashes <+: c :: (t ++ (rawCloser hashes ++ u))) :
    rawCloser hashes <+: c :: t := by
  obtain ⟨rfl, v, hv⟩ := List.cons_prefix_cons.1 h
  apply (List.prefix_cons_inj '"').2
  -- The hashes end inside of `t`, or they would have to reach over the quote behind it.
  rcases List.append_eq_append_iff.1 hv with ⟨w, ht, -⟩ | ⟨w, hhashes, hrest⟩
  · exact ⟨w, ht.symm⟩
  · cases w with
    | nil => exact ⟨[], by simpa using hhashes⟩
    | cons d w =>
      have hquote : d = '"' := (List.cons.inj hrest).1.symm
      have hmem : d ∈ List.replicate hashes '#' := by simp [hhashes]
      rw [hquote] at hmem
      exact absurd (List.eq_of_mem_replicate hmem) (by decide)

/-- Raw strings with so many hashes. -/
def rawString : RawLiteral lexis where
  opener := rawOpener hashes
  closer := rawCloser hashes
  inside := .raw hashes
  Holds t := ¬ rawCloser hashes <:+: t
  Follows _ := True
  scan_opener := scan_rawOpener hashes
  carry_inside := rfl
  scan_content b t h := by
    induction t with
    | nil => rfl
    | cons c t ih =>
      rw [List.infix_cons_iff, not_or] at h
      rw [scan_raw_cons hashes h.1, ih h.2]
  scan_closer b t u h _ := by
    induction t with
    | nil => exact scan_rawCloser hashes b u
    | cons c t ih =>
      rw [List.infix_cons_iff, not_or] at h
      rw [List.cons_append, scan_raw_cons hashes (mt (prefix_of_prefix_append hashes) h.1), ih h.2]
  holds_of_closingSigns t h hinfix := by
    have hmem : '"' ∈ t := hinfix.subset List.mem_cons_self
    exact absurd (h _ hmem) (by decide)

end RawString

end Rust

/-! ## C# -/

namespace CSharp

/-- The marks of verbatim strings: one sign, or two in either order. -/
inductive VerbatimMark where
  | plain
  | dollarFirst
  | dollarLast
  deriving DecidableEq, Repr

/-- What opens a verbatim string. -/
def VerbatimMark.opener : VerbatimMark → List Char
  | .plain => ['@', '"']
  | .dollarFirst => ['$', '@', '"']
  | .dollarLast => ['@', '$', '"']

/-- A text in which each quote is one of a pair. -/
inductive QuotesDoubled : Line → Prop
  | nil : QuotesDoubled []
  | other {c : Char} {t : Line} (hc : c ≠ '"') (ht : QuotesDoubled t) : QuotesDoubled (c :: t)
  | pair {t : Line} (ht : QuotesDoubled t) : QuotesDoubled ('"' :: '"' :: t)

theorem usual_lexis : lexis.Usual where
  carry_fresh := rfl
  clear_braces := List.forall_mem_cons.2 ⟨fun _ => rfl, List.forall_mem_singleton.2 fun _ => rfl⟩
  read_slashes _ := rfl
  leavable := by
    intro m m' h
    cases m with
    | verbatim => cases h
    | comment =>
      cases h
      exact ⟨['*', '/'], by simp [closingSigns], fun _ _ => rfl⟩
    | code | string | escape | passing count next =>
      cases h
      exact lexis.leavable_fresh

theorem scan_verbatim_cons {c : Char} (h : c ≠ '"') (b : Balance) (t : Line) :
    lexis.scan .verbatim b (c :: t) = lexis.scan .verbatim b t := by
  have hread : lexis.read .verbatim c t = .pass .verbatim := if_pos (bne_iff_ne.2 h)
  rw [Lexis.scan, hread]

/-- Verbatim strings. -/
def verbatimString (mark : VerbatimMark) : RawLiteral lexis where
  opener := mark.opener
  closer := ['"']
  inside := .verbatim
  Holds := QuotesDoubled
  Follows u := u.head? ≠ some '"'
  scan_opener b t := by cases mark <;> rfl
  carry_inside := rfl
  scan_content b t h := by
    induction h with
    | nil => rfl
    | other hc _ ih => rw [scan_verbatim_cons hc, ih]
    | pair _ ih => exact ih
  scan_closer b t u h hu := by
    induction h with
    | nil =>
      have hread : lexis.read .verbatim '"' u = .pass .code := by
        simp [lexis, read, hu]
      rw [List.nil_append, List.singleton_append, scan, hread]
      rfl
    | other hc _ ih => rw [List.cons_append, scan_verbatim_cons hc, ih]
    | pair _ ih => exact ih
  holds_of_closingSigns t h := by
    induction t with
    | nil => exact .nil
    | cons c t ih =>
      apply QuotesDoubled.other
      · rintro rfl
        exact absurd (h _ List.mem_cons_self) (by decide)
      · exact ih (List.forall_mem_cons.1 h).2

end CSharp

/-! ## The three together -/

/-- **Whether the content of a raw literal moves the end of a block.** It does not if the block has
ended before the literal, nor if the scan comes to the literal in code and ends with what stands
behind it. If the scan reads the first line of the literal from its start, it does not exactly if
the scan ends so, or if the literal has two lines and the second is the last of the source. -/
theorem raw_content_opaque_iff (hashes : Nat) (mark : CSharp.VerbatimMark) (s : Surroundings)
    (n : Nat) :
    Go.rawString.OpacityRule s n ∧ (Rust.rawString hashes).OpacityRule s n ∧
      (CSharp.verbatimString mark).OpacityRule s n :=
  ⟨RawLiteral.opacityRule Go.usual_lexis _ s n, RawLiteral.opacityRule Rust.usual_lexis _ s n,
    RawLiteral.opacityRule CSharp.usual_lexis _ s n⟩

/-- A literal in a block that ends behind it on the same line. -/
def closedBehind : Surroundings where
  before := ["f \x7b".toList]
  lead := "x = ".toList
  tail := "\x7d".toList
  after := ["g".toList]
  start := 0
  start_le := by decide

theorem content_opaque_of_closedBehind :
    Go.rawString.Opaque closedBehind 1 ∧ (Rust.rawString 2).Opaque closedBehind 1 ∧
      (CSharp.verbatimString .dollarFirst).Opaque closedBehind 1 := by
  obtain ⟨hgo, hrust, hcsharp⟩ := raw_content_opaque_iff 2 .dollarFirst closedBehind 1
  refine ⟨?_, ?_, ?_⟩
  · apply (hgo.iff_of_opensInCode ⟨1, true⟩
      ⟨.code, ⟨1, true⟩, ⟨closedBehind.before, rfl, rfl⟩, fun _ _ => rfl⟩ trivial).2
    left
    intro m b hnext
    cases hnext
  · apply (hrust.iff_of_opensInCode ⟨1, true⟩
      ⟨.code, ⟨1, true⟩, ⟨closedBehind.before, rfl, rfl⟩, fun _ _ => rfl⟩ trivial).2
    left
    intro m b hnext
    cases hnext
  · have hfollows : (CSharp.verbatimString .dollarFirst).Follows closedBehind.tail := by
      intro hquote
      cases hquote
    apply (hcsharp.iff_of_opensInCode ⟨1, true⟩
      ⟨.code, ⟨1, true⟩, ⟨closedBehind.before, rfl, rfl⟩, fun _ _ => rfl⟩ hfollows).2
    left
    intro m b hnext
    cases hnext

/-- A literal in a block that goes on behind it. -/
def closedLater : Surroundings where
  before := ["f \x7b".toList]
  lead := "x = ".toList
  tail := []
  after := ["\x7d".toList]
  start := 0
  start_le := by decide

/-- Of five lines the last ends the block if the line inside of the literal is empty, and that line
ends it if it is a brace. -/
theorem brace_in_literal_ends_block :
    (Go.lexis.blockEnd (Go.rawString.lines closedLater ⟨[], [[]], []⟩) 0 = 4 ∧
      Go.lexis.blockEnd (Go.rawString.lines closedLater ⟨[], [['\x7d']], []⟩) 0 = 2) ∧
    (Rust.lexis.blockEnd ((Rust.rawString 1).lines closedLater ⟨[], [[]], []⟩) 0 = 4 ∧
      Rust.lexis.blockEnd ((Rust.rawString 1).lines closedLater ⟨[], [['\x7d']], []⟩) 0 = 2) ∧
    CSharp.lexis.blockEnd ((CSharp.verbatimString .plain).lines closedLater ⟨[], [[]], []⟩) 0 = 4 ∧
      CSharp.lexis.blockEnd
        ((CSharp.verbatimString .plain).lines closedLater ⟨[], [['\x7d']], []⟩) 0 = 2 := by
  decide +kernel

end SourceAtlas
