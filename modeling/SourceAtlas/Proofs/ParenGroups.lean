import Mathlib.Data.List.Basic
import SourceAtlas.Source.Braces

/-!
# The first group in parentheses

Parentheses match by nesting: a text is `Balanced` if it is built from other characters and from
groups of balanced texts in parentheses. The scan for the first group only counts. `group_of_first`
says that it finds the text up to the matching parenthesis, and all of the rest if there is none.

The count and the grammar meet in one lemma each way. A balanced text leaves the count as it was
(`line_of_balanced`). A scan that ends with `n` further parentheses open has read `n` balanced texts
with a closing parenthesis behind each (`Levels`), and one more (`levels_of_line_error`).
-/

set_option autoImplicit false

namespace SourceAtlas.Parens

/-- The character is no parenthesis. -/
def IsOther (c : Char) : Prop := c ≠ '(' ∧ c ≠ ')'

/-- Each parenthesis of the text has its match in the text. -/
inductive Balanced : List Char → Prop
  | nil : Balanced []
  | other {c : Char} {t : List Char} (hc : IsOther c) (ht : Balanced t) : Balanced (c :: t)
  | group {s t : List Char} (hs : Balanced s) (ht : Balanced t) : Balanced ('(' :: (s ++ ')' :: t))

/-! ## One line of text -/

namespace State

variable {s s' : State} {c : Char} {t u text : List Char} {d : Int} {done : List Char} {n : Nat}

theorem line_cons (s : State) (c : Char) (t : List Char) :
    s.line (c :: t) = (s.step c).bind fun s' => s'.line t := by
  rw [line]
  cases s.step c <;> rfl

theorem line_append (s : State) (t u : List Char) :
    s.line (t ++ u) = (s.line t).bind fun s' => s'.line u := by
  induction t generalizing s with
  | nil => rfl
  | cons c t ih =>
    rw [List.cons_append, line_cons, line_cons]
    cases s.step c with
    | error text => rfl
    | ok s' => exact ih s'

theorem step_other (hc : IsOther c) (s : State) : s.step c = .ok (s.keep c) := by
  simp [step, hc.1, hc.2]

theorem step_open (d : Int) (done : List Char) :
    (⟨d, true, done⟩ : State).step '(' = .ok ⟨d + 1, true, '(' :: done⟩ := by
  simp [step, keep]

theorem step_close (hd : d ≠ 1) (done : List Char) :
    (⟨d, true, done⟩ : State).step ')' = .ok ⟨d - 1, true, ')' :: done⟩ := by
  simp [step, keep, Int.sub_eq_zero, hd]

theorem step_close_one (done : List Char) :
    (⟨1, true, done⟩ : State).step ')' = .error done.reverse := by
  simp [step]

/-- Text in front of the group is passed over. -/
theorem start_line (h : ∀ c ∈ t, IsOther c) : start.line t = .ok start := by
  induction t with
  | nil => rfl
  | cons c t ih =>
    rw [line_cons, step_other (h c List.mem_cons_self)]
    exact ih (List.forall_mem_cons.1 h).2

/-- A balanced text inside of the group is kept, and leaves the count as it was. -/
theorem line_of_balanced (h : Balanced t) (hd : 1 ≤ d) (done : List Char) :
    (⟨d, true, done⟩ : State).line t = .ok ⟨d, true, t.reverse ++ done⟩ := by
  induction h generalizing d done with
  | nil => rfl
  | @other c t hc _ ih =>
    rw [line_cons, step_other hc]
    simp [Except.bind, keep, ih hd]
  | @group s t _ _ ihs iht =>
    have hinner := ihs (d := d + 1) (by omega) ('(' :: done)
    rw [line_cons, step_open]
    simp only [Except.bind]
    rw [line_append, hinner]
    simp only [Except.bind]
    rw [line_cons, step_close (by omega)]
    simp [Except.bind, iht hd]

/-- All that is read inside of the group is kept. -/
theorem done_of_line (hs : s.inside = true) (h : s.line t = .ok s') :
    s'.done = t.reverse ++ s.done := by
  induction t generalizing s with
  | nil =>
    cases h
    rfl
  | cons c t ih =>
    rw [line_cons] at h
    cases hstep : s.step c with
    | error text =>
      rw [hstep] at h
      cases h
    | ok next =>
      rw [hstep] at h
      have hkept : next.inside = true ∧ next.done = c :: s.done := by
        rw [step] at hstep
        split_ifs at hstep <;> cases hstep <;> simp [keep, hs]
      rw [ih hkept.1 h, hkept.2]
      simp

/-- So many balanced texts with a closing parenthesis behind each, and one more. -/
def Levels : Nat → List Char → Prop
  | 0, t => Balanced t
  | n + 1, t => ∃ s u, t = s ++ ')' :: u ∧ Balanced s ∧ Levels n u

theorem Levels.other (hc : IsOther c) (h : Levels n t) : Levels n (c :: t) := by
  cases n with
  | zero => exact Balanced.other hc h
  | succ n =>
    obtain ⟨s, u, rfl, hs, hu⟩ := h
    exact ⟨c :: s, u, rfl, hs.other hc, hu⟩

theorem Levels.group (ht : Balanced t) (h : Levels n u) : Levels n ('(' :: (t ++ ')' :: u)) := by
  cases n with
  | zero => exact Balanced.group ht h
  | succ n =>
    obtain ⟨s, v, rfl, hs, hv⟩ := h
    exact ⟨'(' :: (t ++ ')' :: s), v, by simp, ht.group hs, hv⟩

/-- A scan that ends has met the parenthesis that closes the outermost of those open. -/
theorem levels_of_line_error (h : (⟨n + 1, true, done⟩ : State).line t = .error text) :
    ∃ inner rest, t = inner ++ ')' :: rest ∧ Levels n inner := by
  induction t generalizing n done with
  | nil => cases h
  | cons c t ih =>
    rw [line_cons] at h
    by_cases hopen : c = '('
    · subst hopen
      rw [step_open] at h
      obtain ⟨inner, rest, rfl, s, u, rfl, hs, hu⟩ := ih (n := n + 1) h
      exact ⟨'(' :: (s ++ ')' :: u), rest, by simp, hu.group hs⟩
    by_cases hclose : c = ')'
    · subst hclose
      cases n with
      | zero => exact ⟨[], t, rfl, .nil⟩
      | succ n =>
        rw [step_close (by omega)] at h
        have hless : ((n + 1 : Nat) : Int) + 1 - 1 = n + 1 := by omega
        simp only [Except.bind, hless] at h
        obtain ⟨inner, rest, rfl, hinner⟩ := ih h
        exact ⟨')' :: inner, rest, rfl, [], inner, rfl, .nil, hinner⟩
    · rw [step_other ⟨hopen, hclose⟩] at h
      obtain ⟨inner, rest, rfl, hinner⟩ := ih h
      exact ⟨c :: inner, rest, rfl, hinner.other ⟨hopen, hclose⟩⟩

end State

/-! ## Lines -/

variable {lines : List Line} {s s' : State} {c : Char} {t text rest : List Char}

/-- The scan of lines ends on the line that holds the character at which the scan of their text
ends. -/
theorem groupFrom_of_step_error (hlines : lines.flatten = t ++ c :: rest)
    (ht : s.line t = .ok s') (hc : s'.step c = .error text) :
    ∃ before u v after, lines = before ++ (u ++ c :: v) :: after ∧ before.flatten ++ u = t ∧
      groupFrom s lines = (text, some before.length) := by
  induction lines generalizing s t with
  | nil => simp at hlines
  | cons line lines ih =>
    have hcases : (∃ more, t = line ++ more ∧ lines.flatten = more ++ c :: rest) ∨
        ∃ v, line = t ++ c :: v := by
      rw [List.flatten_cons] at hlines
      rcases List.append_eq_append_iff.1 hlines with h | ⟨more, hline, hmore⟩
      · exact .inl h
      cases more with
      | nil => exact .inl ⟨[], by simpa using hline.symm, by simpa using hmore.symm⟩
      | cons d more => exact .inr ⟨more, by rw [hline, (List.cons.inj hmore).1]⟩
    rcases hcases with ⟨more, rfl, hmore⟩ | ⟨v, rfl⟩
    · rw [State.line_append] at ht
      cases hline : s.line line with
      | error text' =>
        rw [hline] at ht
        cases ht
      | ok next =>
        rw [hline] at ht
        obtain ⟨before, u, v, after, rfl, rfl, hgroup⟩ := ih hmore ht
        refine ⟨line :: before, u, v, after, rfl, by simp, ?_⟩
        rw [groupFrom, hline]
        simp [hgroup]
    · refine ⟨[], t, v, lines, rfl, rfl, ?_⟩
      rw [groupFrom, State.line_append, ht]
      simp [Except.bind, State.line_cons, hc]

theorem groupFrom_of_line_ok (h : s.line lines.flatten = .ok s') :
    groupFrom s lines = (s'.done.reverse, none) := by
  induction lines generalizing s with
  | nil =>
    cases h
    rfl
  | cons line lines ih =>
    rw [List.flatten_cons, State.line_append] at h
    cases hline : s.line line with
    | error text =>
      rw [hline] at h
      cases h
    | ok next =>
      rw [hline] at h
      rw [groupFrom, hline]
      simp [ih h]

/-- **The group is the text up to the matching parenthesis.** If the first parenthesis from line
`start` on is an opening one, the group is the balanced text between it and the closing one behind
this text, and it ends on the line that holds the latter. If no balanced text behind it has a
closing parenthesis behind, the group is all the rest, and counts as one of line `start`. -/
theorem group_of_first (lines : List Line) (start : Nat) (front rest : List Char)
    (hfront : ∀ c ∈ front, IsOther c) (htext : (lines.drop start).flatten = front ++ '(' :: rest) :
    (∀ inner behind, Balanced inner → rest = inner ++ ')' :: behind →
      ∃ before u v after, lines.drop start = before ++ (u ++ ')' :: v) :: after ∧
        before.flatten ++ u = front ++ '(' :: inner ∧
        group lines start = (inner, start + before.length)) ∧
    ((∀ inner behind, Balanced inner → rest ≠ inner ++ ')' :: behind) →
      group lines start = (rest, start)) := by
  have hopened : ∀ t, State.start.line (front ++ '(' :: t) = (⟨1, true, []⟩ : State).line t := by
    intro t
    rw [State.line_append, State.start_line hfront]
    rfl
  constructor
  · rintro inner behind hinner rfl
    have hinside : State.start.line (front ++ '(' :: inner) = .ok ⟨1, true, inner.reverse⟩ := by
      rw [hopened, State.line_of_balanced hinner (Int.le_refl 1), List.append_nil]
    rw [← List.cons_append, ← List.append_assoc] at htext
    obtain ⟨before, u, v, after, hlines, hbefore, hgroup⟩ :=
      groupFrom_of_step_error htext hinside (State.step_close_one _)
    refine ⟨before, u, v, after, hlines, hbefore, ?_⟩
    rw [group, hgroup, List.reverse_reverse]
    rfl
  · intro hopen
    cases hline : (⟨1, true, []⟩ : State).line rest with
    | error text =>
      obtain ⟨inner, behind, hrest, hinner⟩ := State.levels_of_line_error (n := 0) hline
      exact absurd hrest (hopen inner behind hinner)
    | ok s' =>
      have hgroup := groupFrom_of_line_ok (s := State.start) (by rw [htext, hopened, hline])
      rw [group, hgroup, State.done_of_line rfl hline]
      simp

/-- A group over two lines with another one inside, and a group that is never closed. -/
theorem group_of_nested :
    (∃ before u v after, ["f".toList, "(a(".toList, "b))(".toList].drop 0 =
        before ++ (u ++ ')' :: v) :: after ∧
      before.flatten ++ u = "f(a(b)".toList ∧
      group ["f".toList, "(a(".toList, "b))(".toList] 0 = ("a(b)".toList, 0 + before.length)) ∧
      group ["f".toList, "(a".toList] 0 = ("a".toList, 0) := by
  have hfront : ∀ c ∈ ['f'], IsOther c := by simp [IsOther]
  constructor
  · have hb : Balanced ['b'] := .other ⟨by decide, by decide⟩ .nil
    have hinner : Balanced ['a', '(', 'b', ')'] := .other ⟨by decide, by decide⟩ (hb.group .nil)
    exact (group_of_first ["f".toList, "(a(".toList, "b))(".toList] 0 ['f'] "a(b))(".toList hfront
      rfl).1 _ ['('] hinner rfl
  · apply (group_of_first ["f".toList, "(a".toList] 0 ['f'] ['a'] hfront rfl).2
    intro inner behind _ hrest
    have hmem : ')' ∈ ['a'] := by
      rw [hrest]
      simp
    simp at hmem

end SourceAtlas.Parens
