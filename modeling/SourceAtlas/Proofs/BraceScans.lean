import Mathlib.Data.List.Infix
import SourceAtlas.Proofs.LineRanges

/-!
# Counting braces

What a scan for the end of a block does with text that is all code. There the scan only counts:
`Balance.run` is the count over a text, and it ends early exactly where a closing brace brings the
count back to nothing after some brace was opened (`Balance.run_eq_none_iff`). A text in which the
braces are nested leaves the count as it was, as long as one brace around it is still open
(`Balance.run_of_nested`).

`Lexis.Clear` says of a text that a language reads all of it as code. A scan over clear lines is a
count (`Lexis.closingFrom?_of_clear`), so its end can be read off the braces alone. For a head that
ends in a brace, a body, and a closing brace on a line of its own, `Lexis.closing?_of_body` gives
the end: the last of these lines if no brace in the head closes what the head has opened, and the
line of the head otherwise.
-/

set_option autoImplicit false

namespace SourceAtlas

/-! ## Braces of a text -/

/-- How many more braces a text opens than it closes. -/
def excess (t : List Char) : Int := (t.count '\x7b' : Int) - t.count '\x7d'

/-- Each closing brace of the text has an opening one before it, and none is left open. -/
structure Nested (t : List Char) : Prop where
  excess_eq : excess t = 0
  excess_nonneg {u : List Char} (h : u <+: t) : 0 ≤ excess u

instance (t : List Char) : Decidable (Nested t) :=
  decidable_of_iff (excess t = 0 ∧ ∀ u ∈ t.inits, 0 ≤ excess u)
    ⟨fun h => ⟨h.1, fun hu => h.2 _ ((List.mem_inits _ _).2 hu)⟩,
      fun h => ⟨h.excess_eq, fun _ hu => h.excess_nonneg ((List.mem_inits _ _).1 hu)⟩⟩

/-- A brace of the text closes all that the text has opened before it. -/
def ClosesBlock (t : List Char) : Prop :=
  ∃ u v, t = u ++ '\x7d' :: v ∧ '\x7b' ∈ u ∧ excess u = 1

@[simp] theorem excess_nil : excess [] = 0 := rfl

theorem excess_append (s t : List Char) : excess (s ++ t) = excess s + excess t := by
  simp only [excess, List.count_append]
  omega

theorem excess_open (t : List Char) : excess ('\x7b' :: t) = excess t + 1 := by
  simp only [excess, List.count_cons_self, List.count_cons_of_ne (show '\x7b' ≠ '\x7d' by decide)]
  omega

theorem excess_close (t : List Char) : excess ('\x7d' :: t) = excess t - 1 := by
  simp only [excess, List.count_cons_self, List.count_cons_of_ne (show '\x7d' ≠ '\x7b' by decide)]
  omega

theorem excess_cons_of_ne {c : Char} (hopen : c ≠ '\x7b') (hclose : c ≠ '\x7d') (t : List Char) :
    excess (c :: t) = excess t := by
  simp only [excess, List.count_cons_of_ne hopen, List.count_cons_of_ne hclose]

/-- Nested braces close what they have opened as soon as there are any. -/
theorem Nested.closesBlock_iff {t : List Char} (h : Nested t) : ClosesBlock t ↔ '\x7b' ∈ t := by
  constructor
  · rintro ⟨u, v, rfl, hmem, -⟩
    exact List.mem_append_left _ hmem
  · intro hmem
    have hclosing : '\x7d' ∈ t := by
      have hopens := List.count_pos_iff.2 hmem
      have heq := h.excess_eq
      rw [excess] at heq
      exact List.count_pos_iff.1 (by omega)
    -- The last closing brace has nothing behind it to make up for, so it closes the last one open.
    obtain ⟨u, v, rfl, hlast⟩ := Text.exists_last_sep hclosing
    have htotal := h.excess_eq
    rw [excess_append, excess_close] at htotal
    have hbefore : 0 ≤ excess (u ++ ['\x7d']) := h.excess_nonneg ⟨v, by simp⟩
    rw [excess_append, excess_close, excess_nil] at hbefore
    have hbehind : 0 ≤ excess v := by
      rw [excess, List.count_eq_zero_of_not_mem hlast]
      omega
    refine ⟨u, v, rfl, ?_, by omega⟩
    apply List.count_pos_iff.1
    have hone : excess u = 1 := by omega
    rw [excess] at hone
    omega

/-! ## The count -/

namespace Balance

variable {t : List Char} {b : Balance}

/-- The balance after a text of code, or none if the text closes the block. -/
def run (b : Balance) : List Char → Option Balance
  | [] => some b
  | c :: cs => (b.step c).bind fun b' => b'.run cs

theorem run_cons (b : Balance) (c : Char) (cs : List Char) :
    b.run (c :: cs) = (b.step c).bind fun b' => b'.run cs := rfl

theorem run_append (b : Balance) (s t : List Char) :
    b.run (s ++ t) = (b.run s).bind fun b' => b'.run t := by
  induction s generalizing b with
  | nil => rfl
  | cons c s ih =>
    rw [List.cons_append, run_cons, run_cons]
    cases b.step c with
    | none => rfl
    | some b' => exact ih b'

theorem step_open (b : Balance) : b.step '\x7b' = some ⟨b.depth + 1, true⟩ := by simp [step]

theorem step_of_ne {c : Char} (hopen : c ≠ '\x7b') (hclose : c ≠ '\x7d') (b : Balance) :
    b.step c = some b := by
  simp [step, hopen, hclose]

theorem step_close_eq_none_iff :
    b.step '\x7d' = none ↔ b.opened = true ∧ b.depth = 1 := by
  simp [step, Int.sub_eq_zero]

theorem step_close_of_ne (h : b.step '\x7d' ≠ none) :
    b.step '\x7d' = some ⟨b.depth - 1, b.opened⟩ := by
  unfold step at h ⊢
  split <;> simp_all

/-- A count that goes on has added up all braces of the text. -/
theorem run_eq_some {b' : Balance} (h : b.run t = some b') :
    b'.depth = b.depth + excess t ∧ (b'.opened = true ↔ b.opened = true ∨ '\x7b' ∈ t) := by
  induction t generalizing b with
  | nil =>
    cases h
    simp
  | cons c t ih =>
    rw [run_cons] at h
    by_cases hopen : c = '\x7b'
    · subst hopen
      rw [step_open, Option.bind_some] at h
      obtain ⟨hdepth, hopened⟩ := ih h
      rw [excess_open, hopened]
      dsimp only at hdepth
      exact ⟨by omega, by simp⟩
    by_cases hclose : c = '\x7d'
    · subst hclose
      by_cases hstep : b.step '\x7d' = none
      · rw [hstep] at h
        cases h
      · rw [step_close_of_ne hstep, Option.bind_some] at h
        obtain ⟨hdepth, hopened⟩ := ih h
        rw [excess_close, hopened]
        dsimp only at hdepth
        exact ⟨by omega, by simp⟩
    · rw [step_of_ne hopen hclose, Option.bind_some] at h
      obtain ⟨hdepth, hopened⟩ := ih h
      rw [excess_cons_of_ne hopen hclose, hopened]
      simp [hdepth, Ne.symm hopen]

/-- **The count ends exactly at a closing brace that brings it back to nothing,** after a brace was
opened. -/
theorem run_eq_none_iff :
    b.run t = none ↔
      ∃ u v, t = u ++ '\x7d' :: v ∧ (b.opened = true ∨ '\x7b' ∈ u) ∧ b.depth + excess u = 1 := by
  constructor
  · intro h
    induction t generalizing b with
    | nil => cases h
    | cons c t ih =>
      rw [run_cons] at h
      cases hstep : b.step c with
      | none =>
        -- Only a closing brace ends the count, and nothing stands before it.
        have hclose : c = '\x7d' := by
          by_contra hne
          by_cases hopen : c = '\x7b'
          · rw [hopen, step_open] at hstep
            cases hstep
          · rw [step_of_ne hopen hne] at hstep
            cases hstep
        subst hclose
        obtain ⟨hopened, hdepth⟩ := step_close_eq_none_iff.1 hstep
        exact ⟨[], t, rfl, .inl hopened, by simpa using hdepth⟩
      | some b' =>
        rw [hstep, Option.bind_some] at h
        obtain ⟨u, v, rfl, hopened, hdepth⟩ := ih h
        have hrunOne : b.run [c] = some b' := by
          rw [run_cons, hstep]
          rfl
        obtain ⟨hone, hopenedOne⟩ := run_eq_some hrunOne
        refine ⟨c :: u, v, rfl, ?_, ?_⟩
        · rcases hopened with hbefore | hmem
          · apply (hopenedOne.1 hbefore).imp_right
            intro hmem
            exact List.mem_append_left u hmem
          · exact .inr (List.mem_cons_of_mem _ hmem)
        · rw [show c :: u = [c] ++ u from rfl, excess_append]
          omega
  · rintro ⟨u, v, rfl, hopened, hdepth⟩
    rw [run_append]
    cases hrun : b.run u with
    | none => rfl
    | some b' =>
      obtain ⟨hdepth', hopened'⟩ := run_eq_some hrun
      rw [Option.bind_some, run_cons, step_close_eq_none_iff.2 ⟨hopened'.2 hopened, by omega⟩]
      rfl

theorem run_start_eq_none_iff : start.run t = none ↔ ClosesBlock t := by
  rw [run_eq_none_iff, ClosesBlock]
  simp [start]

/-- Nested braces inside of an open block leave the count as it was. -/
theorem run_of_nested (h : Nested t) {depth : Int} (hdepth : 1 ≤ depth) :
    (⟨depth, true⟩ : Balance).run t = some ⟨depth, true⟩ := by
  cases hrun : (⟨depth, true⟩ : Balance).run t with
  | none =>
    obtain ⟨u, v, rfl, -, hone⟩ := run_eq_none_iff.1 hrun
    have hbefore : 0 ≤ excess (u ++ ['\x7d']) := h.excess_nonneg ⟨v, by simp⟩
    rw [excess_append, excess_close, excess_nil] at hbefore
    dsimp only at hone
    omega
  | some b' =>
    obtain ⟨hafter, hopened⟩ := run_eq_some hrun
    rw [h.excess_eq] at hafter
    obtain ⟨after, opened⟩ := b'
    simp_all

/-- Whatever has been counted, some braces close the block. -/
theorem exists_run_eq_none (b : Balance) :
    ∃ t : List Char, (∀ c ∈ t, c = '\x7b' ∨ c = '\x7d') ∧ b.run t = none := by
  -- Opened often enough, the block is closed by as many braces as are open then.
  obtain ⟨opens, hopens⟩ : ∃ opens : Nat, opens = b.depth.natAbs + 1 := ⟨_, rfl⟩
  obtain ⟨closes, hcloses⟩ : ∃ closes : Nat, b.depth + opens = closes + 1 :=
    ⟨(b.depth + opens - 1).toNat, by omega⟩
  refine ⟨List.replicate opens '\x7b' ++ List.replicate (closes + 1) '\x7d', ?_, ?_⟩
  · intro c hc
    rcases List.mem_append.1 hc with hc | hc
    · exact .inl (List.eq_of_mem_replicate hc)
    · exact .inr (List.eq_of_mem_replicate hc)
  · rw [run_eq_none_iff]
    refine ⟨List.replicate opens '\x7b' ++ List.replicate closes '\x7d', [], ?_, .inr ?_, ?_⟩
    · rw [List.replicate_succ', List.append_assoc]
    · apply List.mem_append_left
      rw [List.mem_replicate]
      exact ⟨by omega, rfl⟩
    · have hopened : excess (List.replicate opens '\x7b') = opens := by
        simp [excess, List.count_replicate]
      have hclosed : excess (List.replicate closes '\x7d') = -closes := by
        simp [excess, List.count_replicate]
      rw [excess_append, hopened, hclosed]
      omega

end Balance

/-! ## Clear text -/

namespace Lexis

variable {μ : Type} {l : Lexis μ} {b : Balance} {t : Line}

/-- All of the text is code, whatever follows it. -/
def Clear (l : Lexis μ) (t : Line) : Prop :=
  ∀ c ∈ t, ∀ rest, l.read l.fresh c rest = .code l.fresh

theorem scan_append_of_clear (h : l.Clear t) (rest : Line) :
    l.scan l.fresh b (t ++ rest) =
      match b.run t with
      | none => .closed
      | some b' => l.scan l.fresh b' rest := by
  induction t generalizing b with
  | nil => rfl
  | cons c t ih =>
    rw [List.cons_append, scan, h c List.mem_cons_self, Balance.run_cons]
    cases hstep : b.step c with
    | none => simp
    | some b' =>
      have hrest := ih (b := b') (List.forall_mem_cons.1 h).2
      simpa using hrest

/-- The end of a scan over clear lines: each line is counted, one after the other. -/
theorem closingFrom?_of_clear (hcarry : l.carry l.fresh = some l.fresh) (h : l.Clear t)
    (rest : List Line) :
    l.closingFrom? l.fresh b (t :: rest) =
      match b.run t with
      | none => some 0
      | some b' => (l.closingFrom? l.fresh b' rest).map (· + 1) := by
  have hscan := scan_append_of_clear (b := b) h []
  rw [List.append_nil] at hscan
  rw [closingFrom?, passage, hscan]
  cases b.run t with
  | none => rfl
  | some b' =>
    dsimp only [scan]
    rw [hcarry]

/-- Clear lines that close nothing are counted and passed. -/
theorem closingFrom?_append_of_clear (hcarry : l.carry l.fresh = some l.fresh) {ts : List Line}
    (h : ∀ t ∈ ts, l.Clear t) {b' : Balance} (hrun : b.run ts.flatten = some b')
    (rest : List Line) :
    l.closingFrom? l.fresh b (ts ++ rest) =
      (l.closingFrom? l.fresh b' rest).map (· + ts.length) := by
  induction ts generalizing b with
  | nil =>
    cases hrun
    simp
  | cons t ts ih =>
    rw [List.flatten_cons, Balance.run_append, Option.bind_eq_some_iff] at hrun
    obtain ⟨b₁, hfirst, hlater⟩ := hrun
    rw [List.cons_append, closingFrom?_of_clear hcarry (h t List.mem_cons_self), hfirst]
    dsimp only
    rw [ih (List.forall_mem_cons.1 h).2 hlater, Option.map_map]
    apply congrArg (fun f => Option.map f _)
    funext k
    simp only [Function.comp_apply, List.length_cons]
    omega

variable {head : Line} {body : List Line}

/-- A block that is closed in its head ends there. -/
theorem closing?_of_closesBlock (hhead : l.Clear head) (h : ClosesBlock head)
    (tail : Line) (rest : List Line) : l.closing? ((head ++ tail) :: rest) = some 0 := by
  rw [closing?, closingFrom?, passage, scan_append_of_clear hhead,
    Balance.run_start_eq_none_iff.2 h]

/-- **A block ends with the brace that closes its body,** if nothing in its head closes what the
head has opened. -/
theorem closing?_of_body (hcarry : l.carry l.fresh = some l.fresh)
    (hhead : l.Clear (head ++ ['\x7b'])) (hbody : ∀ t ∈ body, l.Clear t) (hend : l.Clear ['\x7d'])
    (heven : excess head = 0) (hopen : ¬ ClosesBlock head) (hnested : Nested body.flatten)
    (after : List Line) :
    l.closing? ((head ++ ['\x7b']) :: (body ++ ['\x7d'] :: after)) = some (body.length + 1) := by
  -- The last brace of the head opens the block: behind the head the count is one.
  have hrunHead : Balance.start.run (head ++ ['\x7b']) = some ⟨1, true⟩ := by
    rw [Balance.run_append]
    cases hrun : Balance.start.run head with
    | none => exact absurd (Balance.run_start_eq_none_iff.1 hrun) hopen
    | some b' =>
      obtain ⟨hdepth, -⟩ := Balance.run_eq_some hrun
      rw [heven] at hdepth
      rw [Option.bind_some, Balance.run_cons, Balance.step_open, hdepth]
      rfl
  have hrunBody := Balance.run_of_nested hnested (Int.le_refl 1)
  have hrunEnd : (⟨1, true⟩ : Balance).run ['\x7d'] = none := rfl
  rw [closing?, closingFrom?_of_clear hcarry hhead, hrunHead]
  dsimp only
  rw [closingFrom?_append_of_clear hcarry hbody hrunBody, closingFrom?_of_clear hcarry hend,
    hrunEnd]
  simp

theorem clear_plain (t : Line) : plain.Clear t := fun _ _ _ => rfl

end Lexis

/-- The characters that open no literal or comment in any of the languages. -/
def OpensNothing (c : Char) : Prop := c ≠ '"' ∧ c ≠ '\'' ∧ c ≠ '\x60' ∧ c ≠ '/'

instance (c : Char) : Decidable (OpensNothing c) := by
  unfold OpensNothing
  infer_instance

namespace Go

/-- Text without quotes and slashes is code. -/
theorem clear_of_opensNothing {t : Line} (h : ∀ c ∈ t, OpensNothing c) : lexis.Clear t := by
  intro c hc rest
  obtain ⟨hquote, -, hraw, hslash⟩ := h c hc
  have hnumber : (c.toNat == 96) = false := by
    rw [beq_eq_false_iff_ne]
    exact fun heq => hraw (Char.toNat_inj.1 heq)
  simp [lexis, read, hquote, hslash, hnumber]

end Go

end SourceAtlas
