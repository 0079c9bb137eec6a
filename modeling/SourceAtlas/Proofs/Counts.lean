import Mathlib.Algebra.BigOperators.Group.List.Basic
import SourceAtlas.Project.Basic
import SourceAtlas.Proofs.SymbolTable

/-!
# Counting files

The totals of an index count lines, functions and classes. A `Count` stands for any of the three,
so that each law is stated once: what a table of files adds up to (`Count.sum`), how the sum moves
when a file is entered or taken out (`sum_put`, `sum_erase`), and what the sweep over found files
counts. The sweep counts a file as often as it was found, while the table holds it once; the
difference is what the pairs that came `again` add up to (`sum_ofPairs`).
-/

set_option autoImplicit false

namespace SourceAtlas

open Assoc

/-- What the totals of an index count besides files. -/
inductive Count where
  | lines
  | functions
  | classes
  deriving DecidableEq, Repr

namespace Count

variable {files : Assoc Outline}

/-- The count of one outline. -/
def of : Count → Outline → Int
  | lines, o => o.totalLines
  | functions, o => o.functions.length
  | classes, o => o.classes.length

/-- The count that the totals of an index give. -/
def total : Count → Totals → Int
  | lines, t => t.lines
  | functions, t => t.functions
  | classes, t => t.classes

/-- The counts of all outlines of a table, added up. -/
def sum (c : Count) (files : Assoc Outline) : Int := files.foldr (fun e n => c.of e.2 + n) 0

@[simp] theorem sum_nil (c : Count) : c.sum [] = 0 := rfl

@[simp] theorem sum_cons (c : Count) (e : String × Outline) (files : Assoc Outline) :
    c.sum (e :: files) = c.of e.2 + c.sum files := rfl

@[simp] theorem total_zero (c : Count) : c.total .zero = 0 := by cases c <;> rfl

@[simp] theorem total_add (c : Count) (t : Totals) (o : Outline) :
    c.total (t.add o) = c.total t + c.of o := by
  cases c <;> rfl

@[simp] theorem total_subtract (c : Count) (t : Totals) (o : Outline) :
    c.total (t.subtract o) = c.total t - c.of o := by
  cases c <;> rfl

@[simp] theorem total_with_files (c : Count) (t : Totals) (n : Int) :
    c.total { t with files := n } = c.total t := by
  cases c <;> rfl

/-- Totals are known by the number of files and the three counts. -/
theorem totals_eq {t u : Totals} (hfiles : t.files = u.files)
    (hcounts : ∀ c : Count, c.total t = c.total u) : t = u := by
  obtain ⟨files, lines, functions, classes⟩ := t
  obtain ⟨files', lines', functions', classes'⟩ := u
  have hlines : lines = lines' := hcounts .lines
  have hfunctions : functions = functions' := hcounts .functions
  have hclasses : classes = classes' := hcounts .classes
  rw [Totals.mk.injEq]
  exact ⟨hfiles, hlines, hfunctions, hclasses⟩

theorem sum_perm (c : Count) {more : Assoc Outline} (h : files.Perm more) :
    c.sum files = c.sum more := by
  induction h with
  | nil => rfl
  | cons e _ ih => rw [sum_cons, sum_cons, ih]
  | swap d e files =>
    simp only [sum_cons]
    omega
  | trans _ _ ihfirst ihsecond => exact ihfirst.trans ihsecond

/-- The sweep over files counts every one of them. -/
theorem total_ofFiles (c : Count) (files : Assoc Outline) :
    c.total (Totals.ofFiles files) = c.sum files := by
  have key : ∀ t : Totals,
      c.total (files.foldl (fun t e => t.add e.2) t) = c.total t + c.sum files := by
    induction files with
    | nil => simp
    | cons e files ih =>
      intro t
      rw [List.foldl_cons, ih, total_add, sum_cons, add_assoc]
  rw [Totals.ofFiles, total_with_files]
  exact (key .zero).trans (by rw [total_zero, zero_add])

/-- A table without a name lacks the count of its outline. -/
theorem sum_erase (c : Count) (h : files.keys.Nodup) (path : String) :
    c.sum (files.erase path) = c.sum files - (files.get? path).elim 0 c.of := by
  induction files with
  | nil => simp [erase]
  | cons e files ih =>
    obtain ⟨k, o⟩ := e
    simp only [keys, List.map_cons, List.nodup_cons] at h
    have hrest := ih h.2
    rw [erase] at hrest
    rw [get?_cons]
    by_cases hk : path = k
    · subst hk
      have hnone : get? files path = none := get?_eq_none_iff.2 h.1
      rw [hnone] at hrest
      simp only [erase, List.filter_cons, bne_self_eq_false, Bool.false_eq_true, if_false,
        if_true, sum_cons, Option.elim, hrest]
      omega
    · have hb : (k != path) = true := by simpa using fun h => hk h.symm
      simp only [erase, List.filter_cons, hb, if_true, hk, if_false, sum_cons, hrest]
      omega

/-- A table with a new outline of a file counts it in place of the old one. -/
theorem sum_put (c : Count) (h : files.keys.Nodup) (path : String) (o : Outline) :
    c.sum (files.put path o) = c.sum (files.erase path) + c.of o := by
  rw [sum_erase c h]
  induction files with
  | nil => simp [put]
  | cons e files ih =>
    obtain ⟨k, p⟩ := e
    simp only [keys, List.map_cons, List.nodup_cons] at h
    rw [get?_cons]
    by_cases hk : path = k
    · subst hk
      simp only [put, beq_self_eq_true, if_true, sum_cons, Option.elim]
      omega
    · have hb : ¬ k = path := fun h => hk h.symm
      simp only [put, beq_iff_eq, hb, if_false, hk, sum_cons, ih h.2]
      omega

end Count

namespace Assoc

variable {β : Type}

/-- The pairs whose name was seen before, or came before them. -/
def again (seen : List String) : List (String × β) → List (String × β)
  | [] => []
  | (k, v) :: pairs => if k ∈ seen then (k, v) :: again seen pairs else again (seen ++ [k]) pairs

/-- Pairs with different names, none of them seen before, hold nothing that comes again. -/
theorem again_of_nodup {seen : List String} {pairs : List (String × β)}
    (h : (seen ++ pairs.map Prod.fst).Nodup) : again seen pairs = [] := by
  induction pairs generalizing seen with
  | nil => rfl
  | cons e pairs ih =>
    obtain ⟨k, v⟩ := e
    have hk : k ∉ seen := by
      intro hmem
      exact (List.nodup_append.1 h).2.2 k hmem k (by simp) rfl
    rw [again, if_neg hk]
    exact ih (by simpa using h)

/-- No name stands for two values. -/
def Single (pairs : List (String × β)) : Prop :=
  ∀ k v w, (k, v) ∈ pairs → (k, w) ∈ pairs → v = w

end Assoc

namespace Count

variable {pairs : List (String × Outline)}

/-- A table holds each file once; what came again is what the sweep counts besides. The accumulated
table `t` is the one that `Assoc.ofPairs` has made so far. -/
theorem sum_foldl_put (c : Count) {t : Assoc Outline} (ht : t.keys.Nodup)
    (hsingle : Assoc.Single (t ++ pairs)) :
    c.sum (pairs.foldl (fun t (k, v) => t.put k v) t) + c.sum (again t.keys pairs) =
      c.sum t + c.sum pairs := by
  induction pairs generalizing t with
  | nil => simp [again]
  | cons e pairs ih =>
    obtain ⟨k, v⟩ := e
    -- The table stays part of what was given, so that one key still has one outline.
    have hput : ∀ p w, (p, w) ∈ t.put k v → (p, w) ∈ t ++ (k, v) :: pairs := by
      intro p w hmem
      have hget := get?_of_mem (nodup_keys_put ht k v) hmem
      rw [get?_put] at hget
      split at hget
      · rename_i hp
        cases hget
        simp [hp]
      · exact List.mem_append_left _ (mem_of_get? hget)
    have hnext : Assoc.Single (t.put k v ++ pairs) := by
      intro p a b ha hb
      apply hsingle p a b
      · rcases List.mem_append.1 ha with ha | ha
        · exact hput p a ha
        · simp [ha]
      · rcases List.mem_append.1 hb with hb | hb
        · exact hput p b hb
        · simp [hb]
    have hrest := ih (nodup_keys_put ht k v) hnext
    rw [sum_put c ht, sum_erase c ht, keys_put] at hrest
    rw [List.foldl_cons, sum_cons, again]
    -- A key that came before has the same outline, which is counted again.
    by_cases hk : k ∈ t.keys
    · obtain ⟨w, hw⟩ := mem_keys_iff.1 hk
      have hwv : w = v :=
        hsingle k w v (List.mem_append_left _ (mem_of_get? hw)) (by simp)
      rw [if_pos hk, hw, hwv, Option.elim_some] at hrest
      rw [if_pos hk, sum_cons]
      show c.sum (pairs.foldl _ (t.put k v)) + (c.of v + _) = c.sum t + (c.of v + _)
      omega
    · rw [if_neg hk, get?_eq_none_iff.2 hk] at hrest
      rw [if_neg hk]
      show c.sum (pairs.foldl _ (t.put k v)) + _ = c.sum t + (c.of v + _)
      rw [Option.elim_none] at hrest
      omega

theorem sum_ofPairs (c : Count) (h : Assoc.Single pairs) :
    c.sum pairs = c.sum (ofPairs pairs) + c.sum (again [] pairs) := by
  have key := sum_foldl_put c (t := []) List.nodup_nil (by simpa using h)
  simpa [ofPairs, keys] using key.symm

end Count

end SourceAtlas
