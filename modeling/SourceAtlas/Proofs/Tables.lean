import Mathlib.Data.List.Induction
import Mathlib.Data.List.Nodup
import Mathlib.Data.String.Basic
import Mathlib.Tactic.Common
import SourceAtlas.Index.Basic

/-!
# Laws of tables and sets of names

A table is read through `Assoc.get?`. Each operation gets one equation for what can be read
afterwards (`get?_put`, `get?_erase`, `get?_putNew`), so that later modules never unfold a table.
A table whose names are all different (`keys.Nodup`) is determined by what can be read from it up
to the order of its entries. Sets of names are read through membership.
-/

set_option autoImplicit false

namespace SourceAtlas

variable {α ε : Type}
variable {xs : List α}

/-! ## Lists -/

theorem length_le_flatMap {β : Type} {h : α → List β} (hne : ∀ a, h a ≠ []) (as : List α) :
    as.length ≤ (as.flatMap h).length := by
  induction as with
  | nil => simp
  | cons a as ih =>
    have hpos := List.length_pos_iff.2 (hne a)
    rw [List.flatMap_cons, List.length_append, List.length_cons]
    omega

/-- Work on a list succeeds when it does on each of its items. -/
theorem mapM_eq_ok_iff {β : Type} {f : α → Except ε β} {ys : List β} :
    xs.mapM f = .ok ys ↔ List.Forall₂ (fun x y => f x = .ok y) xs ys := by
  induction xs generalizing ys with
  | nil =>
    rw [List.mapM_nil, List.forall₂_nil_left_iff]
    exact ⟨fun h => (Except.ok.inj h).symm, fun h => h ▸ rfl⟩
  | cons x xs ih =>
    rw [List.mapM_cons, List.forall₂_cons_left_iff]
    constructor
    · intro h
      cases hx : f x with
      | error e =>
        rw [hx] at h
        cases h
      | ok y =>
        rw [hx] at h
        cases hrest : xs.mapM f with
        | error e =>
          rw [hrest] at h
          cases h
        | ok rest =>
          rw [hrest] at h
          cases h
          exact ⟨y, rest, rfl, ih.1 hrest, rfl⟩
    · rintro ⟨y, rest, hx, hrest, rfl⟩
      rw [hx, ih.2 hrest]
      rfl

/-- What a list of results holds when none of them is a failure. -/
theorem mem_iff_of_mapM_eq_ok {β : Type} {f : α → Except ε β} {ys : List β} (h : xs.mapM f = .ok ys)
    {y : β} : y ∈ ys ↔ ∃ x ∈ xs, f x = .ok y := by
  rw [mapM_eq_ok_iff] at h
  induction h with
  | nil => simp
  | @cons x z xs ys hx _ ih =>
    simp only [List.mem_cons, ih, exists_eq_or_imp, hx, Except.ok.injEq]
    exact or_congr_left eq_comm

/-- If no result is a failure, there is a list of them. -/
theorem exists_mapM_eq_ok {β : Type} {f : α → Except ε β} (h : ∀ x ∈ xs, ∃ y, f x = .ok y) :
    ∃ ys, xs.mapM f = .ok ys := by
  simp only [mapM_eq_ok_iff]
  induction xs with
  | nil => exact ⟨[], .nil⟩
  | cons x xs ih =>
    obtain ⟨y, hy⟩ := h x List.mem_cons_self
    obtain ⟨ys, hys⟩ := ih (List.forall_mem_cons.1 h).2
    exact ⟨y :: ys, .cons hy hys⟩

/-- In a list of results none was a failure. -/
theorem exists_of_mapM_eq_ok {β : Type} {f : α → Except ε β} {ys : List β} (h : xs.mapM f = .ok ys) :
    ∀ x ∈ xs, ∃ y, f x = .ok y := by
  rw [mapM_eq_ok_iff] at h
  induction h with
  | nil => simp
  | @cons x y xs ys hx _ ih =>
    intro z hz
    rcases List.mem_cons.1 hz with rfl | hz
    · exact ⟨y, hx⟩
    · exact ih z hz

theorem nodup_eraseDups [BEq α] [LawfulBEq α] (xs : List α) : xs.eraseDups.Nodup := by
  match xs with
  | [] => exact List.nodup_nil
  | x :: xs =>
    have hlen : (xs.filter fun b => !b == x).length < (x :: xs).length :=
      Nat.lt_succ_of_le (List.length_filter_le _ _)
    rw [List.eraseDups_cons, List.nodup_cons]
    refine ⟨?_, nodup_eraseDups _⟩
    rw [List.mem_eraseDups, List.mem_filter]
    simp
termination_by xs.length
decreasing_by exact hlen

/-- A list that was sorted by the texts of its items is in their order. -/
theorem pairwise_mergeSort_by (key : α → String) (items : List α) :
    (items.mergeSort fun a b => key a ≤ key b).Pairwise fun a b => key a ≤ key b := by
  refine (List.pairwise_mergeSort ?_ ?_ items).imp fun hle => of_decide_eq_true hle
  · intro a b c hab hbc
    exact decide_eq_true (le_trans (of_decide_eq_true hab) (of_decide_eq_true hbc))
  · intro a b
    simpa using le_total (key a) (key b)

/-! ## Tables -/

namespace Assoc

variable {β : Type}
variable {v : β}
variable {pairs : List (String × β)}

@[simp] theorem get?_nil (key : String) : get? ([] : Assoc β) key = none := rfl

theorem get?_cons (k : String) (v : β) (t : Assoc β) (key : String) :
    get? ((k, v) :: t) key = if key = k then some v else get? t key := by
  by_cases h : key = k
  · subst h
    simp [get?]
  · have hb : (key == k) = false := by simpa using h
    rw [if_neg h, get?, List.lookup_cons, hb]
    rfl

theorem get?_append (s t : Assoc β) (key : String) :
    get? (s ++ t) key = (get? s key).or (get? t key) := by
  simp only [get?, List.lookup_append]

theorem has_eq_isSome (t : Assoc β) (key : String) : t.has key = (t.get? key).isSome := rfl

variable {t : Assoc β} {key : String}

theorem has_iff_exists : t.has key = true ↔ ∃ v, t.get? key = some v := by
  rw [has_eq_isSome, Option.isSome_iff_exists]

theorem has_eq_false_iff : t.has key = false ↔ t.get? key = none := by
  rw [has_eq_isSome, Option.isSome_eq_false_iff, Option.isNone_iff_eq_none]

/-- What can be read after a name was given a value. -/
theorem get?_put (t : Assoc β) (k : String) (v : β) (key : String) :
    (t.put k v).get? key = if key = k then some v else t.get? key := by
  induction t with
  | nil => rw [put, get?_cons]
  | cons e t ih =>
    obtain ⟨k', v'⟩ := e
    by_cases hk : k' = k
    · subst hk
      simp only [put, beq_self_eq_true, if_true, get?_cons]
      split <;> rfl
    · simp only [put, beq_iff_eq, hk, if_false, get?_cons, ih]
      by_cases hkey : key = k'
      · subst hkey
        simp [hk]
      · simp [hkey]

/-- What can be read after a name was taken out. -/
theorem get?_erase (t : Assoc β) (k key : String) :
    (t.erase k).get? key = if key = k then none else t.get? key := by
  induction t with
  | nil => simp [erase]
  | cons e t ih =>
    obtain ⟨k', v'⟩ := e
    simp only [erase] at ih
    by_cases hk : k' = k
    · subst hk
      simp only [erase, List.filter_cons, bne_self_eq_false, Bool.false_eq_true, if_false, ih,
        get?_cons]
      split <;> rfl
    · have hb : (k' != k) = true := by simpa using hk
      simp only [erase, List.filter_cons, hb, if_true, get?_cons, ih]
      by_cases hkey : key = k'
      · subst hkey
        simp [hk]
      · simp [hkey]

/-- Taking out a name that is not there changes nothing. -/
theorem erase_eq_self (h : key ∉ t.keys) : t.erase key = t := by
  rw [erase, List.filter_eq_self]
  rintro ⟨k, v⟩ hmem
  have hne : k ≠ key := by
    rintro rfl
    exact h (List.mem_map.2 ⟨(k, v), hmem, rfl⟩)
  simpa using hne

/-- What can be read after a free name was given a value: an older value stays. -/
theorem get?_putNew (t : Assoc β) (k : String) (v : β) (key : String) :
    (t.putNew k v).get? key = (t.get? key).or (if key = k then some v else none) := by
  unfold putNew
  cases h : t.has k with
  | true =>
    obtain ⟨w, hw⟩ := has_iff_exists.1 h
    by_cases hkey : key = k
    · subst hkey
      simp [hw]
    · simp [hkey]
  | false => simp [get?_append, get?_cons]

theorem mem_keys_iff : key ∈ t.keys ↔ ∃ v, t.get? key = some v := by
  induction t with
  | nil => simp [keys]
  | cons e t ih =>
    obtain ⟨k, v⟩ := e
    simp only [keys, List.map_cons, List.mem_cons] at ih ⊢
    rw [get?_cons, ih]
    by_cases h : key = k <;> simp [h]

theorem has_iff_mem_keys : t.has key = true ↔ key ∈ t.keys := by
  rw [has_iff_exists, mem_keys_iff]

theorem get?_eq_none_iff : t.get? key = none ↔ key ∉ t.keys := by
  rw [mem_keys_iff, Option.eq_none_iff_forall_ne_some]
  push Not
  rfl

theorem mem_of_get? (h : t.get? key = some v) : (key, v) ∈ t := by
  induction t with
  | nil => simp at h
  | cons e t ih =>
    obtain ⟨k, w⟩ := e
    rw [get?_cons] at h
    split at h
    · rename_i hk
      cases h
      simp [hk]
    · exact List.mem_cons_of_mem _ (ih h)

theorem get?_of_mem (ht : t.keys.Nodup) (h : (key, v) ∈ t) : t.get? key = some v := by
  induction t with
  | nil => simp at h
  | cons e t ih =>
    obtain ⟨k, w⟩ := e
    simp only [keys, List.map_cons, List.nodup_cons] at ht
    rw [get?_cons]
    rcases List.mem_cons.1 h with h | h
    · cases h
      simp
    · have hmem : key ∈ t.map Prod.fst := List.mem_map.2 ⟨(key, v), h, rfl⟩
      have hne : key ≠ k := fun hk => ht.1 (hk ▸ hmem)
      rw [if_neg hne]
      exact ih ht.2 h

theorem mem_iff_get? (ht : t.keys.Nodup) : (key, v) ∈ t ↔ t.get? key = some v :=
  ⟨get?_of_mem ht, mem_of_get?⟩

/-- Giving a name a value adds the name at the end, unless it was there. -/
theorem keys_put (t : Assoc β) (k : String) (v : β) :
    (t.put k v).keys = if k ∈ t.keys then t.keys else t.keys ++ [k] := by
  induction t with
  | nil => simp [put, keys]
  | cons e t ih =>
    obtain ⟨k', v'⟩ := e
    simp only [keys] at ih
    by_cases hk : k' = k
    · subst hk
      simp [put, keys]
    · have hk' : k ≠ k' := fun h => hk h.symm
      simp only [put, beq_iff_eq, hk, if_false, keys, List.map_cons, ih, List.mem_cons, hk',
        false_or]
      by_cases hmem : k ∈ t.map Prod.fst <;> simp [hmem]

theorem put_of_not_mem (h : key ∉ t.keys) (v : β) : t.put key v = t ++ [(key, v)] := by
  induction t with
  | nil => rfl
  | cons e t ih =>
    obtain ⟨k, w⟩ := e
    obtain ⟨hne, hrest⟩ := not_or.1 (mt List.mem_cons.2 h)
    have hk : (k == key) = false := by simpa using fun he : k = key => hne he.symm
    rw [put, hk, ih hrest]
    rfl

/-- A new name can be taken out again. -/
theorem erase_put (h : key ∉ t.keys) (v : β) : (t.put key v).erase key = t := by
  have hold : t.filter (fun e => e.1 != key) = t := erase_eq_self h
  rw [put_of_not_mem h, erase, List.filter_append, hold]
  simp

/-- Giving a name the value that it has changes nothing. -/
theorem put_eq_self (h : t.get? key = some v) : t.put key v = t := by
  induction t with
  | nil => cases h
  | cons e t ih =>
    obtain ⟨k, w⟩ := e
    rw [get?_cons] at h
    by_cases hk : key = k
    · subst hk
      rw [if_pos rfl] at h
      cases h
      simp [put]
    · rw [if_neg hk] at h
      have hb : (k == key) = false := by simpa using fun he : k = key => hk he.symm
      rw [put, hb, ih h]
      rfl

theorem nodup_keys_put (ht : t.keys.Nodup) (k : String) (v : β) : (t.put k v).keys.Nodup := by
  rw [keys_put]
  split
  · exact ht
  · rename_i hk
    rw [List.nodup_append]
    refine ⟨ht, List.nodup_singleton k, ?_⟩
    rintro a ha b hb rfl
    exact hk (by simpa using List.mem_singleton.1 hb ▸ ha)

theorem nodup_keys_erase (ht : t.keys.Nodup) (k : String) : (t.erase k).keys.Nodup :=
  List.Nodup.sublist (List.Sublist.map Prod.fst List.filter_sublist) ht

/-- What can be read after the values have been replaced or dropped one by one. -/
theorem get?_filterMap {γ : Type} (ht : t.keys.Nodup) (f : String → β → Option γ) (key : String) :
    Assoc.get? (t.filterMap fun e => (f e.1 e.2).map fun w => (e.1, w)) key =
      (t.get? key).bind (f key) := by
  induction t with
  | nil => rfl
  | cons e t ih =>
    obtain ⟨k, v⟩ := e
    have hrest := ih (List.nodup_cons.1 ht).2
    rw [get?_cons, List.filterMap_cons]
    by_cases hkey : key = k
    · subst hkey
      have hnone : Assoc.get? t key = none := get?_eq_none_iff.2 (List.nodup_cons.1 ht).1
      cases hf : f key v with
      | none => simp [hrest, hnone, hf]
      | some w => simp [get?_cons, hf]
    · cases hf : f k v with
      | none => simp [hrest, hkey]
      | some w => simp [hrest, get?_cons, hkey]

theorem nodup_keys_filterMap {γ : Type} (ht : t.keys.Nodup) (f : String → β → Option γ) :
    (Assoc.keys (t.filterMap fun e => (f e.1 e.2).map fun w => (e.1, w))).Nodup := by
  induction t with
  | nil => exact List.nodup_nil
  | cons e t ih =>
    obtain ⟨hk, hrest⟩ := List.nodup_cons.1 ht
    rw [List.filterMap_cons]
    cases hf : f e.1 e.2 with
    | none => exact ih hrest
    | some w =>
      refine List.nodup_cons.2 ⟨?_, ih hrest⟩
      have hnone : Assoc.get? t e.1 = none := get?_eq_none_iff.2 hk
      exact get?_eq_none_iff.1 (by rw [get?_filterMap hrest, hnone, Option.bind_none])

/-- Tables in which the same can be read hold the same entries, in some order. -/
theorem perm_of_get?_eq {s t : Assoc β} (hs : s.keys.Nodup) (ht : t.keys.Nodup)
    (h : ∀ key, s.get? key = t.get? key) : s.Perm t := by
  refine (List.perm_ext_iff_of_nodup (List.Nodup.of_map _ hs) (List.Nodup.of_map _ ht)).2 ?_
  rintro ⟨key, v⟩
  rw [mem_iff_get? hs, mem_iff_get? ht, h key]

theorem ofPairs_append_singleton (pairs : List (String × β)) (k : String) (v : β) :
    ofPairs (pairs ++ [(k, v)]) = (ofPairs pairs).put k v := by
  simp [ofPairs, List.foldl_append]

theorem nodup_keys_ofPairs (pairs : List (String × β)) : (ofPairs pairs).keys.Nodup := by
  induction pairs using List.reverseRecOn with
  | nil => exact List.nodup_nil
  | append_singleton pairs e ih =>
    obtain ⟨k, v⟩ := e
    rw [ofPairs_append_singleton]
    exact nodup_keys_put ih k v

theorem mem_keys_ofPairs :
    key ∈ (ofPairs pairs).keys ↔ key ∈ pairs.map Prod.fst := by
  induction pairs using List.reverseRecOn with
  | nil => rfl
  | append_singleton pairs e ih =>
    obtain ⟨k, v⟩ := e
    rw [ofPairs_append_singleton, mem_keys_iff]
    simp only [get?_put, List.map_append, List.mem_append, ← ih, mem_keys_iff, List.map_cons,
      List.map_nil, List.mem_singleton]
    by_cases h : key = k <;> simp [h]

/-- A value that can be read from a table of pairs was entered. -/
theorem mem_of_get?_ofPairs (h : (ofPairs pairs).get? key = some v) :
    (key, v) ∈ pairs := by
  induction pairs using List.reverseRecOn with
  | nil => exact absurd h (by simp [ofPairs])
  | append_singleton pairs e ih =>
    obtain ⟨k, w⟩ := e
    rw [ofPairs_append_singleton, get?_put] at h
    split at h
    · rename_i hk
      cases h
      simp [hk]
    · exact List.mem_append_left _ (ih h)

end Assoc

/-! ## Sets of names -/

namespace Names

variable {names : Names} {n : String}

theorem mem_insert {name : String} :
    n ∈ names.insert name ↔ n ∈ names ∨ n = name := by
  unfold insert
  split
  · rename_i h
    rw [List.contains_iff_mem] at h
    exact ⟨Or.inl, fun hn => hn.elim id (fun he => he ▸ h)⟩
  · simp

theorem mem_insertAll {more : List String} :
    n ∈ names.insertAll more ↔ n ∈ names ∨ n ∈ more := by
  unfold insertAll
  induction more generalizing names with
  | nil => simp
  | cons m more ih =>
    rw [List.foldl_cons, ih, mem_insert, List.mem_cons, or_assoc]

@[simp] theorem mem_ofList {names : List String} : n ∈ ofList names ↔ n ∈ names := by
  simp [ofList, mem_insertAll]

@[simp] theorem mem_sorted {names : List String} : n ∈ sorted names ↔ n ∈ names := by
  simp [sorted]

theorem nodup_insert (h : names.Nodup) (name : String) :
    (names.insert name).Nodup := by
  unfold insert
  split
  · exact h
  · rename_i hnew
    rw [List.nodup_append]
    refine ⟨h, List.nodup_singleton _, ?_⟩
    rintro a ha b hb rfl
    exact hnew (List.contains_iff_mem.2 (List.mem_singleton.1 hb ▸ ha))

theorem nodup_ofList (names : List String) : (ofList names).Nodup :=
  List.foldlRecOn names insert List.nodup_nil fun _ h name _ => nodup_insert h name

theorem pairwise_sorted (names : List String) : (sorted names).Pairwise (· ≤ ·) :=
  pairwise_mergeSort_by id names

/-- A set is shown with each name once, in order. -/
theorem pairwise_lt_sorted (h : names.Nodup) : (sorted names).Pairwise (· < ·) := by
  have hnodup : (sorted names).Nodup := (List.mergeSort_perm _ _).nodup_iff.2 h
  exact (pairwise_sorted names).imp₂ (fun _ _ hle hne => lt_of_le_of_ne hle hne) hnodup

end Names

end SourceAtlas
