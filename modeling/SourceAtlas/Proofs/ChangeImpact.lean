import SourceAtlas.Proofs.Cutting
import SourceAtlas.Proofs.ShortestChains

/-!
# What a change affects, exactly

The dependents of a name are kept under the name itself or, for a method without an entry of its
own, under its class (`Index.dependentsKey?`). The search goes out from the dependents that are kept
there and avoids the name that was asked for, which need not be the key. Nothing is lost by that: a
name that is no key points to nothing, and the key points to nothing but the dependents with which
the search begins.

`Index.changeImpact_exact` says what the two lists of an answer are: the direct dependents, and
without these and the name itself all that the key reaches, each in the order of names and without
repetitions. Limits only cut the lists.
-/

set_option autoImplicit false

namespace SourceAtlas

/-! ## Sets of targets -/

namespace Graph

variable {g : Graph}

/-- Every node has its targets without repetitions. -/
def AreSets (g : Graph) : Prop := ∀ node, (g.targets node).Nodup

theorem areSets_nil : AreSets [] := fun _ => List.nodup_nil

theorem AreSets.addEdge (h : g.AreSets) (source target : String) :
    (g.addEdge source target).AreSets := by
  intro node
  by_cases hnode : node = source
  · subst hnode
    simpa [Graph.addEdge, targets, Assoc.get?_put] using Names.nodup_insert (h node) target
  · simpa [Graph.addEdge, targets, Assoc.get?_put, hnode] using h node

theorem areSets_transpose (g : Graph) : g.transpose.AreSets :=
  List.foldlRecOn _ _ areSets_nil fun _ hr e _ => hr.addEdge e.2 e.1

/-- Nothing is explored twice. -/
theorem nodup_explore (h : g.AreSets) (fuel : Nat) (seen : Names) (queue : List String) :
    (g.explore fuel seen queue).Nodup := by
  induction fuel generalizing seen queue with
  | zero => exact List.nodup_nil
  | succ fuel ih =>
    cases queue with
    | nil => exact List.nodup_nil
    | cons node queue =>
      rw [explore, List.nodup_append]
      refine ⟨(h node).filter _, ih _ _, ?_⟩
      rintro n hnew m hlater rfl
      exact (explore_sound hlater).1 (List.mem_append_right _ hnew)

end Graph

/-! ## The key of a name -/

namespace Text

/-- A text is cut at its first separator. -/
theorem splitOn_of_mem {sep : Char} {cs : List Char} (h : sep ∈ cs) :
    ∃ piece pieces, splitOn sep cs = cs.takeWhile (· != sep) :: piece :: pieces := by
  obtain ⟨front, rest, rfl, hfront⟩ := List.eq_append_cons_of_mem h
  have hclear : ∀ c ∈ front, (c != sep) = true := by
    intro c hc
    refine bne_iff_ne.2 fun heq => ?_
    exact hfront (heq ▸ hc)
  obtain ⟨piece, pieces, hrest⟩ := List.exists_cons_of_ne_nil (splitWhere_ne_nil (· == sep) rest)
  refine ⟨piece, pieces, ?_⟩
  rw [splitOn_append_sep, splitOn_of_not_mem hfront, List.takeWhile_append_of_pos hclear]
  simp [splitOn, hrest]

end Text

namespace Index

open Relation (TransGen)

variable {index : Index} {name key : String}

/-- The key under which the dependents of a name are kept: the name itself, or else what stands in
front of its first dot. -/
def dependentsKey? (index : Index) (name : String) : Option String :=
  let owner := String.ofList (name.toList.takeWhile (· != '.'))
  if index.dependents.has name then some name
  else if name.toList.contains '.' && index.dependents.has owner then some owner
  else none

theorem directDependents?_eq (index : Index) (name : String) :
    index.directDependents? name = (index.dependentsKey? name).map index.dependents.targets := by
  have htargets : ∀ n, index.dependents.has n = true →
      index.dependents.get? n = some (index.dependents.targets n) := by
    intro n hn
    obtain ⟨names, hnames⟩ := Assoc.has_iff_exists.1 hn
    rw [Graph.targets, hnames]
    rfl
  unfold directDependents? dependentsKey?
  cases hname : index.dependents.has name with
  | true =>
    rw [htargets name hname]
    rfl
  | false =>
    rw [Assoc.has_eq_false_iff.1 hname]
    by_cases hdot : '.' ∈ name.toList
    · obtain ⟨piece, pieces, hsplit⟩ := Text.splitOn_of_mem hdot
      cases howner : index.dependents.has
          (String.ofList (name.toList.takeWhile (· != '.'))) with
      | true => simp [hsplit, hdot, howner, htargets _ howner]
      | false => simp [hsplit, hdot, howner, Assoc.has_eq_false_iff.1 howner]
    · rw [Text.splitOn_of_not_mem hdot]
      simp [hdot]

/-- The name is the key, or it is no key at all. -/
theorem eq_or_not_has_of_dependentsKey? (h : index.dependentsKey? name = some key) :
    name = key ∨ index.dependents.has name = false := by
  unfold dependentsKey? at h
  cases hname : index.dependents.has name with
  | true =>
    rw [hname] at h
    exact Or.inl (Option.some.inj h)
  | false => exact Or.inr rfl

/-- A name that is asked for points to nothing but what its key points to. -/
theorem edge_key_of_edge (h : index.dependentsKey? name = some key) {n : String}
    (hedge : index.dependents.Edge name n) : index.dependents.Edge key n := by
  rcases eq_or_not_has_of_dependentsKey? h with rfl | hnone
  · exact hedge
  · obtain ⟨names, hnames, -⟩ := Graph.edge_iff.1 hedge
    rw [Assoc.has_eq_false_iff.1 hnone] at hnames
    cases hnames

/-! ## The two lists of an answer -/

/-- What a limit leaves of a list: all of it, unless the limit is positive and the list longer. -/
structure IsCut (limit : Int) (whole part : List String) : Prop where
  isPrefix : part <+: whole
  length_eq : (part.length : Int) = if 0 < limit then min limit whole.length else whole.length

theorem isCut_limited (limit : Int) (whole : List String) :
    IsCut limit whole (limited limit whole) := by
  unfold limited
  by_cases hlimit : 0 < limit
  · rw [if_pos hlimit]
    refine ⟨List.take_prefix _ _, ?_⟩
    rw [if_pos hlimit, List.length_take]
    omega
  · rw [if_neg hlimit]
    exact ⟨List.prefix_rfl, by rw [if_neg hlimit]⟩

/-- **What a change of a name affects.** Let the dependents of all names be sets. If they are kept
for the name, under a key, then there are two lists without common names, in order and without
repetitions. The first holds what the key points to. The second holds what else the key reaches,
without the name itself. Every answer is made of these two lists, each cut to its own limit. If
nothing is kept for the name, every answer says so. -/
theorem changeImpact_exact (index : Index) (hsets : index.dependents.AreSets) (name : String) :
    (index.dependentsKey? name = none → ∀ maxDirect maxTransitive,
        index.changeImpact name maxDirect maxTransitive = .error (.noDependents name)) ∧
      ∀ key, index.dependentsKey? name = some key → ∃ direct transitive,
        (∀ maxDirect maxTransitive, ∃ shown more,
          index.changeImpact name maxDirect maxTransitive = .ok (shown, more) ∧
            IsCut maxDirect direct shown ∧ IsCut maxTransitive transitive more) ∧
        direct.Pairwise (· < ·) ∧ (∀ n, n ∈ direct ↔ index.dependents.Edge key n) ∧
        transitive.Pairwise (· < ·) ∧
        (∀ n, n ∈ transitive ↔
          TransGen index.dependents.Edge key n ∧ ¬ index.dependents.Edge key n ∧ n ≠ name) ∧
        direct.Disjoint transitive := by
  refine ⟨fun hnone maxDirect maxTransitive => ?_, fun key hkey => ?_⟩
  · rw [changeImpact, directDependents?_eq, hnone]
    rfl
  have hbeyond : ∀ n, n ∈ Names.sorted
      (index.dependents.beyond (index.dependents.targets key) name) ↔
        TransGen index.dependents.Edge key n ∧ ¬ index.dependents.Edge key n ∧ n ≠ name := by
    intro n
    rw [Names.mem_sorted, Graph.mem_beyond_iff_of_hidden fun t => edge_key_of_edge hkey, Graph.Edge]
    tauto
  refine ⟨_, _, fun maxDirect maxTransitive => ⟨_, _, ?_, isCut_limited _ _, isCut_limited _ _⟩,
    Names.pairwise_lt_sorted (hsets key), fun n => Names.mem_sorted,
    Names.pairwise_lt_sorted (Graph.nodup_explore hsets _ _ _), hbeyond, ?_⟩
  · rw [changeImpact, directDependents?_eq, hkey]
    rfl
  · intro n hdirect htransitive
    exact ((hbeyond n).1 htransitive).2.1 (Names.mem_sorted.1 hdirect)

/-- A method that calls a function, which uses the class of the method through another one. -/
def methodInRing : Index :=
  ofFiles "/project" ((Outline.ofText
    "class C:\n    def m(self):\n        g()\n\ndef f():\n    C()\n\ndef g():\n    f()\n"
    "ring.py" none).toOption.toList.map fun o => ("ring.py", o))

/-- The method has no dependents of its own, so those of its class are given. The class is one of
the names that the change affects. -/
theorem methodInRing_impact :
    methodInRing.dependentsKey? "C.m" = some "C" ∧
      ∃ direct transitive,
        (∃ shown more, methodInRing.changeImpact "C.m" 0 1 = .ok (shown, more) ∧
          IsCut 0 direct shown ∧ IsCut 1 transitive more) ∧
        "f" ∈ direct ∧ "g" ∈ transitive ∧ "C" ∈ transitive ∧ direct.Disjoint transitive := by
  have hview : methodInRing.dependentsKey? "C.m" = some "C" ∧
      (methodInRing.dependents.targets "C", methodInRing.dependents.targets "f",
        methodInRing.dependents.targets "g") = (["f"], ["g"], ["C"]) := by decide +kernel
  obtain ⟨hkey, htargets⟩ := hview
  simp only [Prod.mk.injEq] at htargets
  obtain ⟨hclass, hf, hg⟩ := htargets
  have hedges : methodInRing.dependents.Edge "C" "f" ∧ methodInRing.dependents.Edge "f" "g" ∧
      methodInRing.dependents.Edge "g" "C" := by
    simp [Graph.Edge, hclass, hf, hg]
  have hloop : TransGen methodInRing.dependents.Edge "C" "g" :=
    (TransGen.single hedges.1).tail hedges.2.1
  obtain ⟨direct, transitive, hanswers, -, hdirect, -, htransitive, hdisjoint⟩ :=
    (methodInRing.changeImpact_exact (Graph.areSets_transpose _) "C.m").2 "C" hkey
  refine ⟨hkey, direct, transitive, hanswers 0 1, (hdirect "f").2 hedges.1,
    (htransitive "g").2 ⟨hloop, ?_, by decide⟩,
    (htransitive "C").2 ⟨hloop.tail hedges.2.2, ?_, by decide⟩, hdisjoint⟩
  · simp [Graph.Edge, hclass]
  · simp [Graph.Edge, hclass]

end Index

end SourceAtlas
