import Mathlib.Data.List.Chain
import Mathlib.Logic.Relation
import SourceAtlas.Proofs.Graphs
import SourceAtlas.Query.IndexQuery

/-!
# Chains of dependencies and what a change affects

A chain of dependencies is searched for forwards, in the graph of dependencies; what a change
affects is searched for backwards, in the graph of dependents. Both searches go breadth first and
take up a node when they first see it. What they share is said once: every node that was seen waits
in the queue or points to seen nodes only (`Graph.Settled`), and a turn of the search uses up at
least as many edges to unseen nodes as it puts nodes into the queue (`Graph.unseen_append_add_le`),
so that no search stops early.

* `path?_isSome_iff`: there is a path exactly when one node reaches the other.
* `mem_beyond_iff_of_hidden`: what is found beyond the targets of a node is all else that the node
  reaches.
* `Index.callChain_iff_impact`: if the dependents are the dependencies turned round, a chain leads
  from one name to another exactly when the first is among those that a change of the second
  affects.
-/

set_option autoImplicit false

namespace SourceAtlas

variable {chain : List String}

namespace Graph

open Relation (TransGen)

variable {g : Graph} {seen : Names} {queue fresh : List String} {node goal start : String}
variable {m n : String} {fuel : Nat}
variable {paths : List (List String)}

/-! ## A turn of a search -/

/-- Every node that was seen waits in the queue, or points to seen nodes only. -/
def Settled (g : Graph) (seen : Names) (queue : List String) : Prop :=
  ∀ n ∈ seen, n ∈ queue ∨ ∀ t, g.Edge n t → t ∈ seen

/-- The number of edges to nodes that were not seen. -/
def unseen (g : Graph) (seen : Names) : Nat := g.edges.countP fun e => !seen.contains e.2

/-- The targets of a node that were not seen, in any order. -/
def AreFresh (g : Graph) (seen : Names) (node : String) (fresh : List String) : Prop :=
  fresh.Perm ((g.targets node).filter fun n => !seen.contains n)

theorem AreFresh.mem_iff (h : g.AreFresh seen node fresh) :
    n ∈ fresh ↔ g.Edge node n ∧ n ∉ seen := by
  rw [List.Perm.mem_iff h, List.mem_filter, Bool.not_eq_true', List.contains_eq_mem,
    decide_eq_false_iff_not]
  rfl

/-- With the fresh targets of its first node in the queue, a search stays settled. -/
theorem Settled.expand (h : g.Settled seen (node :: queue)) (hfresh : g.AreFresh seen node fresh) :
    g.Settled (seen ++ fresh) (queue ++ fresh) := by
  intro n hn
  rcases List.mem_append.1 hn with hseen | hnew
  · rcases h n hseen with hqueue | htargets
    · rcases List.mem_cons.1 hqueue with rfl | hqueue
      · -- The first node leaves the queue: its targets were seen, or are seen from now on.
        refine Or.inr fun t ht => ?_
        by_cases hold : t ∈ seen
        · exact List.mem_append_left _ hold
        · exact List.mem_append_right _ (hfresh.mem_iff.2 ⟨ht, hold⟩)
      · exact Or.inl (List.mem_append_left _ hqueue)
    · exact Or.inr fun t ht => List.mem_append_left _ (htargets t ht)
  · exact Or.inl (List.mem_append_right _ hnew)

/-- Nothing is reached from seen nodes that was not seen, once the queue is empty. -/
theorem Settled.mem_of_reaches (h : g.Settled seen []) (hn : n ∈ seen)
    (hreaches : TransGen g.Edge n m) : m ∈ seen := by
  have hclosed : ∀ k ∈ seen, ∀ t, g.Edge k t → t ∈ seen := fun k hk =>
    (h k hk).resolve_left List.not_mem_nil
  induction hreaches with
  | single hedge => exact hclosed n hn _ hedge
  | tail _ hedge ih => exact hclosed _ ih _ hedge

/-- The edges of a node stand together among the edges of the graph. -/
theorem sublist_edges (g : Graph) (node : String) :
    ((g.targets node).map fun t => (node, t)).Sublist g.edges := by
  unfold targets
  cases hget : Assoc.get? g node with
  | none => exact List.nil_sublist _
  | some ts =>
    have hmem : (node, ts) ∈ g := Assoc.mem_of_get? hget
    have hflat := List.sublist_flatten_of_mem
      (List.mem_map.2 ⟨(node, ts), hmem, rfl⟩ : ts.map (fun t => (node, t)) ∈
        g.map fun e => e.2.map fun t => (e.1, t))
    rwa [List.flatMap_def.symm] at hflat

/-- A turn uses up an edge to an unseen node for each node that it puts into the queue. -/
theorem unseen_append_add_le (hfresh : g.AreFresh seen node fresh) :
    g.unseen (seen ++ fresh) + fresh.length ≤ g.unseen seen := by
  -- The edges to unseen nodes are those to fresh ones and those to nodes that stay unseen.
  have hparts := List.countP_eq_countP_filter_add g.edges (fun e => !seen.contains e.2)
    fun e => fresh.contains e.2
  have hstay : g.unseen (seen ++ fresh) =
      (g.edges.filter fun e => !fresh.contains e.2).countP fun e => !seen.contains e.2 := by
    rw [unseen, List.countP_filter]
    exact List.countP_congr fun e _ => by simp
  have hused : fresh.length ≤
      (g.edges.filter fun e => fresh.contains e.2).countP fun e => !seen.contains e.2 := by
    have hown := List.Sublist.countP_le (p := fun e => !seen.contains e.2 && fresh.contains e.2)
      (g.sublist_edges node)
    rw [List.countP_map] at hown
    rw [List.countP_filter]
    refine Nat.le_trans (Nat.le_of_eq ?_) hown
    rw [List.Perm.length_eq hfresh, ← List.countP_eq_length_filter]
    refine List.countP_congr fun t ht => ?_
    have hmem := hfresh.mem_iff (n := t)
    simp [hmem, Edge, ht]
  calc g.unseen (seen ++ fresh) + fresh.length
      = fresh.length +
          (g.edges.filter fun e => !fresh.contains e.2).countP fun e => !seen.contains e.2 := by
        rw [hstay, Nat.add_comm]
    _ ≤ (g.edges.filter fun e => fresh.contains e.2).countP (fun e => !seen.contains e.2) +
          (g.edges.filter fun e => !fresh.contains e.2).countP fun e => !seen.contains e.2 :=
        Nat.add_le_add_right hused _
    _ = g.unseen seen := hparts.symm

/-! ## Paths -/

/-- A way from `start` along edges, its last node first. -/
def IsTrail (g : Graph) (start : String) (path : List String) : Prop :=
  path.IsChain (fun t s => g.Edge s t) ∧ path.getLast? = some start

theorem IsTrail.extend {path : List String} (h : g.IsTrail start path) {next : String}
    (hnext : g.Edge (path.headD "") next) : g.IsTrail start (next :: path) := by
  obtain ⟨hchain, hlast⟩ := h
  cases path with
  | nil => cases hlast
  | cons n path => exact ⟨List.isChain_cons_cons.2 ⟨hnext, hchain⟩, hlast⟩

theorem areFresh_sorted (g : Graph) (seen : Names) (node : String) :
    g.AreFresh seen node ((Names.sorted (g.targets node)).filter fun n => !seen.contains n) :=
  (List.mergeSort_perm _ _).filter _

/-- What a search finds is a trail turned round, from the start to the goal. -/
theorem search_sound {found : List String} (hpaths : ∀ path ∈ paths, g.IsTrail start path)
    (h : g.search goal fuel seen paths = some found) :
    ∃ path, g.IsTrail start (goal :: path) ∧ found = (goal :: path).reverse := by
  induction fuel generalizing seen paths with
  | zero => cases h
  | succ fuel ih =>
    cases paths with
    | nil => cases h
    | cons path paths =>
      have hpath := hpaths path List.mem_cons_self
      rw [search] at h
      dsimp only at h
      split at h
      · rename_i hgoal
        cases h
        have hedge : g.Edge (path.headD "") goal := by simpa [Edge] using hgoal
        exact ⟨path, hpath.extend hedge, rfl⟩
      · refine ih (fun more hmore => ?_) h
        rcases List.mem_append.1 hmore with hmore | hmore
        · exact hpaths more (List.mem_cons_of_mem _ hmore)
        · obtain ⟨next, hnext, rfl⟩ := List.mem_map.1 hmore
          exact hpath.extend ((g.areFresh_sorted _ _).mem_iff.1 hnext).1

/-- A search with enough turns finds a goal that is reached from a node it has seen. -/
theorem search_isSome (hsettled : g.Settled seen (paths.map (·.headD ""))) (hgoal : goal ∉ seen)
    (hfuel : paths.length + g.unseen seen < fuel) (hn : n ∈ seen)
    (hreaches : TransGen g.Edge n goal) : (g.search goal fuel seen paths).isSome = true := by
  induction fuel generalizing seen paths with
  | zero => omega
  | succ fuel ih =>
    cases paths with
    | nil => exact absurd (hsettled.mem_of_reaches hn hreaches) hgoal
    | cons path paths =>
      have hfresh := g.areFresh_sorted seen (path.headD "")
      have hused := unseen_append_add_le hfresh
      rw [search]
      dsimp only
      split
      · rfl
      · rename_i hmissed
        refine ih ?_ ?_ ?_ (List.mem_append_left _ hn)
        · simpa [Function.comp_def] using hsettled.expand hfresh
        · simp only [List.contains_eq_mem, Names.mem_sorted, decide_eq_true_eq] at hmissed
          rw [List.mem_append, not_or]
          exact ⟨hgoal, fun hmem => hmissed (hfresh.mem_iff.1 hmem).1⟩
        · rw [List.length_cons] at hfuel
          rw [List.length_append, List.length_map]
          omega

/-- A path goes along edges from the start to the goal. -/
theorem isChain_of_path? (h : g.path? start goal = some chain) :
    chain.IsChain g.Edge ∧ chain.head? = some start ∧ chain.getLast? = some goal := by
  have hstart : ∀ path ∈ [[start]], g.IsTrail start path := by
    intro path hpath
    rw [List.mem_singleton.1 hpath]
    exact ⟨List.isChain_singleton _, rfl⟩
  obtain ⟨path, ⟨hchain, hlast⟩, rfl⟩ := search_sound hstart h
  refine ⟨List.isChain_reverse.2 hchain, ?_, ?_⟩
  · rw [List.head?_reverse, hlast]
  · rw [List.getLast?_reverse]
    rfl

theorem unseen_le (g : Graph) (seen : Names) : g.unseen seen ≤ g.edges.length :=
  List.countP_le_length

/-- A way along edges to another node has an edge. -/
theorem reaches_of_isChain (hne : start ≠ goal) (hchain : chain.IsChain g.Edge)
    (hhead : chain.head? = some start) (hlast : chain.getLast? = some goal) :
    TransGen g.Edge start goal := by
  cases chain with
  | nil => cases hhead
  | cons n rest =>
    cases hhead
    have hreaches := List.relationReflTransGen_of_exists_isChain_cons rest hchain
      (List.getLast_of_getLast?_eq_some hlast)
    exact (Relation.reflTransGen_iff_eq_or_transGen.1 hreaches).resolve_left hne.symm

/-- **There is a path to another node exactly if it is reached.** -/
theorem path?_isSome_iff (hne : start ≠ goal) :
    (g.path? start goal).isSome = true ↔ TransGen g.Edge start goal := by
  constructor
  · intro h
    obtain ⟨chain, hpath⟩ := Option.isSome_iff_exists.1 h
    obtain ⟨hchain, hhead, hlast⟩ := isChain_of_path? hpath
    exact reaches_of_isChain hne hchain hhead hlast
  · intro hreaches
    have hbound := g.unseen_le [start]
    refine search_isSome (fun n hn => Or.inl ?_) ?_ ?_ (List.mem_singleton_self start) hreaches
    · simpa using hn
    · simpa using hne.symm
    · rw [List.length_singleton]
      omega

/-! ## What lies beyond -/

/-- All that is explored was not seen before, and is reached from the queue. -/
theorem explore_sound (h : m ∈ g.explore fuel seen queue) :
    m ∉ seen ∧ ∃ n ∈ queue, TransGen g.Edge n m := by
  induction fuel generalizing seen queue with
  | zero => cases h
  | succ fuel ih =>
    cases queue with
    | nil => cases h
    | cons node queue =>
      have hfresh : g.AreFresh seen node ((g.targets node).filter fun n => !seen.contains n) :=
        List.Perm.refl _
      rw [explore] at h
      rcases List.mem_append.1 h with hnew | hlater
      · obtain ⟨hedge, hunseen⟩ := hfresh.mem_iff.1 hnew
        exact ⟨hunseen, node, List.mem_cons_self, .single hedge⟩
      · obtain ⟨hunseen, n, hn, hreaches⟩ := ih hlater
        refine ⟨fun hmem => hunseen (List.mem_append_left _ hmem), ?_⟩
        rcases List.mem_append.1 hn with hn | hn
        · exact ⟨n, List.mem_cons_of_mem _ hn, hreaches⟩
        · exact ⟨node, List.mem_cons_self, .head (hfresh.mem_iff.1 hn).1 hreaches⟩

/-- With enough turns, all that is reached from seen nodes was seen before or is explored. -/
theorem mem_explore_of_reaches (hsettled : g.Settled seen queue)
    (hfuel : queue.length + g.unseen seen < fuel) (hn : n ∈ seen) (hreaches : TransGen g.Edge n m) :
    m ∈ seen ∨ m ∈ g.explore fuel seen queue := by
  induction fuel generalizing seen queue with
  | zero => omega
  | succ fuel ih =>
    cases queue with
    | nil => exact Or.inl (hsettled.mem_of_reaches hn hreaches)
    | cons node queue =>
      have hfresh : g.AreFresh seen node ((g.targets node).filter fun n => !seen.contains n) :=
        List.Perm.refl _
      have hused := unseen_append_add_le hfresh
      have hturns : (queue ++ (g.targets node).filter fun n => !seen.contains n).length +
          g.unseen (seen ++ (g.targets node).filter fun n => !seen.contains n) < fuel := by
        rw [List.length_cons] at hfuel
        rw [List.length_append]
        omega
      rw [explore]
      rcases ih (hsettled.expand hfresh) hturns (List.mem_append_left _ hn) with hknown | hlater
      · rcases List.mem_append.1 hknown with hold | hnew
        · exact Or.inl hold
        · exact Or.inr (List.mem_append_left _ hnew)
      · exact Or.inr (List.mem_append_right _ hlater)

/-- **Beyond the targets of a node lies all else that the node reaches.** One name may be avoided
without loss, if it points to nothing but these targets. -/
theorem mem_beyond_iff_of_hidden {avoided : String}
    (hhidden : ∀ t, g.Edge avoided t → g.Edge node t) :
    m ∈ g.beyond (g.targets node) avoided ↔
      m ∉ g.targets node ∧ m ≠ avoided ∧ TransGen g.Edge node m := by
  constructor
  · intro h
    obtain ⟨hunseen, n, hn, hreaches⟩ := explore_sound h
    rw [Names.mem_insert, not_or] at hunseen
    exact ⟨hunseen.1, hunseen.2, .head hn hreaches⟩
  · rintro ⟨htarget, hne, hreaches⟩
    have hsettled : g.Settled ((g.targets node).insert avoided) (g.targets node) := by
      intro n hn
      rcases Names.mem_insert.1 hn with hn | rfl
      · exact Or.inl hn
      · exact Or.inr fun t ht => Names.mem_insert.2 (Or.inl (hhidden t ht))
    have hbound := g.unseen_le ((g.targets node).insert avoided)
    have hfuel : (g.targets node).length + g.unseen ((g.targets node).insert avoided) <
        g.edges.length + (g.targets node).length + 1 := by omega
    -- The first step leads to a target, and what is beyond is reached from there.
    obtain ⟨first, hfirst, hrest⟩ := Relation.TransGen.head'_iff.1 hreaches
    have hseen : first ∈ (g.targets node).insert avoided := Names.mem_insert.2 (Or.inl hfirst)
    have hbeyond : TransGen g.Edge first m := by
      rcases Relation.reflTransGen_iff_eq_or_transGen.1 hrest with rfl | hmore
      · exact absurd hfirst htarget
      · exact hmore
    have hfound := mem_explore_of_reaches hsettled hfuel hseen hbeyond
    refine hfound.resolve_left fun hmem => ?_
    exact (Names.mem_insert.1 hmem).elim htarget hne

theorem mem_beyond_iff :
    m ∈ g.beyond (g.targets node) node ↔
      m ∉ g.targets node ∧ m ≠ node ∧ TransGen g.Edge node m :=
  mem_beyond_iff_of_hidden fun _ => id

end Graph

/-! ## Chains and impact -/

namespace Index

open Relation (TransGen)

variable {b : String}
variable {a : String}

/-- The dependents are the dependencies turned round. -/
def Turned (index : Index) : Prop :=
  ∀ source target, index.dependents.Edge target source ↔ index.dependencies.Edge source target

/-- Graphs that have just been made are turned round. -/
theorem turned_rebuild (index : Index) : index.rebuild.Turned := fun _ _ =>
  Graph.edge_transpose_iff (Graph.nodup_keys_ofDependencies _ _)

theorem Turned.reaches_iff {index : Index} (h : index.Turned) :
    TransGen index.dependents.Edge b a ↔ TransGen index.dependencies.Edge a b := by
  rw [← Relation.transGen_swap]
  have hedges : Function.swap index.dependents.Edge = index.dependencies.Edge := by
    funext source target
    exact propext (h source target)
  rw [hedges]

/-- A chain to another name is a path in the graph of dependencies. -/
theorem callChain_eq_ok_iff (index : Index) (hne : a ≠ b) :
    index.callChain a b = .ok chain ↔ index.dependencies.path? a b = some chain := by
  have hother : (a == b) = false := beq_eq_false_iff_ne.2 hne
  unfold callChain
  rw [hother]
  constructor
  · intro h
    split at h
    · cases h
    · rw [if_neg Bool.false_ne_true] at h
      split at h
      · rename_i found hfound
        cases h
        exact hfound
      · cases h
  · intro h
    -- The first edge of the path makes its start a name of the graph.
    have hreaches := (Graph.path?_isSome_iff hne).1 (Option.isSome_iff_exists.2 ⟨chain, h⟩)
    obtain ⟨next, hedge, -⟩ := Relation.TransGen.head'_iff.1 hreaches
    obtain ⟨targets, hget, -⟩ := Graph.edge_iff.1 hedge
    have hknown : index.dependencies.has a = true := Assoc.has_iff_exists.2 ⟨targets, hget⟩
    rw [hknown, h]
    rfl

theorem exists_callChain_iff (index : Index) (hne : a ≠ b) :
    (∃ chain, index.callChain a b = .ok chain) ↔ TransGen index.dependencies.Edge a b := by
  rw [← Graph.path?_isSome_iff hne, Option.isSome_iff_exists]
  exact exists_congr fun chain => index.callChain_eq_ok_iff hne

/-- A change of a name with dependents affects these, and what lies beyond them. -/
theorem changeImpact_of_has {index : Index} (h : index.dependents.has b = true) :
    index.changeImpact b 0 0 =
      .ok (Names.sorted (index.dependents.targets b),
        Names.sorted (index.dependents.beyond (index.dependents.targets b) b)) := by
  obtain ⟨names, hget⟩ := Assoc.has_iff_exists.1 h
  have hdirect : index.directDependents? b = some names := by rw [directDependents?, hget]
  have htargets : index.dependents.targets b = names := by rw [Graph.targets, hget]; rfl
  rw [changeImpact, hdirect, htargets]
  rfl

/-- **Chains of dependencies and what a change affects are two sides of one thing.** Let the
dependents be the dependencies turned round. For a name with an entry among the dependents, a chain
leads to it from another name exactly if that name is affected, directly or not, by a change of the
first. The chain then goes along dependencies from the one name to the other. -/
theorem callChain_iff_impact {index : Index} (hturned : index.Turned) {a b : String}
    (hkey : index.dependents.has b = true) (hne : a ≠ b) :
    ∃ direct transitive, index.changeImpact b 0 0 = .ok (direct, transitive) ∧
      ((∃ chain, index.callChain a b = .ok chain) ↔ a ∈ direct ∨ a ∈ transitive) ∧
      ∀ chain, index.callChain a b = .ok chain →
        chain.IsChain index.dependencies.Edge ∧ chain.head? = some a ∧
          chain.getLast? = some b := by
  refine ⟨_, _, changeImpact_of_has hkey, ?_, fun chain hchain => ?_⟩
  · rw [exists_callChain_iff index hne, ← hturned.reaches_iff, Names.mem_sorted, Names.mem_sorted,
      Graph.mem_beyond_iff]
    constructor
    · intro hreaches
      by_cases hdirect : a ∈ index.dependents.targets b
      · exact Or.inl hdirect
      · exact Or.inr ⟨hdirect, hne, hreaches⟩
    · rintro (hdirect | ⟨-, -, hreaches⟩)
      · exact .single hdirect
      · exact hreaches
  · exact Graph.isChain_of_path? ((index.callChain_eq_ok_iff hne).1 hchain)

/-- Three functions that call one another in a ring. -/
def ring : Index :=
  ofFiles "/project" ((Outline.ofText
    "def a():\n    b()\n\ndef b():\n    c()\n\ndef c():\n    a()\n"
    "ring.py" none).toOption.toList.map fun o => ("ring.py", o))

/-- In the ring, `a` is affected by a change of `c` through `b`, and a chain leads from `a` to
`c`. -/
theorem ring_chain_and_impact :
    (ring.changeImpact "c" 0 0).toOption = some (["b"], ["a"]) ∧
      ∃ chain, ring.callChain "a" "c" = .ok chain ∧ chain.IsChain ring.dependencies.Edge ∧
        chain.head? = some "a" ∧ chain.getLast? = some "c" := by
  have hview : ring.dependents.has "c" = true ∧
      (ring.changeImpact "c" 0 0).toOption = some (["b"], ["a"]) := by decide +kernel
  obtain ⟨hkey, himpact⟩ := hview
  have hturned : ring.Turned := turned_rebuild _
  obtain ⟨direct, transitive, hmade, hiff, hchains⟩ :=
    callChain_iff_impact hturned hkey (by decide : "a" ≠ "c")
  have hsame : (direct, transitive) = (["b"], ["a"]) := by
    rw [hmade] at himpact
    exact Option.some.inj himpact
  cases hsame
  obtain ⟨chain, hchain⟩ := hiff.2 (Or.inr (List.mem_singleton_self "a"))
  exact ⟨himpact, chain, hchain, hchains chain hchain⟩

end Index

end SourceAtlas
