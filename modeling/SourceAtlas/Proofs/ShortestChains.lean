import Mathlib.Data.List.Lex
import Mathlib.Data.Prod.Lex
import SourceAtlas.Proofs.Reachability

/-!
# The first of the shortest chains

Paths are compared by their length, and paths of one length by their names from the start on. A
search for a goal finds the first path of all in this order.

Why that is so is an invariant of the queue (`Graph.InOrder`). The paths in the queue stand in their
order, each of them is the first of all paths to its last node, and what they extend has been taken
from the queue before any of them. So when a path is taken from the queue, every path to a node that
was not seen yet extends one that does not come before it (`InOrder.le_of_unseen`). With that, a
fresh node gets its first path (`InOrder.isFirstTrail_cons`), a turn keeps the invariant
(`InOrder.expand`), and the goal is no more than a fresh node.

* `Graph.search_isFirstTrail`: what a search finds is the first path to the goal.
* `Index.callChain_first`: a chain of dependencies is a path of least length, and of those the first
  in the order of names; there is none exactly if the one name does not reach the other.
-/

set_option autoImplicit false

namespace SourceAtlas

/-- Of two lists of one length the first difference decides, whatever follows. -/
theorem append_lt_append {xs ys : List String} (h : xs < ys) (hlen : xs.length = ys.length)
    (s t : List String) : xs ++ s < ys ++ t := by
  induction h with
  | nil => simp at hlen
  | cons _ ih => exact List.Lex.cons (ih (by simpa using hlen))
  | rel h => exact List.Lex.rel h

namespace Graph

variable {g : Graph} {start goal node : String} {seen : Names}
variable {next : String}
  {path other : List String} {paths : List (List String)}

/-! ## The order of trails -/

/-- The place of a trail among all: first its length, then its names from the start on. -/
def rank (path : List String) : Nat ×ₗ List String := toLex (path.length, path.reverse)

theorem rank_le_iff :
    rank path ≤ rank other ↔
      path.length < other.length ∨ path.length = other.length ∧ path.reverse ≤ other.reverse :=
  Prod.Lex.toLex_le_toLex

theorem rank_lt_iff :
    rank path < rank other ↔
      path.length < other.length ∨ path.length = other.length ∧ path.reverse < other.reverse :=
  Prod.Lex.toLex_lt_toLex

theorem rank_injective : Function.Injective rank := by
  intro path other h
  have hpair := toLex.injective h
  exact List.reverse_injective (Prod.mk.inj hpair).2

theorem rank_le_cons (node : String) (path : List String) : rank path ≤ rank (node :: path) :=
  rank_le_iff.2 (Or.inl (by simp))

/-- Trails stay in their order, whatever they go on to. -/
theorem rank_cons_lt_cons (h : rank path < rank other) (a b : String) :
    rank (a :: path) < rank (b :: other) := by
  rw [rank_lt_iff] at h ⊢
  rcases h with hshort | ⟨hlen, hlt⟩
  · exact Or.inl (by simpa using hshort)
  · refine Or.inr ⟨by simpa using hlen, ?_⟩
    rw [List.reverse_cons, List.reverse_cons]
    exact append_lt_append hlt (by simpa using hlen) [a] [b]

/-- Trails that go on from one trail are in the order of their last names. -/
theorem rank_cons_le_cons {a b : String} (h : a ≤ b) (path : List String) :
    rank (a :: path) ≤ rank (b :: path) := by
  rcases h.eq_or_lt with rfl | hlt
  · exact le_rfl
  · refine rank_le_iff.2 (Or.inr ⟨rfl, le_of_lt ?_⟩)
    rw [List.reverse_cons, List.reverse_cons]
    exact List.Lex.append_left _ (List.Lex.rel hlt) _

/-- The first of all trails from `start` to its last node. -/
structure IsFirstTrail (g : Graph) (start : String) (path : List String) : Prop where
  isTrail : g.IsTrail start path
  rank_le : ∀ other, g.IsTrail start other → other.headD "" = path.headD "" →
    rank path ≤ rank other

/-! ## A queue in order -/

/-- How the queue of a search stands after any number of turns. -/
structure InOrder (g : Graph) (start : String) (seen : Names) (paths : List (List String)) :
    Prop where
  start_mem : start ∈ seen
  settled : g.Settled seen (paths.map (·.headD ""))
  isFirstTrail : ∀ path ∈ paths, g.IsFirstTrail start path
  sorted : paths.Pairwise fun path other => rank path ≤ rank other
  /-- What a path extends does not come behind any path of the queue. -/
  extends_le : ∀ node path, node :: path ∈ paths → ∀ other ∈ paths, rank path ≤ rank other
  /-- What a path extends has been taken from the queue, and all its targets were seen. -/
  extends_seen : ∀ node last path, node :: last :: path ∈ paths →
    ∀ target, g.Edge last target → target ∈ seen

theorem IsTrail.of_cons (h : g.IsTrail start (next :: node :: path)) :
    g.Edge node next ∧ g.IsTrail start (node :: path) := by
  obtain ⟨hchain, hlast⟩ := h
  obtain ⟨hedge, hrest⟩ := List.isChain_cons_cons.1 hchain
  refine ⟨hedge, hrest, ?_⟩
  rwa [List.getLast?_cons_cons] at hlast

theorem isFirstTrail_singleton (g : Graph) (start : String) : g.IsFirstTrail start [start] := by
  refine ⟨⟨List.isChain_singleton _, rfl⟩, fun other hother _ => ?_⟩
  cases other with
  | nil => cases hother.2
  | cons node rest =>
    cases rest with
    | nil =>
      -- A trail of one node is the start itself.
      cases hother.2
      exact le_rfl
    | cons last rest => exact rank_le_iff.2 (Or.inl (by simp))

theorem inOrder_start (g : Graph) (start : String) : g.InOrder start [start] [[start]] where
  start_mem := List.mem_singleton_self start
  settled n hn := Or.inl (by simpa using hn)
  isFirstTrail path hpath := List.mem_singleton.1 hpath ▸ isFirstTrail_singleton g start
  sorted := List.pairwise_singleton _ _
  extends_le node path hpath other hother := by
    cases List.mem_singleton.1 hpath
    cases List.mem_singleton.1 hother
    exact rank_le_cons start []
  extends_seen node last path hpath := by cases List.mem_singleton.1 hpath

namespace InOrder

section

variable (h : g.InOrder start seen (path :: paths))
include h

/-- The path that is taken from the queue does not come behind anything from which a node is reached
that was not seen. -/
theorem le_of_unseen {before : List String} (htrail : g.IsTrail start (next :: before))
    (hnext : next ∉ seen) :
    rank path ≤ rank before := by
  -- Going back along the trail: the last node that was seen has an unseen target, so that it waits.
  induction before generalizing next with
  | nil =>
    cases htrail.2
    exact absurd h.start_mem hnext
  | cons node before ih =>
    obtain ⟨hedge, hbefore⟩ := htrail.of_cons
    by_cases hnode : node ∈ seen
    · rcases h.settled node hnode with hwaits | hseen
      · obtain ⟨waiting, hwaiting, hend⟩ := List.mem_map.1 hwaits
        have hpath : rank path ≤ rank waiting := by
          rcases List.mem_cons.1 hwaiting with rfl | hmem
          · exact le_rfl
          · exact (List.pairwise_cons.1 h.sorted).1 waiting hmem
        exact hpath.trans ((h.isFirstTrail waiting hwaiting).rank_le _ hbefore hend.symm)
      · exact absurd (hseen next hedge) hnext
    · exact (ih hbefore hnode).trans (rank_le_cons node before)

/-- The path that is taken from the queue leads on to the first path to each of its fresh
targets. -/
theorem isFirstTrail_cons (hedge : g.Edge (path.headD "") next) (hnext : next ∉ seen) :
    g.IsFirstTrail start (next :: path) := by
  have htrail := (h.isFirstTrail path List.mem_cons_self).isTrail
  refine ⟨htrail.extend hedge, fun other hother hend => ?_⟩
  cases other with
  | nil => cases hother.2
  | cons last before =>
    obtain rfl : last = next := hend
    rcases (h.le_of_unseen hother hnext).eq_or_lt with heq | hlt
    · rw [rank_injective heq]
    · exact (rank_cons_lt_cons hlt last last).le

/-- A path that still waits comes before all that the path that is taken leads on to. -/
theorem le_cons_of_mem (hother : other ∈ paths) (hedge : g.Edge (path.headD "") next)
    (hnext : next ∉ seen) :
    rank other ≤ rank (next :: path) := by
  have hmem : other ∈ path :: paths := List.mem_cons_of_mem _ hother
  cases other with
  | nil => cases (h.isFirstTrail [] hmem).isTrail.2
  | cons node before =>
    rcases (h.extends_le node before hmem path List.mem_cons_self).eq_or_lt with heq | hlt
    · -- It cannot extend the same path: the targets of that one would have been seen.
      obtain rfl : before = path := rank_injective heq
      cases before with
      | nil => cases (h.isFirstTrail [] List.mem_cons_self).isTrail.2
      | cons last before => exact absurd (h.extends_seen _ _ _ hmem next hedge) hnext
    · exact (rank_cons_lt_cons hlt node next).le

/-- **A turn keeps the queue in order**: the path that is taken from the queue goes on to its fresh
targets in the order of their names. -/
theorem expand {fresh : List String} (hfresh : g.AreFresh seen (path.headD "") fresh)
    (hsorted : fresh.Pairwise (· ≤ ·)) :
    g.InOrder start (seen ++ fresh) (paths ++ fresh.map (· :: path)) := by
  have hold : ∀ {p}, p ∈ paths → p ∈ path :: paths := fun hp => List.mem_cons_of_mem _ hp
  have hlater : ∀ p ∈ paths, rank path ≤ rank p := (List.pairwise_cons.1 h.sorted).1
  refine ⟨List.mem_append_left _ h.start_mem, ?_, ?_, ?_, ?_, ?_⟩
  · simpa [Function.comp_def] using h.settled.expand hfresh
  · intro p hp
    rcases List.mem_append.1 hp with hp | hp
    · exact h.isFirstTrail p (hold hp)
    · obtain ⟨next, hnext, rfl⟩ := List.mem_map.1 hp
      obtain ⟨hedge, hunseen⟩ := hfresh.mem_iff.1 hnext
      exact h.isFirstTrail_cons hedge hunseen
  · rw [List.pairwise_append, List.pairwise_map]
    refine ⟨(List.pairwise_cons.1 h.sorted).2, ?_, ?_⟩
    · exact hsorted.imp fun hle => rank_cons_le_cons hle path
    · intro p hp q hq
      obtain ⟨next, hnext, rfl⟩ := List.mem_map.1 hq
      obtain ⟨hedge, hunseen⟩ := hfresh.mem_iff.1 hnext
      exact h.le_cons_of_mem hp hedge hunseen
  · -- What a path extends is behind nothing that waits, and the path just taken is no exception.
    intro node before hp q hq
    have hbefore : rank before ≤ rank path ∧ ∀ p ∈ paths, rank before ≤ rank p := by
      rcases List.mem_append.1 hp with hp | hp
      · exact ⟨h.extends_le _ _ (hold hp) _ List.mem_cons_self,
          fun p hq => h.extends_le _ _ (hold hp) p (hold hq)⟩
      · obtain ⟨next, -, heq⟩ := List.mem_map.1 hp
        cases heq
        exact ⟨le_rfl, hlater⟩
    rcases List.mem_append.1 hq with hq | hq
    · exact hbefore.2 q hq
    · obtain ⟨next, -, rfl⟩ := List.mem_map.1 hq
      exact hbefore.1.trans (rank_le_cons next path)
  · intro node last before hp target hedge
    rcases List.mem_append.1 hp with hp | hp
    · exact List.mem_append_left _ (h.extends_seen _ _ _ (hold hp) target hedge)
    · obtain ⟨next, -, heq⟩ := List.mem_map.1 hp
      cases heq
      by_cases hseen : target ∈ seen
      · exact List.mem_append_left _ hseen
      · exact List.mem_append_right _ (hfresh.mem_iff.2 ⟨hedge, hseen⟩)

end

end InOrder

/-! ## What a search finds -/

/-- A search whose queue is in order finds the first trail to the goal. -/
theorem search_isFirstTrail {fuel : Nat} {found : List String} (h : g.InOrder start seen paths)
    (hgoal : goal ∉ seen) (hfound : g.search goal fuel seen paths = some found) :
    g.IsFirstTrail start found.reverse := by
  induction fuel generalizing seen paths with
  | zero => cases hfound
  | succ fuel ih =>
    cases paths with
    | nil => cases hfound
    | cons path paths =>
      rw [search] at hfound
      dsimp only at hfound
      split at hfound
      · rename_i hnext
        cases hfound
        have hedge : g.Edge (path.headD "") goal := by simpa [Edge] using hnext
        rw [List.reverse_reverse]
        exact h.isFirstTrail_cons hedge hgoal
      · rename_i hmissed
        have hfresh := g.areFresh_sorted seen (path.headD "")
        refine ih (h.expand hfresh ((Names.pairwise_sorted _).filter _)) ?_ hfound
        intro hmem
        rcases List.mem_append.1 hmem with hmem | hmem
        · exact hgoal hmem
        · refine hmissed ?_
          simpa [Edge] using (hfresh.mem_iff.1 hmem).1

/-- A way along edges from one node to another. -/
structure IsPath (g : Graph) (start goal : String) (path : List String) : Prop where
  isChain : path.IsChain g.Edge
  head_eq : path.head? = some start
  last_eq : path.getLast? = some goal

theorem IsPath.isTrail_reverse (h : g.IsPath start goal path) :
    g.IsTrail start path.reverse ∧ path.reverse.headD "" = goal := by
  refine ⟨⟨?_, ?_⟩, ?_⟩
  · rw [List.isChain_reverse]
    exact h.isChain
  · rw [List.getLast?_reverse, h.head_eq]
  · rw [List.headD_eq_head?_getD, List.head?_reverse, h.last_eq]
    rfl

/-- A path of least length, and of those the first in the order of names. -/
structure IsFirstPath (g : Graph) (start goal : String) (path : List String) : Prop
    extends g.IsPath start goal path where
  shortest : ∀ other, g.IsPath start goal other → path.length ≤ other.length
  first : ∀ other, g.IsPath start goal other → other.length = path.length → path ≤ other

theorem IsFirstPath.unique (h : g.IsFirstPath start goal path)
    (hother : g.IsFirstPath start goal other) : path = other := by
  have hlen : path.length = other.length :=
    le_antisymm (h.shortest other hother.toIsPath) (hother.shortest path h.toIsPath)
  exact le_antisymm (h.first other hother.toIsPath hlen.symm) (hother.first path h.toIsPath hlen)

/-- **The path that is found is the first of the shortest ones.** -/
theorem path?_eq_some_iff (hne : start ≠ goal) :
    g.path? start goal = some path ↔ g.IsFirstPath start goal path := by
  have hfound : ∀ {found}, g.path? start goal = some found → g.IsFirstPath start goal found := by
    intro found h
    obtain ⟨hchain, hhead, hlast⟩ := isChain_of_path? h
    have hpath : g.IsPath start goal found := ⟨hchain, hhead, hlast⟩
    have hgoal : goal ∉ [start] := by simpa using hne.symm
    have hfirst := search_isFirstTrail (inOrder_start g start) hgoal h
    have hrank : ∀ other, g.IsPath start goal other → rank found.reverse ≤ rank other.reverse := by
      intro other hother
      obtain ⟨htrail, hend⟩ := hother.isTrail_reverse
      exact hfirst.rank_le _ htrail (hend.trans hpath.isTrail_reverse.2.symm)
    simp only [rank_le_iff, List.length_reverse, List.reverse_reverse] at hrank
    refine ⟨hpath, fun other hother => ?_, fun other hother hlen => ?_⟩
    · rcases hrank other hother with hshort | ⟨hlen, -⟩
      · exact hshort.le
      · exact hlen.le
    · rcases hrank other hother with hshort | ⟨-, hnames⟩
      · exact absurd hlen hshort.ne'
      · exact hnames
  refine ⟨hfound, fun h => ?_⟩
  -- Where there is a path one is found, and there is only one first path.
  have hreaches := reaches_of_isChain hne h.isChain h.head_eq h.last_eq
  obtain ⟨found, hsome⟩ := Option.isSome_iff_exists.1 ((path?_isSome_iff hne).2 hreaches)
  rw [hsome, (hfound hsome).unique h]

end Graph

/-! ## Chains of dependencies -/

namespace Index

open Relation (TransGen)

/-- **A chain of dependencies is the first of the shortest paths.** From a name of the graph to
another one, the answer is a chain exactly if the chain is a path of least length along dependencies
and, of all paths of that length, the first in the order of names. There is one exactly if the
second name is reached, and otherwise the answer is that there is no path. -/
theorem callChain_first (index : Index) (start goal : String)
    (hkey : index.dependencies.has start = true) (hne : start ≠ goal) :
    (∀ chain, index.callChain start goal = .ok chain ↔
        index.dependencies.IsFirstPath start goal chain) ∧
      ((∃ chain, index.callChain start goal = .ok chain) ↔
        TransGen index.dependencies.Edge start goal) ∧
      (index.callChain start goal = .error (.noPath start goal) ↔
        ¬ TransGen index.dependencies.Edge start goal) := by
  have hchain : ∀ chain, index.callChain start goal = .ok chain ↔
      index.dependencies.path? start goal = some chain :=
    fun _ => index.callChain_eq_ok_iff hne
  refine ⟨fun chain => ?_, index.exists_callChain_iff hne, ?_⟩
  · rw [hchain, Graph.path?_eq_some_iff hne]
  · rw [← index.exists_callChain_iff hne]
    have hother : (start == goal) = false := beq_eq_false_iff_ne.2 hne
    cases hpath : index.dependencies.path? start goal with
    | some chain =>
      have hok := (hchain chain).2 hpath
      rw [hok]
      simp
    | none =>
      have hno : index.callChain start goal = .error (.noPath start goal) := by
        simp [callChain, hkey, hother, hpath]
      rw [hno]
      simp

/-- Four names with two ways of one length from the first to the last, and a way back. -/
def twoWays : Index :=
  { empty "/project" with
    dependencies := [("a", ["c", "b"]), ("b", ["d"]), ("c", ["d"]), ("d", ["a"])] }

/-- Of the two ways the chain goes by the name that comes first. -/
theorem twoWays_chain :
    twoWays.callChain "a" "d" = .ok ["a", "b", "d"] ∧
      TransGen twoWays.dependencies.Edge "a" "d" := by
  obtain ⟨hchain, hreaches, -⟩ :=
    twoWays.callChain_first "a" "d" (by decide) (by decide)
  -- A path has a name between the two, and if it has only one, that is one of the targets.
  have hbetween : ∀ other, twoWays.dependencies.IsPath "a" "d" other →
      ∃ next rest, other = "a" :: next :: rest ∧ rest ≠ [] ∧ (next = "c" ∨ next = "b") := by
    rintro (_ | ⟨first, _ | ⟨next, rest⟩⟩) ⟨hwalk, hhead, hlast⟩
    · cases hhead
    · cases hhead
      exact absurd hlast (by decide)
    · cases hhead
      have hnext : next ∈ ["c", "b"] := (List.isChain_cons_cons.1 hwalk).1
      refine ⟨next, rest, rfl, ?_, by simpa using hnext⟩
      rintro rfl
      cases hlast
      exact absurd hnext (by decide)
  have hfirst : twoWays.dependencies.IsFirstPath "a" "d" ["a", "b", "d"] := by
    refine ⟨⟨?_, rfl, rfl⟩, fun other hother => ?_, fun other hother hlen => ?_⟩
    · have hedges : twoWays.dependencies.Edge "a" "b" ∧ twoWays.dependencies.Edge "b" "d" := by
        unfold Graph.Edge
        decide
      simpa using hedges
    · obtain ⟨next, rest, rfl, hrest, -⟩ := hbetween other hother
      have := List.length_pos_iff.2 hrest
      simp only [List.length_cons, List.length_nil]
      omega
    · obtain ⟨next, rest, rfl, -, hnext⟩ := hbetween other hother
      obtain ⟨last, rfl⟩ := List.length_eq_one_iff.1 (by simpa using hlen)
      cases hother.last_eq
      rcases hnext with rfl | rfl <;> decide
  have hok := (hchain ["a", "b", "d"]).2 hfirst
  exact ⟨hok, hreaches.1 ⟨_, hok⟩⟩

end Index

end SourceAtlas
