import SourceAtlas.Proofs.GraphUpkeep

/-!
# Graphs and the same graphs turned round

An index holds the graph of imports and the graph of dependencies twice, as they are and with every
edge turned round. Only `rebuild` and `refresh` make the second of a pair from the first. Entering a
file and taking one out change both graphs of imports in place, each in its own way, and leave both
graphs of dependencies alone.

`Graph.TurnsRound` says what it means that one graph is another one turned round, without the
function that turns it: the edges correspond, and no node is idle. `graphs_turned_round` then has
three parts.

* `transpose` turns every graph round, and twice applied it takes away the idle nodes and nothing
  else.
* The two graphs of dependencies correspond at every point of every run, since they are only ever
  made together (`Index.Paired`).
* The two graphs of imports correspond after every turn that makes them anew, whatever the turns
  before have done to them. In between they need not; `Orderly.turned_remove_iff` says what becomes
  of them when a file is taken out.
-/

set_option autoImplicit false

namespace SourceAtlas

open Assoc

/-! ## Turning a graph round -/

namespace Graph

variable {g : Graph} {source target : String}

/-- The first graph has the edges of the second turned round, and only nodes that an edge leaves. -/
structure TurnsRound (r g : Graph) : Prop where
  edge : ∀ source target, r.Edge target source ↔ g.Edge source target
  full : r.Full

/-- The graph without the nodes that point nowhere. -/
def withoutIdle (g : Graph) : Graph := g.filter fun e => !e.2.isEmpty

theorem get?_withoutIdle (h : (keys g).Nodup) {targets : Names} :
    get? g.withoutIdle source = some targets ↔
      get? g source = some targets ∧ targets ≠ [] := by
  have hnodup : (keys g.withoutIdle).Nodup := h.sublist (List.filter_sublist.map Prod.fst)
  rw [← mem_iff_get? hnodup, ← mem_iff_get? h, withoutIdle, List.mem_filter]
  simp

theorem full_withoutIdle (h : (keys g).Nodup) : g.withoutIdle.Full :=
  fun hget => ((get?_withoutIdle h).1 hget).2

/-- An idle node has no edge that could be lost with it. -/
theorem edge_withoutIdle (h : (keys g).Nodup) :
    g.withoutIdle.Edge source target ↔ g.Edge source target := by
  rw [edge_iff, edge_iff]
  constructor
  · rintro ⟨targets, hget, htarget⟩
    exact ⟨targets, ((get?_withoutIdle h).1 hget).1, htarget⟩
  · rintro ⟨targets, hget, htarget⟩
    exact ⟨targets, (get?_withoutIdle h).2 ⟨hget, List.ne_nil_of_mem htarget⟩, htarget⟩

theorem turnsRound_transpose (h : (keys g).Nodup) : g.transpose.TurnsRound g where
  edge _ _ := edge_transpose_iff h
  full {node targets} hget := by
    have hnode : has g.transpose node = true := has_iff_exists.2 ⟨targets, hget⟩
    obtain ⟨source, hsource⟩ := (has_transpose_iff h).1 hnode
    obtain ⟨_, hsame, hmem⟩ := edge_iff.1 ((edge_transpose_iff h).2 hsource)
    -- The entry that holds the edge is the one that was looked up.
    cases hget.symm.trans hsame
    exact List.ne_nil_of_mem hmem

/-- Turned round twice, a graph loses its idle nodes and is otherwise as it was. -/
theorem transpose_transpose_same (h : (keys g).Nodup) :
    g.transpose.transpose.Same g.withoutIdle := by
  have hturned := nodup_keys_transpose g
  apply Full.same (turnsRound_transpose hturned).full (full_withoutIdle h)
  intro source target
  rw [edge_transpose_iff hturned, edge_transpose_iff h, edge_withoutIdle h]

end Graph

/-! ## The two graphs of dependencies -/

namespace Index

/-- The dependencies are those of some files and symbols, and the dependents were made from them. -/
def Paired (index : Index) : Prop :=
  ∃ files symbols, index.dependencies = Graph.ofDependencies files symbols ∧
    index.dependents = (Graph.ofDependencies files symbols).transpose

section

variable {index next : Index}

theorem paired_rebuild (index : Index) : index.rebuild.Paired :=
  ⟨index.files, index.symbols, rfl, rfl⟩

theorem paired_refresh (index : Index) : index.refresh.Paired :=
  ⟨index.files, index.symbols, rfl, rfl⟩

/-- A change to neither graph keeps the pair. -/
theorem Paired.of_eq (h : index.Paired) (hdependencies : next.dependencies = index.dependencies)
    (hdependents : next.dependents = index.dependents) : next.Paired := by
  obtain ⟨files, symbols, hmade, hturned⟩ := h
  exact ⟨files, symbols, hdependencies.trans hmade, hdependents.trans hturned⟩

theorem Paired.turnsRound (h : index.Paired) : index.dependents.TurnsRound index.dependencies := by
  obtain ⟨files, symbols, hmade, hturned⟩ := h
  rw [hmade, hturned]
  exact Graph.turnsRound_transpose (Graph.nodup_keys_ofDependencies files symbols)

theorem Paired.releaseFile (h : index.Paired) (path : String) :
    (index.releaseFile path).Paired := by
  unfold Index.releaseFile
  split
  · exact h.of_eq rfl rfl
  · exact h

theorem Paired.remove (h : index.Paired) (path : String) : (index.remove path).Paired :=
  have hkept := dependencies_releaseFile_dropFile index (Project.key index.root path)
  h.of_eq hkept.1 hkept.2

theorem Paired.reindex (h : index.Paired) (tree : FileTree) (path : String) (skipGraphs : Bool) :
    (index.reindex tree path skipGraphs).1.Paired := by
  rcases index.reindex_outcome tree path with ⟨fault, -, hleft⟩ | ⟨-, hleft⟩ | ⟨o, -, hleft⟩
  · rw [hleft]
    exact h.releaseFile _
  · rw [hleft]
    exact h.remove path
  -- Only a file that is entered with the graphs has its dependencies made.
  · rw [hleft]
    cases skipGraphs with
    | true => exact (h.releaseFile _).of_eq rfl rfl
    | false => exact paired_refresh _

end

/-- The two graphs of dependencies are made together, and so are a pair in every index that a
project can have. -/
theorem paired_through {root : String} {settings : Settings} (turns : List Turn) {i : Index}
    (hi : ((Project.fresh root settings).through turns).index = some i) : i.Paired := by
  refine Project.through_induction ?_ ?_ ?_ ?_ turns hi
  · intro tree index hmake
    rw [← rebuild_ofTree hmake]
    exact paired_rebuild index
  · intro index tree path skipGraphs h
    exact h.reindex tree path skipGraphs
  · intro index path h
    exact h.remove path
  · intro index _
    exact paired_rebuild index

/-! ## The two graphs of imports -/

namespace Orderly

variable {index : Index}

theorem turnsRound_rebuild (h : index.Orderly) :
    index.rebuild.importers.TurnsRound index.rebuild.imports :=
  Graph.turnsRound_transpose h.rebuild.nodup_imports

theorem turnsRound_refresh (h : index.Orderly) :
    index.refresh.importers.TurnsRound index.refresh.imports :=
  Graph.turnsRound_transpose h.refresh.nodup_imports

theorem edge_imports_releaseFile (h : index.Orderly) {path source target : String} :
    (index.releaseFile path).imports.Edge source target ↔
      index.imports.Edge source target ∧ source ≠ path := by
  rw [Graph.edge_iff, Graph.edge_iff, h.get?_imports_releaseFile]
  by_cases hsource : source = path
  · simp [hsource]
  · simp [hsource]

/-- **Taking a file out keeps the edges of imports turned round, and does not mend them.** Both
graphs lose exactly the edges that leave the file. So the edges correspond afterwards if and only if
those of the other files did before. The same happens to a file that cannot be read. -/
theorem turned_remove_iff (h : index.Orderly) (path : String) :
    (∀ source target, (index.remove path).importers.Edge target source ↔
        (index.remove path).imports.Edge source target) ↔
      ∀ source, source ≠ Project.key index.root path → ∀ target,
        index.importers.Edge target source ↔ index.imports.Edge source target := by
  simp only [Index.remove, importers_dropFile, imports_dropFile, h.edge_importers_releaseFile,
    h.edge_imports_releaseFile]
  refine forall_congr' fun source => ?_
  by_cases hsource : source = Project.key index.root path
  · simp [hsource]
  · simp [hsource]

end Orderly

end Index

/-! ## Along every run -/

/-- The turn makes both graphs of imports anew: a new index is made, or all graphs are, or a file is
read and entered with the graphs. -/
def Turn.MakesGraphs (t : Turn) (p : Project) : Prop :=
  match t.action with
  | .index => True
  | .rebuild => True
  | .reindex path skipGraphs =>
    skipGraphs = false ∧ ∃ i, p.index = some i ∧ (i.present? t.tree path).isSome = true
  | .remove _ => False

namespace Project

/-- What a turn leaves that makes the graphs anew. -/
theorem turnsRound_of_makesGraphs {p q : Project} {t : Turn} (hstep : p.perform t = (q, none))
    (hmakes : t.MakesGraphs p) (horderly : ∀ i, p.index = some i → i.Orderly) {i : Index}
    (hi : q.index = some i) : i.importers.TurnsRound i.imports := by
  unfold Turn.MakesGraphs at hmakes
  rcases perform_cases hstep with
    ⟨-, j, hmake, rfl⟩ |
      ⟨j, hj, ⟨path, skipGraphs, next, hact, hre, rfl⟩ | ⟨path, hact, rfl⟩ | ⟨-, rfl⟩⟩
  · cases hi
    rw [← Index.rebuild_ofTree hmake]
    exact (Index.orderly_ofTree hmake).turnsRound_rebuild
  · cases hi
    rw [hact] at hmakes
    obtain ⟨rfl, k, hk, hread⟩ := hmakes
    cases hj.symm.trans hk
    -- The file could be read, so its outline was entered and the graphs were made.
    rcases Index.reindex_cases hre with ⟨hnone, -⟩ | ⟨o, hsome, rfl⟩
    · rw [hnone] at hread
      cases hread
    · obtain ⟨bytes, hbytes⟩ := Index.ofBytes_of_present? hsome
      exact ((horderly j hj).releaseFile_enter hbytes).turnsRound_refresh
  · rw [hact] at hmakes
    exact hmakes.elim
  · cases hi
    exact (horderly j hj).turnsRound_rebuild

/-- **The reverse graphs are the graphs turned round.** Turning a graph round gives exactly its
edges turned round and no idle node, and turning it round twice gives the graph without its idle
nodes. Along every run, whether turns have failed in it or not, the dependents are the dependencies
turned round after every turn that does not fail, and the importers are the imports turned round
after every such turn that makes the graphs anew. -/
theorem graphs_turned_round :
    (∀ g : Graph, (Assoc.keys g).Nodup →
        g.transpose.TurnsRound g ∧ g.transpose.transpose.Same g.withoutIdle) ∧
      ∀ (root : String) (settings : Settings) (turns : List Turn) (t : Turn) (q : Project)
        (i : Index), ((fresh root settings).through turns).perform t = (q, none) →
          q.index = some i →
            i.dependents.TurnsRound i.dependencies ∧
              (t.MakesGraphs ((fresh root settings).through turns) →
                i.importers.TurnsRound i.imports) := by
  refine ⟨fun g h => ⟨Graph.turnsRound_transpose h, Graph.transpose_transpose_same h⟩, ?_⟩
  intro root settings turns t q i hstep hi
  have hpoint : ((fresh root settings).through (turns ++ [t])).index = some i := by
    rw [through_concat, hstep]
    exact hi
  refine ⟨(Index.paired_through _ hpoint).turnsRound, fun hmakes => ?_⟩
  exact turnsRound_of_makesGraphs hstep hmakes (fun j hj => orderly_through turns hj) hi

/-- A node that two others point to, and that points nowhere. -/
def twoToOne : Graph := [("a", ["b", "c"]), ("b", []), ("c", ["b"])]

/-- A file that uses a function of another one. -/
def callerAndCallee : FileTree :=
  .ofTexts [("a.py", "from b import g\n\n\ndef f():\n    return g()\n"),
    ("b.py", "def g():\n    pass\n")]

/-- Both files are entered with the graphs left for later. -/
def graphsLeft : List Turn :=
  [⟨.ofTexts [("a.py", "def f():\n    pass\n")], .index⟩,
    ⟨callerAndCallee, .reindex "b.py" true⟩, ⟨callerAndCallee, .reindex "a.py" true⟩]

/-- An importer that was missed is found when the next file is entered with the graphs. -/
theorem missed_importer_turned_round :
    (twoToOne.transpose.TurnsRound twoToOne ∧
        twoToOne.transpose.transpose.Same [("a", ["b", "c"]), ("c", ["b"])]) ∧
      ((fresh "/project" .usual).through graphsLeft).index.map
          (fun i => (i.imports.targets "a.py", i.importers.targets "b.py")) =
        some (["b.py"], []) ∧
      ∃ i, ((fresh "/project" .usual).through
            (graphsLeft ++ [⟨callerAndCallee, .reindex "b.py" false⟩])).index = some i ∧
        (i.importers.targets "b.py", i.dependents.targets "g") = (["a.py"], ["f"]) ∧
        i.importers.TurnsRound i.imports ∧ i.dependents.TurnsRound i.dependencies := by
  have hview : ((fresh "/project" .usual).through graphsLeft).index.map
        (fun i => ((i.imports.targets "a.py", i.importers.targets "b.py"),
          (i.present? callerAndCallee "b.py").isSome)) = some ((["b.py"], []), true) ∧
      (((fresh "/project" .usual).through graphsLeft).perform
        ⟨callerAndCallee, .reindex "b.py" false⟩).2 = none ∧
      (((fresh "/project" .usual).through graphsLeft).perform
        ⟨callerAndCallee, .reindex "b.py" false⟩).1.index.map
          (fun i => (i.importers.targets "b.py", i.dependents.targets "g")) =
        some (["a.py"], ["f"]) := by decide +kernel
  obtain ⟨hleft, hdone, hmade⟩ := hview
  obtain ⟨j, hj, hseen⟩ := Option.map_eq_some_iff.1 hleft
  obtain ⟨i, hi, hfound⟩ := Option.map_eq_some_iff.1 hmade
  obtain ⟨hmissed, hread⟩ := Prod.mk.inj hseen
  obtain ⟨hpaired, himports⟩ := graphs_turned_round.2 "/project" .usual graphsLeft _ _ i
    (Prod.ext rfl hdone) hi
  refine ⟨graphs_turned_round.1 twoToOne (by decide), ?_, i, ?_, hfound, ?_, hpaired⟩
  · rw [hj, Option.map_some, hmissed]
  · rw [through_concat, hi]
  · exact himports ⟨rfl, j, hj, hread⟩

end Project

end SourceAtlas
