import SourceAtlas.Project.Basic
import SourceAtlas.Proofs.Tables

/-!
# Graphs as maps of sets

Two graphs are the same when they have the same nodes and every node points to the same set. For
each graph of an index this module says which nodes and edges it has: `edge_transpose_iff`,
`edge_ofDependencies_iff`, `get?_ofImports`. None of it depends on the order of the files, so
tables with the same files have the same graphs.
-/

set_option autoImplicit false

namespace SourceAtlas

open Assoc

variable {symbols : Symbols} {fs gs : List String}

namespace Graph

/-- The node points to the target. -/
def Edge (g : Graph) (source target : String) : Prop := target ∈ g.targets source

/-- The graphs have the same nodes and the same edges. -/
def Same (g h : Graph) : Prop :=
  (∀ node, has g node = true ↔ has h node = true) ∧
    ∀ source target, g.Edge source target ↔ h.Edge source target

variable {g : Graph} {files : Assoc Outline} {source target : String}

theorem edge_iff :
    g.Edge source target ↔ ∃ targets, get? g source = some targets ∧ target ∈ targets := by
  unfold Edge targets
  cases get? g source <;> simp

@[simp] theorem not_edge_nil (source target : String) : ¬ Edge [] source target := by
  simp [edge_iff]

/-! ## Adding nodes and edges -/

theorem edge_addNode (g : Graph) (node source target : String) :
    (g.addNode node).Edge source target ↔ g.Edge source target := by
  simp only [edge_iff, addNode, get?_put]
  by_cases h : source = node
  · subst h
    simp [targets, ← edge_iff, Edge]
  · simp [h]

theorem has_addNode (g : Graph) (node n : String) :
    has (g.addNode node) n = true ↔ n = node ∨ has g n = true := by
  by_cases h : n = node <;> simp [addNode, has_eq_isSome, get?_put, h]

theorem edge_addEdge (g : Graph) (s t source target : String) :
    (g.addEdge s t).Edge source target ↔ g.Edge source target ∨ source = s ∧ target = t := by
  by_cases h : source = s
  · subst h
    simp [Edge, targets, addEdge, get?_put, Names.mem_insert]
  · simp [edge_iff, addEdge, get?_put, h]

theorem has_addEdge (g : Graph) (s t n : String) :
    has (g.addEdge s t) n = true ↔ n = s ∨ has g n = true := by
  by_cases h : n = s <;> simp [addEdge, has_eq_isSome, get?_put, h]

theorem edge_addEdges (g : Graph) (s : String) (ts : List String) (source target : String) :
    (g.addEdges s ts).Edge source target ↔ g.Edge source target ∨ source = s ∧ target ∈ ts := by
  unfold addEdges
  induction ts generalizing g with
  | nil => simp
  | cons t ts ih =>
    rw [List.foldl_cons, ih, edge_addEdge, List.mem_cons, and_or_left, or_assoc]

theorem has_addEdges (g : Graph) (s : String) (ts : List String) (n : String) :
    has (g.addEdges s ts) n = true ↔ (n = s ∧ ts ≠ []) ∨ has g n = true := by
  unfold addEdges
  induction ts generalizing g with
  | nil => simp
  | cons t ts ih =>
    rw [List.foldl_cons, ih, has_addEdge]
    by_cases h : n = s <;> simp [h]

theorem nodup_keys_addNode (h : keys g |>.Nodup) (node : String) :
    (keys (g.addNode node)).Nodup :=
  nodup_keys_put h _ _

theorem nodup_keys_addEdges (h : (keys g).Nodup) (s : String) (ts : List String) :
    (keys (g.addEdges s ts)).Nodup :=
  List.foldlRecOn (motive := fun g : Graph => (keys g).Nodup) _ _ h
    fun _ hg _ _ => nodup_keys_put hg _ _

/-! ## Turning edges round -/

theorem mem_edges_iff (h : (keys g).Nodup) :
    (source, target) ∈ g.edges ↔ g.Edge source target := by
  rw [edge_iff, edges, List.mem_flatMap]
  constructor
  · rintro ⟨⟨s, ts⟩, hmem, hedge⟩
    obtain ⟨t, ht, heq⟩ := List.mem_map.1 hedge
    cases heq
    exact ⟨ts, get?_of_mem h hmem, ht⟩
  · rintro ⟨ts, hget, ht⟩
    exact ⟨(source, ts), mem_of_get? hget, List.mem_map.2 ⟨target, ht, rfl⟩⟩

/-- The edges of pairs that are entered one after the other, each turned round. -/
theorem foldl_addEdge_turned (pairs : List (String × String)) (g : Graph) :
    (∀ source target,
        Edge (pairs.foldl (fun r (s, t) => addEdge r t s) g) source target ↔
          g.Edge source target ∨ (target, source) ∈ pairs) ∧
      ∀ node, has (pairs.foldl (fun r (s, t) => addEdge r t s) g) node = true ↔
        has g node = true ∨ ∃ source, (source, node) ∈ pairs := by
  induction pairs generalizing g with
  | nil => simp
  | cons p pairs ih =>
    obtain ⟨s, t⟩ := p
    obtain ⟨hedge, hnode⟩ := ih (g.addEdge t s)
    refine ⟨fun source target => ?_, fun node => ?_⟩
    · rw [List.foldl_cons, hedge, edge_addEdge, List.mem_cons, Prod.mk.injEq, or_assoc,
        and_comm (a := source = t)]
    · rw [List.foldl_cons, hnode, has_addEdge]
      simp only [List.mem_cons, Prod.mk.injEq, exists_or, exists_and_right, exists_eq, true_and]
      tauto

theorem edge_transpose_iff (h : (keys g).Nodup) :
    g.transpose.Edge source target ↔ g.Edge target source := by
  rw [transpose, (foldl_addEdge_turned g.edges []).1, mem_edges_iff h]
  simp

theorem has_transpose_iff (h : (keys g).Nodup) {node : String} :
    has g.transpose node = true ↔ ∃ source, g.Edge source node := by
  rw [transpose, (foldl_addEdge_turned g.edges []).2]
  simp [mem_edges_iff h, has_eq_isSome]

theorem Same.transpose {g h : Graph} (hg : (keys g).Nodup) (hh : (keys h).Nodup)
    (hsame : g.Same h) : g.transpose.Same h.transpose := by
  refine ⟨fun node => ?_, fun source target => ?_⟩
  · rw [has_transpose_iff hg, has_transpose_iff hh]
    exact exists_congr fun source => hsame.2 source node
  · rw [edge_transpose_iff hg, edge_transpose_iff hh]
    exact hsame.2 target source

/-! ## The graph of dependencies -/

/-- The nodes and edges of dependences that are entered one after the other. -/
theorem foldl_dependences (ds : List Dependence) (g : Graph) :
    (∀ source target,
        Edge (ds.foldl (fun (g : Graph) d => (g.addNode d.source).addEdges d.source d.targets) g)
            source target ↔
          g.Edge source target ∨ ∃ d ∈ ds, d.source = source ∧ target ∈ d.targets) ∧
      ∀ node,
        has
            (ds.foldl (fun (g : Graph) d => (g.addNode d.source).addEdges d.source d.targets) g)
            node = true ↔
          has g node = true ∨ ∃ d ∈ ds, d.source = node := by
  induction ds generalizing g with
  | nil => simp
  | cons d ds ih =>
    obtain ⟨hedge, hnode⟩ := ih ((g.addNode d.source).addEdges d.source d.targets)
    refine ⟨fun source target => ?_, fun node => ?_⟩
    · rw [List.foldl_cons, hedge, edge_addEdges, edge_addNode, or_assoc]
      simp only [List.mem_cons, exists_eq_or_imp, eq_comm (a := d.source)]
    · rw [List.foldl_cons, hnode, has_addEdges, has_addNode]
      simp only [List.mem_cons, exists_eq_or_imp, eq_comm (a := d.source)]
      tauto

theorem edge_ofDependencies_iff :
    (ofDependencies files symbols).Edge source target ↔
      ∃ e ∈ files, ∃ d ∈ e.2.dependences symbols, d.source = source ∧ target ∈ d.targets := by
  rw [ofDependencies, (foldl_dependences _ []).1]
  simp only [not_edge_nil, false_or, List.mem_flatMap]
  exact ⟨fun ⟨d, ⟨e, he, hd⟩, h⟩ => ⟨e, he, d, hd, h⟩, fun ⟨e, he, d, hd, h⟩ => ⟨d, ⟨e, he, hd⟩, h⟩⟩

theorem has_ofDependencies_iff {node : String} :
    has (ofDependencies files symbols) node = true ↔
      ∃ e ∈ files, ∃ d ∈ e.2.dependences symbols, d.source = node := by
  rw [ofDependencies, (foldl_dependences _ []).2]
  simp only [has_eq_isSome, get?_nil, Option.isSome_none, Bool.false_eq_true, false_or,
    List.mem_flatMap]
  exact ⟨fun ⟨d, ⟨e, he, hd⟩, h⟩ => ⟨e, he, d, hd, h⟩, fun ⟨e, he, d, hd, h⟩ => ⟨d, ⟨e, he, hd⟩, h⟩⟩

theorem nodup_keys_ofDependencies (files : Assoc Outline) (symbols : Symbols) :
    (keys (ofDependencies files symbols)).Nodup :=
  List.foldlRecOn (motive := fun g : Graph => (keys g).Nodup) _ _ List.nodup_nil
    fun _ hg _ _ => nodup_keys_addEdges (nodup_keys_addNode hg _) _ _

/-- Tables with the same files have the same dependencies, if the tables of symbols have the same
among the names that the files refer to. -/
theorem same_ofDependencies {files more : Assoc Outline} {table : Symbols}
    (hfiles : ∀ e, e ∈ files ↔ e ∈ more)
    (hnames : ∀ e ∈ more, e.2.dependences symbols = e.2.dependences table) :
    (ofDependencies files symbols).Same (ofDependencies more table) := by
  refine ⟨fun node => ?_, fun source target => ?_⟩
  · rw [has_ofDependencies_iff, has_ofDependencies_iff]
    exact exists_congr fun e => by
      rw [hfiles e]
      exact and_congr_right fun he => by rw [hnames e he]
  · rw [edge_ofDependencies_iff, edge_ofDependencies_iff]
    exact exists_congr fun e => by
      rw [hfiles e]
      exact and_congr_right fun he => by rw [hnames e he]

/-! ## The graph of imports -/

theorem ofImportsIn_eq_filterMap (order : List String) (files : Assoc Outline) :
    ofImportsIn order files = files.filterMap fun e =>
      (if e.2.importTargets e.1 order = [] then none
        else some (e.2.importTargets e.1 order)).map fun targets => (e.1, targets) := by
  unfold ofImportsIn
  congr 1
  funext e
  cases htargets : e.2.importTargets e.1 order <;> simp [htargets]

theorem get?_ofImportsIn (h : files.keys.Nodup) (order : List String) (path : String) :
    get? (ofImportsIn order files) path =
      (files.get? path).bind fun o =>
        if o.importTargets path order = [] then none else some (o.importTargets path order) := by
  rw [ofImportsIn_eq_filterMap]
  exact get?_filterMap h
    (fun path o => if o.importTargets path order = [] then none
      else some (o.importTargets path order)) path

theorem get?_ofImports (h : files.keys.Nodup) (path : String) :
    get? (ofImports files) path =
      (files.get? path).bind fun o =>
        if o.importTargets path files.keys = [] then none
        else some (o.importTargets path files.keys) :=
  get?_ofImportsIn h files.keys path

theorem nodup_keys_ofImports (h : files.keys.Nodup) : (keys (ofImports files)).Nodup := by
  rw [ofImports, ofImportsIn_eq_filterMap]
  exact nodup_keys_filterMap h
    (fun path o => if o.importTargets path files.keys = [] then none
      else some (o.importTargets path files.keys))

end Graph

namespace Resolve

theorem firstPresent?_congr (h : ∀ f, f ∈ fs ↔ f ∈ gs) (candidates : List String) :
    firstPresent? candidates fs = firstPresent? candidates gs := by
  have hcontains : fs.contains = gs.contains := by
    funext f
    rw [Bool.eq_iff_iff, List.contains_iff_mem, List.contains_iff_mem, h f]
  rw [firstPresent?, firstPresent?, hcontains]

theorem goFile?_eq_none (h : ∀ f ∈ fs, Text.endsWith ".go".toList f.toList = false)
    (target : String) :
    goFile? target fs = none := by
  have hnone : fs.filter (fun f => Text.endsWith ".go".toList f.toList) = [] := by
    simpa [List.filter_eq_nil_iff] using h
  have hfolders : goFolders fs = [] := by
    rw [goFolders, hnone]
    rfl
  simp [goFile?, hfolders]

/-- Without Go files, where an import leads depends on the set of files only. -/
theorem import?_congr (h : ∀ f, f ∈ fs ↔ f ∈ gs)
    (hgo : ∀ f ∈ gs, Text.endsWith ".go".toList f.toList = false) (file target : String) :
    Resolve.import? file target fs = Resolve.import? file target gs := by
  have hgo' : ∀ f ∈ fs, Text.endsWith ".go".toList f.toList = false :=
    fun f hf => hgo f ((h f).1 hf)
  unfold import?
  split
  · rfl
  -- Each language but Go looks for the first of some candidates that is a file.
  cases language? file with
  | none => rfl
  | some language =>
    cases language <;>
      simp [byLanguage?, firstPresent?_congr h, goFile?_eq_none hgo, goFile?_eq_none hgo']

end Resolve

namespace Outline

theorem importTargets_congr (h : ∀ f, f ∈ fs ↔ f ∈ gs)
    (hgo : ∀ f ∈ gs, Text.endsWith ".go".toList f.toList = false) (o : Outline) (path : String) :
    o.importTargets path fs = o.importTargets path gs := by
  unfold importTargets
  simp only [Resolve.import?_congr h hgo]

/-- The names that the imports of a file take, and those that its definitions mention. -/
def referredNames (o : Outline) : List String :=
  o.imports.flatMap ImportItem.names ++ o.mentions.flatMap Prod.snd

/-- What the definitions of a file depend on is decided by which of the names that it refers to are
symbols. -/
theorem dependences_congr {o : Outline} {table : Symbols}
    (h : ∀ name ∈ o.referredNames, symbols.has name = table.has name) :
    o.dependences symbols = o.dependences table := by
  have himports : o.importedSymbols symbols = o.importedSymbols table := by
    unfold importedSymbols
    rw [List.filter_congr fun name hname => h name (List.mem_append_left _ hname)]
  have hmentions : o.mentionedSymbols symbols = o.mentionedSymbols table := by
    refine List.map_congr_left fun e he => ?_
    have hfilter : ∀ name ∈ e.2, symbols.has name = table.has name := fun name hname =>
      h name (List.mem_append_right _ (List.mem_flatMap.2 ⟨e, he, hname⟩))
    simp only [Dependence.mk.injEq, true_and]
    exact List.filter_congr fun name hname => by rw [hfilter name hname]
  rw [dependences, dependences, hmentions, importedWords, importedWords, himports]

end Outline

/-- Without Go files, tables with the same files have the same imports. -/
theorem Graph.same_ofImports {files more : Assoc Outline} (hfiles : files.keys.Nodup)
    (hmore : more.keys.Nodup) (hget : ∀ path, files.get? path = more.get? path)
    (hgo : ∀ f ∈ more.keys, Text.endsWith ".go".toList f.toList = false) :
    (ofImports files).Same (ofImports more) := by
  have hkeys : ∀ f, f ∈ files.keys ↔ f ∈ more.keys := fun f => by
    rw [mem_keys_iff, mem_keys_iff, hget f]
  have hsame : ∀ path, get? (ofImports files) path = get? (ofImports more) path := by
    intro path
    rw [get?_ofImports hfiles, get?_ofImports hmore, hget path]
    simp only [Outline.importTargets_congr hkeys hgo]
  refine ⟨fun node => ?_, fun source target => ?_⟩
  · rw [has_eq_isSome, has_eq_isSome, hsame node]
  · rw [edge_iff, edge_iff, hsame source]

end SourceAtlas
