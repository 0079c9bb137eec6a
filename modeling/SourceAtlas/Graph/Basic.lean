import SourceAtlas.Collection.Basic

/-!
# Graphs

A graph gives each of its nodes the set of nodes that it points to. `transpose` turns every edge
round. `path?` finds a shortest path, and of several the one that comes first in the order of names;
`beyond` finds what can be reached from a set of nodes.
-/

set_option autoImplicit false

namespace SourceAtlas

/-- A graph by the targets of its nodes. -/
abbrev Graph := Assoc Names

namespace Graph

/-- The nodes that a node points to. -/
def targets (g : Graph) (node : String) : Names := (Assoc.get? g node).getD []

/-- The graph with a node, which points nowhere unless it did before. -/
def addNode (g : Graph) (node : String) : Graph := Assoc.put g node (g.targets node)

/-- The graph with one more edge. -/
def addEdge (g : Graph) (source target : String) : Graph :=
  Assoc.put g source ((g.targets source).insert target)

/-- The graph with an edge from a node to each of the targets. -/
def addEdges (g : Graph) (source : String) (targets : List String) : Graph :=
  targets.foldl (fun g t => g.addEdge source t) g

/-- The edges of a graph. -/
def edges (g : Graph) : List (String × String) :=
  g.flatMap fun (source, targets) => targets.map fun target => (source, target)

/-- The graph with every edge turned round. Only nodes that something points to are its nodes. -/
def transpose (g : Graph) : Graph :=
  (edges g).foldl (fun r (source, target) => addEdge r target source) []

/-- The graph with a node taken out of all sets of targets; the sets themselves stay. -/
def dropTarget (g : Graph) (node : String) : Graph :=
  g.map fun (source, targets) => (source, targets.filter (· != node))

/-- Searches for `goal` from the ends of the paths in the queue, each path with its last node
first. -/
def search (g : Graph) (goal : String) : Nat → Names → List (List String) → Option (List String)
  | 0, _, _ => none
  | _ + 1, _, [] => none
  | fuel + 1, seen, path :: queue =>
    let next := Names.sorted (g.targets (path.headD ""))
    if next.contains goal then some (goal :: path).reverse
    else
      let fresh := next.filter fun n => !seen.contains n
      search g goal fuel (seen ++ fresh) (queue ++ fresh.map (· :: path))

/-- The shortest path of at least one edge from `start` to `goal`, the first in the order of
names. -/
def path? (g : Graph) (start goal : String) : Option (List String) :=
  g.search goal ((edges g).length + 2) [start] [[start]]

/-- The nodes that can be reached from the queue, apart from those already seen. -/
def explore (g : Graph) : Nat → Names → List String → Names
  | 0, _, _ => []
  | _ + 1, _, [] => []
  | fuel + 1, seen, node :: queue =>
    let fresh := (g.targets node).filter fun n => !seen.contains n
    fresh ++ explore g fuel (seen ++ fresh) (queue ++ fresh)

/-- The nodes that can be reached from `start` without `avoided`, apart from those in `start`. -/
def beyond (g : Graph) (start : Names) (avoided : String) : Names :=
  g.explore ((edges g).length + start.length + 1) (start.insert avoided) start

end Graph

end SourceAtlas
