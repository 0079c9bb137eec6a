import SourceAtlas.Proofs.StatementLines

/-!
# Methods of classes and methods among the functions

An outline shows a method twice, in the list of its class and among all functions. The two views
agree: what a class lists is one of the functions, is a method, and names the class as its parent
(`MethodsListed`). Together with the law of the two names of a callable this is
`Outline.functions_classes_agree`, for texts of all kinds.

Each language gets there in its own way. In Python and C# a class and its methods are found
together. In TypeScript all classes of one name share the methods found under that name. In Go
methods are attached after the search by the name of their receiver, unless an interface lists its
own. In Rust implementation blocks are read first, and a type takes from a table what was found for
its name; the sweeps keep that table in order (`Rust.Findings.Coherent`).
-/

set_option autoImplicit false

namespace SourceAtlas

/-- Whatever the kind of a text, functions and classes of its outline fit together. -/
theorem Outline.coherent_ofText {text sourceName : String} {label : Option String} {o : Outline}
    (h : ofText text sourceName label = .ok o) : Coherent o.totalLines o.functions o.classes := by
  unfold ofText ofKind at h
  split at h
  case h_1 => exact Python.coherent_outline h
  case h_3 =>
    unfold Data.outline at h
    split at h <;> cases h <;> exact .nil _
  all_goals cases h
  · exact .nil _
  · exact Script.coherent_outline _ _
  · exact Go.coherent_outline _ _
  · exact Rust.coherent_outline _ _
  · exact CSharp.coherent_outline _ _
  · exact .nil _

/-- **Functions and classes of an outline agree.** Whatever the kind of a text, every method that a
class of its outline lists is one of the functions, is a method and has the class as its parent. Of
the functions, each is a method with a parent, qualified by the name of that parent, or is none, has
no parent and one name only. -/
theorem Outline.functions_classes_agree {text sourceName : String} {label : Option String}
    {o : Outline} (h : ofText text sourceName label = .ok o) :
    MethodsListed o.functions o.classes ∧ AllQualified o.functions :=
  ⟨(coherent_ofText h).listed, (coherent_ofText h).allQualified⟩

/-- A type whose methods come before it, in two blocks, and a trait. -/
def blocksFirst : String :=
  "impl Shape for Dot \x7b\n    fn area(&self) -> u32 \x7b\n        0\n    \x7d\n\x7d\n" ++
    "impl Dot \x7b\n    fn new() -> Dot \x7b\n        Dot\n    \x7d\n\x7d\nstruct Dot;\n\n" ++
    "trait Shape \x7b\n    fn area(&self) -> u32;\n\x7d\nfn main() \x7b\x7d\n"

theorem Outline.blocksFirst_agree :
    ∃ o, ofText blocksFirst "dot.rs" none = .ok o ∧
      (o.classes.map fun c => (c.name, c.methods.map (·.qualifiedName))) =
        [("Dot", ["Dot.area", "Dot.new"]), ("Shape", ["Shape.area"])] ∧
      o.functions.map (·.qualifiedName) = ["Dot.area", "Dot.new", "Shape.area", "main"] ∧
      MethodsListed o.functions o.classes ∧ AllQualified o.functions := by
  have hkind : FileKind.of "dot.rs" none = .rust := by decide +kernel
  have hread : ofText blocksFirst "dot.rs" none =
      .ok (Rust.outline "dot.rs" blocksFirst.toList) := by
    rw [ofText, hkind, ofKind]
  have hview :
      ((Rust.outline "dot.rs" blocksFirst.toList).classes.map fun c =>
          (c.name, c.methods.map (·.qualifiedName))) =
        [("Dot", ["Dot.area", "Dot.new"]), ("Shape", ["Shape.area"])] ∧
      (Rust.outline "dot.rs" blocksFirst.toList).functions.map (·.qualifiedName) =
        ["Dot.area", "Dot.new", "Shape.area", "main"] := by
    decide +kernel
  exact ⟨_, hread, hview.1, hview.2, functions_classes_agree hread⟩

end SourceAtlas
