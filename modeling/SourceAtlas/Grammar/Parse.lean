import SourceAtlas.Grammar.Expr
import SourceAtlas.Grammar.Lexer
import SourceAtlas.Text.NormalForm

/-!
# Reading tokens

The reader of the grammar: it takes tokens from a list, gives nothing when the next token does not
fit, and goes back when it tries one form after another. It never makes tokens up, so that what is
left is always an end of what was given; a reader carries the proof of that.
-/

set_option autoImplicit false

namespace SourceAtlas.Grammar

/-- A reader of tokens. What it leaves is an end of the list it was given. -/
structure Parse (α : Type) where
  run : List Token → Option (α × List Token)
  onward : ∀ {ts a rest}, run ts = some (a, rest) → rest <:+ ts

namespace Parse

variable {α β : Type}

/-- Looks at the tokens ahead and takes none. -/
def look (f : List Token → Option α) : Parse α where
  run ts := (f ts).map fun a => (a, ts)
  onward h := by
    obtain ⟨a, -, heq⟩ := Option.map_eq_some_iff.1 h
    cases heq
    exact List.suffix_rfl

/-- Reads on with what has been read. -/
protected def bind (p : Parse α) (f : α → Parse β) : Parse β where
  run ts := (p.run ts).bind fun r => (f r.1).run r.2
  onward h := by
    obtain ⟨⟨a, us⟩, hp, hf⟩ := Option.bind_eq_some_iff.1 h
    exact ((f a).onward hf).trans (p.onward hp)

/-- The outcome of a reader, or none with nothing taken. -/
def attempt (p : Parse α) : Parse (Option α) where
  run ts :=
    match p.run ts with
    | some (a, rest) => some (some a, rest)
    | none => some (none, ts)
  onward h := by
    split at h
    · rename_i hp
      cases h
      exact p.onward hp
    · cases h
      exact List.suffix_rfl

instance : Monad Parse where
  pure a := look fun _ => some a
  bind := Parse.bind

instance : MonadLift Option Parse where
  monadLift a? := look fun _ => a?

instance : Alternative Parse where
  failure := look fun _ => none
  orElse p q := do
    match ← p.attempt with
    | some a => return a
    | none => q ()

/-- Takes the next token. -/
def skip : Parse Unit where
  run ts :=
    match ts with
    | _ :: rest => some ((), rest)
    | [] => none
  onward h := by
    split at h
    · cases h
      exact List.suffix_cons _ _
    · cases h

/-- The kind of the next token. -/
def peek : Parse TokenKind := look fun ts => ts.head?.map Token.kind

/-- The kind of the token behind the next one. -/
def peekSecond : Parse (Option TokenKind) := look fun ts => some (ts.tail.head?.map Token.kind)

/-- The line of the next token. -/
def line : Parse Nat := look fun ts => ts.head?.map Token.line

/-- The last line before the next token. -/
def lastLine : Parse Nat := look fun ts => ts.head?.map Token.priorEnd

/-- Is the next token of this kind? -/
def at_ (kind : TokenKind) : Parse Bool := do return (← peek) == kind

/-- The next token is the operator. -/
def atOp (op : String) : Parse Bool := at_ (.op op)

/-- The next token is the keyword. -/
def atWord (word : String) : Parse Bool := at_ (.keyword word)

/-- Takes the next token if it is of this kind. -/
def accept (kind : TokenKind) : Parse Bool := do
  if ← at_ kind then
    skip
    return true
  else return false

/-- Takes the operator if it comes next. -/
def acceptOp (op : String) : Parse Bool := accept (.op op)

/-- Takes the keyword if it comes next. -/
def acceptWord (word : String) : Parse Bool := accept (.keyword word)

/-- Takes the next token, which has to be of this kind. -/
def expect (kind : TokenKind) : Parse Unit := do if !(← accept kind) then failure

/-- Takes the operator. -/
def expectOp (op : String) : Parse Unit := expect (.op op)

/-- Takes the next token, which has to be this keyword. -/
def expectWord (word : String) : Parse Unit := expect (.keyword word)

/-- Takes a name, which is read in its normal form. -/
def name : Parse String := do
  match ← peek with
  | .name text =>
    skip
    return String.ofList (Text.NormalForm.ofText text.toList)
  | _ => failure

/-- The next tokens are a name and the operator. -/
def atNameThen (op : String) : Parse Bool := do
  match ← peek with
  | .name _ => return (← peekSecond) == some (.op op)
  | _ => return false

/-- The next token is a name with exactly this spelling. -/
def atSpelling (word : String) : Parse Bool := at_ (.name word)

end Parse

/-- An expression and the line it starts on. -/
structure Placed where
  expr : Expr
  line : Nat

end SourceAtlas.Grammar
