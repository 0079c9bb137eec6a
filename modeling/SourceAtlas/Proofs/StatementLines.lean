import SourceAtlas.Proofs.LineRanges
import SourceAtlas.Proofs.TokenLines

/-!
# Lines of statements

The grammar notes lines in three places: a definition starts where its first decorator or its
keyword stands and ends where the token behind its block says that reading has ended, and an import
stands where its keyword stands. What can be said of these lines, given the tokens, holds at every
depth (`everywhere_of_suits`). In particular they are lines of the source (`everywhere_ofSource?`),
because the tokens come in order and a reader only ever goes on in them.

For decorators this takes a look at the readers of expressions: the line of an expression is that of
a token which was passed on the way (`Parse.Places`). With it, `Outline.wellSpanned_ofText` says of
texts of all kinds that an outline speaks of no line which the text does not have.
-/

set_option autoImplicit false

namespace SourceAtlas

open Grammar

namespace Grammar

variable {ts us rest tail : List Token} {kind : TokenKind} {ss : List Stmt}
variable {decorated : List Decorator} {t : Token} {c : Prop} {s : Stmt} {source : List Char}

namespace Parse

variable {α β : Type}

/-! ## Lines that a reader passes -/

theorem exists_of_run_bind {p : Parse α} {f : α → Parse β} {b : β}
    (h : (p >>= f).run ts = some (b, rest)) :
    ∃ a us, p.run ts = some (a, us) ∧ (f a).run us = some (b, rest) := by
  obtain ⟨⟨a, us⟩, hp, hf⟩ := Option.bind_eq_some_iff.1 h
  exact ⟨a, us, hp, hf⟩

/-- On the way from the first tokens to the second, a token on the line comes next. -/
def Passed (ts rest : List Token) (line : Nat) : Prop :=
  ∃ t us, t :: us <:+ ts ∧ rest <:+ t :: us ∧ t.line = line

theorem Passed.of_suffix {line : Nat} (h : Passed us rest line) (hus : us <:+ ts) :
    Passed ts rest line := by
  obtain ⟨t, vs, hvs, hrest, hline⟩ := h
  exact ⟨t, vs, hvs.trans hus, hrest, hline⟩

theorem Passed.to_suffix {line : Nat} (h : Passed ts us line) (hrest : rest <:+ us) :
    Passed ts rest line := by
  obtain ⟨t, vs, hvs, hus, hline⟩ := h
  exact ⟨t, vs, hvs, hrest.trans hus, hline⟩

/-- In ordered tokens, a line that was passed is not behind the tokens that are left. -/
theorem Passed.bounds {total line : Nat} (h : Passed ts rest line) (hts : Ordered total ts) :
    1 ≤ line ∧ ∀ u ∈ rest, line ≤ u.line := by
  obtain ⟨t, us, hus, hrest, rfl⟩ := h
  have hordered := hts.of_suffix hus
  refine ⟨(hordered.within t List.mem_cons_self).start, fun u hu => ?_⟩
  rcases List.mem_cons.1 (hrest.subset hu) with rfl | hmem
  · exact Nat.le_refl _
  · exact ((List.pairwise_cons.1 hordered.order).1 u hmem).line

/-- What is read starts on one of the known lines, or on a line that was passed. -/
def Places (known : List Nat) (p : Parse Placed) : Prop :=
  ∀ ⦃ts a rest⦄, p.run ts = some (a, rest) → a.line ∈ known ∨ Passed ts rest a.line

variable {known : List Nat}

theorem places_pure {a : Placed} (h : a.line ∈ known) : Places known (pure a) := by
  intro ts b rest hb
  cases hb
  exact .inl h

theorem places_failure : Places known failure := by
  intro ts b rest hb
  cases hb

theorem places_guard [Decidable c] {f : Unit → Parse Placed} (h : Places known (f ())) :
    Places known (if c then failure >>= f else f ()) := by
  split
  · intro ts b rest hb
    cases hb
  · exact h

theorem places_bind {p : Parse α} {f : α → Parse Placed} (h : ∀ a, Places known (f a)) :
    Places known (p >>= f) := by
  intro ts b rest hb
  obtain ⟨a, us, hp, hf⟩ := exists_of_run_bind hb
  exact (h a hf).imp_right fun hpassed => hpassed.of_suffix (p.onward hp)

/-- A line that is passed first is known from then on. -/
theorem places_of_passed {p : Parse α} {f : α → Parse Placed} {lineOf : α → Nat}
    (hp : ∀ ⦃ts a us⦄, p.run ts = some (a, us) → Passed ts us (lineOf a))
    (h : ∀ a, Places (lineOf a :: known) (f a)) : Places known (p >>= f) := by
  intro ts b rest hb
  obtain ⟨a, us, hpa, hf⟩ := exists_of_run_bind hb
  rcases h a hf with hknown | hpassed
  · rcases List.mem_cons.1 hknown with hline | hknown
    · rw [hline]
      exact .inr ((hp hpa).to_suffix ((f a).onward hf))
    · exact .inl hknown
  · exact .inr (hpassed.of_suffix (p.onward hpa))

theorem run_line {start : Nat} (h : line.run ts = some (start, us)) :
    ∃ t rest, ts = t :: rest ∧ us = ts ∧ start = t.line := by
  cases ts with
  | nil => cases h
  | cons t rest =>
    cases h
    exact ⟨t, rest, rfl, rfl, rfl⟩

theorem places_line {f : Nat → Parse Placed} (h : ∀ start, Places (start :: known) (f start)) :
    Places known (line >>= f) := by
  refine places_of_passed ?_ h
  intro ts start us hline
  obtain ⟨t, rest, rfl, rfl, rfl⟩ := run_line hline
  exact ⟨t, rest, List.suffix_rfl, List.suffix_rfl, rfl⟩

theorem places_placed {p : Parse Placed} {f : Placed → Parse Placed} (hp : Places [] p)
    (h : ∀ a, Places (a.line :: known) (f a)) : Places known (p >>= f) :=
  places_of_passed (fun _ _ _ ha => (hp ha).resolve_left List.not_mem_nil) h

theorem Places.of_nil {p : Parse Placed} (h : Places [] p) : Places known p :=
  fun _ _ _ ha => .inr ((h ha).resolve_left List.not_mem_nil)

end Parse

open Parse

/-! ## Expressions -/

/-- Every reader of expressions gives a line that it passed, or one of those it was given. -/
structure ExpressionsPlaced (n : Nat) : Prop where
  expression : Places [] (expression n)
  lambdaExpr : Places [] (lambdaExpr n)
  disjunction : Places [] (disjunction n)
  conjunction : Places [] (conjunction n)
  inversion : Places [] (inversion n)
  comparison : Places [] (comparison n)
  binary : ∀ level, Places [] (binary n level)
  binaryRest : ∀ level start left known, start ∈ known → left.line ∈ known →
    Places known (binaryRest n level start left)
  factor : Places [] (factor n)
  awaited : Places [] (awaited n)
  primary : Places [] (primary n)
  trailers : ∀ start left known, start ∈ known → left.line ∈ known →
    Places known (trailers n start left)
  atom : Places [] (atom n)
  parenthesized : ∀ start known, start ∈ known → Places known (parenthesized n start)
  starNamed : Places [] (starNamed n)
  namedExpression : Places [] (namedExpression n)
  yieldExpr : Places [] (yieldExpr n)

variable {n : Nat}

theorem places_lambdaExpr : Places [] (lambdaExpr (n + 1)) := by
  rw [lambdaExpr]
  exact places_line fun start => places_bind fun _ => places_bind fun _ =>
    places_bind fun _ => places_bind fun _ => places_pure (by simp)

section

variable (ih : ExpressionsPlaced n)
include ih

theorem places_expression : Places [] (expression (n + 1)) := by
  rw [expression]
  refine places_bind fun isLambda => ?_
  split
  · exact ih.lambdaExpr
  · refine places_line fun start => places_placed ih.disjunction fun body => ?_
    refine places_bind fun isChoice => ?_
    split
    · exact places_bind fun _ => places_bind fun _ => places_bind fun _ =>
        places_pure (by simp)
    · exact places_pure (by simp)

theorem places_disjunction : Places [] (disjunction (n + 1)) := by
  rw [disjunction]
  refine places_line fun start => places_placed ih.conjunction fun first => ?_
  refine places_bind fun more => ?_
  cases more with
  | nil | cons => exact places_pure (by simp)

theorem places_conjunction : Places [] (conjunction (n + 1)) := by
  rw [conjunction]
  refine places_line fun start => places_placed ih.inversion fun first => ?_
  refine places_bind fun more => ?_
  cases more with
  | nil | cons => exact places_pure (by simp)

theorem places_inversion : Places [] (inversion (n + 1)) := by
  rw [inversion]
  refine places_line fun start => places_bind fun isNegated => ?_
  split
  · exact places_bind fun _ => places_pure (by simp)
  · exact ih.comparison.of_nil

theorem places_comparison : Places [] (comparison (n + 1)) := by
  rw [comparison]
  refine places_line fun start => places_placed (ih.binary 0) fun left => ?_
  refine places_bind fun more => ?_
  cases more with
  | nil | cons => exact places_pure (by simp)

theorem places_binary (level : Nat) :
    Places [] (binary (n + 1) level) := by
  rw [binary]
  split
  · exact ih.factor
  · refine places_line fun start => places_placed (ih.binary (level + 1)) fun left => ?_
    exact ih.binaryRest level start left _ (by simp) (by simp)

theorem places_binaryRest (level start : Nat) (left : Placed) (known : List Nat)
    (hstart : start ∈ known) (hleft : left.line ∈ known) :
    Places known (binaryRest (n + 1) level start left) := by
  rw [binaryRest]
  refine places_bind fun next => ?_
  split
  · split
    · exact places_pure hleft
    · exact places_bind fun _ => places_bind fun right =>
        ih.binaryRest level start _ known hstart hstart
  · exact places_pure hleft

theorem places_factor : Places [] (factor (n + 1)) := by
  rw [factor]
  refine places_line fun start => places_bind fun sign => ?_
  split
  · exact places_bind fun _ => places_pure (by simp)
  · refine places_placed ih.awaited fun base => places_bind fun isPower => ?_
    split
    · exact places_bind fun _ => places_pure (by simp)
    · exact places_pure (by simp)

theorem places_awaited : Places [] (awaited (n + 1)) := by
  rw [awaited]
  refine places_line fun start => places_bind fun isAwaited => ?_
  split
  · exact places_bind fun _ => places_pure (by simp)
  · exact ih.primary.of_nil

theorem places_primary : Places [] (primary (n + 1)) := by
  rw [primary]
  refine places_line fun start => places_placed ih.atom fun e => ?_
  exact ih.trailers start e _ (by simp) (by simp)

theorem places_trailers (start : Nat) (left : Placed) (known : List Nat) (hstart : start ∈ known)
    (hleft : left.line ∈ known) :
    Places known (trailers (n + 1) start left) := by
  rw [trailers]
  refine places_bind fun isAttribute => ?_
  split
  · exact places_bind fun _ => ih.trailers start _ known hstart hstart
  · refine places_bind fun isCall => ?_
    split
    · exact places_bind fun _ => places_bind fun _ => ih.trailers start _ known hstart hstart
    · refine places_bind fun isSubscript => ?_
      split
      · exact places_bind fun _ => places_bind fun _ =>
          ih.trailers start _ known hstart hstart
      · exact places_pure hleft

theorem places_atom : Places [] (atom (n + 1)) := by
  rw [atom]
  refine places_line fun start => places_bind fun next => ?_
  split
  -- What parentheses hold may keep its own line.
  case h_8 => exact places_bind fun _ => ih.parenthesized start _ (by simp)
  case h_9 => exact places_bind fun _ => places_bind fun _ => places_pure (by simp)
  case h_10 => exact places_bind fun _ => places_bind fun _ => places_pure (by simp)
  case h_11 => exact places_failure
  all_goals exact places_bind fun _ => places_pure (by simp)

theorem places_parenthesized (start : Nat) (known : List Nat) (hstart : start ∈ known) :
    Places known (parenthesized (n + 1) start) := by
  rw [parenthesized]
  refine places_bind fun isEmpty => ?_
  split
  · exact places_pure hstart
  · refine places_bind fun isYield => ?_
    split
    · exact places_placed ih.yieldExpr fun e => places_bind fun _ => places_pure (by simp)
    · refine places_placed ih.starNamed fun first => ?_
      refine places_bind fun isFor => places_bind fun isAsync => ?_
      split
      · exact places_guard (places_bind fun _ => places_bind fun _ =>
          places_pure (by simp [hstart]))
      · refine places_bind fun isTuple => ?_
        split
        · exact places_bind fun _ => places_bind fun _ => places_pure (by simp [hstart])
        · exact places_guard (places_bind fun _ => places_pure (by simp))

theorem places_starNamed : Places [] (starNamed (n + 1)) := by
  rw [starNamed]
  refine places_line fun start => places_bind fun isStarred => ?_
  split
  · exact places_bind fun _ => places_pure (by simp)
  · exact ih.namedExpression.of_nil

theorem places_namedExpression :
    Places [] (namedExpression (n + 1)) := by
  rw [namedExpression]
  refine places_bind fun isNamed => ?_
  split
  · exact places_line fun start => places_bind fun _ => places_bind fun _ =>
      places_bind fun _ => places_pure (by simp)
  · refine places_placed ih.expression fun e => places_bind fun isWalrus => ?_
    exact places_guard (places_pure (by simp))

end

theorem places_yieldExpr : Places [] (yieldExpr (n + 1)) := by
  rw [yieldExpr]
  refine places_line fun start => places_bind fun _ => places_bind fun isFrom => ?_
  split
  · exact places_bind fun _ => places_pure (by simp)
  · refine places_bind fun value => ?_
    split
    · exact places_pure (by simp)
    · exact places_pure (by simp)

theorem expressionsPlaced (n : Nat) : ExpressionsPlaced n := by
  induction n with
  | zero =>
    -- Every reader fails at the bound zero.
    constructor
    all_goals
      intros
      with_unfolding_all exact places_failure
  | succ n ih =>
    exact
      { expression := places_expression ih
        lambdaExpr := places_lambdaExpr
        disjunction := places_disjunction ih
        conjunction := places_conjunction ih
        inversion := places_inversion ih
        comparison := places_comparison ih
        binary := places_binary ih
        binaryRest := places_binaryRest ih
        factor := places_factor ih
        awaited := places_awaited ih
        primary := places_primary ih
        trailers := places_trailers ih
        atom := places_atom ih
        parenthesized := places_parenthesized ih
        starNamed := places_starNamed ih
        namedExpression := places_namedExpression ih
        yieldExpr := places_yieldExpr }

/-! ## Statements within statements -/

theorem mem_flatten_mergeLevels {α : Type} {xs ys : List (List α)} {a : α} :
    a ∈ (mergeLevels xs ys).flatten ↔ a ∈ xs.flatten ∨ a ∈ ys.flatten := by
  induction xs generalizing ys with
  | nil => simp [mergeLevels]
  | cons x xs ih =>
    cases ys with
    | nil => simp [mergeLevels]
    | cons y ys =>
      rw [mergeLevels, List.flatten_cons, List.mem_append, ih, List.mem_append, List.flatten_cons,
        List.flatten_cons, List.mem_append, List.mem_append]
      tauto

/-- The statements directly in a statement. -/
def Stmt.body : Stmt → List Stmt
  | .function _ _ _ _ body _ _ => body
  | .classDef _ _ _ _ body _ _ => body
  | .other _ body => body
  | _ => []

/-- All statements have the property, at whatever depth they stand. -/
def Everywhere (P : Stmt → Prop) (ss : List Stmt) : Prop := ∀ s ∈ breadthFirst ss, P s

variable {P : Stmt → Prop}

@[simp] theorem everywhere_nil : Everywhere P [] := fun _ hs => absurd hs List.not_mem_nil

@[simp] theorem everywhere_cons :
    Everywhere P (s :: ss) ↔ (P s ∧ Everywhere P s.body) ∧ Everywhere P ss := by
  have hlevels : ∀ t, t ∈ s.levels.flatten ↔ t = s ∨ t ∈ breadthFirst s.body := by
    intro t
    cases s <;> simp [Stmt.levels, Stmt.body, breadthFirst, levelsOf]
  simp only [Everywhere, breadthFirst, levelsOf, mem_flatten_mergeLevels, hlevels]
  constructor
  · intro h
    exact ⟨⟨h s (.inl (.inl rfl)), fun t ht => h t (.inl (.inr ht))⟩, fun t ht => h t (.inr ht)⟩
  · rintro ⟨⟨hs, hbody⟩, hss⟩ t ((rfl | ht) | ht)
    · exact hs
    · exact hbody t ht
    · exact hss t ht

@[simp] theorem everywhere_append {us : List Stmt} :
    Everywhere P (ss ++ us) ↔ Everywhere P ss ∧ Everywhere P us := by
  induction ss with
  | nil => simp
  | cons s ss ih => rw [List.cons_append, everywhere_cons, everywhere_cons, ih, ← and_assoc]

theorem Everywhere.of_mem (h : Everywhere P ss) (hs : s ∈ ss) :
    P s ∧ Everywhere P s.body := by
  induction ss with
  | nil => cases hs
  | cons t ss ih =>
    rw [everywhere_cons] at h
    rcases List.mem_cons.1 hs with rfl | hs
    · exact h.1
    · exact ih h.2 hs

/-! ## Readers of statements -/

namespace Parse

variable {α β : Type} {all : List Token}

/-- What is read from the tokens, at any place in them, has the property. -/
def Meets (all : List Token) (Q : α → Prop) (p : Parse α) : Prop :=
  ∀ ⦃ts a rest⦄, ts <:+ all → p.run ts = some (a, rest) → Q a

variable {Q : α → Prop}

theorem meets_pure {a : α} (h : Q a) : Meets all Q (pure a) := by
  intro ts b rest _ hb
  cases hb
  exact h

theorem meets_failure : Meets all Q failure := by
  intro ts b rest _ hb
  cases hb

theorem meets_bind {p : Parse α} {f : α → Parse β} {R : β → Prop} (hp : Meets all Q p)
    (h : ∀ a, Q a → Meets all R (f a)) : Meets all R (p >>= f) := by
  intro ts b rest hts hb
  obtain ⟨a, us, ha, hf⟩ := exists_of_run_bind hb
  exact h a (hp hts ha) ((p.onward ha).trans hts) hf

theorem meets_then {p : Parse α} {f : α → Parse β} {R : β → Prop}
    (h : ∀ a, Meets all R (f a)) : Meets all R (p >>= f) :=
  meets_bind (Q := fun _ => True) (fun _ _ _ _ _ => trivial) fun a _ => h a

theorem meets_ite [Decidable c] {p q : Parse α} (hp : Meets all Q p) (hq : Meets all Q q) :
    Meets all Q (if c then p else q) := by
  split
  · exact hp
  · exact hq

theorem meets_guard [Decidable c] {f : Unit → Parse α} (h : Meets all Q (f ())) :
    Meets all Q (if c then failure >>= f else f ()) :=
  meets_ite (fun _ _ _ _ hb => by cases hb) h

/-- The line and the kind that are looked at are those of one of the tokens. -/
theorem meets_start {f : Nat → TokenKind → Parse α} (h : ∀ t ∈ all, Meets all Q (f t.line t.kind)) :
    Meets all Q (line >>= fun start => peek >>= fun kind => f start kind) := by
  intro ts b rest hts hb
  obtain ⟨start, us, hline, hb⟩ := exists_of_run_bind hb
  obtain ⟨t, vs, rfl, rfl, rfl⟩ := run_line hline
  obtain ⟨kind, us, hpeek, hb⟩ := exists_of_run_bind hb
  cases hpeek
  exact h t (hts.subset List.mem_cons_self) hts hb

end Parse

/-- The first keyword of a function. -/
def TokenKind.OpensFunction (kind : TokenKind) : Prop :=
  kind = .keyword "async" ∨ kind = .keyword "def"

/-- The property holds of the statements that can be read from the tokens, as far as the lines tell
that they note: an import notes the line of its keyword. A definition notes that of its keyword as
well, the lines of decorators that were passed before, and the end that is noted by a token behind
its keyword. -/
structure Suits (all : List Token) (P : Stmt → Prop) : Prop where
  other : ∀ parts body, P (.other parts body)
  expression : ∀ e, P (.expression e)
  importNames : ∀ names, ∀ t ∈ all, t.kind.isText = true → P (.importNames names t.line)
  importFrom : ∀ source names, ∀ t ∈ all, t.kind.isText = true →
    P (.importFrom source names t.line)
  function : ∀ {t u tail decorated}, t :: tail <:+ all → t.kind.OpensFunction → u ∈ tail →
    (∀ d ∈ decorated, Passed all (t :: tail) (Decorator.line d)) → ∀ name params returns body,
      P (.function name params returns decorated body t.line u.priorEnd)
  classDef : ∀ {t u tail decorated}, t :: tail <:+ all → t.kind = .keyword "class" → u ∈ tail →
    (∀ d ∈ decorated, Passed all (t :: tail) (Decorator.line d)) → ∀ name bases keywords body,
      P (.classDef name bases keywords decorated body t.line u.priorEnd)

variable {all : List Token}

variable {body : List Stmt}

theorem Suits.everywhere_other (hP : Suits all P) {parts : List Expr} (h : Everywhere P body) :
    Everywhere P [.other parts body] := by
  simpa [hP.other, Stmt.body] using h

theorem meets_other (hP : Suits all P) (parts : List Expr) :
    Meets all (fun s => Everywhere P [s]) (pure (.other parts [])) :=
  meets_pure (hP.everywhere_other everywhere_nil)

theorem meets_expression (hP : Suits all P) (e : Expr) :
    Meets all (fun s => Everywhere P [s]) (pure (.expression e)) :=
  meets_pure (by simp [hP.expression, Stmt.body])

theorem meets_assignment (hP : Suits all P) (n : Nat) :
    Meets all (fun s => Everywhere P [s]) (assignment n) := by
  rw [assignment]
  refine meets_then fun isTyped => ?_
  split
  · exact meets_then fun _ => meets_then fun _ => meets_then fun _ => meets_other hP _
  · refine meets_then fun e => meets_then fun next => ?_
    split
    · exact meets_then fun _ => meets_ite (meets_then fun _ => meets_other hP _) meets_failure
    · exact meets_then fun _ => meets_ite (meets_then fun _ => meets_other hP _) meets_failure
    · refine meets_ite (meets_then fun _ => ?_) (meets_expression hP _)
      exact meets_ite (meets_then fun _ => meets_other hP _) meets_failure
    · exact meets_expression hP _

theorem meets_importFrom {n line : Nat} (h : ∀ source names, P (.importFrom source names line)) :
    Meets all (fun s => Everywhere P [s]) (importFrom n line) := by
  have himport : ∀ source names, Everywhere P [.importFrom source names line] := by
    simp [Stmt.body, h]
  rw [importFrom]
  refine meets_then fun isRelative => meets_then fun isBare => ?_
  refine meets_ite (meets_then fun source => ?_) (meets_then fun source => ?_)
  all_goals
    refine meets_then fun _ => meets_then fun isAll => ?_
    split
    · exact meets_pure (himport _ _)
    · refine meets_then fun isEnclosed => ?_
      split
      · exact meets_then fun _ => meets_then fun _ => meets_pure (himport _ _)
      · exact meets_then fun _ => meets_pure (himport _ _)

theorem meets_simpleStatement (hP : Suits all P) (n : Nat) :
    Meets all (fun s => Everywhere P [s]) (simpleStatement n) := by
  have hother := meets_other hP
  rw [simpleStatement]
  refine meets_start fun t ht => ?_
  split
  · rename_i hkind
    have htext : t.kind.isText = true := by rw [hkind]; rfl
    split
    -- `return` and `raise`, alone or with expressions
    case h_4 =>
      refine meets_then fun _ => meets_then fun isEnd => ?_
      exact meets_ite (hother _) (meets_then fun _ => hother _)
    case h_5 =>
      refine meets_then fun _ => meets_then fun isEnd => meets_ite (hother _) ?_
      exact meets_then fun e => meets_then fun hasCause =>
        meets_ite (meets_then fun _ => hother _) (hother _)
    -- `global`, `nonlocal` and `del`
    case h_6 => exact meets_then fun _ => meets_then fun _ => hother _
    case h_7 => exact meets_then fun _ => meets_then fun _ => hother _
    case h_8 => exact meets_then fun _ => meets_then fun _ => hother _
    -- `assert`
    case h_9 =>
      exact meets_then fun _ => meets_then fun e => meets_then fun hasText =>
        meets_ite (meets_then fun _ => hother _) (hother _)
    -- The two imports note the line of their keyword.
    case h_10 =>
      exact meets_then fun _ => meets_then fun names =>
        meets_pure (by simpa [Stmt.body] using hP.importNames names t ht htext)
    case h_11 =>
      exact meets_then fun _ => meets_importFrom fun source names =>
        hP.importFrom source names t ht htext
    case h_12 => exact meets_then fun _ => meets_expression hP _
    case h_13 => exact meets_assignment hP n
    all_goals exact meets_then fun _ => hother _
  · exact meets_assignment hP n

theorem meets_simpleStatements (hP : Suits all P) (n : Nat) :
    Meets all (Everywhere P) (simpleStatements n) := by
  induction n with
  | zero => exact meets_failure
  | succ n ih =>
    rw [simpleStatements]
    refine meets_bind (meets_simpleStatement hP n) fun s hs => meets_then fun isMore => ?_
    split
    · refine meets_then fun isEnd => ?_
      split
      · exact meets_pure hs
      · exact meets_bind ih fun ss hss => meets_pure (everywhere_append.2 ⟨hs, hss⟩)
    · exact meets_then fun _ => meets_pure hs

/-! ## Definitions -/

/-- Accepting takes the next token if it is of the kind, and nothing otherwise. -/
theorem run_accept {taken : Bool} (h : (accept kind).run ts = some (taken, us)) :
    if taken then ∃ t, ts = t :: us ∧ t.kind = kind else us = ts := by
  obtain ⟨fits, vs, hfits, h⟩ := exists_of_run_bind h
  cases ts with
  | nil => cases hfits
  | cons t ts =>
    cases hfits
    split at h
    · rename_i hkind
      cases h
      exact ⟨t, rfl, beq_iff_eq.1 hkind⟩
    · cases h
      rfl

theorem run_expect {a : Unit} (h : (expect kind).run ts = some (a, us)) :
    ∃ t, ts = t :: us ∧ t.kind = kind := by
  obtain ⟨taken, vs, htaken, h⟩ := exists_of_run_bind h
  have hkind := run_accept htaken
  cases taken with
  | true =>
    cases h
    exact hkind
  | false => cases h

/-- Decorators stand before the tokens that follow them. -/
theorem passed_decorators {n : Nat} {found : List Decorator}
    (h : (decorators n).run ts = some (found, rest)) : ∀ d ∈ found, Passed ts rest d.line := by
  induction n generalizing ts found with
  | zero => cases h
  | succ n ih =>
    rw [decorators] at h
    obtain ⟨isMore, us, hus, h⟩ := exists_of_run_bind h
    have husts := (acceptOp "@").onward hus
    split at h
    · obtain ⟨e, vs, hvs, h⟩ := exists_of_run_bind h
      obtain ⟨_, ws, hws, h⟩ := exists_of_run_bind h
      obtain ⟨more, xs, hxs, h⟩ := exists_of_run_bind h
      cases h
      have hwsvs := (expect .newline).onward hws
      have hpassed : Passed us rest e.line :=
        (((expressionsPlaced n).namedExpression hvs).resolve_left List.not_mem_nil).to_suffix
          (((decorators n).onward hxs).trans hwsvs)
      intro d hd
      rcases List.mem_cons.1 hd with rfl | hd
      · exact hpassed.of_suffix husts
      · exact (ih hxs d hd).of_suffix ((hwsvs.trans ((namedExpression n).onward hvs)).trans husts)
    · cases h
      intro d hd
      cases hd

theorem run_lastLine {last : Nat} (h : lastLine.run ts = some (last, us)) :
    ∃ t rest, ts = t :: rest ∧ last = t.priorEnd := by
  cases ts with
  | nil => cases h
  | cons t rest =>
    cases h
    exact ⟨t, rest, rfl, rfl⟩

/-- What follows the first keyword of a definition: a block, and a token that notes where it
ends. -/
theorem definition_parts {n last : Nat} {vs ws xs : List Token} (hts : t :: tail <:+ all)
    (hblock : Meets all (Everywhere P) (block n)) (hvs : vs <:+ tail)
    (hbody : (block n).run vs = some (body, ws)) (hlast : lastLine.run ws = some (last, xs)) :
    Everywhere P body ∧ ∃ u ∈ tail, last = u.priorEnd := by
  obtain ⟨u, rest, rfl, rfl⟩ := run_lastLine hlast
  have hu : u ∈ tail := hvs.subset (((block n).onward hbody).subset List.mem_cons_self)
  exact ⟨hblock ((hvs.trans (List.suffix_cons _ _)).trans hts) hbody, u, hu, rfl⟩

/-- A function starts with the keyword `async` or, without it, with `def`. -/
theorem run_functionKeywords {vs : List Token} {isAsync : Bool} {a : Unit}
    (hasync : (acceptWord "async").run (t :: tail) = some (isAsync, us))
    (hdef : (expectWord "def").run us = some (a, vs)) : t.kind.OpensFunction ∧ vs <:+ tail := by
  have hfirst := run_accept hasync
  obtain ⟨v, hv, hkind⟩ := run_expect hdef
  cases isAsync with
  | true =>
    obtain ⟨_, heq, hasyncKind⟩ := hfirst
    cases heq
    rw [hv]
    exact ⟨.inl hasyncKind, List.suffix_cons _ _⟩
  | false =>
    rw [hfirst] at hv
    cases hv
    exact ⟨.inr hkind, List.suffix_rfl⟩

/-- A definition has the property if the statements of its block have it. -/
theorem everywhere_definition (hP : Suits all P) {n : Nat}
    (hblock : Meets all (Everywhere P) (block n)) (hts : ts <:+ all)
    (hdecorated : ∀ d ∈ decorated, Passed all ts d.line)
    (h : (definition (n + 1) decorated).run ts = some (s, rest)) : Everywhere P [s] := by
  rw [definition] at h
  obtain ⟨start, us, hstart, h⟩ := exists_of_run_bind h
  obtain ⟨t, tail, rfl, rfl, rfl⟩ := run_line hstart
  obtain ⟨isClass, us, hclass, h⟩ := exists_of_run_bind h
  have hkeyword := run_accept hclass
  cases isClass with
  | true =>
    obtain ⟨_, heq, hkind⟩ := hkeyword
    cases heq
    obtain ⟨⟨className, bases, keywords⟩, vs, hheader, h⟩ := exists_of_run_bind h
    obtain ⟨body, ws, hbody, h⟩ := exists_of_run_bind h
    obtain ⟨last, xs, hlast, h⟩ := exists_of_run_bind h
    cases h
    obtain ⟨hall, u, hu, rfl⟩ :=
      definition_parts hts hblock ((classHeader n).onward hheader) hbody hlast
    simpa [Stmt.body, hall] using hP.classDef hts hkind hu hdecorated className bases keywords body
  | false =>
    cases hkeyword
    obtain ⟨isAsync, us, hasync, h⟩ := exists_of_run_bind h
    obtain ⟨_, vs, hdef, h⟩ := exists_of_run_bind h
    obtain ⟨⟨functionName, params, returns⟩, ws, hheader, h⟩ := exists_of_run_bind h
    obtain ⟨body, xs, hbody, h⟩ := exists_of_run_bind h
    obtain ⟨last, ys, hlast, h⟩ := exists_of_run_bind h
    cases h
    obtain ⟨hkind, hvs⟩ := run_functionKeywords hasync hdef
    obtain ⟨hall, u, hu, rfl⟩ :=
      definition_parts hts hblock (((functionHeader n).onward hheader).trans hvs) hbody hlast
    simpa [Stmt.body, hall] using
      hP.function hts hkind hu hdecorated functionName params returns body

/-! ## Blocks -/

/-- Every reader of statements gives statements with the property. -/
structure StatementsMeet (all : List Token) (P : Stmt → Prop) (n : Nat) : Prop where
  statements : Meets all (Everywhere P) (statements n)
  statement : Meets all (Everywhere P) (statement n)
  block : Meets all (Everywhere P) (block n)
  elseBlock : Meets all (Everywhere P) (elseBlock n)
  definition : ∀ decorated ts s rest, ts <:+ all → (∀ d ∈ decorated, Passed all ts d.line) →
    (definition n decorated).run ts = some (s, rest) → Everywhere P [s]
  ifStatement : Meets all (fun s => Everywhere P [s]) (ifStatement n)
  forStatement : Meets all (fun s => Everywhere P [s]) (forStatement n)
  withStatement : Meets all (fun s => Everywhere P [s]) (withStatement n)
  tryStatement : Meets all (fun s => Everywhere P [s]) (tryStatement n)
  finalBlock : Meets all (Everywhere P) (finalBlock n)
  handlers : ∀ isGroup, Meets all (Everywhere P) (handlers n isGroup)
  cases : Meets all (Everywhere P) (cases n)

theorem meets_statements (ih : StatementsMeet all P n) :
    Meets all (Everywhere P) (statements (n + 1)) := by
  rw [statements]
  refine meets_then fun next => ?_
  split
  · exact meets_pure everywhere_nil
  · exact meets_pure everywhere_nil
  · exact meets_bind ih.statement fun ss hss => meets_bind ih.statements fun more hmore =>
      meets_pure (everywhere_append.2 ⟨hss, hmore⟩)

theorem meets_statement (hP : Suits all P) (ih : StatementsMeet all P n) :
    Meets all (Everywhere P) (statement (n + 1)) := by
  have hplain : Meets all (fun s => Everywhere P [s]) (definition n []) :=
    fun ts s rest hts h => ih.definition [] ts s rest hts (by simp) h
  rw [statement]
  refine meets_then fun next => ?_
  -- One case per first word; the last one is a line of simple statements.
  split
  case h_1 =>
    intro ts ss rest hts h
    obtain ⟨decorated, us, hdecorated, h⟩ := exists_of_run_bind h
    obtain ⟨s, vs, hs, h⟩ := exists_of_run_bind h
    cases h
    exact ih.definition decorated us s _ (((decorators n).onward hdecorated).trans hts)
      (fun d hd => (passed_decorators hdecorated d hd).of_suffix hts) hs
  case h_2 => exact meets_bind hplain fun s hs => meets_pure hs
  case h_3 => exact meets_bind hplain fun s hs => meets_pure hs
  case h_4 =>
    refine meets_then fun second => ?_
    split
    · exact meets_bind hplain fun s hs => meets_pure hs
    · exact meets_then fun _ => meets_bind ih.forStatement fun s hs => meets_pure hs
    · exact meets_then fun _ => meets_bind ih.withStatement fun s hs => meets_pure hs
    · exact meets_failure
  case h_5 => exact meets_then fun _ => meets_bind ih.ifStatement fun s hs => meets_pure hs
  case h_6 =>
    exact meets_then fun _ => meets_then fun _ => meets_then fun _ =>
      meets_bind ih.block fun body hbody => meets_bind ih.elseBlock fun orelse horelse =>
        meets_pure (hP.everywhere_other (everywhere_append.2 ⟨hbody, horelse⟩))
  case h_7 => exact meets_bind ih.forStatement fun s hs => meets_pure hs
  case h_8 => exact meets_bind ih.withStatement fun s hs => meets_pure hs
  case h_9 => exact meets_then fun _ => meets_bind ih.tryStatement fun s hs => meets_pure hs
  case h_10 =>
    refine meets_then fun subject => ?_
    split
    · exact meets_bind ih.cases fun body hbody => meets_pure (hP.everywhere_other hbody)
    · exact meets_simpleStatements hP n
  case h_11 => exact meets_simpleStatements hP n

theorem meets_block (hP : Suits all P) (ih : StatementsMeet all P n) :
    Meets all (Everywhere P) (block (n + 1)) := by
  rw [block]
  refine meets_then fun isBlock => ?_
  split
  · exact meets_then fun _ => meets_bind ih.statements fun body hbody =>
      meets_then fun _ => meets_pure hbody
  · exact meets_simpleStatements hP n

theorem meets_elseBlock (ih : StatementsMeet all P n) :
    Meets all (Everywhere P) (elseBlock (n + 1)) := by
  rw [elseBlock]
  refine meets_then fun isElse => ?_
  split
  · exact meets_then fun _ => ih.block
  · exact meets_pure everywhere_nil

theorem meets_ifStatement (hP : Suits all P) (ih : StatementsMeet all P n) :
    Meets all (fun s => Everywhere P [s]) (ifStatement (n + 1)) := by
  rw [ifStatement]
  refine meets_then fun test => meets_then fun _ => meets_bind ih.block fun body hbody => ?_
  refine meets_then fun isElif => ?_
  split
  · exact meets_bind ih.ifStatement fun s hs =>
      meets_pure (hP.everywhere_other (everywhere_append.2 ⟨hbody, hs⟩))
  · exact meets_bind ih.elseBlock fun orelse horelse =>
      meets_pure (hP.everywhere_other (everywhere_append.2 ⟨hbody, horelse⟩))

theorem meets_forStatement (hP : Suits all P) (ih : StatementsMeet all P n) :
    Meets all (fun s => Everywhere P [s]) (forStatement (n + 1)) := by
  rw [forStatement]
  refine meets_then fun _ => meets_then fun target => meets_then fun _ => ?_
  refine meets_then fun iter => meets_then fun _ => meets_bind ih.block fun body hbody => ?_
  exact meets_bind ih.elseBlock fun orelse horelse =>
    meets_pure (hP.everywhere_other (everywhere_append.2 ⟨hbody, horelse⟩))

theorem meets_withStatement (hP : Suits all P) (ih : StatementsMeet all P n) :
    Meets all (fun s => Everywhere P [s]) (withStatement (n + 1)) := by
  rw [withStatement]
  exact meets_then fun _ => meets_then fun items => meets_bind ih.block fun body hbody =>
    meets_pure (hP.everywhere_other hbody)

theorem meets_tryStatement (hP : Suits all P) (ih : StatementsMeet all P n) :
    Meets all (fun s => Everywhere P [s]) (tryStatement (n + 1)) := by
  rw [tryStatement]
  refine meets_then fun _ => meets_bind ih.block fun body hbody => meets_then fun isCaught => ?_
  split
  · refine meets_then fun _ => meets_bind (ih.handlers _) fun caught hcaught => ?_
    refine meets_bind ih.elseBlock fun orelse horelse => ?_
    exact meets_bind ih.finalBlock fun final hfinal =>
      meets_pure (hP.everywhere_other (by simp [hbody, hcaught, horelse, hfinal]))
  · exact meets_then fun isFinal => meets_guard (meets_bind ih.finalBlock fun final hfinal =>
      meets_pure (hP.everywhere_other (everywhere_append.2 ⟨hbody, hfinal⟩)))

theorem meets_finalBlock (ih : StatementsMeet all P n) :
    Meets all (Everywhere P) (finalBlock (n + 1)) := by
  rw [finalBlock]
  refine meets_then fun isFinal => ?_
  split
  · exact meets_then fun _ => ih.block
  · exact meets_pure everywhere_nil

theorem meets_handlers (hP : Suits all P) (ih : StatementsMeet all P n) (isGroup : Bool) :
    Meets all (Everywhere P) (handlers (n + 1) isGroup) := by
  rw [handlers]
  refine meets_then fun isHandler => ?_
  split
  · refine meets_ite (meets_then fun _ => meets_then fun isBare => ?_)
      (meets_then fun isBare => ?_)
    all_goals
      refine meets_ite (meets_then fun kind => ?_)
        (meets_then fun _ => meets_then fun _ => meets_then fun kind => ?_)
      all_goals
        exact meets_then fun _ => meets_bind ih.block fun body hbody =>
          meets_bind (ih.handlers isGroup) fun more hmore =>
            meets_pure (everywhere_append.2 ⟨hP.everywhere_other hbody, hmore⟩)
  · exact meets_pure everywhere_nil

theorem meets_cases (hP : Suits all P) (ih : StatementsMeet all P n) :
    Meets all (Everywhere P) (cases (n + 1)) := by
  rw [cases]
  refine meets_then fun isEnd => ?_
  split
  · exact meets_pure everywhere_nil
  · refine meets_then fun _ => meets_then fun es => meets_then fun isGuarded => ?_
    refine meets_ite (meets_then fun guarded => ?_) (meets_then fun guarded => ?_)
    all_goals
      exact meets_then fun _ => meets_bind ih.block fun body hbody =>
        meets_bind ih.cases fun more hmore =>
          meets_pure (everywhere_append.2 ⟨hP.everywhere_other hbody, hmore⟩)

theorem statementsMeet (hP : Suits all P) (n : Nat) : StatementsMeet all P n := by
  induction n with
  | zero =>
    constructor
    case definition =>
      intro decorated ts s rest _ _ h
      rw [definition] at h
      cases h
    all_goals
      intros
      with_unfolding_all exact meets_failure
  | succ n ih =>
    exact
      { statements := meets_statements ih
        statement := meets_statement hP ih
        block := meets_block hP ih
        elseBlock := meets_elseBlock ih
        definition := fun _ _ _ _ hts hdecorated h =>
          everywhere_definition hP ih.block hts hdecorated h
        ifStatement := meets_ifStatement hP ih
        forStatement := meets_forStatement hP ih
        withStatement := meets_withStatement hP ih
        tryStatement := meets_tryStatement hP ih
        finalBlock := meets_finalBlock ih
        handlers := meets_handlers hP ih
        cases := meets_cases hP ih }

/-- **The statements of a source have a property that suits its tokens,** at whatever depth they
stand. -/
theorem everywhere_of_suits (h : Stmt.ofSource? source = some body)
    (hP : ∀ ts, tokens? source = some ts → Suits ts P) : Everywhere P body := by
  obtain ⟨ts, hts, h⟩ := Option.bind_eq_some_iff.1 h
  obtain ⟨⟨found, rest⟩, hfound, h⟩ := Option.bind_eq_some_iff.1 h
  dsimp only at h
  split at h
  · cases h
    exact (statementsMeet (hP ts hts) _).statements List.suffix_rfl hfound
  · cases h

/-! ## Statements within the lines -/

/-- The lines that a statement notes lie within so many lines. -/
def Stmt.Within (total : Nat) : Stmt → Prop
  | .function _ _ _ decorators _ line last | .classDef _ _ _ decorators _ line last =>
    Span.Within ⟨Python.firstLine decorators line, last⟩ total
  | .importNames _ line | .importFrom _ _ line => 1 ≤ line ∧ line ≤ total
  | .expression _ => True
  | .other _ _ => True

variable {total : Nat}

theorem firstLine_bounds {decorators : List Decorator} {line : Nat} (hline : 1 ≤ line)
    (h : ∀ d ∈ decorators, 1 ≤ d.line ∧ d.line ≤ line) :
    1 ≤ Python.firstLine decorators line ∧ Python.firstLine decorators line ≤ line := by
  unfold Python.firstLine
  cases hmin : (decorators.map (·.line)).min? with
  | none => exact ⟨hline, Nat.le_refl _⟩
  | some first =>
    obtain ⟨d, hd, rfl⟩ := List.mem_map.1 (List.min?_mem hmin)
    exact h d hd

/-- In ordered tokens, a definition starts no later than its keyword stands, and ends no earlier and
within the lines. -/
theorem Ordered.definition_bounds {u : Token} (hall : Ordered total all) (hts : t :: tail <:+ all)
    (htext : t.kind.isText = true) (hu : u ∈ tail)
    (hdecorated : ∀ d ∈ decorated, Passed all (t :: tail) d.line) :
    1 ≤ Python.firstLine decorated t.line ∧ Python.firstLine decorated t.line ≤ t.line ∧
      t.line ≤ u.priorEnd ∧ u.priorEnd ≤ total := by
  have hordered := hall.of_suffix hts
  have hstart := (hordered.within t List.mem_cons_self).start
  have hend := ((List.pairwise_cons.1 hordered.order).1 u hu).text htext
  have htotal := (hordered.within u (List.mem_cons_of_mem _ hu)).prior
  obtain ⟨hfirst, hline⟩ := firstLine_bounds hstart fun d hd =>
    ⟨((hdecorated d hd).bounds hall).1, ((hdecorated d hd).bounds hall).2 t List.mem_cons_self⟩
  exact ⟨hfirst, hline, hend, htotal⟩

theorem TokenKind.OpensFunction.isText (h : kind.OpensFunction) :
    kind.isText = true := by
  rcases h with rfl | rfl <;> rfl

/-- Lines that are noted from ordered tokens are within the lines. -/
theorem suits_within (hall : Ordered total all) : Suits all (Stmt.Within total) where
  other _ _ := trivial
  expression _ := trivial
  importNames _ t ht htext := ⟨(hall.within t ht).start, (hall.within t ht).text htext⟩
  importFrom _ _ t ht htext := ⟨(hall.within t ht).start, (hall.within t ht).text htext⟩
  function hts hkind hu hdecorated _ _ _ _ := by
    have hbounds := hall.definition_bounds hts hkind.isText hu hdecorated
    simp only [Stmt.Within, Span.Within]
    omega
  classDef hts hkind hu hdecorated _ _ _ _ := by
    have hbounds := hall.definition_bounds hts (by rw [hkind]; rfl) hu hdecorated
    simp only [Stmt.Within, Span.Within]
    omega

/-- **A source that is read has its statements within its lines.** -/
theorem everywhere_ofSource? (h : Stmt.ofSource? source = some body) :
    Everywhere (Stmt.Within (Text.splitBreaks source).length) body :=
  everywhere_of_suits h fun _ hts => suits_within (ordered_tokens? hts)

end Grammar

/-! ## Outlines -/

namespace Python

variable {s : Stmt} {total : Nat}
variable {text : List Char} {sourceName : String}
variable {o : Outline}

/-- The methods of a class are those of its statement. -/
theorem members_class? (hbody : Everywhere (Stmt.Within total) s.body) {c : ClassItem}
    (h : class? s = some c) : ∀ m ∈ c.methods, m.Member c.name total := by
  cases s <;> cases h
  intro m hm
  obtain ⟨t, ht, hmethod⟩ := List.mem_filterMap.1 hm
  have hwithin := (hbody.of_mem ht).1
  cases t <;> cases hmethod
  exact Callable.member_method hwithin

theorem within_class? (hs : s.Within total) {c : ClassItem} (h : class? s = some c) :
    c.span.Within total := by
  cases s <;> cases h
  exact hs

theorem sound_callables (hs : s.Within total) (hbody : Everywhere (Stmt.Within total) s.body) :
    ∀ f ∈ callables s, f.Sound total := by
  intro f hf
  unfold callables at hf
  split at hf
  · rename_i c hc
    exact (members_class? hbody hc f hf).toSound
  · have hfunction := Option.mem_toList.1 hf
    cases s <;> cases hfunction
    exact Callable.sound_plain hs

theorem within_importItems (hs : s.Within total) : ∀ i ∈ importItems s, i.Within total := by
  intro i hi
  cases s with
  | importNames names line =>
    obtain ⟨name, -, rfl⟩ := List.mem_map.1 hi
    exact ⟨Int.ofNat_le.2 hs.1, Int.ofNat_le.2 hs.2⟩
  | importFrom source names line =>
    rw [List.mem_singleton.1 hi]
    exact ⟨Int.ofNat_le.2 hs.1, Int.ofNat_le.2 hs.2⟩
  | _ => cases hi

/-- A source that has an outline is not well formed and has its lines only, or has the outline of
its statements. -/
theorem outline_cases (h : outline sourceName text = .ok o) :
    (Stmt.ofSource? text = none ∧ o = .plain sourceName text) ∨
      ∃ body, Stmt.ofSource? text = some body ∧ o = outlineOf sourceName text body := by
  unfold outline at h
  split at h
  · cases h
    exact Or.inl ⟨‹_›, rfl⟩
  · rename_i body hread
    split at h <;> cases h
    exact Or.inr ⟨body, hread, rfl⟩

theorem coherent_outlineOf {body : List Stmt} (hread : Stmt.ofSource? text = some body)
    (sourceName : String) :
    Coherent (outlineOf sourceName text body).totalLines
      (outlineOf sourceName text body).functions (outlineOf sourceName text body).classes := by
  have hall := everywhere_ofSource? hread
  refine ⟨fun f hf => ?_, fun c hc => ?_, fun c hc m hm => ?_⟩
  · obtain ⟨s, hs, hf⟩ := List.mem_flatMap.1 hf
    exact sound_callables (hall.of_mem hs).1 (hall.of_mem hs).2 f hf
  · obtain ⟨s, hs, hc⟩ := List.mem_filterMap.1 hc
    exact within_class? (hall.of_mem hs).1 hc
  · obtain ⟨s, hs, hc⟩ := List.mem_filterMap.1 hc
    have hmethods : c.methods = callables s := by rw [callables, hc]
    exact ⟨List.mem_flatMap.2 ⟨s, hs, hmethods ▸ hm⟩,
      (members_class? (hall.of_mem hs).2 hc m hm).isMethodOf⟩

theorem coherent_outline (h : outline sourceName text = .ok o) :
    Coherent o.totalLines o.functions o.classes := by
  obtain ⟨-, rfl⟩ | ⟨body, hread, rfl⟩ := outline_cases h
  · exact .nil _
  · exact coherent_outlineOf hread sourceName

theorem wellSpanned_outline (h : outline sourceName text = .ok o) :
    o.WellSpanned := by
  have hbase := Outline.wellSpanned_ofLines sourceName text (Text.splitBreaks text)
  obtain ⟨-, rfl⟩ | ⟨body, hread, rfl⟩ := outline_cases h
  · exact hbase
  · refine (coherent_outlineOf hread sourceName).wellSpanned hbase rfl fun i hi => ?_
    obtain ⟨s, hs, hi⟩ := List.mem_flatMap.1 hi
    exact within_importItems (everywhere_ofSource? hread s hs) i hi

end Python

/-- **Every line that an outline speaks of is a line of the text.** Whatever the kind of the text,
if it has an outline then its lines and their offsets are counted, functions, classes, methods and
sections start at the first line or later, end no earlier than they start and no later than the last
line, and imports stand on one of the lines. -/
theorem Outline.wellSpanned_ofText {text sourceName : String} {label : Option String} {o : Outline}
    (h : ofText text sourceName label = .ok o) : o.WellSpanned := by
  unfold ofText ofKind at h
  split at h
  case h_1 => exact Python.wellSpanned_outline h
  case h_3 => exact Data.wellSpanned_outline h
  all_goals cases h
  · exact Prose.wellSpanned_outline _ _
  · exact Script.wellSpanned_outline _ _
  · exact Go.wellSpanned_outline _ _
  · exact Rust.wellSpanned_outline _ _
  · exact CSharp.wellSpanned_outline _ _
  · exact wellSpanned_ofLines _ _ _

/-- Whether an outline exists and is as said can be found by making it. -/
instance decidableExistsOk {ε α : Type} (result : Except ε α) (P : α → Prop) [DecidablePred P] :
    Decidable (∃ a, result = .ok a ∧ P a) :=
  match result with
  | .ok a => decidable_of_iff (P a) (by simp)
  | .error _ => .isFalse (by simp)

/-- A class with a decorator over several lines, whose last method ends with the text, without a
newline. -/
def decoratedClass : String :=
  "import os\n@seal(\n  1)\nclass Box:\n  def open(self):\n    from os import path\n    return path"

theorem Outline.decoratedClass_wellSpanned : ∃ o, ofText decoratedClass "box.py" none = .ok o ∧
    o.totalLines = 7 ∧ o.classes.map (·.span) = [⟨2, 7⟩] ∧ o.functions.map (·.span) = [⟨5, 7⟩] ∧
      o.imports.map (·.line) = [1, 6] ∧ o.WellSpanned := by
  have hview : ∃ o, ofText decoratedClass "box.py" none = .ok o ∧ o.totalLines = 7 ∧
      o.classes.map (·.span) = [⟨2, 7⟩] ∧ o.functions.map (·.span) = [⟨5, 7⟩] ∧
        o.imports.map (·.line) = [1, 6] := by decide +kernel
  obtain ⟨o, hread, htotal, hclasses, hfunctions, himports⟩ := hview
  exact ⟨o, hread, htotal, hclasses, hfunctions, himports, wellSpanned_ofText hread⟩

end SourceAtlas
