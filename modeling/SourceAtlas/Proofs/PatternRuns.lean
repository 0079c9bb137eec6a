import Mathlib.Data.List.Basic
import Mathlib.Tactic.Common
import SourceAtlas.Pattern.Basic

/-!
# What patterns take

A match by backtracking tries the ways of a pattern in turn, each with all that has to match behind
it. For the patterns of the outlines the first way is the one that counts: `Takes` says of a pattern
that in front of a text it takes a part of it first, with such captures, and `Takes.seq` puts two
patterns together. A pattern that has only one way (`TakesOnly`) passes on that what follows it
fails (`TakesOnly.fails_seq`), which is how a pattern is seen not to match (`Fails`). Where several
lengths of a repetition are tried in turn, `takes_longest_seq` and `takes_fewest_seq` say which one
counts.

None of this depends on where in a text the match stands, so all of it is said of the text ahead.
-/

set_option autoImplicit false

namespace SourceAtlas

open Cursor

/-- The cursor behind `w`, in front of `rest`, with more captures. -/
def Cursor.past (s : Cursor) (w rest : List Char) (groups : List (Nat × List Char)) : Cursor :=
  ⟨s.place + w.length, w.reverse ++ s.behind, rest, groups ++ s.groups⟩

namespace Cursor

variable {rest : List Char} {s : Cursor}

theorem past_nil (h : s.ahead = [] ++ rest) :
    s.past [] rest [] = s := by
  cases s
  cases h
  rfl

theorem past_past (s : Cursor) (u v rest rest' : List Char) (gs hs : List (Nat × List Char)) :
    (s.past u rest' gs).past v rest hs = s.past (u ++ v) rest (hs ++ gs) := by
  simp [past, Nat.add_assoc]

theorem next?_eq {c : Char} (h : s.ahead = c :: rest) :
    s.next? = some (c, s.past [c] rest []) := by
  rw [next?, h]
  rfl

theorem capture_past {w : List Char} (h : s.ahead = w ++ rest) (groups : List (Nat × List Char))
    (index : Nat) :
    s.capture (s.past w rest groups) index = s.past w rest ((index, w) :: groups) := by
  simp [capture, past, h]

end Cursor

namespace Pattern

/-! ## Three kinds of statement -/

/-- In front of `w` and `rest`, the pattern takes `w` first and captures `groups`. -/
def Takes (p : Pattern) (w rest : List Char) (groups : List (Nat × List Char)) : Prop :=
  ∀ ⦃s : Cursor⦄ ⦃k : Rest⦄ ⦃r : Cursor⦄, s.ahead = w ++ rest →
    k (s.past w rest groups) = some r → run p s k = some r

/-- In front of `w` and `rest`, the pattern takes `w` or nothing matches. -/
def TakesOnly (p : Pattern) (w rest : List Char) : Prop :=
  ∀ ⦃s : Cursor⦄ ⦃k : Rest⦄, s.ahead = w ++ rest → run p s k = k (s.past w rest [])

/-- In front of the text the pattern does not match. -/
def Fails (p : Pattern) (text : List Char) : Prop :=
  ∀ ⦃s : Cursor⦄ ⦃k : Rest⦄, s.ahead = text → run p s k = none

variable {p q : Pattern} {u v w rest text : List Char} {gs hs : List (Nat × List Char)}

theorem TakesOnly.takes (h : p.TakesOnly w rest) : p.Takes w rest [] := by
  intro s k r hahead hk
  rw [h hahead, hk]

/-- A pattern that takes the head of a text matches there. -/
theorem Takes.atHead? (h : p.Takes w rest gs) (htext : text = w ++ rest) :
    ∃ m, p.atHead? text = some m ∧ m.groups = gs := by
  refine ⟨⟨w.length, w.reverse, rest, gs⟩, ?_, rfl⟩
  rw [Pattern.atHead?]
  apply h htext
  simp [past, start]

theorem Fails.atHead? (h : p.Fails text) : p.atHead? text = none := h rfl

/-! ## Sequences, groups and choices -/

theorem Takes.seq (hp : p.Takes u (v ++ rest) gs) (hq : q.Takes v rest hs) :
    (p ++ q).Takes (u ++ v) rest (hs ++ gs) := by
  intro s k r hahead hk
  rw [List.append_assoc] at hahead
  apply hp hahead
  apply hq rfl
  rw [past_past]
  exact hk

theorem TakesOnly.seq (hp : p.TakesOnly u (v ++ rest)) (hq : q.TakesOnly v rest) :
    (p ++ q).TakesOnly (u ++ v) rest := by
  intro s k hahead
  rw [List.append_assoc] at hahead
  have hrun : run (p ++ q) s k = run p s fun t => run q t k := rfl
  rw [hrun, hp hahead, hq rfl, past_past, List.append_nil]

theorem TakesOnly.fails_seq (hp : p.TakesOnly w rest) (hq : q.Fails rest) :
    (p ++ q).Fails (w ++ rest) := by
  intro s k hahead
  have hrun : run (p ++ q) s k = run p s fun t => run q t k := rfl
  rw [hrun, hp hahead, hq rfl]

theorem Fails.seq (hp : p.Fails text) (q : Pattern) : (p ++ q).Fails text := by
  intro s k hahead
  exact hp hahead

theorem Fails.assoc {r : Pattern} (h : (p ++ (q ++ r)).Fails text) : (p ++ q ++ r).Fails text := by
  intro s k hahead
  exact h hahead

theorem Takes.group (h : p.Takes w rest gs) (index : Nat) :
    (Pattern.group index p).Takes w rest ((index, w) :: gs) := by
  intro s k r hahead hk
  apply h hahead
  rw [capture_past hahead]
  exact hk

theorem run_alt (p q : Pattern) (s : Cursor) (k : Rest) :
    run (.alt p q) s k = (run p s k).or (run q s k) := by
  rw [run]
  cases run p s k <;> rfl

theorem TakesOnly.alt (hp : p.TakesOnly w rest) (hq : q.Fails (w ++ rest)) :
    (Pattern.alt p q).TakesOnly w rest := by
  intro s k hahead
  rw [run_alt, hp hahead, hq hahead, Option.or_none]

theorem Fails.alt (hp : p.Fails text) (hq : q.Fails text) : (Pattern.alt p q).Fails text := by
  intro s k hahead
  rw [run_alt, hp hahead, hq hahead, Option.or_none]

theorem Fails.oneOrMore (h : p.Fails text) : (Pattern.oneOrMore p).Fails text := by
  intro s k hahead
  exact h hahead

/-- What may be left out is taken if the rest matches behind it. -/
theorem run_maybe (p : Pattern) (s : Cursor) (k : Rest) :
    run (maybe p) s k = (run p s k).or (k s) := by
  have hrun : run (maybe p) s k = greedily (run p) s.ahead (some 1) s k := rfl
  rw [hrun]
  cases s.ahead with
  | nil =>
    rw [greedily, if_neg (by simp)]
    cases run p s k <;> rfl
  | cons c room =>
    have hlast : ∀ t : Cursor, greedily (run p) room ((some 1).map (· - 1)) t k = k t := by
      intro t
      cases room <;> rw [greedily, if_pos (by simp)]
    have hround : (fun t : Cursor => if s.place = t.place then k t
        else greedily (run p) room ((some 1).map (· - 1)) t k) = k := by
      funext t
      rw [hlast, ite_self]
    rw [greedily, if_neg (by simp), hround]
    cases run p s k <;> rfl

/-- What may be left out is left out where it does not match. -/
theorem takesOnly_maybe (h : p.Fails text) : (maybe p).TakesOnly [] text := by
  intro s k hahead
  rw [past_nil hahead, run_maybe, h hahead, Option.none_or]

theorem Takes.maybe (h : p.Takes w rest gs) : (maybe p).Takes w rest gs := by
  intro s k r hahead hk
  rw [run_maybe, h hahead hk, Option.some_or]

theorem fails_maybe_seq (hp : (p ++ q).Fails text) (hq : q.Fails text) :
    (maybe p ++ q).Fails text := by
  intro s k hahead
  have hrun : run (Pattern.maybe p ++ q) s k = run (Pattern.maybe p) s fun t => run q t k := rfl
  have hwith : run p s (fun t => run q t k) = none := hp hahead
  rw [hrun, run_maybe, hwith, Option.none_or]
  exact hq hahead

/-! ## Characters -/

section Characters

variable {set : CharSet} {c : Char} {s r : Cursor} {k : Rest} {room : List Char}

theorem run_one :
    run (.one set) s k = s.next?.bind fun p => if set.mem p.1 then k p.2 else none := by
  rw [run]
  cases s.next? <;> rfl

theorem run_one_cons (hahead : s.ahead = c :: rest) :
    run (.one set) s k = if set.mem c then k (s.past [c] rest []) else none := by
  rw [run_one, next?_eq hahead, Option.bind_some]

theorem takesOnly_one (h : set.mem c = true) : (Pattern.one set).TakesOnly [c] rest := by
  intro s k hahead
  rw [run_one_cons hahead, if_pos h]
  rfl

theorem fails_one (h : ∀ c ∈ text.head?, set.mem c = false) : (Pattern.one set).Fails text := by
  intro s k hahead
  cases text with
  | nil => rw [run_one, next?, hahead, Option.bind_none]
  | cons c rest => rw [run_one_cons hahead, if_neg (by simp [h c rfl])]

/-! ### Runs of characters

A repetition of single characters has one way for each run of them at the head of the text: it tries
the longest first, or the shortest if it is lazy. All that is said of repetitions is read off the
list of these runs. -/

/-- The ways to cut a run of characters of the set off the head of a text, the shortest first. -/
def runs (set : CharSet) : List Char → List (List Char × List Char)
  | [] => []
  | c :: cs =>
    if set.mem c then ([c], cs) :: (runs set cs).map fun p => (c :: p.1, p.2) else []

theorem mem_runs : (u, v) ∈ runs set text ↔ text = u ++ v ∧ u ≠ [] ∧ ∀ c ∈ u, set.mem c = true := by
  induction text generalizing u with
  | nil => cases u <;> simp [runs]
  | cons c cs ih =>
    rw [runs]
    cases hc : set.mem c with
    | false =>
      cases u with
      | nil => simp
      | cons d u =>
        refine iff_of_false (by simp) ?_
        rintro ⟨htext, -, hu⟩
        rw [(List.cons.inj htext).1, hu d List.mem_cons_self] at hc
        cases hc
    | true =>
      cases u with
      | nil => simp
      | cons d u =>
        simp only [↓reduceIte, List.mem_cons, List.mem_map, Prod.exists, List.cons_append]
        grind

theorem runs_eq_nil (hrest : ∀ c ∈ rest.head?, set.mem c = false) : runs set rest = [] := by
  cases rest with
  | nil => rfl
  | cons c rest => simp [runs, hrest c rfl]

/-- A run comes behind those that are parts of it, and in front of those that it is a part of. -/
theorem runs_append (hne : w ≠ []) (hw : ∀ c ∈ w, set.mem c = true) (rest : List Char) :
    ∃ shorter, runs set (w ++ rest) =
        shorter ++ (w, rest) :: (runs set rest).map (fun p => (w ++ p.1, p.2)) ∧
      ∀ p ∈ shorter, ∃ t, t ≠ [] ∧ w = p.1 ++ t ∧ p.2 = t ++ rest := by
  induction w with
  | nil => exact absurd rfl hne
  | cons c w ih =>
    have hc := hw c List.mem_cons_self
    cases w with
    | nil => exact ⟨[], by simp [runs, hc], by simp⟩
    | cons d w =>
      obtain ⟨shorter, hruns, hshorter⟩ := ih (by simp) (List.forall_mem_cons.1 hw).2
      refine ⟨([c], d :: w ++ rest) :: shorter.map (fun p => (c :: p.1, p.2)), ?_, ?_⟩
      · rw [List.cons_append, runs, if_pos hc, hruns]
        simp [Function.comp_def]
      · simp only [List.forall_mem_cons, List.forall_mem_map]
        refine ⟨⟨d :: w, by simp, rfl, rfl⟩, fun p hp => ?_⟩
        obtain ⟨t, ht, hw, hrest⟩ := hshorter p hp
        exact ⟨t, ht, by rw [hw]; rfl, hrest⟩

/-- Behind a character that fits, the runs of the rest are tried. -/
theorem findSome?_runs_cons (hc : set.mem c = true) (s : Cursor) (k : Rest) (cs : List Char) :
    ((runs set (c :: cs)).findSome? fun p => k (s.past p.1 p.2 [])) =
        (k (s.past [c] cs [])).or
          ((runs set cs).findSome? fun p => k ((s.past [c] cs []).past p.1 p.2 [])) ∧
      ((runs set (c :: cs)).reverse.findSome? fun p => k (s.past p.1 p.2 [])) =
        ((runs set cs).reverse.findSome? fun p => k ((s.past [c] cs []).past p.1 p.2 [])).or
          (k (s.past [c] cs [])) := by
  simp only [past_past]
  constructor
  · rw [runs, if_pos hc, List.findSome?_cons, List.findSome?_map]
    cases k (s.past [c] cs []) <;> rfl
  · rw [runs, if_pos hc, List.reverse_cons, ← List.map_reverse, List.findSome?_append,
      List.findSome?_map, List.findSome?_singleton]
    rfl

/-- As many rounds as possible: the longest run first, and none last. -/
theorem greedily_eq (hahead : s.ahead = text) (hroom : text.length ≤ room.length) :
    greedily (run (.one set)) room none s k =
      ((runs set text).reverse.findSome? fun p => k (s.past p.1 p.2 [])).or (k s) := by
  induction text generalizing s room with
  | nil => cases room <;> simp [greedily, runs, run_one, next?, hahead]
  | cons c cs ih =>
    cases room with
    | nil => simp at hroom
    | cons d room =>
      have hmoved : ¬ s.place = (s.past [c] cs []).place := by simp [past]
      rw [greedily, if_neg (by simp), run_one_cons hahead]
      cases hc : set.mem c with
      | false => simp [runs, hc]
      | true =>
        rw [if_pos rfl, if_neg hmoved, Option.map_none, ih rfl (by simpa using hroom),
          (findSome?_runs_cons hc s k cs).2]
        generalize Option.or _ (k (s.past [c] cs [])) = found
        cases found <;> rfl

/-- As few rounds as possible: none first, and then the shortest run. -/
theorem lazily_eq (hahead : s.ahead = text) (hroom : text.length ≤ room.length) :
    lazily (run (.one set)) room none s k =
      (k s).or ((runs set text).findSome? fun p => k (s.past p.1 p.2 [])) := by
  induction text generalizing s room with
  | nil =>
    cases room <;> cases hk : k s <;> simp [lazily, runs, run_one, next?, hahead, hk]
  | cons c cs ih =>
    cases room with
    | nil => simp at hroom
    | cons d room =>
      have hmoved : ¬ s.place = (s.past [c] cs []).place := by simp [past]
      rw [lazily, if_neg (by simp), run_one_cons hahead]
      cases hc : set.mem c with
      | false => cases hk : k s <;> simp [runs, hc]
      | true =>
        rw [if_pos rfl, if_neg hmoved, Option.map_none, ih rfl (by simpa using hroom),
          (findSome?_runs_cons hc s k cs).1]
        cases k s <;> rfl

theorem run_many :
    run (many (.one set)) s k =
      ((runs set s.ahead).reverse.findSome? fun p => k (s.past p.1 p.2 [])).or (k s) :=
  greedily_eq rfl (Nat.le_refl _)

theorem run_oneOrMore :
    run (oneOrMore (.one set)) s k =
      (runs set s.ahead).reverse.findSome? fun p => k (s.past p.1 p.2 []) := by
  change run (.one set) s (fun t => greedily (run (.one set)) t.ahead none t k) = _
  cases hahead : s.ahead with
  | nil => exact fails_one (by simp) hahead
  | cons c cs =>
    rw [run_one_cons hahead, greedily_eq rfl (Nat.le_refl _)]
    cases hc : set.mem c with
    | false => simp [runs, hc]
    | true => exact (findSome?_runs_cons hc s k cs).2.symm

theorem run_fewest :
    run (fewest (.one set)) s k =
      (runs set s.ahead).findSome? fun p => k (s.past p.1 p.2 []) := by
  change run (.one set) s (fun t => lazily (run (.one set)) t.ahead none t k) = _
  cases hahead : s.ahead with
  | nil => exact fails_one (by simp) hahead
  | cons c cs =>
    rw [run_one_cons hahead, lazily_eq rfl (Nat.le_refl _)]
    cases hc : set.mem c with
    | false => simp [runs, hc]
    | true => exact (findSome?_runs_cons hc s k cs).1.symm

theorem takes_oneOrMore (hne : w ≠ []) (hw : ∀ c ∈ w, set.mem c = true)
    (hrest : ∀ c ∈ rest.head?, set.mem c = false) : (oneOrMore (.one set)).Takes w rest [] := by
  intro s k r hahead hk
  obtain ⟨shorter, hruns, -⟩ := runs_append hne hw rest
  rw [run_oneOrMore, hahead, hruns, runs_eq_nil hrest]
  simp [hk]

theorem takes_many (hw : ∀ c ∈ w, set.mem c = true)
    (hrest : ∀ c ∈ rest.head?, set.mem c = false) : (many (.one set)).Takes w rest [] := by
  intro s k r hahead hk
  rw [run_many]
  cases w with
  | nil =>
    rw [past_nil hahead] at hk
    rw [hahead, List.nil_append, runs_eq_nil hrest]
    exact hk
  | cons c w =>
    rw [← run_oneOrMore, takes_oneOrMore (by simp) hw hrest hahead hk, Option.some_or]

theorem takesOnly_many_nil (hrest : ∀ c ∈ rest.head?, set.mem c = false) :
    (many (.one set)).TakesOnly [] rest := by
  intro s k hahead
  rw [past_nil hahead, run_many, hahead, List.nil_append, runs_eq_nil hrest]
  rfl

theorem takesOnly_oneOrMore_single (hc : set.mem c = true)
    (hrest : ∀ c ∈ rest.head?, set.mem c = false) : (oneOrMore (.one set)).TakesOnly [c] rest := by
  intro s k hahead
  rw [run_oneOrMore, hahead, List.singleton_append, runs, if_pos hc, runs_eq_nil hrest]
  simp

/-- Any number of characters matches if what follows matches behind some number of them. -/
theorem isSome_run_many :
    (run (many (.one set)) s k).isSome ↔ ∃ u v, s.ahead = u ++ v ∧
      (∀ c ∈ u, set.mem c = true) ∧ (k (s.past u v [])).isSome := by
  rw [run_many, Option.isSome_or, Bool.or_eq_true, List.findSome?_isSome_iff]
  constructor
  · rintro (⟨⟨u, v⟩, hp, hk⟩ | hk)
    · obtain ⟨htext, -, hu⟩ := mem_runs.1 (List.mem_reverse.1 hp)
      exact ⟨u, v, htext, hu, hk⟩
    · exact ⟨[], s.ahead, rfl, by simp, by rwa [past_nil rfl]⟩
  · rintro ⟨u, v, htext, hu, hk⟩
    by_cases hne : u = []
    · subst hne
      rw [past_nil htext] at hk
      exact .inr hk
    · exact .inl ⟨(u, v), List.mem_reverse.2 (mem_runs.2 ⟨htext, hne, hu⟩), hk⟩

/-- Characters and what follows them do not match if what follows fails behind any number of
them. -/
theorem fails_many_seq
    (h : ∀ u v, text = u ++ v → (∀ c ∈ u, set.mem c = true) → q.Fails v) :
    (many (.one set) ++ q).Fails text := by
  intro s k hahead
  change run (many (.one set)) s (fun t => run q t k) = none
  rw [← Option.not_isSome_iff_eq_none, isSome_run_many]
  rintro ⟨u, v, htext, hu, hq⟩
  rw [h u v (hahead.symm.trans htext) hu rfl] at hq
  cases hq

variable {index : Nat}

/-- A captured run of characters and what follows it do not match if what follows fails behind each
number of them. -/
theorem fails_oneOrMore_seq
    (h : ∀ u v, text = u ++ v → u ≠ [] → (∀ c ∈ u, set.mem c = true) → q.Fails v) :
    (Pattern.group index (oneOrMore (.one set)) ++ q).Fails text := by
  intro s k hahead
  change run (oneOrMore (.one set)) s (fun t => run q (s.capture t index) k) = none
  rw [run_oneOrMore, List.findSome?_eq_none_iff]
  rintro ⟨u, v⟩ hp
  obtain ⟨htext, hne, hu⟩ := mem_runs.1 (List.mem_reverse.1 hp)
  exact h u v (hahead.symm.trans htext) hne hu rfl

theorem fails_fewest_seq (h : ∀ u v, text = u ++ v → u ≠ [] → q.Fails v) :
    (Pattern.group index (fewest (.one set)) ++ q).Fails text := by
  intro s k hahead
  change run (fewest (.one set)) s (fun t => run q (s.capture t index) k) = none
  rw [run_fewest, List.findSome?_eq_none_iff]
  rintro ⟨u, v⟩ hp
  obtain ⟨htext, hne, -⟩ := mem_runs.1 hp
  exact h u v (hahead.symm.trans htext) hne rfl

/-- What follows a captured run. -/
theorem Takes.run_capture (hq : q.Takes v rest gs) (hahead : s.ahead = w ++ (v ++ rest))
    (hk : k (s.past (w ++ v) rest (gs ++ [(index, w)])) = some r) :
    run q (s.capture (s.past w (v ++ rest) []) index) k = some r := by
  rw [capture_past hahead]
  apply hq rfl
  rw [past_past]
  exact hk

/-- A captured run of characters is as long as it can be with what follows still matching. -/
theorem takes_longest_seq (hne : w ≠ []) (hw : ∀ c ∈ w, set.mem c = true)
    (hlonger : ∀ u t, v ++ rest = u ++ t → u ≠ [] → (∀ c ∈ u, set.mem c = true) → q.Fails t)
    (hq : q.Takes v rest gs) :
    (Pattern.group index (oneOrMore (.one set)) ++ q).Takes (w ++ v) rest
      (gs ++ [(index, w)]) := by
  intro s k r hahead hk
  rw [List.append_assoc] at hahead
  change run (oneOrMore (.one set)) s (fun t => run q (s.capture t index) k) = some r
  obtain ⟨shorter, hruns, -⟩ := runs_append hne hw (v ++ rest)
  rw [run_oneOrMore, hahead, hruns, List.reverse_append, List.reverse_cons, List.append_assoc,
    List.findSome?_eq_some_iff]
  refine ⟨_, (w, v ++ rest), shorter.reverse, rfl, hq.run_capture hahead hk, ?_⟩
  simp only [List.mem_reverse, List.forall_mem_map]
  rintro ⟨u, t⟩ hp
  obtain ⟨hrest, hne, hu⟩ := mem_runs.1 hp
  exact hlonger u t hrest hne hu rfl

/-- The shortest captured run of characters behind which the rest matches. -/
theorem takes_fewest_seq (hne : w ≠ []) (hw : ∀ c ∈ w, set.mem c = true)
    (hshorter : ∀ u t, w = u ++ t → u ≠ [] → t ≠ [] → q.Fails (t ++ (v ++ rest)))
    (hq : q.Takes v rest gs) :
    (Pattern.group index (fewest (.one set)) ++ q).Takes (w ++ v) rest (gs ++ [(index, w)]) := by
  intro s k r hahead hk
  rw [List.append_assoc] at hahead
  change run (fewest (.one set)) s (fun t => run q (s.capture t index) k) = some r
  obtain ⟨shorter, hruns, hparts⟩ := runs_append hne hw (v ++ rest)
  rw [run_fewest, hahead, List.findSome?_eq_some_iff]
  refine ⟨shorter, (w, v ++ rest), _, hruns, hq.run_capture hahead hk, ?_⟩
  intro p hp
  obtain ⟨t, ht, hcut, hrest⟩ := hparts p hp
  have hrun : (p.1, p.2) ∈ runs set (w ++ (v ++ rest)) := by simp [hruns, hp]
  exact hshorter p.1 t hcut (mem_runs.1 hrun).2.1 ht hrest

end Characters

/-! ## Sets of characters -/

theorem mem_item (c d : Char) : (⟨[item c], false, .exact, false⟩ : CharSet).mem d = (d == c) := by
  simp only [CharSet.mem, CaseRule.variants, item, List.any_cons, List.any_nil, Bool.or_false,
    Bool.bne_false]
  rw [Bool.eq_iff_iff]
  simp only [Bool.and_eq_true, decide_eq_true_eq, beq_iff_eq, ← Char.toNat_inj]
  omega

theorem mem_noneOf (c d : Char) :
    (⟨[c].map item, true, .exact, false⟩ : CharSet).mem d = (d != c) := by
  have hone := mem_item c d
  rw [CharSet.mem, Bool.bne_false] at hone
  rw [CharSet.mem, Bool.bne_true]
  exact congrArg (!·) hone

theorem mem_wordItem (c : Char) :
    (⟨[wordItem], false, .exact, false⟩ : CharSet).mem c = Text.isWordChar c := by
  simp [CharSet.mem, wordItem, CharClass.mem]

theorem mem_blankItem (c : Char) :
    (⟨[blankItem], false, .exact, false⟩ : CharSet).mem c = Text.isBlank c := by
  simp [CharSet.mem, blankItem, CharClass.mem]

/-! ## The builders -/

theorem takesOnly_chars (cs : List Char) (rest : List Char) : (chars cs).TakesOnly cs rest := by
  induction cs generalizing rest with
  | nil =>
    intro s k hahead
    rw [past_nil hahead]
    rfl
  | cons c cs ih =>
    have hfirst : ∀ rest, (ofItems [item c] false).TakesOnly [c] rest := by
      intro rest
      exact takesOnly_one (by simp [mem_item])
    cases cs with
    | nil => exact hfirst rest
    | cons d cs => exact (hfirst _).seq (ih rest)

theorem takesOnly_exactly (t : String) (rest : List Char) :
    (exactly t).TakesOnly t.toList rest := takesOnly_chars t.toList rest

/-- A text that begins with another character does not match. -/
theorem fails_exactly {t : String} {c : Char} {cs : List Char} (ht : t.toList = c :: cs)
    (h : text.head? ≠ some c) : (exactly t).Fails text := by
  have hfirst : (ofItems [item c] false).Fails text := by
    apply fails_one
    intro d hd
    rw [mem_item, beq_eq_false_iff_ne]
    rintro rfl
    exact h hd
  rw [exactly, ht]
  cases cs with
  | nil => exact hfirst
  | cons d cs => exact hfirst.seq _

/-- A text that does not begin with the characters does not match. -/
theorem fails_chars {cs : List Char} (h : ¬ cs <+: text) : (chars cs).Fails text := by
  induction cs generalizing text with
  | nil => exact absurd List.nil_prefix h
  | cons c cs ih =>
    by_cases hhead : text.head? = some c
    · obtain ⟨rest, rfl⟩ := List.head?_eq_some_iff.1 hhead
      have hrest : ¬ cs <+: rest := by simpa using h
      cases cs with
      | nil => exact absurd List.nil_prefix hrest
      | cons d cs =>
        have hfirst : (ofItems [item c] false).TakesOnly [c] rest :=
          takesOnly_one (by simp [mem_item])
        exact hfirst.fails_seq (ih hrest)
    · have hfails := fails_exactly (t := String.ofList (c :: cs)) String.toList_ofList hhead
      rwa [exactly, String.toList_ofList] at hfails

theorem takesOnly_blanks_nil (h : ∀ c ∈ rest.head?, Text.isBlank c = false) :
    blanks.TakesOnly [] rest :=
  takesOnly_many_nil fun c hc => (mem_blankItem c).trans (h c hc)

theorem takes_blanks (hw : ∀ c ∈ w, Text.isBlank c = true)
    (h : ∀ c ∈ rest.head?, Text.isBlank c = false) : blanks.Takes w rest [] :=
  takes_many (fun c hc => (mem_blankItem c).trans (hw c hc)) fun c hc =>
    (mem_blankItem c).trans (h c hc)

theorem takesOnly_gap_single {c : Char} (hc : Text.isBlank c = true)
    (h : ∀ c ∈ rest.head?, Text.isBlank c = false) : gap.TakesOnly [c] rest :=
  takesOnly_oneOrMore_single ((mem_blankItem c).trans hc) fun d hd =>
    (mem_blankItem d).trans (h d hd)

theorem fails_gap (h : ∀ c ∈ text.head?, Text.isBlank c = false) : gap.Fails text := by
  apply Fails.oneOrMore
  apply fails_one
  intro c hc
  rw [mem_blankItem]
  exact h c hc

theorem takes_gap (hne : w ≠ []) (hw : ∀ c ∈ w, Text.isBlank c = true)
    (h : ∀ c ∈ rest.head?, Text.isBlank c = false) : gap.Takes w rest [] :=
  takes_oneOrMore hne (fun c hc => (mem_blankItem c).trans (hw c hc)) fun c hc =>
    (mem_blankItem c).trans (h c hc)

theorem takes_word (hne : w ≠ []) (hw : ∀ c ∈ w, Text.isWordChar c = true)
    (h : ∀ c ∈ rest.head?, Text.isWordChar c = false) : word.Takes w rest [] :=
  takes_oneOrMore hne (fun c hc => (mem_wordItem c).trans (hw c hc)) fun c hc =>
    (mem_wordItem c).trans (h c hc)

/-- All characters up to a given one. -/
theorem takes_upTo {c : Char} {t : String} (ht : t.toList = [c]) (hw : c ∉ w) :
    (many (noneOf t)).Takes w (c :: rest) [] := by
  rw [noneOf, ht]
  apply takes_many
  · intro d hd
    rw [mem_noneOf, bne_iff_ne]
    rintro rfl
    exact hw hd
  · intro d hd
    cases hd
    rw [mem_noneOf, bne_self_eq_false]

end Pattern

end SourceAtlas
