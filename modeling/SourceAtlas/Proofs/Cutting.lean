import Mathlib.Data.List.TakeDrop
import Mathlib.Data.List.TakeWhile
import Mathlib.Tactic.Common
import SourceAtlas.Text.Blank

/-!
# Laws of cutting and joining

Cutting a text at a class of characters and joining pieces undo each other: a text is its pieces
joined (`join_splitOn`), and pieces without the separator are found again (`splitOn_join`). The last
cut of a text is described by the two parts it leaves (`eq_append_of_cutLast?`).
-/

set_option autoImplicit false

namespace SourceAtlas.Text

-- What is said of the characters of a text is decided by them, and not by all characters.
instance (priority := 2000) decidableForallMem {p : Char → Prop} [DecidablePred p]
    (text : List Char) : Decidable (∀ c ∈ text, p c) := List.decidableBAll p text

instance (priority := 2000) decidableForallMem? {p : Char → Prop} [DecidablePred p]
    (o : Option Char) : Decidable (∀ c ∈ o, p c) := o.decidableForallMem

instance (priority := 2000) decidableExistsMem? {p : Char → Prop} [DecidablePred p]
    (o : Option Char) : Decidable (∃ c ∈ o, p c) := o.decidableExistsMem

/-! ## Splitting -/

theorem splitWhere_nil (p : Char → Bool) : splitWhere p [] = [[]] := rfl

theorem splitWhere_cons (p : Char → Bool) (c : Char) (cs : List Char) :
    splitWhere p (c :: cs) = splitStep p c (splitWhere p cs) := rfl

theorem splitWhere_ne_nil (p : Char → Bool) (cs : List Char) : splitWhere p cs ≠ [] := by
  cases cs with
  | nil => simp [splitWhere_nil]
  | cons c cs =>
    rw [splitWhere_cons]
    cases splitWhere p cs <;> cases hc : p c <;> simp [splitStep, hc]

variable {p : Char → Bool} {sep c : Char} {cs : List Char} {ws : List (List Char)}

/-- Only the empty text has an empty piece alone. -/
theorem eq_nil_of_splitWhere (h : splitWhere p cs = [[]]) : cs = [] := by
  cases cs with
  | nil => rfl
  | cons c cs =>
    rw [splitWhere_cons] at h
    cases hrest : splitWhere p cs with
    | nil => exact absurd hrest (splitWhere_ne_nil p cs)
    | cons w ws => cases hc : p c <;> simp [hrest, splitStep, hc] at h

theorem splitStep_of_sep (h : p c = true) (hws : ws ≠ []) : splitStep p c ws = [] :: ws := by
  cases ws with
  | nil => exact absurd rfl hws
  | cons w ws => simp [splitStep, h]

/-- A text with a separator in it is cut there. -/
theorem splitWhere_append_sep (h : p c = true) (as bs : List Char) :
    splitWhere p (as ++ c :: bs) = splitWhere p as ++ splitWhere p bs := by
  induction as with
  | nil =>
    rw [List.nil_append, splitWhere_cons, splitStep_of_sep h (splitWhere_ne_nil p bs)]
    rfl
  | cons a as ih =>
    rw [List.cons_append, splitWhere_cons, splitWhere_cons, ih]
    cases hw : splitWhere p as with
    | nil => exact absurd hw (splitWhere_ne_nil p as)
    | cons w ws => cases ha : p a <;> simp [splitStep, ha]

/-- A text without separators is one piece. -/
theorem splitWhere_of_forall_not (h : ∀ c ∈ cs, p c = false) : splitWhere p cs = [cs] := by
  induction cs with
  | nil => rfl
  | cons c cs ih =>
    rw [splitWhere_cons, ih (List.forall_mem_cons.1 h).2]
    simp [splitStep, h c List.mem_cons_self]

/-- What has no separators and stands in front belongs to the first piece. -/
theorem splitWhere_append_of_forall_not {as : List Char} (h : ∀ c ∈ as, p c = false)
    {bs w : List Char} (hbs : splitWhere p bs = w :: ws) :
    splitWhere p (as ++ bs) = (as ++ w) :: ws := by
  induction as with
  | nil => exact hbs
  | cons c as ih =>
    rw [List.cons_append, splitWhere_cons, ih (List.forall_mem_cons.1 h).2]
    simp [splitStep, h c List.mem_cons_self]

/-- No piece holds a separator. -/
theorem not_sep_of_mem_splitWhere {cs w : List Char} (h : w ∈ splitWhere p cs) :
    ∀ c ∈ w, p c = false := by
  induction cs generalizing w with
  | nil =>
    rw [splitWhere_nil, List.mem_singleton] at h
    simp [h]
  | cons c cs ih =>
    rw [splitWhere_cons] at h
    cases hw : splitWhere p cs with
    | nil => exact absurd hw (splitWhere_ne_nil p cs)
    | cons v vs =>
      rw [hw] at h ih
      unfold splitStep at h
      cases hc : p c with
      | true =>
        simp only [hc, if_true, List.mem_cons] at h
        rcases h with rfl | h
        · simp
        · exact ih (List.mem_cons.2 h)
      | false =>
        simp only [hc, Bool.false_eq_true, if_false, List.mem_cons] at h
        rcases h with rfl | h
        · intro d hd
          rcases List.mem_cons.1 hd with rfl | hd
          · exact hc
          · exact ih List.mem_cons_self d hd
        · exact ih (List.mem_cons_of_mem _ h)

/-- There is one piece more than separators. -/
theorem length_splitWhere (p : Char → Bool) (cs : List Char) :
    (splitWhere p cs).length = cs.countP p + 1 := by
  induction cs with
  | nil => rfl
  | cons c cs ih =>
    rw [splitWhere_cons, List.countP_cons]
    cases hw : splitWhere p cs with
    | nil => exact absurd hw (splitWhere_ne_nil p cs)
    | cons w ws =>
      rw [hw] at ih
      cases hc : p c with
      | true =>
        simp only [splitStep, hc, if_true, List.length_cons] at ih ⊢
        omega
      | false => simpa [splitStep, hc] using ih

/-- A character at the end that is no separator belongs to the last piece. -/
theorem splitWhere_concat_of_not (h : p c = false) (cs : List Char) :
    ∃ ws w, splitWhere p (cs ++ [c]) = ws ++ [w ++ [c]] := by
  induction cs with
  | nil => exact ⟨[], [], by simp [splitWhere_cons, splitWhere_nil, splitStep, h]⟩
  | cons d cs ih =>
    obtain ⟨ws, w, hcut⟩ := ih
    rw [List.cons_append, splitWhere_cons, hcut]
    cases hd : p d with
    | true => exact ⟨[] :: ws, w, by cases ws <;> simp [splitStep, hd]⟩
    | false =>
      cases ws with
      | nil => exact ⟨[], d :: w, by simp [splitStep, hd]⟩
      | cons v vs => exact ⟨(d :: v) :: vs, w, by simp [splitStep, hd]⟩

/-- A finer cut of a text is made by cutting its pieces again. -/
theorem splitWhere_flatMap {p q : Char → Bool} (h : ∀ c, p c = true → q c = true)
    (cs : List Char) : splitWhere q cs = (splitWhere p cs).flatMap (splitWhere q) := by
  induction cs with
  | nil => rfl
  | cons c cs ih =>
    rw [splitWhere_cons, splitWhere_cons, ih]
    cases hw : splitWhere p cs with
    | nil => exact absurd hw (splitWhere_ne_nil p cs)
    | cons w ws =>
      cases hc : p c with
      | true =>
        rw [splitStep_of_sep (h c hc) (by simp [splitWhere_ne_nil]),
          splitStep_of_sep hc (List.cons_ne_nil w ws), List.flatMap_cons]
        rfl
      | false =>
        -- The character joins the first piece, and that piece is cut again.
        have hjoined : splitStep p c (w :: ws) = (c :: w) :: ws := by simp [splitStep, hc]
        rw [hjoined, List.flatMap_cons, List.flatMap_cons, splitWhere_cons]
        cases hv : splitWhere q w with
        | nil => exact absurd hv (splitWhere_ne_nil q w)
        | cons v vs => cases hq : q c <;> simp [splitStep, hq]

/-- Cutting a text whose characters were replaced is replacing in the pieces. -/
theorem splitWhere_map (p : Char → Bool) (f : Char → Char) (cs : List Char) :
    splitWhere p (cs.map f) = (splitWhere (p ∘ f) cs).map (List.map f) := by
  induction cs with
  | nil => rfl
  | cons c cs ih =>
    rw [List.map_cons, splitWhere_cons, splitWhere_cons, ih]
    cases hw : splitWhere (p ∘ f) cs with
    | nil => exact absurd hw (splitWhere_ne_nil _ cs)
    | cons w ws => cases hc : p (f c) <;> simp [splitStep, hc]

theorem splitOn_append_sep (sep : Char) (as bs : List Char) :
    splitOn sep (as ++ sep :: bs) = splitOn sep as ++ splitOn sep bs :=
  splitWhere_append_sep (by simp) as bs

theorem splitOn_of_not_mem (h : sep ∉ cs) : splitOn sep cs = [cs] :=
  splitWhere_of_forall_not fun c hc => by simpa using fun he : c = sep => h (he ▸ hc)

theorem not_mem_of_mem_splitOn {cs w : List Char} (h : w ∈ splitOn sep cs) :
    sep ∉ w := fun hmem => by simpa using not_sep_of_mem_splitWhere h sep hmem

theorem eq_nil_of_mergeReturns (h : mergeReturns cs = []) : cs = [] := by
  cases cs with
  | nil => rfl
  | cons c cs => simp [mergeReturns] at h

theorem mergeReturns_eq_self (h : ∀ e ∈ (' ' :: cs).zip cs, ¬ (e.1 = '\r' ∧ e.2 = '\n')) :
    mergeReturns cs = cs := by
  rw [mergeReturns, List.filter_eq_self.2 fun e he => by simpa [imp_iff_not_or] using h e he]
  exact List.map_snd_zip (by simp)

theorem mergeReturns_of_no_newline (h : '\n' ∉ cs) : mergeReturns cs = cs := by
  refine mergeReturns_eq_self fun e he heq => h ?_
  rw [← heq.2]
  exact (List.of_mem_zip he).2

theorem mergeReturns_of_no_return (h : '\r' ∉ cs) : mergeReturns cs = cs := by
  refine mergeReturns_eq_self fun e he heq => h ?_
  rcases List.mem_cons.1 (List.of_mem_zip he).1 with hspace | hmem
  · cases hspace.symm.trans heq.1
  · exact heq.1 ▸ hmem

/-! ## Joining -/

@[simp] theorem join_nil (sep : List Char) : join sep [] = [] := rfl

@[simp] theorem join_singleton (sep w : List Char) : join sep [w] = w := by
  simp [join, List.intercalate, List.intersperse]

theorem join_cons_of_ne_nil (sep w : List Char) (h : ws ≠ []) :
    join sep (w :: ws) = w ++ sep ++ join sep ws := by
  cases ws with
  | nil => exact absurd rfl h
  | cons v vs => simp [join, List.intercalate, List.intersperse]

theorem join_append (sep : List Char) {as bs : List (List Char)} (has : as ≠ []) (hbs : bs ≠ []) :
    join sep (as ++ bs) = join sep as ++ sep ++ join sep bs := by
  induction as with
  | nil => exact absurd rfl has
  | cons a as ih =>
    cases as with
    | nil => simp [join_cons_of_ne_nil sep a hbs]
    | cons b as =>
      rw [List.cons_append, join_cons_of_ne_nil sep a (by simp), ih (by simp),
        join_cons_of_ne_nil sep a (by simp)]
      simp

theorem not_mem_join {sep : List Char} (hsep : c ∉ sep) (h : ∀ w ∈ ws, c ∉ w) :
    c ∉ join sep ws := by
  induction ws with
  | nil => simp
  | cons w ws ih =>
    cases ws with
    | nil => simpa using h w (by simp)
    | cons v vs =>
      rw [join_cons_of_ne_nil _ _ (by simp), List.mem_append, List.mem_append]
      rintro ((hw | hs) | hrest)
      · exact h w (by simp) hw
      · exact hsep hs
      · exact ih (List.forall_mem_cons.1 h).2 hrest

/-- A text is its pieces joined. -/
theorem join_splitOn (sep : Char) (cs : List Char) : join [sep] (splitOn sep cs) = cs := by
  induction cs with
  | nil => rfl
  | cons c cs ih =>
    rw [splitOn, splitWhere_cons, ← splitOn]
    cases hw : splitOn sep cs with
    | nil => exact absurd hw (splitWhere_ne_nil _ cs)
    | cons w ws =>
      rw [hw] at ih
      -- A separator opens an empty piece; any other character goes to the first one.
      by_cases hc : c = sep
      · subst hc
        simp only [splitStep, beq_self_eq_true, if_true]
        rw [join_cons_of_ne_nil _ _ (by simp), ih]
        rfl
      · simp only [splitStep, beq_iff_eq, hc, if_false]
        cases ws with
        | nil => simpa using ih
        | cons v vs =>
          rw [join_cons_of_ne_nil _ _ (by simp)] at ih ⊢
          simpa using ih

/-- Pieces without separators are found again in the text that they make up. -/
theorem splitWhere_join (hsep : p sep = true) (hne : ws ≠ []) (h : ∀ w ∈ ws, ∀ c ∈ w, p c = false) :
    splitWhere p (join [sep] ws) = ws := by
  induction ws with
  | nil => exact absurd rfl hne
  | cons w ws ih =>
    cases ws with
    | nil => simpa using splitWhere_of_forall_not (h w (by simp))
    | cons v vs =>
      rw [join_cons_of_ne_nil _ _ (by simp), List.append_assoc, List.singleton_append,
        splitWhere_append_sep hsep, splitWhere_of_forall_not (h w (by simp)),
        ih (by simp) (List.forall_mem_cons.1 h).2]
      rfl

theorem splitOn_join (hne : ws ≠ []) (h : ∀ w ∈ ws, sep ∉ w) : splitOn sep (join [sep] ws) = ws :=
  splitWhere_join (by simp) hne fun w hw c hc => by
    simpa using fun he : c = sep => h w hw (he ▸ hc)

/-! ## The last cut -/

/-- The last cut of a text with a separator. -/
theorem cutLast?_append {as bs : List Char} (h : sep ∉ bs) :
    cutLast? sep (as ++ sep :: bs) = some (as, bs) := by
  have hrev : (as ++ sep :: bs).reverse = bs.reverse ++ sep :: as.reverse := by simp
  have hbs : ∀ c ∈ bs.reverse, (c != sep) = true := by
    intro c hc
    simpa using fun he : c = sep => h (he ▸ List.mem_reverse.1 hc)
  rw [cutLast?, List.span_eq_takeWhile_dropWhile, hrev, List.takeWhile_append_of_pos hbs,
    List.dropWhile_append_of_pos hbs]
  simp

theorem cutLast?_of_not_mem (h : sep ∉ cs) : cutLast? sep cs = none := by
  have hcs : cs.reverse.dropWhile (· != sep) = [] := by
    rw [List.dropWhile_eq_nil_iff]
    intro c hc
    simpa using fun he : c = sep => h (he ▸ List.mem_reverse.1 hc)
  rw [cutLast?, List.span_eq_takeWhile_dropWhile, hcs]

/-- A text with a separator has a last one. -/
theorem exists_last_sep (h : sep ∈ cs) : ∃ as bs, cs = as ++ sep :: bs ∧ sep ∉ bs := by
  induction cs with
  | nil => simp at h
  | cons c cs ih =>
    by_cases hcs : sep ∈ cs
    · obtain ⟨as, bs, rfl, hbs⟩ := ih hcs
      exact ⟨c :: as, bs, rfl, hbs⟩
    · rcases List.mem_cons.1 h with rfl | hmem
      · exact ⟨[], cs, rfl, hcs⟩
      · exact absurd hmem hcs

theorem eq_append_of_cutLast? {cs as bs : List Char} (h : cutLast? sep cs = some (as, bs)) :
    cs = as ++ sep :: bs ∧ sep ∉ bs := by
  by_cases hmem : sep ∈ cs
  · obtain ⟨front, rest, rfl, hrest⟩ := exists_last_sep hmem
    rw [cutLast?_append hrest] at h
    cases h
    exact ⟨rfl, hrest⟩
  · rw [cutLast?_of_not_mem hmem] at h
    cases h

/-! ## Blanks at the ends -/

theorem trimRight_eq_self (hlast : cs.getLast? = some c) (hblank : isBlank c = false) :
    trimRight cs = cs := by
  obtain ⟨front, rfl⟩ := List.getLast?_eq_some_iff.1 hlast
  simp [trimRight, dropEndWhile, hblank]

theorem trim_eq_self {c d : Char} (hfirst : cs.head? = some c) (hc : isBlank c = false)
    (hlast : cs.getLast? = some d) (hd : isBlank d = false) : trim cs = cs := by
  obtain ⟨rest, rfl⟩ := List.head?_eq_some_iff.1 hfirst
  rw [trim, trimLeft, List.dropWhile_cons_of_neg (by simp [hc]), trimRight_eq_self hlast hd]

/-- The text begins and ends with characters that are not blank. -/
def Trimmed (cs : List Char) : Prop :=
  (∃ c ∈ cs.head?, isBlank c = false) ∧ ∃ d ∈ cs.getLast?, isBlank d = false

namespace Trimmed

variable {as bs cs : List Char}

theorem trim_eq (h : Trimmed cs) : trim cs = cs := by
  obtain ⟨⟨c, hfirst, hc⟩, d, hlast, hd⟩ := h
  exact trim_eq_self hfirst hc hlast hd

theorem ne_nil (h : Trimmed cs) : cs ≠ [] := by
  obtain ⟨⟨c, hfirst, -⟩, -⟩ := h
  rintro rfl
  cases hfirst

theorem of_forall (hne : cs ≠ []) (h : ∀ c ∈ cs, isBlank c = false) : Trimmed cs :=
  ⟨⟨cs.head hne, List.head?_eq_some_head hne, h _ (List.head_mem hne)⟩,
    cs.getLast hne, List.getLast?_eq_some_getLast hne, h _ (List.getLast_mem hne)⟩

/-- What stands between two texts does not matter. -/
theorem around (has : Trimmed as) (hbs : Trimmed bs) (cs : List Char) :
    Trimmed (as ++ (cs ++ bs)) := by
  obtain ⟨⟨c, hfirst, hc⟩, -⟩ := has
  obtain ⟨-, d, hlast, hd⟩ := hbs
  obtain ⟨as, rfl⟩ := List.head?_eq_some_iff.1 hfirst
  obtain ⟨bs, rfl⟩ := List.getLast?_eq_some_iff.1 hlast
  refine ⟨⟨c, rfl, hc⟩, d, ?_, hd⟩
  rw [← List.append_assoc, ← List.append_assoc]
  exact List.getLast?_concat

theorem join (sep : List Char) {ws : List (List Char)} (hne : ws ≠ [])
    (h : ∀ w ∈ ws, Trimmed w) : Trimmed (Text.join sep ws) := by
  induction ws with
  | nil => exact absurd rfl hne
  | cons w ws ih =>
    have hw := h w List.mem_cons_self
    cases ws with
    | nil => simpa using hw
    | cons v ws =>
      rw [join_cons_of_ne_nil _ _ (by simp), List.append_assoc]
      exact hw.around (ih (by simp) (List.forall_mem_cons.1 h).2) sep

end Trimmed

theorem trimLeft_append_of_head {as bs : List Char} (h : ∃ c ∈ bs.head?, isBlank c = false) :
    trimLeft (as ++ bs) = trimLeft as ++ bs := by
  induction as with
  | nil =>
    obtain ⟨c, hc, hblank⟩ := h
    obtain ⟨rest, rfl⟩ := List.head?_eq_some_iff.1 hc
    simp [trimLeft, hblank]
  | cons a as ih =>
    cases ha : isBlank a with
    | false => simp [trimLeft, ha]
    | true => simpa [trimLeft, ha] using ih

theorem trimRight_append_of_last {as bs : List Char} (h : ∃ c ∈ as.getLast?, isBlank c = false) :
    trimRight (as ++ bs) = as ++ trimRight bs := by
  have hleft : trimLeft (bs.reverse ++ as.reverse) = trimLeft bs.reverse ++ as.reverse :=
    trimLeft_append_of_head (by simpa using h)
  rw [trimLeft, trimLeft] at hleft
  rw [trimRight, trimRight, dropEndWhile, dropEndWhile, List.reverse_append, hleft,
    List.reverse_append, List.reverse_reverse]

/-- A character is kept if something behind it is, or if it is no blank. -/
theorem trimRight_cons (c : Char) (cs : List Char) :
    trimRight (c :: cs) =
      if trimRight cs = [] then (if isBlank c then [] else [c]) else c :: trimRight cs := by
  rw [trimRight, trimRight, dropEndWhile, dropEndWhile, List.reverse_cons, List.dropWhile_append]
  by_cases hnone : cs.reverse.dropWhile isBlank = []
  · cases hblank : isBlank c <;> simp [hnone, hblank]
  · simp [hnone]

theorem subset_trimRight (h : c ∈ trimRight cs) : c ∈ cs := by
  rw [trimRight, dropEndWhile, List.mem_reverse] at h
  exact List.mem_reverse.1 ((List.dropWhile_suffix isBlank).subset h)

theorem trim_cons_blank (h : isBlank c = true) (cs : List Char) : trim (c :: cs) = trim cs := by
  rw [trim, trim, trimLeft, trimLeft, List.dropWhile_cons_of_pos (by exact h)]

/-! ## The first cut -/

theorem after?_eq_some_iff {pre cs rest : List Char} :
    after? pre cs = some rest ↔ cs = pre ++ rest := by
  induction pre generalizing cs with
  | nil => simp [after?, eq_comm]
  | cons p pre ih =>
    cases cs with
    | nil => simp [after?]
    | cons c cs =>
      by_cases hp : p = c
      · subst hp
        simp [after?, ih]
      · simp [after?, hp, Ne.symm hp]

/-- A text is cut where the first character of the needle first occurs with the rest of it. -/
theorem cutAt?_append {cs as : List Char} (h : c ∉ as) (bs : List Char) :
    cutAt? (c :: cs) (as ++ (c :: cs ++ bs)) = some (as, bs) := by
  induction as with
  | nil =>
    have hhere : after? (c :: cs) (c :: (cs ++ bs)) = some bs := after?_eq_some_iff.2 rfl
    rw [List.nil_append, List.cons_append, cutAt?, hhere]
  | cons a as ih =>
    have ha : c ≠ a := fun he => h (by simp [he])
    rw [List.cons_append, cutAt?, after?, if_neg (by simpa using ha),
      ih fun hmem => h (List.mem_cons_of_mem a hmem)]
    rfl

theorem cutAt?_of_not_mem {cs as : List Char} (h : c ∉ as) : cutAt? (c :: cs) as = none := by
  induction as with
  | nil => rfl
  | cons a as ih =>
    have ha : c ≠ a := fun he => h (by simp [he])
    rw [cutAt?, after?, if_neg (by simpa using ha), ih fun hmem => h (List.mem_cons_of_mem a hmem)]
    rfl

end SourceAtlas.Text
