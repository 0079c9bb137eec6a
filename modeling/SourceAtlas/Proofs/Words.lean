import SourceAtlas.Proofs.Cutting
import SourceAtlas.Text.Letter

/-!
# Words and identifiers

What declarations of all languages are made of. An identifier has no blanks and no signs in it, a
text is cut into its words from the right, and a word at its head is read up to the sign that ends
it.
-/

set_option autoImplicit false

namespace SourceAtlas.Text

/-! ## Identifiers -/

/-- The code points of the blanks. -/
def blankPoints : List Nat :=
  [9, 10, 11, 12, 13, 28, 29, 30, 31, 32, 0x85, 0xA0, 0x1680, 0x2000, 0x2001, 0x2002, 0x2003,
    0x2004, 0x2005, 0x2006, 0x2007, 0x2008, 0x2009, 0x200A, 0x2028, 0x2029, 0x202F, 0x205F, 0x3000]

theorem mem_blankPoints {c : Char} (h : isBlank c = true) : c.toNat ∈ blankPoints := by
  simp only [isBlank] at h
  simp only [blankPoints, List.mem_cons, List.not_mem_nil, or_false]
  split at h <;> simp at h <;> omega

/-- No blank stands in a word or an identifier. -/
theorem blankPoints_apart :
    ∀ n ∈ blankPoints, isWordChar (Char.ofNat n) = false ∧
      isIdentifierStart (Char.ofNat n) = false ∧ isIdentifierContinue (Char.ofNat n) = false := by
  decide +kernel

theorem not_isBlank_of_isWordChar {c : Char} (h : isWordChar c = true) : isBlank c = false := by
  by_contra hblank
  have hpoint := blankPoints_apart _ (mem_blankPoints (by simpa using hblank))
  rw [Char.ofNat_toNat, h] at hpoint
  cases hpoint.1

/-- The text is an identifier. -/
structure Identifier where
  text : List Char
  isIdentifier : isIdentifier text = true

namespace Identifier

variable {n : Identifier} {c : Char}

theorem ne_nil (n : Identifier) : n.text ≠ [] := by
  intro hnil
  have h := n.isIdentifier
  rw [hnil] at h
  cases h

theorem start_or_continue (h : c ∈ n.text) :
    isIdentifierStart c = true ∨ isIdentifierContinue c = true := by
  have hall := n.isIdentifier
  cases htext : n.text with
  | nil => exact absurd htext n.ne_nil
  | cons d text =>
    rw [htext, Text.isIdentifier, Bool.and_eq_true, List.all_eq_true] at hall
    rw [htext] at h
    rcases List.mem_cons.1 h with rfl | hmem
    · exact .inl hall.1
    · exact .inr (hall.2 c hmem)

theorem not_isBlank (h : c ∈ n.text) : isBlank c = false := by
  by_contra hblank
  have hpoint := (blankPoints_apart _ (mem_blankPoints (by simpa using hblank))).2
  rw [Char.ofNat_toNat] at hpoint
  rcases start_or_continue h with hc | hc
  · rw [hpoint.1] at hc
    cases hc
  · rw [hpoint.2] at hc
    cases hc

/-- A sign does not stand in an identifier. -/
theorem ne_of_mem (h : c ∈ n.text) {d : Char}
    (hd : (isIdentifierStart d || isIdentifierContinue d) = false) : c ≠ d := by
  rintro rfl
  rw [Bool.or_eq_false_iff] at hd
  rcases start_or_continue h with hc | hc
  · rw [hd.1] at hc
    cases hc
  · rw [hd.2] at hc
    cases hc

theorem trimmed (n : Identifier) : Trimmed n.text :=
  Trimmed.of_forall n.ne_nil fun _ => n.not_isBlank

end Identifier

/-! ## Words -/

/-- A word up to a sign that ends it, or to the end. -/
theorem takeWhile_word {ends : Char → Bool} {w rest : List Char} (hw : ∀ c ∈ w, ends c = false)
    (hrest : ∀ c ∈ rest.head?, ends c = true) : (w ++ rest).takeWhile (fun c => !ends c) = w := by
  rw [List.takeWhile_append_of_pos fun c hc => by simp [hw c hc]]
  cases rest with
  | nil => simp
  | cons d rest => simp [hrest d rfl]

theorem foldr_wordStep {w : List Char} (hw : ∀ c ∈ w, isBlank c = false) (v : List Char)
    (ws : List (List Char)) : w.foldr wordStep (v, ws) = (w ++ v, ws) := by
  induction w with
  | nil => rfl
  | cons c w ih =>
    rw [List.foldr_cons, ih (List.forall_mem_cons.1 hw).2, wordStep,
      hw c List.mem_cons_self]
    rfl

/-- The last word of a text is what stands behind its last blank. -/
theorem getLast?_words {front w : List Char} (hne : w ≠ []) (hw : ∀ c ∈ w, isBlank c = false)
    (hfront : ∀ c ∈ front.getLast?, isBlank c = true) :
    (words (front ++ w)).getLast? = some w := by
  have hword : w.foldr wordStep ([], []) = (w, []) := by
    rw [foldr_wordStep hw, List.append_nil]
  -- Once the word is closed it stays the last one.
  have hkept : ∀ (cs u : List Char) (ws : List (List Char)), ws.getLast? = some w →
      (cs.foldr wordStep (u, ws)).2.getLast? = some w := by
    intro cs u ws hws
    induction cs with
    | nil => exact hws
    | cons c cs ih =>
      rw [List.foldr_cons]
      rcases hstate : cs.foldr wordStep (u, ws) with ⟨v, vs⟩
      rw [hstate] at ih
      rw [wordStep]
      split
      · split
        · exact ih
        · rw [List.getLast?_cons, Option.mem_def.1 ih]
          rfl
      · exact ih
  rcases List.eq_nil_or_concat front with rfl | ⟨front, b, rfl⟩
  · rw [List.nil_append, words, hword]
    simp [hne]
  · have hb : isBlank b = true := hfront b (by simp)
    have hclosed : wordStep b (w, []) = ([], [w]) := by simp [wordStep, hb, hne]
    rw [words, List.foldr_append, hword, List.concat_eq_append, List.foldr_append,
      List.foldr_cons, List.foldr_nil, hclosed]
    have hlast := hkept front [] [w] rfl
    rcases hstate : front.foldr wordStep ([], [w]) with ⟨v, vs⟩
    rw [hstate] at hlast
    dsimp only
    split
    · exact hlast
    · rw [List.getLast?_cons, Option.mem_def.1 hlast]
      rfl

theorem words_append_blank {w : List Char} (hne : w ≠ []) (hw : ∀ c ∈ w, isBlank c = false)
    (rest : List Char) : words (w ++ ' ' :: rest) = w :: words rest := by
  have hblank : (' ' :: rest).foldr wordStep ([], []) = ([], words rest) := by
    rw [List.foldr_cons, words]
    cases rest.foldr wordStep ([], []) with
    | mk v vs => cases v <;> rfl
  rw [words, List.foldr_append, hblank, foldr_wordStep hw, List.append_nil]
  simp [hne]

/-! ## Cuts -/

theorem cutAt?_eq_some_iff {c : Char} {cs as bs : List Char} :
    cutAt? [c] cs = some (as, bs) ↔ cs = as ++ c :: bs ∧ c ∉ as := by
  constructor
  · intro h
    by_cases hmem : c ∈ cs
    · obtain ⟨us, vs, rfl, hus⟩ := List.eq_append_cons_of_mem hmem
      have hcut : cutAt? [c] (us ++ c :: vs) = some (us, vs) := cutAt?_append hus vs
      rw [h] at hcut
      cases hcut
      exact ⟨rfl, hus⟩
    · rw [cutAt?_of_not_mem hmem] at h
      cases h
  · rintro ⟨rfl, has⟩
    exact cutAt?_append has bs

theorem Trimmed.trim_append {as : List Char} (h : Trimmed as) (bs : List Char) :
    trim (as ++ bs) = as ++ trimRight bs := by
  have hleft : trimLeft ([] ++ (as ++ bs)) = trimLeft [] ++ (as ++ bs) := by
    apply trimLeft_append_of_head
    obtain ⟨⟨c, hc, hblank⟩, -⟩ := h
    exact ⟨c, by simp [List.head?_append, Option.mem_def.1 hc], hblank⟩
  exact (congrArg trimRight hleft).trans (trimRight_append_of_last h.2)

end SourceAtlas.Text
