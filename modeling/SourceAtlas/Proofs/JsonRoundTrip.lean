import Mathlib.Data.List.Find
import Mathlib.Data.List.TakeWhile
import SourceAtlas.Json.Reader
import SourceAtlas.Proofs.Tables

/-!
# Reading what was written

A value that is written with one item or field per line is read back as it was (`ofText_indented`).
What has to hold of a value for this is said by `Proper`: the keys of its objects are distinct, its
numbers are written as numbers are, and it is not nested too deeply.

Texts, numbers and gaps are read one by one in front of any rest. For values the induction is on
`Proper`, and for the items of an array and the fields of an object on the list of those to come.
-/

set_option autoImplicit false

namespace SourceAtlas.Json

open SourceAtlas.Text

/-! ## Texts -/

section Texts

variable {c : Char} {cs rest done : List Char} {fuel n : Nat}

theorem hexDigit?_digitChar : ∀ d < 16, hexDigit? d.digitChar = some d := by decide

/-- The last digit of a number of at least two hexadecimal digits. -/
theorem hexText_succ (width n : Nat) (hwidth : 1 ≤ width) :
    hexText (width + 1) n = hexText width (n / 16) ++ [(n % 16).digitChar] := by
  simp only [hexText]
  by_cases hn : n < 16
  · rw [Nat.toDigits_of_lt_base hn, Nat.div_eq_of_lt hn, Nat.toDigits_zero, Nat.mod_eq_of_lt hn]
    obtain ⟨w, rfl⟩ : ∃ w, width = w + 1 := ⟨width - 1, by omega⟩
    simp [List.replicate_succ']
  · rw [Nat.toDigits_of_base_le (by omega) (by omega)]
    simp

/-- Four hexadecimal digits are read as the number they were written for. -/
theorem hex4?_hexText (hn : n < 0x10000) (rest : List Char) :
    hex4? (hexText 4 n ++ rest) = some (n, rest) := by
  have hfirst : hexText 1 (n / 16 / 16 / 16) = [(n / 16 / 16 / 16).digitChar] := by
    rw [hexText, Nat.toDigits_of_lt_base (by omega)]
    rfl
  rw [hexText_succ 3 n (by omega), hexText_succ 2 _ (by omega), hexText_succ 1 _ (by omega), hfirst]
  have hdigit := fun d => hexDigit?_digitChar (d % 16) (Nat.mod_lt d (by omega))
  simp only [List.cons_append, List.nil_append, hex4?, hdigit,
    hexDigit?_digitChar (n / 16 / 16 / 16) (by omega), Option.bind_eq_bind, Option.bind_some]
  rw [show ((n / 16 / 16 / 16 * 16 + n / 16 / 16 % 16) * 16 + n / 16 % 16) * 16 + n % 16 = n by
    omega]

/-- No character is half of a pair. -/
theorem isScalar_toNat (c : Char) : isScalar c.toNat = true := by
  have hvalid : c.toNat < 0xD800 ∨ 0xDFFF < c.toNat ∧ c.toNat < 0x110000 := c.valid
  simp only [isScalar, Bool.or_eq_true, Bool.and_eq_true, decide_eq_true_eq]
  omega

/-- A unit that is a character of its own stands for it, whatever follows. -/
theorem escape?_unit (hc : c.toNat < 0x10000) (cs : List Char) :
    escape? ('u' :: (hexText 4 c.toNat ++ cs)) = some (c, cs) := by
  have hscalar : scalar c.toNat = c := by
    rw [scalar, if_pos (isScalar_toNat c), Char.ofNat_toNat]
  have hvalid : c.toNat < 0xD800 ∨ 0xDFFF < c.toNat ∧ c.toNat < 0x110000 := c.valid
  simp only [escape?, hex4?_hexText hc, Option.bind_eq_bind, Option.bind_some, hscalar]
  split
  · rw [if_neg (by omega)]
  · rfl

/-- Two units that are a pair stand for its character. -/
theorem escape?_pair {high low : Nat} (hhigh : 0xD800 ≤ high ∧ high ≤ 0xDBFF)
    (hlow : 0xDC00 ≤ low ∧ low ≤ 0xDFFF)
    (hc : c.toNat = 0x10000 + (high - 0xD800) * 0x400 + (low - 0xDC00)) (cs : List Char) :
    escape? ('u' :: (hexText 4 high ++ (unitEscape low ++ cs))) = some (c, cs) := by
  have hsecond : lowHalf? (unitEscape low ++ cs) = some (low, cs) := by
    simp only [unitEscape, List.cons_append, lowHalf?, hex4?_hexText (show low < 0x10000 by omega),
      Option.bind_some, if_pos hlow]
  simp only [escape?, hex4?_hexText (show high < 0x10000 by omega), Option.bind_eq_bind,
    Option.bind_some, hsecond, if_pos hhigh]
  rw [← hc, Char.ofNat_toNat]

theorem quotedTail?_backslash {after : List Char} (h : escape? cs = some (c, after)) :
    quotedTail? (fuel + 1) done ('\\' :: cs) = quotedTail? fuel (c :: done) after := by
  rw [quotedTail?, h]

theorem quotedTail?_pair {high low : Nat} (hhigh : 0xD800 ≤ high ∧ high ≤ 0xDBFF)
    (hlow : 0xDC00 ≤ low ∧ low ≤ 0xDFFF)
    (hc : c.toNat = 0x10000 + (high - 0xD800) * 0x400 + (low - 0xDC00)) :
    quotedTail? (fuel + 1) done (unitEscape high ++ unitEscape low ++ cs) =
      quotedTail? fuel (c :: done) cs := by
  rw [List.append_assoc]
  exact quotedTail?_backslash (escape?_pair hhigh hlow hc cs)

/-- One character between quotes takes one step. -/
theorem quotedTail?_escapeChar (c : Char) (fuel : Nat) (done cs : List Char) :
    quotedTail? (fuel + 1) done (escapeChar c ++ cs) = quotedTail? fuel (c :: done) cs := by
  unfold escapeChar
  dsimp only
  split_ifs with hquote hslash hplain hline hreturn htab hback hfeed hunit
  · rw [beq_iff_eq.1 hquote]
    rfl
  · rw [beq_iff_eq.1 hslash]
    rfl
  · have hlow : ¬ c.toNat < 32 := by simp_all
    rw [List.singleton_append, quotedTail?.eq_def]
    simp_all
  · rw [beq_iff_eq.1 hline]
    rfl
  · rw [beq_iff_eq.1 hreturn]
    rfl
  · rw [beq_iff_eq.1 htab]
    rfl
  · rw [show c = '\x08' from Char.toNat_inj.1 (beq_iff_eq.1 hback)]
    rfl
  · rw [show c = '\x0c' from Char.toNat_inj.1 (beq_iff_eq.1 hfeed)]
    rfl
  · exact quotedTail?_backslash (escape?_unit hunit cs)
  · have hvalid : c.toNat < 0xD800 ∨ 0xDFFF < c.toNat ∧ c.toNat < 0x110000 := c.valid
    exact quotedTail?_pair (by omega) (by omega) (by omega)

theorem quotedTail?_escaped (hfuel : cs.length < fuel) :
    quotedTail? fuel done (cs.flatMap escapeChar ++ '"' :: rest) =
      some (String.ofList (done.reverse ++ cs), rest) := by
  induction cs generalizing fuel done with
  | nil =>
    obtain ⟨fuel, rfl⟩ : ∃ k, fuel = k + 1 := ⟨fuel - 1, by omega⟩
    simp [quotedTail?]
  | cons c cs ih =>
    obtain ⟨fuel, rfl⟩ : ∃ k, fuel = k + 1 := ⟨fuel - 1, by omega⟩
    rw [List.flatMap_cons, List.append_assoc, quotedTail?_escapeChar,
      ih (by simpa using hfuel)]
    simp

theorem escapeChar_ne_nil (c : Char) : escapeChar c ≠ [] := by
  unfold escapeChar
  dsimp only
  split_ifs <;> exact List.cons_ne_nil _ _

/-- A text between quotes is read back. -/
theorem quotedText?_quote (s : String) (rest : List Char) :
    quotedText? (s.toList.flatMap escapeChar ++ '"' :: rest) = some (s, rest) := by
  rw [quotedText?, quotedTail?_escaped]
  · simp
  · have hlength := length_le_flatMap escapeChar_ne_nil s.toList
    rw [List.length_append]
    omega

end Texts

/-! ## Numbers and words -/

section Scalars

variable {cs rest : List Char} {v : Json} {depth fuel : Nat}

/-- What stands behind a value of a list: a comma, a line break, or nothing. -/
def Stops (rest : List Char) : Prop := ∀ c ∈ rest.head?, c = ',' ∨ c = '\n'

theorem Stops.cases (h : Stops rest) :
    rest = [] ∨ ∃ more, rest = ',' :: more ∨ rest = '\n' :: more := by
  cases rest with
  | nil => exact .inl rfl
  | cons c more => exact .inr ⟨more, (h c rfl).imp (congrArg (· :: more)) (congrArg (· :: more))⟩

theorem takeWhile_digits_append (h : Stops rest) (cs : List Char) :
    (cs ++ rest).takeWhile Char.isDigit = cs.takeWhile Char.isDigit ∧
      (cs ++ rest).dropWhile Char.isDigit = cs.dropWhile Char.isDigit ++ rest := by
  induction cs with
  | nil => obtain rfl | ⟨more, rfl | rfl⟩ := h.cases <;> exact ⟨rfl, rfl⟩
  | cons c cs ih =>
    by_cases hc : c.isDigit = true
    · simp [hc, ih]
    · simp [hc]

theorem wholePart_append (h : Stops rest) (cs : List Char) :
    wholePart (cs ++ rest) = ((wholePart cs).1, (wholePart cs).2 ++ rest) := by
  obtain ⟨htake, hdrop⟩ := takeWhile_digits_append h cs
  cases cs with
  | nil => obtain rfl | ⟨more, rfl | rfl⟩ := h.cases <;> rfl
  | cons c cs =>
    by_cases hc : c = '0'
    · subst hc
      rfl
    · rw [wholePart.eq_2 (c :: cs) (by simp [hc]), ← htake, ← hdrop]
      exact wholePart.eq_2 _ (by simp [hc])

theorem fraction_append (h : Stops rest) (cs : List Char) :
    fraction (cs ++ rest) = ((fraction cs).1, (fraction cs).2 ++ rest) := by
  cases cs with
  | nil => obtain rfl | ⟨more, rfl | rfl⟩ := h.cases <;> rfl
  | cons c cs =>
    by_cases hc : c = '.'
    · obtain ⟨htake, hdrop⟩ := takeWhile_digits_append h cs
      subst hc
      simp only [List.cons_append, fraction, htake, hdrop]
      split <;> rfl
    · simp [fraction, hc]

theorem exponent_append (h : Stops rest) (cs : List Char) :
    exponent (cs ++ rest) = ((exponent cs).1, (exponent cs).2 ++ rest) := by
  cases cs with
  | nil => obtain rfl | ⟨more, rfl | rfl⟩ := h.cases <;> rfl
  | cons c cs =>
    simp only [List.cons_append, exponent]
    split
    · cases cs with
      | nil => obtain rfl | ⟨more, rfl | rfl⟩ := h.cases <;> rfl
      | cons s cs =>
        simp only [List.cons_append]
        split_ifs
        · simp only [takeWhile_digits_append h cs]
          split <;> rfl
        · simp only [← List.cons_append, takeWhile_digits_append h (s :: cs)]
          split <;> rfl
    · rfl

theorem magnitude?_append {isNegative : Bool} (h : magnitude? isNegative cs = some (v, []))
    (hrest : Stops rest) : magnitude? isNegative (cs ++ rest) = some (v, rest) := by
  simp only [magnitude?, wholePart_append hrest, fraction_append hrest,
    exponent_append hrest] at h ⊢
  split_ifs at h ⊢
  all_goals
    simp only [Option.some.injEq, Prod.mk.injEq] at h ⊢
    exact ⟨h.1, by rw [h.2, List.nil_append]⟩

/-- A number is read alike in front of what may follow it. -/
theorem number?_append (h : number? cs = some (v, [])) (hrest : Stops rest) :
    number? (cs ++ rest) = some (v, rest) := by
  cases cs with
  | nil => cases h
  | cons c cs =>
    by_cases hc : c = '-'
    · subst hc
      exact magnitude?_append h hrest
    · rw [number?.eq_2 _ (by simp [hc])] at h
      rw [number?.eq_2 _ (by simp [hc])]
      exact magnitude?_append h hrest

theorem isPrefixOf_append (hrest : Stops rest) {w : List Char} (hw : ',' ∉ w ∧ '\n' ∉ w) :
    w.isPrefixOf (cs ++ rest) = w.isPrefixOf cs := by
  induction w generalizing cs with
  | nil => rfl
  | cons x w ih =>
    cases cs with
    | nil =>
      obtain rfl | ⟨more, rfl | rfl⟩ := hrest.cases
      · rfl
      · have hx : x ≠ ',' := fun h => hw.1 (h ▸ .head _)
        simp [List.isPrefixOf, hx]
      · have hx : x ≠ '\n' := fun h => hw.2 (h ▸ .head _)
        simp [List.isPrefixOf, hx]
    | cons c cs =>
      rw [List.cons_append, List.isPrefixOf_cons_cons, List.isPrefixOf_cons_cons,
        ih ⟨fun h => hw.1 (.tail _ h), fun h => hw.2 (.tail _ h)⟩]

/-- A number or word is read alike in front of what may follow it. -/
theorem scalarValue?_append (h : scalarValue? cs = some (v, [])) (hrest : Stops rest) :
    scalarValue? (cs ++ rest) = some (v, rest) := by
  have hwords : ∀ w ∈ words, ',' ∉ w.1 ∧ '\n' ∉ w.1 := by decide
  have hfind : (words.find? fun w => w.1.isPrefixOf (cs ++ rest)) =
      words.find? fun w => w.1.isPrefixOf cs :=
    List.find?_congr fun w hw => isPrefixOf_append hrest (hwords w hw)
  simp only [scalarValue?, hfind] at h ⊢
  split at h
  · rename_i w u hw
    have hhead : w <+: cs := List.isPrefixOf_iff_prefix.1 (List.find?_some (a := (w, u)) hw)
    simp only [Option.some.injEq, Prod.mk.injEq] at h ⊢
    rw [List.drop_append_of_le_length hhead.length_le, h.2]
    exact ⟨h.1, rfl⟩
  · exact number?_append h hrest

/-- Nothing in front of which a value could be missed starts one. -/
theorem value_of_scalarValue? (h : scalarValue? cs = some (v, rest)) :
    value (fuel + 1) depth cs = .ok (v, rest) := by
  rw [value.eq_def]
  dsimp only
  split
  · cases h
  · cases h
  · cases h
  · rw [h]
    rfl

theorem toDigits_ne_zero_cons {n : Nat} (hn : n ≠ 0) (ds : List Char) :
    Nat.toDigits 10 n ≠ '0' :: ds := by
  induction n using Nat.strong_induction_on generalizing ds with
  | _ n ih =>
    rw [Nat.toDigits_eq_if (by omega)]
    split
    · exact fun h => hn (Nat.digitChar_eq_zero.1 (List.cons.inj h).1)
    · cases hcs : Nat.toDigits 10 (n / 10) with
      | nil => exact (Nat.toDigits_ne_nil hcs).elim
      | cons c cs =>
        intro h
        rw [(List.cons.inj h).1] at hcs
        exact ih (n / 10) (by omega) (by omega) cs hcs

theorem magnitude?_toDigits {n : Nat} (hn : (Nat.toDigits 10 n).length ≤ digitLimit)
    (isNegative : Bool) : magnitude? isNegative (Nat.toDigits 10 n) =
      some (.int (if isNegative then -(n : Int) else n), []) := by
  have hdigits : ∀ c ∈ Nat.toDigits 10 n, c.isDigit = true := fun c hc =>
    Nat.isDigit_of_mem_toDigits (by omega) (by omega) hc
  have hwhole : wholePart (Nat.toDigits 10 n) = (Nat.toDigits 10 n, []) := by
    by_cases hzero : n = 0
    · subst hzero
      rfl
    · rw [wholePart.eq_2 _ (toDigits_ne_zero_cons hzero), List.takeWhile_eq_self_iff.2 hdigits,
        List.dropWhile_eq_nil_iff.2 hdigits]
  have hvalue : decimalValue (Nat.toDigits 10 n) = n := by
    have hread : Nat.ofDigitChars 10 (Nat.toDigits 10 n) 0 = n := Nat.ofDigitChars_ten_toDigits
    simp only [Nat.ofDigitChars_eq_foldl, Nat.mul_comm 10] at hread
    exact hread
  have hne : (Nat.toDigits 10 n).isEmpty = false := by
    simp
  simp only [magnitude?, hwhole, hne, hvalue]
  simp [fraction, exponent, Nat.not_lt.2 hn]

/-- A whole number is read back. -/
theorem scalarValue?_int {n : Int} (hn : (Nat.toDigits 10 n.natAbs).length ≤ digitLimit) :
    scalarValue? (toString n).toList = some (.int n, []) := by
  have hletters : (words.all fun w => w.1.any fun c => !c.isDigit && c != '-') = true := by decide
  have hdigits : ∀ m, ∀ c ∈ Nat.toDigits 10 m, c.isDigit = true := fun m c hc =>
    Nat.isDigit_of_mem_toDigits (by omega) (by omega) hc
  have hfind : ∀ cs : List Char, (∀ c ∈ cs, c.isDigit = true ∨ c = '-') →
      (words.find? fun w => w.1.isPrefixOf cs) = none := by
    intro cs hcs
    refine List.find?_eq_none.2 fun w hw hhead => ?_
    obtain ⟨c, hc, hletter⟩ := List.any_eq_true.1 (List.all_eq_true.1 hletters w hw)
    have hword : w.1 <+: cs := List.isPrefixOf_iff_prefix.1 hhead
    obtain h | rfl := hcs c (hword.subset hc)
    · rw [h] at hletter
      cases hletter
    · cases hletter
  cases n with
  | ofNat m =>
    have htext : (toString (Int.ofNat m)).toList = Nat.toDigits 10 m := by
      rw [show toString (Int.ofNat m) = toString m from rfl, Nat.toString_eq_ofList_toDigits,
        String.toList_ofList]
    rw [htext, scalarValue?, hfind _ fun c hc => .inl (hdigits m c hc)]
    dsimp only
    rw [number?.eq_2]
    · exact magnitude?_toDigits hn false
    · intro cs h
      cases hdigits m '-' (h ▸ .head _)
  | negSucc m =>
    have htext : (toString (Int.negSucc m)).toList = '-' :: Nat.toDigits 10 (m + 1) := by
      rw [show toString (Int.negSucc m) = "-" ++ toString (m + 1) from rfl,
        Nat.toString_eq_ofList_toDigits]
      simp
    rw [htext, scalarValue?, hfind]
    · exact magnitude?_toDigits hn true
    · intro c hc
      exact (List.mem_cons.1 hc).symm.imp (hdigits _ c) id

end Scalars

/-! ## Values as they are laid out -/

section Layout

variable {level : Nat}

/-- A line break and the blanks that stand in front of a part. -/
def breakAt (level : Nat) : List Char := '\n' :: List.replicate (2 * level) ' '

/-- The characters of a value inside `level` brackets. -/
def textAt (level : Nat) (v : Json) : List Char := (indentedAt level v).toList

/-- The characters of a text between quotes. -/
def quoted (s : String) : List Char := '"' :: (s.toList.flatMap escapeChar ++ ['"'])

/-- The characters of a field inside `level` brackets. -/
def fieldAt (level : Nat) (field : String × Json) : List Char :=
  quoted field.1 ++ ':' :: ' ' :: textAt level field.2

/-- Parts behind the first one, each behind a comma on a line of its own. -/
def furtherAt (level : Nat) (parts : List (List Char)) : List Char :=
  parts.flatMap fun p => ',' :: (breakAt level ++ p)

/-- Parts between brackets, each on a line of its own. -/
def laidOut (opening closing : Char) (level : Nat) : List (List Char) → List Char
  | [] => [opening, closing]
  | p :: ps => opening :: (breakAt (level + 1) ++ (p ++ (furtherAt (level + 1) ps ++
      (breakAt level ++ [closing]))))

@[simp] theorem toList_lineStart (level : Nat) : (lineStart level).toList = breakAt level := by
  simp [lineStart, breakAt]

@[simp] theorem toList_quote (s : String) : (quote s).toList = quoted s := by
  simp [quote, quoted]

theorem toList_bracketed {opening closing : String} {o c : Char} (ho : opening.toList = [o])
    (hc : closing.toList = [c]) (level : Nat) (parts : List String) :
    (bracketed opening closing level parts).toList =
      laidOut o c level (parts.map String.toList) := by
  cases parts with
  | nil => simp [bracketed, laidOut, ho, hc]
  | cons p ps =>
    have hjoin : ∀ p : String, (("," ++ lineStart (level + 1)).intercalate (p :: ps)).toList =
        p.toList ++ furtherAt (level + 1) (ps.map String.toList) := by
      induction ps with
      | nil => simp [furtherAt]
      | cons q ps ih =>
        intro p
        simp [String.intercalate_cons_cons, ih q, furtherAt]
    simp [bracketed, laidOut, ho, hc, hjoin p]

theorem map_indentedItems (level : Nat) (vs : List Json) :
    (indentedItems level vs).map String.toList = vs.map (textAt level) := by
  induction vs with
  | nil => rfl
  | cons v vs ih => simp [indentedItems, ih, textAt]

theorem map_indentedFields (level : Nat) (fields : List (String × Json)) :
    (indentedFields level fields).map String.toList = fields.map (fieldAt level) := by
  induction fields with
  | nil => rfl
  | cons field fields ih => simp [indentedFields, ih, fieldAt, textAt]

theorem textAt_array (level : Nat) (vs : List Json) :
    textAt level (.array vs) = laidOut '[' ']' level (vs.map (textAt (level + 1))) := by
  rw [textAt, indentedAt, toList_bracketed (o := '[') (c := ']') rfl rfl, map_indentedItems]

theorem textAt_object (level : Nat) (fields : List (String × Json)) :
    textAt level (.object fields) =
      laidOut '\x7b' '\x7d' level (fields.map (fieldAt (level + 1))) := by
  rw [textAt, indentedAt, toList_bracketed (o := '\x7b') (c := '\x7d') rfl rfl,
    map_indentedFields]

end Layout

/-! ## Values that can be read back -/

/-- Inside `depth` brackets the value can be written and read: whole numbers are not too long, other
numbers are written as such, brackets are not nested too deeply, and no two fields of an object have
the same key. -/
inductive Proper : Nat → Json → Prop
  | null {depth : Nat} : Proper depth .null
  | bool {depth : Nat} (b : Bool) : Proper depth (.bool b)
  | int {depth : Nat} (n : Int) (hdigits : (Nat.toDigits 10 n.natAbs).length ≤ digitLimit) :
    Proper depth (.int n)
  | real {depth : Nat} (literal : String)
    (hliteral : scalarValue? literal.toList = some (.real literal, [])) :
    Proper depth (.real literal)
  | text {depth : Nat} (s : String) : Proper depth (.text s)
  | array {depth : Nat} (items : List Json) (hdepth : depth < nestingLimit)
    (hitems : ∀ v ∈ items, Proper (depth + 1) v) : Proper depth (.array items)
  | object {depth : Nat} (fields : List (String × Json)) (hdepth : depth < nestingLimit)
    (hkeys : (fields.map Prod.fst).Nodup)
    (hfields : ∀ field ∈ fields, Proper (depth + 1) field.2) : Proper depth (.object fields)

section Reading

variable {depth level fuel : Nat} {v : Json} {cs rest : List Char}

/-- A value inside `depth` brackets is read back in front of what may follow it. -/
def ReadsBack (depth : Nat) (v : Json) : Prop :=
  ∀ fuel rest, (textAt depth v).length ≤ fuel → Stops rest →
    value fuel depth (textAt depth v ++ rest) = .ok (v, rest)

theorem readsBack_of_scalar (htext : textAt depth v = (plainText v).toList)
    (h : scalarValue? (plainText v).toList = some (v, [])) : ReadsBack depth v := by
  intro fuel rest hfuel hrest
  have hne : (plainText v).toList ≠ [] := by
    intro hnil
    rw [hnil] at h
    cases h
  have hpos := List.length_pos_iff.2 hne
  obtain ⟨fuel, rfl⟩ : ∃ k, fuel = k + 1 := ⟨fuel - 1, by rw [htext] at hfuel; omega⟩
  rw [htext]
  exact value_of_scalarValue? (scalarValue?_append h hrest)

theorem exists_cons_of_scalarValue? (h : scalarValue? cs = some (v, rest)) :
    ∃ c more, cs = c :: more ∧ isGap c = false ∧ c ≠ ']' := by
  cases cs with
  | nil => cases h
  | cons c more =>
    refine ⟨c, more, rfl, ?_, ?_⟩
    · by_contra hgap
      simp only [isGap, Bool.not_eq_false, Bool.or_eq_true, beq_iff_eq] at hgap
      obtain ((rfl | rfl) | rfl) | rfl := hgap <;> cases h
    · rintro rfl
      cases h

/-- A value starts with a character that neither is a gap nor ends a list. -/
theorem exists_cons_textAt (hv : Proper depth v) :
    ∃ c more, textAt depth v = c :: more ∧ isGap c = false ∧ c ≠ ']' := by
  cases hv with
  | null =>
    exact exists_cons_of_scalarValue?
      (show scalarValue? (plainText .null).toList = some (.null, []) from rfl)
  | bool b =>
    have hread : scalarValue? (plainText (.bool b)).toList = some (.bool b, []) := by
      cases b <;> rfl
    exact exists_cons_of_scalarValue? hread
  | int n hdigits => exact exists_cons_of_scalarValue? (scalarValue?_int hdigits)
  | real literal hliteral => exact exists_cons_of_scalarValue? hliteral
  | text s => exact ⟨'"', _, toList_quote s, rfl, by decide⟩
  | array vs =>
    rw [textAt_array]
    cases vs <;> exact ⟨'[', _, rfl, rfl, by decide⟩
  | object fields =>
    rw [textAt_object]
    cases fields <;> exact ⟨'\x7b', _, rfl, rfl, by decide⟩

theorem skipGaps_cons {c : Char} (hc : isGap c = false) : skipGaps (c :: cs) = c :: cs := by
  simp [skipGaps, hc]

theorem skipGaps_breakAt (level : Nat) (cs : List Char) :
    skipGaps (breakAt level ++ cs) = skipGaps cs := by
  simp only [skipGaps]
  refine List.dropWhile_append_of_pos fun c hc => ?_
  obtain rfl | hc := List.mem_cons.1 hc
  · rfl
  · rw [List.eq_of_mem_replicate hc]
    rfl

theorem skipGaps_textAt (hv : Proper depth v) :
    skipGaps (textAt depth v ++ rest) = textAt depth v ++ rest := by
  obtain ⟨c, cs, htext, hgap, -⟩ := exists_cons_textAt hv
  rw [htext]
  exact skipGaps_cons hgap

theorem skipGaps_fieldAt (field : String × Json) :
    skipGaps (fieldAt depth field ++ rest) = fieldAt depth field ++ rest := skipGaps_cons rfl

theorem stops_further (parts : List (List Char)) :
    Stops (furtherAt depth parts ++ (breakAt level ++ cs)) := by
  cases parts with
  | nil =>
    rintro c ⟨⟩
    exact .inr rfl
  | cons p ps =>
    rintro c ⟨⟩
    exact .inl rfl

theorem furtherAt_cons (p : List Char) (ps : List (List Char)) (cs : List Char) :
    furtherAt depth (p :: ps) ++ cs =
      ',' :: (breakAt depth ++ (p ++ (furtherAt depth ps ++ cs))) := by
  simp [furtherAt]

theorem length_lt_furtherAt (depth : Nat) (p q : List Char) (parts : List (List Char)) :
    (q ++ furtherAt depth parts).length < (p ++ furtherAt depth (q :: parts)).length := by
  simp only [furtherAt, List.flatMap_cons, List.length_append, List.length_cons]
  omega

/-- The items of an array are read back up to its bracket. The induction is on those to come. -/
theorem items_textAt {vs done : List Json} (hproper : ∀ w ∈ v :: vs, Proper depth w)
    (hread : ∀ w ∈ v :: vs, ReadsBack depth w)
    (hfuel : (textAt depth v ++ furtherAt depth (vs.map (textAt depth))).length < fuel) :
    items fuel depth done (textAt depth v ++ (furtherAt depth (vs.map (textAt depth)) ++
      (breakAt level ++ ']' :: rest))) = .ok (.array (done.reverse ++ v :: vs), rest) := by
  induction vs generalizing v done fuel with
  | nil =>
    obtain ⟨fuel, rfl⟩ : ∃ k, fuel = k + 1 := ⟨fuel - 1, by omega⟩
    rw [items, hread v (.head _) fuel _ (by simp at hfuel; omega) (stops_further _)]
    simp only [List.map_nil, furtherAt, List.flatMap_nil, List.nil_append, skipGaps_breakAt]
    rw [skipGaps_cons rfl, List.reverse_cons]
    rfl
  | cons w vs ih =>
    obtain ⟨fuel, rfl⟩ : ∃ k, fuel = k + 1 := ⟨fuel - 1, by omega⟩
    have hshort := length_lt_furtherAt depth (textAt depth v) (textAt depth w)
      (vs.map (textAt depth))
    rw [items, hread v (.head _) fuel _ (by simp at hfuel; omega) (stops_further _)]
    dsimp only
    rw [List.map_cons, furtherAt_cons, skipGaps_cons rfl]
    simp only
    rw [skipGaps_breakAt, skipGaps_textAt (hproper w (by simp)),
      ih (fun u hu => hproper u (.tail _ hu)) (fun u hu => hread u (.tail _ hu))
        (by rw [List.map_cons] at hfuel; omega)]
    simp

/-- A field is read up to what follows its value. -/
theorem fields_cons {field : String × Json} {done : List (String × Json)}
    (hproper : Proper depth field.2)
    (hread : value fuel depth (textAt depth field.2 ++ rest) = .ok (field.2, rest)) :
    (∀ more, skipGaps rest = ',' :: more →
      fields (fuel + 1) depth done (fieldAt depth field ++ rest) =
        fields fuel depth (field :: done) (skipGaps more)) ∧
    ∀ after, skipGaps rest = '\x7d' :: after →
      fields (fuel + 1) depth done (fieldAt depth field ++ rest) =
        .ok (.object (Assoc.ofPairs (field :: done).reverse), after) := by
  have hkey : fieldAt depth field ++ rest = '"' :: (field.1.toList.flatMap escapeChar ++
      '"' :: (':' :: ' ' :: (textAt depth field.2 ++ rest))) := by
    simp [fieldAt, quoted]
  have hgap : skipGaps (' ' :: (textAt depth field.2 ++ rest)) = textAt depth field.2 ++ rest :=
    skipGaps_textAt hproper
  rw [hkey, fields, quotedText?_quote]
  simp only [skipGaps_cons (show isGap ':' = false from rfl), hgap, hread]
  constructor
  · intro more hmore
    rw [hmore]
    rfl
  · intro after hafter
    rw [hafter]
    rfl

/-- The fields of an object are read back up to its brace. The induction is on those to come. -/
theorem fields_fieldAt {field : String × Json} {others done : List (String × Json)}
    (hproper : ∀ f ∈ field :: others, Proper depth f.2)
    (hread : ∀ f ∈ field :: others, ReadsBack depth f.2)
    (hfuel : (fieldAt depth field ++ furtherAt depth (others.map (fieldAt depth))).length < fuel) :
    fields fuel depth done (fieldAt depth field ++ (furtherAt depth (others.map (fieldAt depth)) ++
      (breakAt level ++ '\x7d' :: rest))) =
      .ok (.object (Assoc.ofPairs (done.reverse ++ field :: others)), rest) := by
  induction others generalizing field done fuel with
  | nil =>
    obtain ⟨fuel, rfl⟩ : ∃ k, fuel = k + 1 := ⟨fuel - 1, by omega⟩
    have hlast : skipGaps (furtherAt depth [] ++ (breakAt level ++ '\x7d' :: rest)) =
        '\x7d' :: rest := by
      rw [furtherAt, List.flatMap_nil, List.nil_append, skipGaps_breakAt, skipGaps_cons rfl]
    rw [List.map_nil, (fields_cons (hproper field (.head _)) (hread field (.head _) fuel _
      (by simp [fieldAt] at hfuel; omega) (stops_further _))).2 _ hlast, List.reverse_cons]
  | cons next others ih =>
    obtain ⟨fuel, rfl⟩ : ∃ k, fuel = k + 1 := ⟨fuel - 1, by omega⟩
    have hshort := length_lt_furtherAt depth (fieldAt depth field) (fieldAt depth next)
      (others.map (fieldAt depth))
    rw [(fields_cons (hproper field (.head _)) (hread field (.head _) fuel _
      (by simp [fieldAt] at hfuel; omega) (stops_further _))).1 _
        (by rw [List.map_cons, furtherAt_cons, skipGaps_cons rfl]),
      skipGaps_breakAt, skipGaps_fieldAt,
      ih (fun f hf => hproper f (.tail _ hf)) (fun f hf => hread f (.tail _ hf))
        (by rw [List.map_cons] at hfuel; omega)]
    simp

theorem ofPairs_of_nodup {fields : List (String × Json)} (h : (fields.map Prod.fst).Nodup) :
    Assoc.ofPairs fields = fields := by
  induction fields using List.reverseRecOn with
  | nil => rfl
  | append_singleton fields field ih =>
    rw [List.map_append, List.nodup_append] at h
    rw [Assoc.ofPairs_append_singleton, ih h.1, Assoc.put_of_not_mem]
    intro hmem
    exact h.2.2 _ hmem _ (by simp) rfl

/-- Every value that can be written and read is read back as it was written. -/
theorem readsBack (hv : Proper depth v) : ReadsBack depth v := by
  induction hv with
  | null => exact readsBack_of_scalar rfl rfl
  | bool b => cases b <;> exact readsBack_of_scalar rfl rfl
  | int n hdigits => exact readsBack_of_scalar rfl (scalarValue?_int hdigits)
  | real literal hliteral => exact readsBack_of_scalar rfl hliteral
  | @text depth s =>
    intro fuel rest hfuel _
    have htext : textAt depth (.text s) = quoted s := toList_quote s
    rw [htext, quoted, List.length_cons] at hfuel
    obtain ⟨fuel, rfl⟩ : ∃ k, fuel = k + 1 := ⟨fuel - 1, by omega⟩
    rw [htext, quoted, List.cons_append, List.append_assoc, List.singleton_append, value,
      quotedText?_quote]
    rfl
  | @array depth vs hdepth hitems ih =>
    intro fuel rest hfuel _
    rw [textAt_array] at hfuel ⊢
    cases vs with
    | nil =>
      obtain ⟨fuel, rfl⟩ : ∃ k, fuel = k + 1 := ⟨fuel - 1, by simp [laidOut] at hfuel; omega⟩
      rw [List.map_nil, laidOut, List.cons_append, value, if_neg (by omega)]
      rfl
    | cons v vs =>
      simp only [List.map_cons, laidOut, List.length_cons, List.length_append, breakAt] at hfuel
      obtain ⟨fuel, rfl⟩ : ∃ k, fuel = k + 1 := ⟨fuel - 1, by omega⟩
      obtain ⟨c, more, htext, -, hclose⟩ := exists_cons_textAt (hitems v (.head _))
      rw [List.map_cons, laidOut, List.cons_append, value, if_neg (by omega)]
      simp only [List.append_assoc, skipGaps_breakAt, skipGaps_textAt (hitems v (.head _))]
      -- A value follows the bracket, and no value starts with the closing one.
      split
      · rename_i heq
        rw [htext] at heq
        exact absurd (List.cons.inj heq).1 hclose
      · exact items_textAt hitems ih (by simp; omega)
  | @object depth members hdepth hkeys hmembers ih =>
    intro fuel rest hfuel _
    rw [textAt_object] at hfuel ⊢
    cases members with
    | nil =>
      obtain ⟨fuel, rfl⟩ : ∃ k, fuel = k + 1 := ⟨fuel - 1, by simp [laidOut] at hfuel; omega⟩
      rw [List.map_nil, laidOut, List.cons_append, value, if_neg (by omega)]
      rfl
    | cons field others =>
      simp only [List.map_cons, laidOut, List.length_cons, List.length_append, breakAt] at hfuel
      obtain ⟨fuel, rfl⟩ : ∃ k, fuel = k + 1 := ⟨fuel - 1, by omega⟩
      rw [List.map_cons, laidOut, List.cons_append, value, if_neg (by omega)]
      simp only [List.append_assoc, skipGaps_breakAt, skipGaps_fieldAt]
      refine (fields_fieldAt hmembers ih (by simp; omega)).trans ?_
      rw [List.reverse_nil, List.nil_append, ofPairs_of_nodup hkeys]
      rfl

/-- A value that is written with one item or field per line is read back as it was. -/
theorem ofText_indented (hv : Proper 0 v) : ofText (indented v).toList = .ok v := by
  have hread := readsBack hv (2 * (textAt 0 v).length + 2) [] (by omega) (by rintro c ⟨⟩)
  have hskip : skipGaps (textAt 0 v ++ []) = _ := skipGaps_textAt hv
  rw [List.append_nil] at hread hskip
  rw [ofText, show (indented v).toList = textAt 0 v from rfl, hskip, hread]
  rfl

end Reading

end SourceAtlas.Json
