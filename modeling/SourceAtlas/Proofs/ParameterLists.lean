import SourceAtlas.Outline.CSharp
import SourceAtlas.Proofs.Words

/-!
# Parameter lists and their names

A parameter is a type and a name, with a word such as `ref` in front or not, and with a default
behind or not. Types have arguments and parts that are types again, so a list of parameters has
commas at every depth.

`parameterNames_render` says that the names are found in the text of any such list, in order. The
two halves of it do not meet: the cut at the outer commas (`Reads`) knows types only, by induction
over them, and the reading of one parameter (`Declares`) knows of the type only that it has no
equals sign.
-/

set_option autoImplicit false

namespace SourceAtlas.CSharp

open Text

/-! ## Types and parameters -/

/-- A type. -/
inductive TypeExpr where
  | name (n : Identifier)
  | member (t : TypeExpr) (n : Identifier)
  | optional (t : TypeExpr)
  | array (t : TypeExpr)
  | generic (t : TypeExpr) (arguments : List TypeExpr)
  | tuple (parts : List TypeExpr)

namespace TypeExpr

/-- The text of a type. -/
def render : TypeExpr → List Char
  | name n => n.text
  | member t n => t.render ++ '.' :: n.text
  | optional t => t.render ++ ['?']
  | array t => t.render ++ ['[', ']']
  | generic t arguments => t.render ++ '<' :: (join [',', ' '] (arguments.map render) ++ ['>'])
  | tuple parts => '(' :: (join [',', ' '] (parts.map render) ++ [')'])

/-- Induction over types, with the hypothesis for each argument and each part. -/
theorem induct {P : TypeExpr → Prop} (name : ∀ n, P (.name n))
    (member : ∀ t n, P t → P (.member t n)) (optional : ∀ t, P t → P (.optional t))
    (array : ∀ t, P t → P (.array t))
    (generic : ∀ t arguments, P t → (∀ a ∈ arguments, P a) → P (.generic t arguments))
    (tuple : ∀ parts, (∀ a ∈ parts, P a) → P (.tuple parts)) : ∀ t, P t
  | .name n => name n
  | .member t n => member t n (induct name member optional array generic tuple t)
  | .optional t => optional t (induct name member optional array generic tuple t)
  | .array t => array t (induct name member optional array generic tuple t)
  | .generic t arguments =>
    generic t arguments (induct name member optional array generic tuple t) fun a _ =>
      induct name member optional array generic tuple a
  | .tuple parts => tuple parts fun a _ => induct name member optional array generic tuple a

/-- A type has no equals sign. -/
theorem equals_not_mem_render (t : TypeExpr) : '=' ∉ t.render := by
  have hname : ∀ n : Identifier, '=' ∉ n.text := fun n h => n.ne_of_mem h (by decide) rfl
  have hlist : ∀ ts : List TypeExpr, (∀ t ∈ ts, '=' ∉ t.render) →
      '=' ∉ join [',', ' '] (ts.map render) := by
    intro ts hts
    apply not_mem_join (by decide)
    intro w hw
    obtain ⟨t, ht, rfl⟩ := List.mem_map.1 hw
    exact hts t ht
  induction t using induct with
  | name n => simpa [render] using hname n
  | member t n ih => simpa [render, ih] using hname n
  | optional t ih | array t ih => simpa [render] using ih
  | generic t arguments ih iharguments => simpa [render, ih] using hlist arguments iharguments
  | tuple parts ih => simpa [render] using hlist parts ih

end TypeExpr

/-- Characters that a default may have. -/
def isDefaultChar (c : Char) : Bool :=
  !(c == ',' || c == '=' || c == '<' || c == '>' || c == '(' || c == ')')

/-- A parameter. The words in front of types are no names. -/
structure Parameter where
  modifier : Option String
  type : TypeExpr
  name : Identifier
  default : Option (List Char)
  modifier_mem : ∀ m ∈ modifier, m ∈ modifiers
  name_ne_modifier : ∀ m ∈ modifiers, m.toList ≠ name.text ++ [' ']
  isDefaultChar : ∀ d ∈ default, ∀ c ∈ d, isDefaultChar c = true

/-- The text of a default. -/
def Parameter.defaultText (p : Parameter) : List Char :=
  match p.default with
  | none => []
  | some d => ' ' :: '=' :: ' ' :: d

/-- The text of a parameter. -/
def Parameter.render (p : Parameter) : List Char :=
  (p.modifier.elim [] String.toList ++ (p.type.render ++ [' '])) ++ (p.name.text ++ p.defaultText)

/-! ## Commas -/

/-- The text is read to its end as a part of one piece. -/
def Reads (depth : Int) (text : List Char) : Prop :=
  ∀ piece rest, pieces depth piece (text ++ rest) = pieces depth (text.reverse ++ piece) rest

section Reads

variable {depth : Int} {s t : List Char}

theorem Reads.append (hs : Reads depth s) (ht : Reads depth t) : Reads depth (s ++ t) := by
  intro piece rest
  rw [List.append_assoc, hs, ht, List.reverse_append, List.append_assoc]

theorem reads_nil : Reads depth [] := fun _ _ => rfl

/-- Signs other than brackets, and commas inside of brackets. -/
theorem reads_of_forall (h : ∀ c ∈ s, (c ≠ '<' ∧ c ≠ '>' ∧ c ≠ '(' ∧ c ≠ ')') ∧
    (c = ',' → depth ≠ 0)) : Reads depth s := by
  induction s with
  | nil => exact reads_nil
  | cons c s ih =>
    intro piece rest
    obtain ⟨⟨h1, h2, h3, h4⟩, hcomma⟩ := h c List.mem_cons_self
    rw [List.cons_append, pieces, if_neg (by simp [h1, h3]), if_neg (by simp [h2, h4]),
      if_neg (by simpa using hcomma), ih (List.forall_mem_cons.1 h).2]
    simp

theorem Reads.angled (h : Reads (depth + 1) s) : Reads depth ('<' :: (s ++ ['>'])) := by
  intro piece rest
  rw [List.cons_append, pieces, if_pos (by simp), List.append_assoc, h, List.singleton_append,
    pieces, if_neg (by simp), if_pos (by simp)]
  simp

theorem Reads.parenthesized (h : Reads (depth + 1) s) : Reads depth ('(' :: (s ++ [')'])) := by
  intro piece rest
  rw [List.cons_append, pieces, if_pos (by simp), List.append_assoc, h, List.singleton_append,
    pieces, if_neg (by simp), if_pos (by simp)]
  simp

theorem Reads.join (hdepth : depth ≠ 0) {ws : List (List Char)} (h : ∀ w ∈ ws, Reads depth w) :
    Reads depth (Text.join [',', ' '] ws) := by
  induction ws with
  | nil => exact reads_nil
  | cons w ws ih =>
    have hw := h w List.mem_cons_self
    cases ws with
    | nil => simpa using hw
    | cons v ws =>
      rw [join_cons_of_ne_nil _ _ (by simp)]
      have hsep : Reads depth [',', ' '] := reads_of_forall (by simp [hdepth])
      exact (hw.append hsep).append (ih (List.forall_mem_cons.1 h).2)

theorem reads_identifier (n : Identifier) : Reads depth n.text := by
  apply reads_of_forall
  intro c hc
  have hne : ∀ {d}, (isIdentifierStart d || isIdentifierContinue d) = false → c ≠ d :=
    n.ne_of_mem hc
  exact ⟨⟨hne (by decide), hne (by decide), hne (by decide), hne (by decide)⟩,
    fun h => absurd h (hne (by decide))⟩

/-- A type is read as a part of one piece, for its commas are inside of brackets. -/
theorem reads_type (t : TypeExpr) (hdepth : 0 ≤ depth) : Reads depth t.render := by
  have hlist : ∀ {depth : Int} {ts : List TypeExpr}, 0 ≤ depth →
      (∀ t ∈ ts, ∀ depth : Int, 0 ≤ depth → Reads depth t.render) →
      Reads (depth + 1) (Text.join [',', ' '] (ts.map TypeExpr.render)) := by
    intro depth ts hdepth hts
    apply Reads.join (by omega)
    intro w hw
    obtain ⟨t, ht, rfl⟩ := List.mem_map.1 hw
    exact hts t ht (depth + 1) (by omega)
  induction t using TypeExpr.induct generalizing depth with
  | name n =>
    rw [TypeExpr.render]
    exact reads_identifier n
  | member t n ih =>
    rw [TypeExpr.render]
    have hdot : Reads depth ['.'] := reads_of_forall (by simp)
    exact (ih hdepth).append (hdot.append (reads_identifier n))
  | optional t ih | array t ih =>
    rw [TypeExpr.render]
    exact (ih hdepth).append (reads_of_forall (by simp))
  | generic t arguments ih iharguments =>
    rw [TypeExpr.render]
    exact (ih hdepth).append (hlist hdepth fun t ht depth h => iharguments t ht h).angled
  | tuple parts ih =>
    rw [TypeExpr.render]
    exact (hlist hdepth fun t ht depth h => ih t ht h).parenthesized

/-- A list is cut at the commas between its members. -/
theorem pieces_join (piece w : List Char) {ws : List (List Char)} (hw : Reads 0 w)
    (hws : ∀ w ∈ ws, Reads 0 w) :
    pieces 0 piece (Text.join [',', ' '] (w :: ws)) =
      (piece.reverse ++ w) :: ws.map (' ' :: ·) := by
  induction ws generalizing piece w with
  | nil =>
    have hlast := hw piece []
    rw [List.append_nil, pieces] at hlast
    simpa using hlast
  | cons v ws ih =>
    rw [join_cons_of_ne_nil _ _ (by simp), List.append_assoc, hw]
    have hcomma : ∀ piece rest, pieces 0 piece ([',', ' '] ++ rest) =
        piece.reverse :: pieces 0 [' '] rest := by
      intro piece rest
      rw [List.cons_append, pieces, if_neg (by simp), if_neg (by simp), if_pos (by simp),
        List.cons_append, pieces, if_neg (by simp), if_neg (by simp), if_neg (by simp)]
      rfl
    rw [hcomma, ih [' '] v (hws v List.mem_cons_self) fun u hu =>
      hws u (List.mem_cons_of_mem v hu)]
    simp

theorem modifiers_plain : ∀ m ∈ modifiers, ∀ c ∈ m.toList,
    (c ≠ '<' ∧ c ≠ '>' ∧ c ≠ '(' ∧ c ≠ ')') ∧ (c = ',' → (0 : Int) ≠ 0) := by
  decide

theorem reads_parameter (p : Parameter) : Reads 0 p.render := by
  have hmodifier : Reads 0 (p.modifier.elim [] String.toList) := by
    cases h : p.modifier with
    | none => exact reads_nil
    | some m =>
      apply reads_of_forall
      exact modifiers_plain m (p.modifier_mem m h)
  have hdefault : Reads 0 p.defaultText := by
    rw [Parameter.defaultText]
    split
    · exact reads_nil
    · rename_i d hd
      have hsign : Reads 0 [' ', '=', ' '] := reads_of_forall (by simp)
      apply hsign.append
      apply reads_of_forall
      intro c hc
      have hplain := p.isDefaultChar d hd c hc
      simp [CSharp.isDefaultChar] at hplain
      tauto
  have hblank : Reads 0 [' '] := reads_of_forall (by simp)
  exact (hmodifier.append ((reads_type p.type (by omega)).append hblank)).append
    ((reads_identifier p.name).append hdefault)

end Reads

/-! ## One parameter -/

section Declares

variable {name : Identifier} {text : List Char}

/-- The text is empty or ends with a blank, and has no equals sign. -/
def Leads (front : List Char) : Prop := (∀ c ∈ front.getLast?, isBlank c = true) ∧ '=' ∉ front

theorem leads_nil : Leads [] := by simp [Leads]

theorem Leads.of_append {u v : List Char} (h : Leads (u ++ v)) : Leads v := by
  refine ⟨fun c hc => h.1 c ?_, fun hmem => h.2 (List.mem_append_right u hmem)⟩
  rw [List.getLast?_append, Option.mem_def.1 hc]
  rfl

theorem Leads.trimLeft {front : List Char} (h : Leads front) : Leads (trimLeft front) := by
  rw [← List.takeWhile_append_dropWhile (p := isBlank) (l := front)] at h
  exact h.of_append

/-- The name stands at the beginning of the text or behind a blank, and nothing or a default stands
behind it. -/
def Declares (name : Identifier) (text : List Char) : Prop :=
  ∃ front tail, text = front ++ (name.text ++ tail) ∧ Leads front ∧
    (tail = [] ∨ ∃ more, tail = ' ' :: '=' :: more)

theorem trimLeft_declared (front tail : List Char) :
    trimLeft (front ++ (name.text ++ tail)) = trimLeft front ++ (name.text ++ tail) := by
  apply trimLeft_append_of_head
  obtain ⟨c, hc, hblank⟩ := name.trimmed.1
  obtain ⟨more, hmore⟩ := List.head?_eq_some_iff.1 hc
  exact ⟨c, by simp [hmore], hblank⟩

theorem trimRight_declared (front tail : List Char) :
    trimRight (front ++ (name.text ++ tail)) = front ++ (name.text ++ trimRight tail) := by
  rw [← List.append_assoc, trimRight_append_of_last, List.append_assoc]
  obtain ⟨c, hc, hblank⟩ := name.trimmed.2
  exact ⟨c, by simp [List.getLast?_append, Option.mem_def.1 hc], hblank⟩

theorem Declares.trim (h : Declares name text) : Declares name (trim text) := by
  obtain ⟨front, tail, rfl, hfront, htail⟩ := h
  rw [Text.trim, trimLeft_declared, trimRight_declared]
  refine ⟨Text.trimLeft front, trimRight tail, rfl, hfront.trimLeft, ?_⟩
  rcases htail with rfl | ⟨more, rfl⟩
  · exact .inl rfl
  · right
    have hequals : trimRight ([' ', '='] ++ more) = [' ', '='] ++ trimRight more :=
      trimRight_append_of_last ⟨'=', rfl, by decide⟩
    exact ⟨trimRight more, hequals⟩

theorem modifiers_blank : ∀ m ∈ modifiers, m.toList = m.toList.dropLast ++ [' '] ∧
    ∀ c ∈ m.toList.dropLast, isBlank c = false := by
  decide

/-- Words in front are left out, but not the name. -/
theorem Declares.dropWord (h : Declares name text) {m : String} (hm : m ∈ modifiers)
    (hname : m.toList ≠ name.text ++ [' ']) : Declares name (dropWord text m) := by
  rw [Text.dropWord]
  cases hafter : after? m.toList text with
  | none => exact h
  | some rest =>
    rw [after?_eq_some_iff] at hafter
    obtain ⟨hword, hblank⟩ := modifiers_blank m hm
    obtain ⟨front, tail, rfl, hfront, htail⟩ := h
    apply Declares.trim
    rcases List.append_eq_append_iff.1 hafter with ⟨more, hmore, hrest⟩ | ⟨more, rfl, rfl⟩
    · rcases List.eq_nil_or_concat more with rfl | ⟨most, d, rfl⟩
      · exact ⟨[], tail, hrest.symm, leads_nil, htail⟩
      · -- The word goes on behind the front, which has no blank at its end and so is empty.
        have hmost : m.toList.dropLast = front ++ most := by
          rw [hmore, List.concat_eq_append, ← List.append_assoc, List.dropLast_concat]
        have hnil : front = [] := by
          by_contra hne
          have hlast := hfront.1 (front.getLast hne) (List.getLast?_eq_some_getLast hne)
          rw [hblank _ (by simp [hmost, List.getLast_mem hne])] at hlast
          cases hlast
        rw [hnil, List.nil_append] at hmore
        rw [← hmore, hword, List.append_assoc] at hrest
        have hhead : ∀ c ∈ tail.head?, isBlank c = true := by
          rcases htail with rfl | ⟨more, rfl⟩
          · simp
          · rintro c ⟨⟩
            decide
        have hsame := congrArg (List.takeWhile fun c => !isBlank c) hrest
        rw [takeWhile_word (fun _ => name.not_isBlank) hhead,
          takeWhile_word hblank (by rintro c ⟨⟩; decide)] at hsame
        exact absurd (hsame ▸ hword) hname
    · exact ⟨more, tail, rfl, hfront.of_append, htail⟩

theorem Declares.withoutModifiers (h : Declares name text)
    (hname : ∀ m ∈ modifiers, m.toList ≠ name.text ++ [' ']) :
    Declares name (withoutModifiers text) := by
  have hfold : ∀ ms : List String, (∀ m ∈ ms, m ∈ modifiers) → ∀ {text}, Declares name text →
      Declares name (ms.foldl Text.dropWord text) := by
    intro ms
    induction ms with
    | nil => exact fun _ _ h => h
    | cons m ms ih =>
      intro hms text h
      have hm := hms m List.mem_cons_self
      exact ih (List.forall_mem_cons.1 hms).2 (h.dropWord hm (hname m hm))
  exact hfold modifiers (fun _ hm => hm) h

/-- Without the default, the text ends with the name. -/
theorem Declares.withoutDefault (h : Declares name text) :
    ∃ front, withoutDefault text = front ++ name.text ∧ Leads front := by
  obtain ⟨front, tail, rfl, hfront, htail⟩ := h
  have hequals : '=' ∉ name.text := fun h => name.ne_of_mem h (by decide) rfl
  rcases htail with rfl | ⟨more, rfl⟩
  · refine ⟨front, ?_, hfront⟩
    have hcut : cutAt? ['='] (front ++ (name.text ++ [])) = none := by
      apply cutAt?_of_not_mem
      simp [hfront.2, hequals]
    rw [CSharp.withoutDefault, hcut, List.append_nil]
  · refine ⟨trimLeft front, ?_, hfront.trimLeft⟩
    have hnot : '=' ∉ front ++ (name.text ++ [' ']) := by simp [hfront.2, hequals]
    have hcut : cutAt? ['='] (front ++ (name.text ++ ' ' :: '=' :: more)) =
        some (front ++ (name.text ++ [' ']), more) := by
      have hhere : cutAt? ['='] (front ++ (name.text ++ [' ']) ++ (['='] ++ more)) =
          some (front ++ (name.text ++ [' ']), more) := cutAt?_append hnot more
      simpa using hhere
    have htrim : Text.trim (front ++ (name.text ++ [' '])) = trimLeft front ++ name.text := by
      have hblank : trimRight [' '] = [] := rfl
      rw [Text.trim, trimLeft_declared, trimRight_declared, hblank, List.append_nil]
    obtain ⟨c, text, htext⟩ := List.exists_cons_of_ne_nil (l := front ++ (name.text ++ [' ']))
      (by simp)
    rw [CSharp.withoutDefault, hcut, htext]
    dsimp only
    rw [← htext, htrim]

theorem dropEndWhile_brackets (n : Identifier) :
    dropEndWhile (fun c => c == '[' || c == ']') n.text = n.text := by
  obtain ⟨c, hc, -⟩ := n.trimmed.2
  have hmem := List.mem_of_mem_getLast? hc
  have hopen : c ≠ '[' := n.ne_of_mem hmem (by decide)
  have hclose : c ≠ ']' := n.ne_of_mem hmem (by decide)
  obtain ⟨front, hfront⟩ := List.getLast?_eq_some_iff.1 hc
  simp [hfront, dropEndWhile, hopen, hclose]

theorem parameterName?_eq (piece : List Char) : parameterName? piece =
    (words (withoutDefault (withoutModifiers (trim piece)))).getLast?.bind fun word =>
      if isIdentifier (dropEndWhile (fun c => c == '[' || c == ']') word) then
        some (String.ofList (dropEndWhile (fun c => c == '[' || c == ']') word))
      else none := by
  delta parameterName?
  cases (words (withoutDefault (withoutModifiers (trim piece)))).getLast? <;> rfl

theorem parameterName?_of_declares (h : Declares name text)
    (hname : ∀ m ∈ modifiers, m.toList ≠ name.text ++ [' ']) :
    parameterName? text = some (String.ofList name.text) := by
  obtain ⟨front, hfront, hleads⟩ := (h.trim.withoutModifiers hname).withoutDefault
  rw [parameterName?_eq, hfront,
    getLast?_words name.ne_nil (fun _ => name.not_isBlank) hleads.1, Option.bind_some,
    dropEndWhile_brackets, name.isIdentifier, if_pos rfl]

theorem parameterName?_cons_blank (cs : List Char) :
    parameterName? (' ' :: cs) = parameterName? cs := by
  rw [parameterName?_eq, trim_cons_blank (by decide), parameterName?_eq]

theorem declares_render (p : Parameter) : Declares p.name p.render := by
  refine ⟨_, _, rfl, ⟨?_, ?_⟩, ?_⟩
  · rw [← List.append_assoc, List.getLast?_concat]
    rintro c ⟨⟩
    decide
  · have hmodifier : '=' ∉ p.modifier.elim [] String.toList := by
      cases h : p.modifier with
      | none => simp
      | some m =>
        have hplain : ∀ m ∈ modifiers, '=' ∉ m.toList := by decide
        exact hplain m (p.modifier_mem m h)
    simp [hmodifier, p.type.equals_not_mem_render]
  · rw [Parameter.defaultText]
    split
    · exact .inl rfl
    · exact .inr ⟨_, rfl⟩

end Declares

/-! ## Lists of parameters -/

/-- In a list of parameters each parameter is found by its name, whatever its type. -/
theorem parameterNames_render (ps : List Parameter) :
    parameterNames (join [',', ' '] (ps.map Parameter.render)) =
      ps.map (String.ofList ·.name.text) := by
  have hname : ∀ p : Parameter, parameterName? p.render = some (String.ofList p.name.text) :=
    fun p => parameterName?_of_declares (declares_render p) p.name_ne_modifier
  cases ps with
  | nil => decide
  | cons p ps =>
    have hreads : ∀ w ∈ ps.map Parameter.render, Reads 0 w := by
      intro w hw
      obtain ⟨q, -, rfl⟩ := List.mem_map.1 hw
      exact reads_parameter q
    have hrest : ((ps.map Parameter.render).map (' ' :: ·)).filterMap parameterName? =
        ps.map (String.ofList ·.name.text) := by
      have hmember : (parameterName? ∘ (' ' :: ·) ∘ Parameter.render) =
          some ∘ fun q : Parameter => String.ofList q.name.text := by
        funext q
        simp only [Function.comp_apply, parameterName?_cons_blank, hname]
      rw [List.map_map, List.filterMap_map, hmember, List.filterMap_eq_map]
    rw [parameterNames, List.map_cons, pieces_join [] p.render (reads_parameter p) hreads,
      List.reverse_nil, List.nil_append, List.filterMap_cons, hname p, hrest]
    rfl

theorem parameterNames_nested_types :
    ∃ ps : List Parameter,
      join [',', ' '] (ps.map Parameter.render) =
        "ref Map<string, (int, Set<A.B>)> x, T? in_ = 3".toList ∧
      parameterNames (join [',', ' '] (ps.map Parameter.render)) = ["x", "in_"] := by
  let word := fun (text : String) (h : isIdentifier text.toList = true) =>
    (⟨text.toList, h⟩ : Identifier)
  let named := fun (text : String) (h : isIdentifier text.toList = true) =>
    TypeExpr.name (word text h)
  let set := TypeExpr.generic (named "Set" (by decide))
    [.member (named "A" (by decide)) (word "B" (by decide))]
  let map := TypeExpr.generic (named "Map" (by decide))
    [named "string" (by decide), .tuple [named "int" (by decide), set]]
  let ps : List Parameter :=
    [⟨some "ref ", map, word "x" (by decide), none, by decide, by decide, by decide⟩,
      ⟨none, .optional (named "T" (by decide)), word "in_" (by decide), some ['3'], by decide,
        by decide, by decide⟩]
  have hset : set.render = "Set<A.B>".toList := by simp [set, named, word, TypeExpr.render]
  have hmap : map.render = "Map<string, (int, Set<A.B>)>".toList := by
    simp [map, named, word, TypeExpr.render, hset, join, List.intercalate]
  refine ⟨ps, ?_, parameterNames_render ps⟩
  simp [ps, Parameter.render, Parameter.defaultText, hmap, named, word, TypeExpr.render, join,
    List.intercalate]

end SourceAtlas.CSharp
