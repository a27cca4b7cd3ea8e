import ReactiveTemplate.Template.Scanner

/-!
# Expressions in markup

An expression is the content of its element, where angle brackets are written as entities. Reading
these back gives the expression, unless an entity stands in the expression itself: ampersands are
not written as entities, so that such an expression looks like one with the bracket in its place.
-/

namespace ReactiveTemplate

namespace Markup

/-! ## Entities -/

/-- The characters of a content, with a bracket for each entity. -/
def decodeChars : List Char → List Char
  | '&' :: 'l' :: 't' :: ';' :: cs => '<' :: decodeChars cs
  | '&' :: 'g' :: 't' :: ';' :: cs => '>' :: decodeChars cs
  | c :: cs => c :: decodeChars cs
  | [] => []

/-- The text that a content stands for. -/
def decode (text : String) : String :=
  String.ofList (decodeChars text.toList)

/-- An entity stands in a text. -/
def HasEntity (cs : List Char) : Prop :=
  ['&', 'l', 't', ';'] <:+: cs ∨ ['&', 'g', 't', ';'] <:+: cs

/-- Every character but the two angle brackets is put into a content as it is, ampersands
included. -/
theorem contentChar_of_ne {c : Char} (hless : c ≠ '<') (hgreater : c ≠ '>') :
    contentChar c = [c] := by
  simp [contentChar, hless, hgreater]

/-- Besides brackets and ampersands, what stands at the head of a content stood there before. -/
theorem eq_cons_of_content {a : Char} {cs rest : List Char}
    (h : cs.flatMap contentChar = a :: rest) (ha : a ∉ ['<', '>', '&']) :
    ∃ cs', cs = a :: cs' ∧ cs'.flatMap contentChar = rest := by
  cases cs with
  | nil => contradiction
  | cons c cs =>
      rw [List.flatMap_cons] at h
      by_cases hless : c = '<'
      · subst hless
        cases h
        exact absurd ha (by decide)
      · by_cases hgreater : c = '>'
        · subst hgreater
          cases h
          exact absurd ha (by decide)
        · rw [contentChar_of_ne hless hgreater] at h
          cases h
          exact ⟨cs, rfl, rfl⟩

/-- The tail of an entity is in a content only where it stood before. -/
theorem eq_of_content_tail {a : Char} {cs rest : List Char}
    (h : cs.flatMap contentChar = a :: 't' :: ';' :: rest) (ha : a ∉ ['<', '>', '&']) :
    ∃ cs', cs = a :: 't' :: ';' :: cs' := by
  obtain ⟨cs₁, rfl, h₁⟩ := eq_cons_of_content h ha
  obtain ⟨cs₂, rfl, h₂⟩ := eq_cons_of_content h₁ (by decide)
  obtain ⟨cs₃, rfl, -⟩ := eq_cons_of_content h₂ (by decide)
  exact ⟨cs₃, rfl⟩

/-- Reading a content back gives what reading the text itself would give, because escapes are made
of nothing but brackets. -/
theorem decodeChars_content (cs : List Char) :
    decodeChars (cs.flatMap contentChar) = decodeChars cs := by
  fun_induction decodeChars cs with
  | case1 cs ih | case2 cs ih => simp [contentChar, decodeChars, ih]
  | case3 c cs hless hgreater ih =>
      rw [List.flatMap_cons]
      by_cases hc : c = '<'
      · subst hc
        exact congrArg ('<' :: ·) ih
      · by_cases hc' : c = '>'
        · subst hc'
          exact congrArg ('>' :: ·) ih
        · rw [contentChar_of_ne hc hc', List.singleton_append, decodeChars.eq_3, ih]
          · rintro rest rfl hrest
            obtain ⟨cs, rfl⟩ := eq_of_content_tail hrest (by decide)
            exact hless cs rfl rfl
          · rintro rest rfl hrest
            obtain ⟨cs, rfl⟩ := eq_of_content_tail hrest (by decide)
            exact hgreater cs rfl rfl
  | case4 => rfl

theorem content_decodeChars (cs : List Char) :
    (decodeChars cs).flatMap contentChar = cs.flatMap contentChar := by
  fun_induction decodeChars cs with
  | case1 cs ih | case2 cs ih => simp [contentChar, ih]
  | case3 c cs _ _ ih => rw [List.flatMap_cons, List.flatMap_cons, ih]
  | case4 => rfl

theorem decodeChars_eq_self_iff (cs : List Char) : decodeChars cs = cs ↔ ¬HasEntity cs := by
  fun_induction decodeChars cs with
  | case1 cs ih =>
      refine iff_of_false (by simp) fun h => h (.inl ?_)
      exact ⟨[], cs, rfl⟩
  | case2 cs ih =>
      refine iff_of_false (by simp) fun h => h (.inr ?_)
      exact ⟨[], cs, rfl⟩
  | case3 c cs hless hgreater ih =>
      -- No entity starts here, so the first one in this text is the first one behind `c`.
      have hentity : HasEntity (c :: cs) ↔ HasEntity cs := by
        refine or_congr ?_ ?_ <;> rw [List.infix_cons_iff, or_iff_right]
        · rintro ⟨rest, hrest⟩
          cases hrest
          exact hless rest rfl rfl
        · rintro ⟨rest, hrest⟩
          cases hrest
          exact hgreater rest rfl rfl
      rw [List.cons.injEq, hentity, ← ih]
      exact and_iff_right rfl
  | case4 => simp [HasEntity]

/-! ## Contents -/

variable (text text' : String)

theorem decode_content : decode (content text) = decode text := by
  rw [decode, content, String.toList_ofList, decodeChars_content, decode]

/-- A text survives as content exactly if it has no entity for an angle bracket in it, by the same
fact about its characters. -/
theorem decode_eq_self_iff : decode text = text ↔ ¬HasEntity text.toList := by
  rw [← decodeChars_eq_self_iff, decode, ← String.toList_inj, String.toList_ofList]

/-- Contents differ as far as they stand for different texts. -/
theorem content_eq_iff : content text = content text' ↔ decode text = decode text' := by
  constructor
  · intro h
    rw [← decode_content text, h, decode_content]
  · intro h
    rw [decode, decode, String.ofList_inj] at h
    rw [content, content, ← content_decodeChars text.toList, h, content_decodeChars]

/-- A content ends at the first angle bracket, which starts the end of the element. -/
theorem not_mem_content : '<' ∉ (content text).toList ∧ '>' ∉ (content text).toList := by
  rw [content, String.toList_ofList, List.mem_flatMap, List.mem_flatMap]
  constructor
  · rintro ⟨c, -, hc⟩
    grind [contentChar]
  · rintro ⟨c, -, hc⟩
    grind [contentChar]

end Markup

open Markup

/-- The content of a decorator's element has no angle brackets in it, and stands for the expression
unless that has an entity in it. Another expression makes the same markup when it stands for the
same text. -/
theorem markup_of_decorator (d : Decorator) (expression : String) :
    ∃ text,
      (Segment.decorator d).markup =
        openTag decoratorTag (attributes d.header) ++ text ++ closeTag decoratorTag ++
          (if d.header.target then openTag targetTag [] ++ closeTag targetTag else "") ∧
      ('<' ∉ text.toList ∧ '>' ∉ text.toList) ∧
      (decode text = d.expression ↔ ¬HasEntity d.expression.toList) ∧
      ((Segment.decorator { d with expression }).markup = (Segment.decorator d).markup ↔
        decode expression = decode d.expression) := by
  refine ⟨content d.expression, rfl, not_mem_content d.expression, ?_, ?_⟩
  · rw [decode_content, decode_eq_self_iff]
  · rw [← content_eq_iff]
    simp [Segment.markup, element, ← String.toList_inj]

theorem scan_of_entity :
    ∃ segments, scan r#"{"&lt;"}{"<"}"# = .ok segments ∧ segments =
      [.decorator ⟨.ofContent "text", "\"&lt;\"", ⟨0, 8⟩, ⟨1, 7⟩⟩,
        .decorator ⟨.ofContent "text", "\"<\"", ⟨8, 13⟩, ⟨9, 12⟩⟩] :=
  exists_eq_ok_of_toOption (by decide +kernel)

/-- An entity in a string is not told from the bracket that it is an entity for. -/
theorem not_expression_survives :
    (¬∀ source segments, scan source = .ok segments →
      ∀ d, Segment.decorator d ∈ segments → decode (content d.expression) = d.expression) ∧
    ¬∀ source segments, scan source = .ok segments →
      ∀ d d', Segment.decorator d ∈ segments → Segment.decorator d' ∈ segments →
        d.header = d'.header → (Segment.decorator d).markup = (Segment.decorator d').markup →
          d.expression = d'.expression := by
  obtain ⟨_, hscan, rfl⟩ := scan_of_entity
  constructor
  · intro hall
    have hdecode := hall _ _ hscan _ List.mem_cons_self
    exact absurd hdecode (by decide +kernel)
  · intro hall
    have hsame := hall _ _ hscan _ _ List.mem_cons_self (List.mem_cons_of_mem _ List.mem_cons_self)
      rfl (by decide +kernel)
    exact absurd hsame (by decide)

end ReactiveTemplate
