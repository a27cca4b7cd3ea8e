import ReactiveTemplate.Proofs.Text.Extent
import ReactiveTemplate.Proofs.Token.Locality
import ReactiveTemplate.Template.Scanner

/-!
# Single pieces of a template

What can stand in a template: a run of text with what is shown for it, or a decorator with the place
of its expression between its brackets. Whatever is read of a template is one of these.
-/

namespace ReactiveTemplate

/-! ## Text -/

namespace Template

/-- The mark that a comment starts with. -/
def commentStart : List Char :=
  ['<', '!', '-', '-']

/-- The mark that a comment ends with. -/
def commentEnd : List Char :=
  ['-', '-', '>']

/-- `Run rest raw shown` says that `shown` is shown for the run `raw` of text in front of `rest`. -/
inductive Run (rest : List Char) : List Char → List Char → Prop where
  /-- A comment goes up to the first end mark, which may share its dashes with the start mark. -/
  | comment {front : List Char} (hstart : commentStart <+: front ++ commentEnd)
      (hfirst : ¬commentEnd <:+: front ++ ['-', '-']) :
      Run rest (front ++ commentEnd) (front ++ commentEnd)
  /-- A comment without an end mark goes up to the end of the source. -/
  | unclosed {raw : List Char} (hstart : commentStart <+: raw) (hend : ¬commentEnd <:+: raw)
      (hrest : rest = []) : Run rest raw raw
  /-- A backslash makes plain text of the next character. -/
  | escaped {c : Char} : Run rest ['\\', c] [c]
  /-- There is nothing for a backslash at the end of the source to escape. -/
  | backslash (hrest : rest = []) : Run rest ['\\'] ['\\']
  /-- Any other character is shown as it is, where no decorator starts. -/
  | plain {c : Char} (hbackslash : c ≠ '\\') (hcomment : ¬commentStart <+: c :: rest)
      (hopening : Opening.read? (c :: rest) = none) : Run rest [c] [c]

theorem Run.shown_ne_nil {rest raw shown : List Char} (h : Run rest raw shown) : shown ≠ [] := by
  cases h with
  | comment => simp [commentEnd]
  | unclosed hstart =>
      rintro rfl
      exact absurd (List.prefix_nil.mp hstart) (by decide)
  | escaped | backslash | plain => simp

/-- A comment is read up to the first end mark, or as a whole when it has none. -/
theorem readCommentFrom_cases (taken cs : List Char) :
    (∃ front rest, cs = front ++ commentEnd ++ rest ∧ ¬commentEnd <:+: front ++ ['-', '-'] ∧
      readCommentFrom taken cs = (taken.reverse ++ (front ++ commentEnd), rest)) ∨
    (¬commentEnd <:+: cs ∧ readCommentFrom taken cs = (taken.reverse ++ cs, [])) := by
  fun_induction readCommentFrom taken cs with
  | case1 taken rest =>
      refine .inl ⟨[], rest, rfl, ?_, ?_⟩
      · exact fun hend => absurd hend.length_le (by decide)
      · simp [commentEnd]
  | case2 taken c cs hend ih =>
      -- No end mark starts here, so the first one is the first one behind `c`.
      have hhead : ¬commentEnd <+: c :: cs := by
        rintro ⟨rest, hrest⟩
        cases hrest
        exact hend rest rfl rfl
      rcases ih with ⟨front, rest, hcs, hfirst, hread⟩ | ⟨hnone, hread⟩
      · refine .inl ⟨c :: front, rest, congrArg (c :: ·) hcs, ?_, ?_⟩
        · rw [List.cons_append, List.infix_cons_iff, not_or]
          refine ⟨fun hstart => hhead (hstart.trans ?_), hfirst⟩
          refine ⟨'>' :: rest, ?_⟩
          simp [hcs, commentEnd]
        · rw [hread]
          simp
      · refine .inr ⟨?_, ?_⟩
        · rw [List.infix_cons_iff, not_or]
          exact ⟨hhead, hnone⟩
        · rw [hread]
          simp
  | case3 taken =>
      refine .inr ⟨?_, by simp⟩
      exact fun hend => absurd hend.length_le (by decide)

/-- A comment is shown as it is written and ends at the first end mark, which is where it is cut off
from the rest. -/
theorem run_of_readComment? {cs comment rest : List Char}
    (h : readComment? cs = some (comment, rest)) :
    Run rest comment comment ∧ comment ++ rest = cs := by
  unfold readComment? at h
  split at h
  · next hstart =>
      have hstart : commentStart <+: cs := List.isPrefixOf_iff_prefix.mp hstart
      rcases readCommentFrom_cases [] cs with ⟨front, rest', hcs, hfirst, hread⟩ | ⟨hend, hread⟩
      · rw [hread] at h
        cases h
        refine ⟨.comment ?_ hfirst, hcs.symm⟩
        have hfront : front ++ commentEnd <+: cs := ⟨rest, hcs.symm⟩
        rcases List.prefix_or_prefix_of_prefix hstart hfront with hstart | hshort
        · exact hstart
        · -- The start mark does not hold an end mark.
          have hmem : '>' ∈ commentStart := hshort.mem (List.mem_append_right front (by decide))
          exact absurd hmem (by decide)
      · rw [hread] at h
        cases h
        exact ⟨.unclosed hstart hend rfl, List.append_nil cs⟩
  · contradiction

/-- Where no comment is read, none begins. Every text that begins like one is a comment, up to the
end of the source if need be. -/
theorem not_commentStart_of_readComment? {cs : List Char} (h : readComment? cs = none) :
    ¬commentStart <+: cs := by
  unfold readComment? at h
  split at h
  · contradiction
  · next hstart => exact fun h => hstart (List.isPrefixOf_iff_prefix.mpr h)

end Template

/-! ## Decorators -/

namespace Header

/-- The bracket that a decorator starts with. -/
def openingBracket (header : Header) : Char :=
  if header.target then '{' else '['

/-- The bracket that a decorator ends with. -/
def closingBracket (header : Header) : Char :=
  if header.target then '}' else ']'

theorem target_of_readBracket? {cs : List Char} {header : Part Header}
    (h : readBracket? cs = some header) : header.value.target = false := by
  unfold readBracket? at h
  dsimp only at h
  split at h
  · contradiction
  · split at h
    · contradiction
    · split at h
      · contradiction
      · split at h
        · cases h
          rfl
        · contradiction

end Header

/-- What a decorator starts with and what it is closed with fit together. -/
theorem Opening.brackets {cs : List Char} {opening : Part Opening}
    (h : Opening.read? cs = some opening) :
    opening.text.head? = some opening.value.header.openingBracket ∧
      opening.value.closer = opening.value.header.closingBracket := by
  unfold Opening.read? at h
  split at h
  · obtain ⟨header, hheader, rfl⟩ := Option.map_eq_some_iff.mp h
    simp [Header.openingBracket, Header.closingBracket, Header.target_of_readBracket? hheader]
  · cases h
    exact ⟨rfl, rfl⟩
  · cases h
    exact ⟨rfl, rfl⟩
  · contradiction

/-! ### Trimmed text -/

/-- A text without white space at its ends. -/
structure Trimmed (cs : List Char) : Prop where
  head : ∀ c ∈ cs.head?, ¬Unicode.isBlank c
  last : ∀ c ∈ cs.getLast?, ¬Unicode.isBlank c

theorem exists_append_trim (cs : List Char) :
    ∃ blanks, cs.dropWhile Unicode.isBlank = Unicode.trim cs ++ blanks ∧
      ∀ c ∈ blanks, Unicode.isBlank c := by
  refine ⟨((cs.dropWhile Unicode.isBlank).reverse.takeWhile Unicode.isBlank).reverse, ?_, ?_⟩
  · rw [Unicode.trim, ← List.reverse_append, List.takeWhile_append_dropWhile, List.reverse_reverse]
  · exact fun c hc => of_mem_takeWhile (List.mem_reverse.mp hc)

theorem trimmed_trim (cs : List Char) : Trimmed (Unicode.trim cs) := by
  obtain ⟨blanks, hblanks, -⟩ := exists_append_trim cs
  constructor
  · intro c hc
    have hhead : c ∈ (cs.dropWhile Unicode.isBlank).head? := by
      rw [hblanks, List.head?_append, Option.mem_def.mp hc]
      rfl
    exact not_of_head_dropWhile hhead
  · intro c hc
    rw [Unicode.trim, List.getLast?_reverse] at hc
    exact not_of_head_dropWhile hc

/-! ### The place of an expression -/

/-- A decorator with the source text `raw`, behind the text `before`. -/
structure Decorator.Written (d : Decorator) (before raw : List Char) : Prop where
  span : d.span = .behind before raw
  opening : raw.head? = some d.header.openingBracket
  closing : raw.getLast? = some d.header.closingBracket
  /-- The expression stands between the brackets, where its span says. -/
  expression : ∃ front back, front ≠ [] ∧ back ≠ [] ∧
    raw = front ++ d.expression.toList ++ back ∧
    d.expressionSpan = .behind (before ++ front) d.expression.toList
  trimmed : Trimmed d.expression.toList

/-- The span of a decorator is that of its source text. -/
theorem Template.span_decoratorAt (before : List Char) (opening : Part Opening) (body : List Char)
    (closer : Char) :
    (decoratorAt (byteWidth before) opening body closer).span =
      .behind before (Piece.decorator opening body closer).raw := by
  simp [decoratorAt, Span.behind, Piece.raw, Nat.add_assoc]

/-- A decorator has the span of all its text and, for its expression, the span of what is left of
the body after trimming. -/
theorem Template.written_decoratorAt {cs : List Char} {opening : Part Opening}
    (h : Opening.read? cs = some opening) (before body : List Char) :
    (decoratorAt (byteWidth before) opening body opening.value.closer).Written before
      (Piece.decorator opening body opening.value.closer).raw := by
  obtain ⟨hopening, hclosing⟩ := Opening.brackets h
  obtain ⟨blanks, hblanks, -⟩ := exists_append_trim body
  have hbody : body.takeWhile Unicode.isBlank ++ (Unicode.trim body ++ blanks) = body := by
    rw [← hblanks, List.takeWhile_append_dropWhile]
  refine ⟨span_decoratorAt .., ?_, ?_, ?_, ?_⟩
  · rw [Piece.raw, List.append_assoc, List.head?_append, hopening]
    rfl
  · simp [Piece.raw, decoratorAt, hclosing]
  · refine ⟨opening.text ++ body.takeWhile Unicode.isBlank, blanks ++ [opening.value.closer],
      ?_, ?_, ?_, ?_⟩
    · simp [Opening.read?_ne_nil h]
    · simp
    · refine (congrArg (opening.text ++ · ++ [opening.value.closer]) hbody.symm).trans ?_
      simp [decoratorAt]
    · simp [decoratorAt, Span.behind, Nat.add_assoc]
  · simpa [decoratorAt] using trimmed_trim body

/-! ## Pieces -/

namespace Template

/-- At a bracket that may open a decorator, there is one as far as it can be opened. -/
theorem readPiece_of_opener {c : Char} (hc : c = '[' ∨ c = '{') (cs : List Char) :
    readPiece c cs =
      match Opening.read? (c :: cs) with
      | some opening => readDecorator (c :: cs) opening
      | none => .ok (.text [c] [c], cs) := by
  have hcomment : readComment? (c :: cs) = none := by
    rcases hc with rfl | rfl <;> rfl
  have hbackslash : c ≠ '\\' := by
    rcases hc with rfl | rfl <;> decide
  unfold readPiece
  rw [hcomment]
  dsimp only
  cases Opening.read? (c :: cs) <;> exact if_neg hbackslash

theorem read_of_readDecorator {whole rest : List Char} {opening : Part Opening} {piece : Piece}
    (h : readDecorator whole opening = .ok (piece, rest)) :
    ∃ body, piece = .decorator opening body opening.value.closer ∧
      Body.read opening.value.closer opening.rest = .closed body rest := by
  unfold readDecorator at h
  dsimp only at h
  split at h
  · next body rest' hbody =>
      cases h
      exact ⟨body, rfl, hbody⟩
  · contradiction
  · contradiction

/-- What is read of a template is a run of text or a decorator. -/
theorem readPiece_cases {c : Char} {cs rest : List Char} {piece : Piece}
    (h : readPiece c cs = .ok (piece, rest)) :
    piece.raw ++ rest = c :: cs ∧
      ((∃ shown raw, piece = .text shown raw ∧ Run rest raw shown) ∨
        ∃ opening body, piece = .decorator opening body opening.value.closer ∧
          Opening.read? (c :: cs) = some opening) := by
  unfold readPiece at h
  split at h
  · next comment rest' hcomment =>
      cases h
      obtain ⟨hrun, happend⟩ := run_of_readComment? hcomment
      exact ⟨happend, .inl ⟨comment, comment, rfl, hrun⟩⟩
  · next hcomment =>
      have hstart := not_commentStart_of_readComment? hcomment
      split at h
      · next hc =>
          subst hc
          split at h
          · cases h
            exact ⟨rfl, .inl ⟨_, _, rfl, .backslash rfl⟩⟩
          · cases h
            exact ⟨rfl, .inl ⟨_, _, rfl, .escaped⟩⟩
      · next hc =>
          split at h
          · next opening hopening =>
              obtain ⟨body, rfl, hbody⟩ := read_of_readDecorator h
              refine ⟨?_, .inr ⟨opening, body, rfl, hopening⟩⟩
              rw [Piece.raw, List.append_assoc, List.append_assoc, List.singleton_append,
                Body.append_read hbody]
              exact Opening.read?_splits hopening
          · next hopening =>
              cases h
              exact ⟨rfl, .inl ⟨_, _, rfl, .plain hc hstart hopening⟩⟩

end Template

end ReactiveTemplate
