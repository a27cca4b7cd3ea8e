import Mathlib.Logic.Relation
import ReactiveTemplate.Proofs.Template.Embedding
import ReactiveTemplate.Proofs.Template.HeaderForm

/-!
# From piece to piece

A template is scanned from one piece to the next. What has been reached decides what becomes of the
whole, and at a bracket the header behind it decides what is reached next: where one stands a
decorator is read, and where none does the bracket alone is text.
-/

namespace ReactiveTemplate

namespace Template

/-- How far a template has been scanned. -/
structure Scanned where
  /-- The source text of all pieces so far. -/
  before : List Char
  /-- The segments so far, newest first. -/
  done : List Segment
  /-- The text that is no segment yet, in reverse. -/
  shown : List Char
  rest : List Char

namespace Scanned

/-- Nothing has been scanned. -/
def start (source : String) : Scanned :=
  ⟨[], [], [], source.toList⟩

/-- What the scan of the whole template comes to. -/
def result (p : Scanned) : Except SyntaxError (List Segment) :=
  scanFrom p.done p.shown (byteWidth p.before) p.rest

/-- One piece further. -/
def take (p : Scanned) (piece : Piece) (rest : List Char) : Scanned :=
  match piece with
  | .text more raw => ⟨p.before ++ raw, p.done, more.reverse ++ p.shown, rest⟩
  | .decorator opening body closer =>
      ⟨p.before ++ piece.raw,
        .decorator (decoratorAt (byteWidth p.before) opening body closer) :: flush p.done p.shown,
        [], rest⟩

/-- The piece at the head of what is left is read. -/
inductive Step (p : Scanned) : Scanned → Prop where
  | piece {c : Char} {cs rest : List Char} {piece : Piece} (hrest : p.rest = c :: cs)
      (h : readPiece c cs = .ok (piece, rest)) : Step p (p.take piece rest)

/-- Pieces are read one behind the other. -/
def Reaches : Scanned → Scanned → Prop :=
  Relation.ReflTransGen Step

variable {p q : Scanned}

/-! ## Steps -/

/-- A step does not change what comes of the scan in the end. This is the step lemma to the run
lemma behind it. -/
theorem Step.result (h : p.Step q) : q.result = p.result := by
  obtain ⟨hrest, hread⟩ := h
  next piece =>
  rw [Scanned.result, Scanned.result, hrest]
  cases piece with
  | text =>
      rw [scanFrom_of_text _ _ _ hread, ← byteWidth_append]
      rfl
  | decorator =>
      rw [scanFrom_of_decorator _ _ _ hread, span_decoratorAt]
      rfl

/-- A step moves text from what is left to what has been read, so that both together stay the
source. -/
theorem Step.source (h : p.Step q) : q.before ++ q.rest = p.before ++ p.rest := by
  obtain ⟨hrest, hread⟩ := h
  next piece =>
  have happend := (readPiece_cases hread).1
  rw [hrest, ← happend, ← List.append_assoc]
  cases piece <;> rfl

/-- What is reached comes to the same result, and nothing of the source is lost on the way. -/
theorem Reaches.preserves (h : Reaches p q) :
    q.result = p.result ∧ q.before ++ q.rest = p.before ++ p.rest := by
  induction h with
  | refl => exact ⟨rfl, rfl⟩
  | tail _ hstep ih => exact ⟨hstep.result.trans ih.1, hstep.source.trans ih.2⟩

/-- From every place that a scan reaches, going on gives the result of the whole scan. -/
theorem scan_eq_result {source : String} (h : Reaches (.start source) p) : scan source = p.result :=
  h.preserves.1.symm

/-- Only one piece can be read. -/
theorem step_iff {c : Char} {cs rest : List Char} {piece : Piece} (hrest : p.rest = c :: cs)
    (h : readPiece c cs = .ok (piece, rest)) : p.Step q ↔ q = p.take piece rest := by
  constructor
  · rintro ⟨hrest', h'⟩
    rw [hrest] at hrest'
    cases hrest'
    rw [h] at h'
    cases h'
    rfl
  · rintro rfl
    exact .piece hrest h

/-- Where a piece cannot be read, the scan ends with its error, with the offset of what has been
read so far. -/
theorem result_of_error {c : Char} {cs : List Char} {halt : Halt} (hrest : p.rest = c :: cs)
    (h : readPiece c cs = .error halt) :
    p.result = .error (halt.error (byteWidth p.before)) := by
  rw [result, hrest, scanFrom]
  split
  · next hread =>
      rw [h] at hread
      cases hread
      rfl
  · next hread =>
      rw [h] at hread
      contradiction
  · next hread =>
      rw [h] at hread
      contradiction

end Scanned

end Template

/-! ## Brackets -/

namespace Header

variable {kind kind' : DecoratorKind} {name name' : Name} {label label' : Option Name}
  {model model' : Option Path} {cs rest rest' : List Char}

/-- The start of a decorator with this header, in front of `rest`. -/
def bracketOpening (kind : DecoratorKind) (name : Name) (label : Option Name) (model : Option Path)
    (rest : List Char) : Part Opening :=
  ⟨⟨(Frame.bracket kind name label model).header, ']'⟩,
    '[' :: (Frame.head kind name label model).toList, rest⟩

/-- A header starts a decorator where it stands. -/
theorem Stands.read? (h : Stands kind name label model cs rest) :
    Opening.read? ('[' :: cs) = some (bracketOpening kind name label model rest) := by
  rw [Opening.read?, h.text, readBracket?_head _ _ _ _ (endsBefore_iff.mpr h.ends)]
  rfl

/-- What stands at the head of a text is one header only. -/
theorem Stands.unique (h : Stands kind name label model cs rest)
    (h' : Stands kind' name' label' model' cs rest') :
    (Frame.bracket kind name label model).header =
      (Frame.bracket kind' name' label' model').header ∧ rest = rest' := by
  have hread := h.read?
  rw [h'.read?, Option.some.injEq, bracketOpening, bracketOpening, Part.mk.injEq,
    Opening.mk.injEq] at hread
  exact ⟨hread.1.1.symm, hread.2.2.symm⟩

/-- Where no header stands, a bracket starts nothing. -/
theorem read?_of_not_stands
    (h : ¬∃ kind name label model rest, Stands kind name label model cs rest) :
    Opening.read? ('[' :: cs) = none := by
  rw [Opening.read?, Option.map_eq_none_iff, Option.eq_none_iff_forall_not_mem]
  intro part hpart
  obtain ⟨kind, name, label, model, hstands, -⟩ := stands_of_readBracket? hpart
  exact h ⟨kind, name, label, model, part.rest, hstands⟩

end Header

namespace Template

open Header Scanned

/-- A bracket that is reached starts a decorator exactly where a header stands behind it, the only
one that does, and the decorator has this header and its body behind that. Without such a header the
bracket alone is text, and the next piece is the one behind it. -/
theorem bracket_of_reaches {source : String} {p : Scanned} {cs : List Char}
    (h : Reaches (.start source) p) (hrest : p.rest = '[' :: cs) :
    (p.before ++ p.rest = source.toList ∧ scan source = p.result) ∧
    (∀ kind name label model rest, Stands kind name label model cs rest →
      cs = (Frame.head kind name label model).toList ++ rest ∧
      (∀ kind' name' label' model' rest', Stands kind' name' label' model' cs rest' →
        (Frame.bracket kind name label model).header =
          (Frame.bracket kind' name' label' model').header ∧ rest = rest') ∧
      match readDecorator p.rest (bracketOpening kind name label model rest) with
      | .ok (piece, after) =>
          ∃ body d, Body.read ']' rest = .closed body after ∧
            d.header = (Frame.bracket kind name label model).header ∧
            d.span = .behind p.before piece.raw ∧
            piece.raw = '[' :: (Frame.head kind name label model).toList ++ body ++ [']'] ∧
            ∀ q, p.Step q ↔
              q = ⟨p.before ++ piece.raw, .decorator d :: flush p.done p.shown, [], after⟩
      | .error halt => scan source = .error (halt.error (byteWidth p.before))) ∧
    ((¬∃ kind name label model rest, Stands kind name label model cs rest) →
      ∀ q, p.Step q ↔ q = ⟨p.before ++ ['['], p.done, '[' :: p.shown, cs⟩) := by
  refine ⟨⟨h.preserves.2, scan_eq_result h⟩, ?_, ?_⟩
  · intro kind name label model rest hstands
    refine ⟨hstands.text, fun _ _ _ _ _ => hstands.unique, ?_⟩
    have hpiece := readPiece_of_opener (.inl rfl) cs
    rw [hstands.read?] at hpiece
    dsimp only at hpiece
    rw [← hrest] at hpiece
    split
    · next piece after hread =>
        rw [hread] at hpiece
        obtain ⟨body, rfl, hbody⟩ := read_of_readDecorator hread
        refine ⟨body, _, hbody, rfl, span_decoratorAt .., rfl, fun q => ?_⟩
        exact step_iff hrest hpiece
    · next halt hread =>
        rw [hread] at hpiece
        rw [scan_eq_result h, result_of_error hrest hpiece]
  · intro hnone q
    have hpiece := readPiece_of_opener (.inl rfl) cs
    rw [read?_of_not_stands hnone] at hpiece
    exact step_iff hrest hpiece

theorem stands_of_modifier :
    Stands .modifier ⟨"on", by decide⟩ (some ⟨"x", by decide⟩)
      (some ⟨⟨"m", by decide⟩, [⟨"n", by decide⟩]⟩) "#on:x=m.n f]".toList " f]".toList := by
  have hcolon : ∀ c ∈ ":x=m.n f]".toList.head?, ¬isNameChar c := by
    rintro _ ⟨⟩
    decide
  have hequals : ∀ c ∈ "=m.n f]".toList.head?, ¬isNameChar c := by
    rintro _ ⟨⟩
    decide
  have hpoint : ∀ c ∈ ".n f]".toList.head?, ¬isNameChar c := by
    rintro _ ⟨⟩
    decide
  have hblank : ∀ c ∈ " f]".toList.head?, ¬isNameChar c ∧ Unicode.isBlank c := by
    rintro _ ⟨⟩
    decide
  refine ⟨⟨_, _, _, rfl, ⟨rfl, hcolon⟩, .some ⟨rfl, hequals⟩, .some ?_⟩, ?_⟩
  · exact ⟨_, ⟨rfl, hpoint⟩, .cons ⟨rfl, fun c hc => (hblank c hc).1⟩ .nil⟩
  · exact fun c hc => .inl (hblank c hc).2

/-- A bracket without a header is text, and the decorator behind it is read. -/
theorem bracket_of_reaches_behind_bracket :
    ∃ p d, Reaches (.start "[+[#on:x=m.n f]") p ∧ p.rest = "[#on:x=m.n f]".toList ∧
      d.header = ⟨.modifier, "on", some "x", some "m.n", false⟩ ∧ d.span = ⟨2, 15⟩ ∧
      ∀ q, p.Step q ↔ q = ⟨"[+[#on:x=m.n f]".toList, [.decorator d, .text "[+"], [], []⟩ := by
  have hopening : Opening.read? ('[' :: "+[#on:x=m.n f]".toList) = none := by decide +kernel
  have hbracket := readPiece_of_opener (.inl rfl) "+[#on:x=m.n f]".toList
  rw [hopening] at hbracket
  have hplus := readPiece_text (c := '+') (by decide) "[#on:x=m.n f]".toList
  have hreaches : Reaches (.start "[+[#on:x=m.n f]")
      ⟨['[', '+'], [], ['+', '['], "[#on:x=m.n f]".toList⟩ :=
    .tail (.tail .refl (.piece rfl hbracket)) (.piece rfl hplus)
  have hrest : "[#on:x=m.n f]".toList = '[' :: "#on:x=m.n f]".toList := rfl
  obtain ⟨-, hdecorator, -⟩ := bracket_of_reaches hreaches hrest
  obtain ⟨-, -, hread⟩ := hdecorator _ _ _ _ _ stands_of_modifier
  obtain ⟨_, d, -, hheader, hspan, -, hstep⟩ := hread
  exact ⟨_, d, hreaches, rfl, hheader, hspan, hstep⟩

end Template

end ReactiveTemplate
