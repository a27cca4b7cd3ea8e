import ReactiveTemplate.Text.Position
import ReactiveTemplate.Text.Span

/-!
# Texts under spans

A span names two bytes of a text. It covers what stands between them when neither byte falls inside
of a character; then there is one such text, and it stays the same when the whole becomes a part of
a larger text and the span is shifted along.
-/

namespace ReactiveTemplate

theorem byteWidth_pos {cs : List Char} (h : cs ≠ []) : 0 < byteWidth cs := by
  cases cs with
  | nil => contradiction
  | cons c cs =>
      have hc := c.utf8Size_pos
      rw [byteWidth_cons]
      omega

theorem byteWidth_toList (source : String) : byteWidth source.toList = source.utf8ByteSize := by
  have hwidth (cs : List Char) : (String.ofList cs).utf8ByteSize = byteWidth cs := by
    induction cs with
    | nil => rfl
    | cons c cs ih =>
        rw [String.ofList_cons, String.utf8ByteSize_append, String.utf8ByteSize_singleton, ih,
          byteWidth_cons]
  rw [← hwidth, String.ofList_toList]

/-- Of two beginnings of a text, the one with fewer bytes is the shorter one. -/
theorem prefix_of_byteWidth_le {front front' cs : List Char} (hfront : front <+: cs)
    (hfront' : front' <+: cs) (hle : byteWidth front ≤ byteWidth front') : front <+: front' := by
  rcases List.prefix_or_prefix_of_prefix hfront hfront' with hshort | ⟨more, rfl⟩
  · exact hshort
  · rw [byteWidth_append] at hle
    cases more with
    | nil => simp
    | cons c more =>
        have hpos := byteWidth_pos (List.cons_ne_nil c more)
        omega

/-- Two front parts of one text with as many bytes are the same, so that a border has one text in
front of it. -/
theorem eq_of_byteWidth_eq {front front' cs : List Char} (hfront : front <+: cs)
    (hfront' : front' <+: cs) (heq : byteWidth front = byteWidth front') : front = front' := by
  have hle := prefix_of_byteWidth_le hfront hfront' (Nat.le_of_eq heq)
  have hge := prefix_of_byteWidth_le hfront' hfront (Nat.le_of_eq heq.symm)
  exact hle.eq_of_length (Nat.le_antisymm hle.length_le hge.length_le)

namespace Span

/-- The span of a text behind another. -/
def behind (before text : List Char) : Span :=
  ⟨byteWidth before, byteWidth (before ++ text)⟩

/-- `span.Covers cs text` says that `text` stands in `cs` from the first byte of the span up to the
last one. -/
def Covers (span : Span) (cs text : List Char) : Prop :=
  ∃ before after, cs = before ++ text ++ after ∧ span = behind before text

namespace Covers

variable {span : Span} {cs text text' : List Char}

theorem bounds (h : span.Covers cs text) : span.start ≤ span.stop ∧ span.stop ≤ byteWidth cs := by
  obtain ⟨before, after, rfl, rfl⟩ := h
  simp [behind]

/-- A span covers one text at most. -/
theorem unique (h : span.Covers cs text) (h' : span.Covers cs text') : text = text' := by
  obtain ⟨before, after, hcs, rfl⟩ := h
  obtain ⟨before', after', hcs', hspan⟩ := h'
  rw [behind, behind, Span.mk.injEq] at hspan
  have hwhole : before ++ text = before' ++ text' :=
    eq_of_byteWidth_eq ⟨after, hcs.symm⟩ ⟨after', hcs'.symm⟩ hspan.2
  have hbefore : before = before' :=
    eq_of_byteWidth_eq (List.prefix_append before text) (hwhole ▸ List.prefix_append before' text')
      hspan.1
  exact List.append_cancel_left (hbefore ▸ hwhole)

/-- What a span covers in a part of a text is what the shifted span covers in the whole, and there
it does not reach out of the part. -/
theorem within {outer : Span} {part : List Char} (houter : outer.Covers cs part)
    (h : span.Covers part text) :
    (span.shift outer.start).Covers cs text ∧ outer.start ≤ (span.shift outer.start).start ∧
      (span.shift outer.start).stop ≤ outer.stop := by
  have hbounds := h.bounds
  obtain ⟨front, back, rfl, rfl⟩ := houter
  obtain ⟨before, after, rfl, rfl⟩ := h
  refine ⟨⟨front ++ before, after ++ back, by simp, ?_⟩, ?_, ?_⟩
  · simp only [shift, behind, byteWidth_append, Span.mk.injEq]
    omega
  · exact Nat.le_add_left _ _
  · simp only [shift, behind, byteWidth_append] at hbounds ⊢
    omega

/-- Nothing stands at the end of a text. -/
theorem point_end (cs : List Char) : (point (byteWidth cs)).Covers cs [] :=
  ⟨cs, [], by simp, by simp [behind, point]⟩

/-- Where two spans cover something, so does the span from the first to the second. -/
theorem upTo {last : Span} (h : span.Covers cs text) (h' : last.Covers cs text')
    (hle : span.start ≤ last.stop) : ∃ text, (⟨span.start, last.stop⟩ : Span).Covers cs text := by
  obtain ⟨before, after, hcs, rfl⟩ := h
  obtain ⟨before', after', rfl, rfl⟩ := h'
  have hbefore : before <+: before' ++ text' ++ after' := by
    rw [hcs, List.append_assoc]
    exact List.prefix_append before _
  obtain ⟨between, hbetween⟩ := prefix_of_byteWidth_le hbefore (List.prefix_append _ after') hle
  refine ⟨between, before, after', by rw [hbetween], ?_⟩
  simp only [behind, hbetween]

end Covers

end Span

end ReactiveTemplate
