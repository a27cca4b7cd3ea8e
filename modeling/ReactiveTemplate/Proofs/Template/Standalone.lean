import ReactiveTemplate.Proofs.Template.Bracketing
import ReactiveTemplate.Proofs.Template.Progress

/-!
# Decorators on their own

A decorator is read off its own source text, whatever stands around it: that text alone is a
template of this one decorator.
-/

namespace ReactiveTemplate

/-- The same decorator in a template that has `offset` more bytes in front. -/
def Decorator.shift (d : Decorator) (offset : Nat) : Decorator :=
  { d with span := d.span.shift offset, expressionSpan := d.expressionSpan.shift offset }

theorem Opening.isCloser {cs : List Char} {opening : Part Opening}
    (h : Opening.read? cs = some opening) : Body.isCloser opening.value.closer := by
  rw [(Opening.brackets h).2, Header.closingBracket]
  split <;> rfl

theorem Opening.head_eq {c : Char} {cs : List Char} {opening : Part Opening}
    (h : Opening.read? (c :: cs) = some opening) : c = '[' ∨ c = '{' := by
  unfold Opening.read? at h
  split at h <;> simp_all

/-- A closed body is closed without what stands behind it. -/
theorem Body.read_alone {closer : Char} (hcloser : isCloser closer) {cs body rest : List Char}
    (h : read closer cs = .closed body rest) :
    read closer (body ++ [closer]) = .closed body [] := by
  rw [read_eq_closed_iff hcloser] at h ⊢
  exact ⟨rfl, h.nested⟩

namespace Template

/-- Where a decorator stands only moves its spans. -/
theorem decoratorAt_shift (offset : Nat) (opening : Part Opening) (rest body : List Char)
    (closer : Char) :
    (decoratorAt 0 { opening with rest } body closer).shift offset =
      decoratorAt offset opening body closer := by
  simp [decoratorAt, Decorator.shift, Span.shift]
  omega

theorem decorator_mem_flush {d : Decorator} {done : List Segment} {shown : List Char}
    (h : .decorator d ∈ flush done shown) : .decorator d ∈ done := by
  unfold flush at h
  split at h
  · exact h
  · simpa using h

/-! ## One decorator -/

/-- What is read as a decorator is read as the same decorator when nothing stands behind it. -/
theorem readPiece_alone {c : Char} {cs body rest : List Char} {opening : Part Opening}
    {closer : Char} (h : readPiece c cs = .ok (.decorator opening body closer, rest)) :
    ∃ cs', (Piece.decorator opening body closer).raw = c :: cs' ∧
      readPiece c cs' =
        .ok (.decorator { opening with rest := body ++ [closer] } body closer, []) := by
  obtain ⟨happend, ⟨_, _, htext, -⟩ | ⟨_, _, hdecorator, hopening⟩⟩ := readPiece_cases h
  · contradiction
  cases hdecorator
  have hc := Opening.head_eq hopening
  rw [readPiece_of_opener hc, hopening] at h
  obtain ⟨_, hpiece, hbody⟩ := read_of_readDecorator h
  cases hpiece
  have hhead : (body ++ [opening.value.closer]).head? = opening.rest.head? := by
    rw [← Body.append_read hbody]
    cases body <;> rfl
  have halone := Opening.read?_append hopening hhead
  have hsplits : opening.text ++ opening.rest = c :: cs := Opening.read?_splits hopening
  obtain ⟨d, text, htext⟩ := List.exists_cons_of_ne_nil (Opening.read?_ne_nil hopening)
  obtain ⟨rfl, -⟩ : d = c ∧ text ++ opening.rest = cs := by simpa [htext] using hsplits
  have hraw : (Piece.decorator opening body opening.value.closer).raw =
      d :: (text ++ (body ++ [opening.value.closer])) := by
    simp [Piece.raw, htext]
  refine ⟨_, hraw, ?_⟩
  rw [htext, List.cons_append] at halone
  rw [readPiece_of_opener hc, halone]
  dsimp only [readDecorator]
  rw [Body.read_alone (Opening.isCloser hopening) hbody, htext]

/-- The source text of a decorator is a template of its own. -/
theorem scan_alone {c : Char} {cs body rest : List Char} {opening : Part Opening} {closer : Char}
    (h : readPiece c cs = .ok (.decorator opening body closer, rest)) :
    scan (String.ofList (Piece.decorator opening body closer).raw) =
      .ok [.decorator
        (decoratorAt 0 { opening with rest := body ++ [closer] } body closer)] := by
  obtain ⟨cs', hraw, halone⟩ := readPiece_alone h
  rw [scan, String.toList_ofList, hraw, scanFrom_of_decorator _ _ _ halone, scanFrom]
  rfl

/-! ## All decorators -/

namespace Scanned

/-- A decorator is read at the place that has been reached. -/
inductive Finds (p : Scanned) : Decorator → Prop where
  | decorator {c : Char} {cs body rest : List Char} {opening : Part Opening} {closer : Char}
      (hrest : p.rest = c :: cs)
      (h : readPiece c cs = .ok (.decorator opening body closer, rest)) :
      Finds p (decoratorAt (byteWidth p.before) opening body closer)

/-- What has been found in the end was there before, or it is read at some place that is reached. -/
theorem exists_finds_of_mem {segments : List Segment} {d : Decorator} (p : Scanned)
    (h : p.result = .ok segments) (hd : .decorator d ∈ segments) :
    .decorator d ∈ p.done ∨ ∃ q, Reaches p q ∧ q.Finds d := by
  obtain ⟨before, done, shown, cs⟩ := p
  unfold result at h
  dsimp only at h
  generalize hoffset : byteWidth before = offset at h
  fun_induction scanFrom done shown offset cs generalizing before with
  | case1 done shown offset =>
      cases h
      exact .inl (decorator_mem_flush (List.mem_reverse.mp hd))
  | case2 => contradiction
  | case3 done shown offset c cs more raw rest hread ih =>
      have hstep : Step ⟨before, done, shown, c :: cs⟩
          ⟨before ++ raw, done, more.reverse ++ shown, rest⟩ := .piece rfl hread
      subst hoffset
      rcases ih _ (byteWidth_append ..) h with hdone | ⟨q, hreaches, hfinds⟩
      · exact .inl hdone
      · exact .inr ⟨q, .head hstep hreaches, hfinds⟩
  | case4 done shown offset c cs opening body closer rest hread decorator ih =>
      subst hoffset
      have hstep : Step ⟨before, done, shown, c :: cs⟩
          ⟨before ++ (Piece.decorator opening body closer).raw,
            .decorator decorator :: flush done shown, [], rest⟩ := .piece rfl hread
      have hoffset := congrArg Span.stop (span_decoratorAt before opening body closer)
      rcases ih _ hoffset.symm h with hdone | ⟨q, hreaches, hfinds⟩
      · rcases List.mem_cons.mp hdone with hsame | hdone
        · rw [Segment.decorator.inj hsame]
          exact .inr ⟨_, .refl, .decorator rfl hread⟩
        · exact .inl (decorator_mem_flush hdone)
      · exact .inr ⟨q, .head hstep hreaches, hfinds⟩

end Scanned

/-- A decorator of a template, scanned on its own, is all that is found, and it is the same
decorator but for where it stands. -/
theorem scan_decorator {source : String} {segments : List Segment} {d : Decorator}
    (h : scan source = .ok segments) (hd : .decorator d ∈ segments) :
    ∃ text d', d.span.Covers source.toList text ∧
      scan (String.ofList text) = .ok [.decorator d'] ∧ d'.shift d.span.start = d := by
  rcases (Scanned.start source).exists_finds_of_mem h hd with hdone | ⟨q, hreaches, hfinds⟩
  · contradiction
  obtain ⟨hrest, hread⟩ := hfinds
  next c cs body rest opening closer =>
  have hsource := (readPiece_cases hread).1
  have hwhole : q.before ++ q.rest = source.toList := hreaches.preserves.2
  rw [hrest, ← hsource, ← List.append_assoc] at hwhole
  exact ⟨_, _, ⟨q.before, rest, hwhole.symm, span_decoratorAt ..⟩, scan_alone hread,
    decoratorAt_shift ..⟩

theorem scan_of_escape :
    ∃ segments, scan "\\[<!-- [ -->é[#on:x=m.n f(\"]\") ]" = .ok segments ∧ segments =
      [.text "[<!-- [ -->é",
        .decorator
          ⟨⟨.modifier, "on", some "x", some "m.n", false⟩, "f(\"]\")", ⟨14, 33⟩, ⟨25, 31⟩⟩] :=
  exists_eq_ok_of_toOption (by decide +kernel)

/-- Neither an escape nor a comment in front of a decorator matters to it. -/
theorem scan_decorator_behind_comment :
    ∃ d text d', d.span = ⟨14, 33⟩ ∧
      d.span.Covers "\\[<!-- [ -->é[#on:x=m.n f(\"]\") ]".toList text ∧
      scan (String.ofList text) = .ok [.decorator d'] ∧ d'.shift 14 = d := by
  obtain ⟨segments, hscan, rfl⟩ := scan_of_escape
  obtain ⟨text, d', hcovers, halone, hshift⟩ :=
    scan_decorator hscan (List.mem_cons_of_mem _ List.mem_cons_self)
  exact ⟨_, text, d', rfl, hcovers, halone, hshift⟩

end Template

end ReactiveTemplate
