import ReactiveTemplate.Proofs.Expr.Refusals
import ReactiveTemplate.Proofs.Session.Transparency
import ReactiveTemplate.Proofs.Template.Tiling

/-!
# Templates are compiled stage by stage

To compile a template is to scan it and then to compile the expression of each decorator, whatever
the session has kept by then. The first expression that cannot be parsed makes the whole template
fail, and its error is moved to where that expression stands in the template.
-/

namespace ReactiveTemplate

/-! ## Lists of decorators -/

/-- A list fails where its first member does. -/
theorem exists_of_mapM_eq_error {α β ε : Type} {f : α → Except ε β} {as : List α} {e : ε}
    (h : as.mapM f = .error e) :
    ∃ front a back, as = front ++ a :: back ∧ (∀ a' ∈ front, ∃ b, f a' = .ok b) ∧
      f a = .error e := by
  induction as with
  | nil => contradiction
  | cons a as ih =>
      rw [List.mapM_cons] at h
      cases hfirst : f a with
      | error e' =>
          rw [hfirst] at h
          cases h
          exact ⟨[], a, as, rfl, by simp, hfirst⟩
      | ok b =>
          rw [hfirst] at h
          cases hrest : as.mapM f with
          | ok bs =>
              rw [hrest] at h
              contradiction
          | error e' =>
              rw [hrest] at h
              cases h
              obtain ⟨front, a', back, rfl, hfront, ha'⟩ := ih hrest
              exact ⟨a :: front, a', back, rfl, List.forall_mem_cons.mpr ⟨⟨b, hfirst⟩, hfront⟩, ha'⟩

/-- The compiled members of a list, in the order of the list. -/
theorem map_of_mapM_eq_ok {ds : List Decorator} {compiled : List CompiledDecorator}
    (h : ds.mapM compileDecorator = .ok compiled) :
    compiled.map CompiledDecorator.decorator = ds ∧
      ∀ d ∈ compiled, compileExpression d.decorator.expression = .ok d.compiled := by
  induction ds generalizing compiled with
  | nil =>
      cases h
      exact ⟨rfl, by simp⟩
  | cons d ds ih =>
      rw [List.mapM_cons, compileDecorator] at h
      cases hfirst : compileExpression d.expression with
      | error e =>
          rw [hfirst] at h
          contradiction
      | ok result =>
          rw [hfirst] at h
          cases hrest : ds.mapM compileDecorator with
          | error e =>
              rw [hrest] at h
              contradiction
          | ok results =>
              rw [hrest] at h
              cases h
              obtain ⟨hdecorators, hresults⟩ := ih hrest
              exact ⟨congrArg (d :: ·) hdecorators, List.forall_mem_cons.mpr ⟨hfirst, hresults⟩⟩

theorem parses_of_compileExpression {source : String} {compiled : CompiledExpression}
    (h : compileExpression source = .ok compiled) : ∃ es, parse source = .ok es := by
  rw [compileExpression] at h
  cases hparse : parse source with
  | error e =>
      rw [hparse] at h
      contradiction
  | ok es => exact ⟨es, rfl⟩

theorem parses_of_compileDecorator {d : Decorator} {compiled : CompiledDecorator}
    (h : compileDecorator d = .ok compiled) : ∃ es, parse d.expression = .ok es := by
  rw [compileDecorator] at h
  split at h
  · next hcompiled => exact parses_of_compileExpression hcompiled
  · contradiction

/-- A decorator fails only because its expression cannot be parsed. The error is that of the
expression, moved to where it stands. -/
theorem parse_of_compileDecorator_eq_error {d : Decorator} {e : SyntaxError}
    (h : compileDecorator d = .error e) :
    ∃ e', parse d.expression = .error e' ∧ e = e'.shift d.expressionSpan.start := by
  rw [compileDecorator, compileExpression] at h
  cases hparse : parse d.expression with
  | ok es =>
      rw [hparse] at h
      contradiction
  | error e' =>
      rw [hparse] at h
      cases h
      exact ⟨e', rfl, rfl⟩

/-! ## Templates that fail -/

/-- Why a template is refused. -/
inductive Fails (source : String) : SyntaxError → Prop where
  | scan {e : SyntaxError} (h : scan source = .error e) : Fails source e
  /-- The expressions in front of the wrong one are parsed. The error is moved into the template,
  where it is about the same text, which is a part of the expression. -/
  | expression {front back : List Decorator} {d : Decorator} {e : SyntaxError} {text : List Char}
      (hdecorators : decorators source = .ok (front ++ d :: back))
      (horder : ∀ earlier ∈ front, earlier.span.stop ≤ d.span.start)
      (hfront : ∀ earlier ∈ front, ∃ es, parse earlier.expression = .ok es)
      (h : parse d.expression = .error e)
      (htext : e.span.Covers d.expression.toList text)
      (hmoved : (e.span.shift d.expressionSpan.start).Covers source.toList text)
      (hstart : d.expressionSpan.start ≤ (e.span.shift d.expressionSpan.start).start)
      (hstop : (e.span.shift d.expressionSpan.start).stop ≤ d.expressionSpan.stop) :
      Fails source (e.shift d.expressionSpan.start)

/-- A decorator in front of another one in the list ends before the other begins, as the tiles of
the source do. -/
theorem order_of_scan {source : String} {segments : List Segment} (h : scan source = .ok segments)
    {front back : List Decorator} {d : Decorator}
    (hdecorators : segments.filterMap Segment.decorator? = front ++ d :: back) :
    ∀ earlier ∈ front, earlier.span.stop ≤ d.span.start := by
  obtain ⟨tiles, htiles, -, rfl⟩ := exists_tiles_of_scan h
  have hpairwise := List.pairwise_map.mp htiles.inOrder.pairwise
  rw [hdecorators, List.pairwise_append] at hpairwise
  exact fun earlier hearlier => hpairwise.2.2 earlier hearlier d List.mem_cons_self

/-- A template fails in the scan, or at the first decorator whose expression cannot be parsed. -/
theorem fails_of_compileTemplate {source : String} {e : SyntaxError}
    (h : compileTemplate source = .error e) : Fails source e := by
  rw [compileTemplate] at h
  split at h
  · next hscan =>
      cases h
      exact .scan hscan
  · next segments hscan =>
      cases hcompile : (segments.filterMap Segment.decorator?).mapM compileDecorator with
      | ok compiled =>
          rw [hcompile] at h
          contradiction
      | error e' =>
          rw [hcompile] at h
          cases h
          obtain ⟨front, d, back, hlist, hfront, hd⟩ := exists_of_mapM_eq_error hcompile
          obtain ⟨e', hparse, rfl⟩ := parse_of_compileDecorator_eq_error hd
          obtain ⟨before, raw, after, hsource, hwritten⟩ :=
            written_of_scan hscan (show d ∈ _ by simp [hlist])
          have hcovers := hwritten.covers_expression hsource
          obtain ⟨text, htext⟩ := covers_of_parse_eq_error hparse
          obtain ⟨hmoved, hstart, hstop⟩ := hcovers.within htext
          have hdecorators : decorators source = .ok (front ++ d :: back) := by
            rw [decorators, hscan]
            exact congrArg Except.ok hlist
          have hparsed : ∀ earlier ∈ front, ∃ es, parse earlier.expression = .ok es := by
            intro earlier hearlier
            obtain ⟨compiled, hcompiled⟩ := hfront earlier hearlier
            exact parses_of_compileDecorator hcompiled
          exact .expression hdecorators (order_of_scan hscan hlist) hparsed hparse htext hmoved
            hstart hstop

/-! ## Templates that are compiled -/

/-- A compiled template has the markup, the decorators and the compiled expressions that the stages
give one by one. -/
theorem stages_of_compileTemplate {source : String} {compiled : CompiledTemplate}
    (h : compileTemplate source = .ok compiled) :
    process source = .ok compiled.markup ∧
      decorators source = .ok (compiled.decorators.map CompiledDecorator.decorator) ∧
      ∀ d ∈ compiled.decorators, compileExpression d.decorator.expression = .ok d.compiled := by
  rw [compileTemplate] at h
  split at h
  · contradiction
  · next segments hscan =>
      cases hcompile : (segments.filterMap Segment.decorator?).mapM compileDecorator with
      | error e =>
          rw [hcompile] at h
          contradiction
      | ok results =>
          rw [hcompile] at h
          cases h
          obtain ⟨hdecorators, hresults⟩ := map_of_mapM_eq_ok hcompile
          refine ⟨?_, ?_, hresults⟩
          · rw [process, hscan]
            rfl
          · rw [decorators, hscan]
            exact congrArg Except.ok hdecorators.symm

/-- A template that can be scanned, with expressions that can be parsed. -/
def Parses (source : String) : Prop :=
  ∃ segments, scan source = .ok segments ∧
    ∀ d ∈ segments.filterMap Segment.decorator?, ∃ es, parse d.expression = .ok es

/-- A template that is compiled is accepted by the scan, and each of its expressions is parsed. -/
theorem parses_of_compileTemplate {source : String} {compiled : CompiledTemplate}
    (h : compileTemplate source = .ok compiled) : Parses source := by
  obtain ⟨-, hdecorators, hresults⟩ := stages_of_compileTemplate h
  cases hscan : scan source with
  | error e =>
      rw [decorators, hscan] at hdecorators
      contradiction
  | ok segments =>
      rw [decorators, hscan] at hdecorators
      have hlist : segments.filterMap Segment.decorator? =
          compiled.decorators.map CompiledDecorator.decorator := Except.ok.inj hdecorators
      refine ⟨segments, hscan, ?_⟩
      rw [hlist, List.forall_mem_map]
      exact fun d hd => parses_of_compileExpression (hresults d hd)

/-- A template that fails for one of these reasons is none in which everything is accepted. With the
above, this makes the conditions exact. -/
theorem Fails.not_parses {source : String} {e : SyntaxError} (h : Fails source e) :
    ¬Parses source := by
  rintro ⟨segments, hscan, hparse⟩
  cases h with
  | scan h =>
      rw [hscan] at h
      contradiction
  | @expression front back d e text hdecorators _ _ h =>
      rw [decorators, hscan] at hdecorators
      have hlist : segments.filterMap Segment.decorator? = front ++ d :: back :=
        Except.ok.inj hdecorators
      obtain ⟨es, hes⟩ := hparse d (by simp [hlist])
      rw [h] at hes
      contradiction

namespace Session

/-- The session after a sequence of calls. -/
def after (session : Session) : List Call → Session
  | [] => session
  | call :: calls => (session.step call).2.after calls

/-- A session keeps to its results through all calls, by induction on the calls. -/
theorem Faithful.after {session : Session} (h : session.Faithful) (calls : List Call) :
    (session.after calls).Faithful := by
  induction calls generalizing session with
  | nil => exact h
  | cons call calls ih => exact ih (h.step (faithful_empty false) call).2

/-- After any calls, compiling a template gives what compiling it without a session would give. -/
theorem compileTemplate_after (caching : Bool) (calls : List Call) (source : String) :
    ((after { caching := caching } calls).compileTemplate source).1 =
      ReactiveTemplate.compileTemplate source :=
  (((faithful_empty caching).after calls).compileTemplate source).1

/-- What a template is compiled to, stage by stage. -/
structure Composed (session : Session) (source : String) (compiled : CompiledTemplate) : Prop where
  markup : process source = .ok compiled.markup
  decorators : ReactiveTemplate.decorators source =
    .ok (compiled.decorators.map CompiledDecorator.decorator)
  expressions : ∀ d ∈ compiled.decorators,
    (session.compileExpression d.decorator.expression).1 = .ok d.compiled

/-- Whatever a session has been asked before, a template is compiled if it is scanned and all of its
expressions are parsed. Then its markup and its decorators are those of the template, and otherwise
the error is that of the first stage that fails. -/
theorem compileTemplate_composed (caching : Bool) (calls : List Call) (source : String) :
    let session := after { caching := caching } calls
    ((∃ compiled, (session.compileTemplate source).1 = .ok compiled) ↔ Parses source) ∧
    (∀ compiled, (session.compileTemplate source).1 = .ok compiled →
      Composed session source compiled) ∧
    ∀ e, (session.compileTemplate source).1 = .error e → Fails source e := by
  intro session
  rw [show session = after { caching := caching } calls from rfl, compileTemplate_after]
  refine ⟨⟨?_, ?_⟩, ?_, fun e => fails_of_compileTemplate⟩
  · rintro ⟨compiled, hcompiled⟩
    exact parses_of_compileTemplate hcompiled
  · intro hparses
    cases hcompile : ReactiveTemplate.compileTemplate source with
    | ok compiled => exact ⟨compiled, rfl⟩
    | error e => exact absurd hparses (fails_of_compileTemplate hcompile).not_parses
  · intro compiled hcompiled
    obtain ⟨hmarkup, hdecorators, hresults⟩ := stages_of_compileTemplate hcompiled
    refine ⟨hmarkup, hdecorators, fun d hd => ?_⟩
    have hfaithful : session.Faithful := (faithful_empty caching).after calls
    rw [(hfaithful.compileExpression _).1]
    exact hresults d hd

/-- The expression of the second decorator is wrong; that of the first has been kept. -/
theorem compileTemplate_composed_second :
    ∃ e, ((after { caching := true } [.expression "a"]).compileTemplate "ü{a}[if é b]").1 =
        .error e ∧ e.span = ⟨12, 13⟩ ∧ Fails "ü{a}[if é b]" e := by
  obtain ⟨e, hcompile, hspan⟩ :
      ∃ e, ReactiveTemplate.compileTemplate "ü{a}[if é b]" = .error e ∧ e.span = ⟨12, 13⟩ :=
    exists_eq_error_of_failure? (by decide +kernel)
  rw [← compileTemplate_after true [.expression "a"]] at hcompile
  exact ⟨e, hcompile, hspan, (compileTemplate_composed true _ _).2.2 e hcompile⟩

end Session

end ReactiveTemplate
