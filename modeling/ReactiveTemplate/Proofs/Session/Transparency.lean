import ReactiveTemplate.Json.Encoding
import ReactiveTemplate.Session

/-!
# Sessions keep no secrets

What a session has kept never shows in its answers: each of them is what a session that keeps
nothing would answer. The invariant is that whatever is kept under a source is what compiling that
source gives.
-/

namespace ReactiveTemplate

namespace Session

/-- Whatever is kept under a source is what compiling that source gives. -/
structure Faithful (session : Session) : Prop where
  expressions : ∀ ⦃source compiled⦄, session.expressions[source]? = some compiled →
    ReactiveTemplate.compileExpression source = .ok compiled
  templates : ∀ ⦃source compiled⦄, session.templates[source]? = some compiled →
    ReactiveTemplate.compileTemplate source = .ok compiled

/-! ## What one operation preserves -/

theorem faithful_empty (caching : Bool) : Faithful { caching := caching } := by
  constructor <;> intro source compiled hkept <;> rw [Std.HashMap.getElem?_empty] at hkept <;>
    contradiction

theorem faithful_clear (session : Session) : session.clear.Faithful :=
  ⟨(faithful_empty session.caching).expressions, (faithful_empty session.caching).templates⟩

theorem source_of_compileExpression {source : String} {compiled : CompiledExpression}
    (h : ReactiveTemplate.compileExpression source = .ok compiled) : compiled.source = source := by
  rw [ReactiveTemplate.compileExpression] at h
  cases hparse : parse source with
  | error e =>
      rw [hparse] at h
      contradiction
  | ok es =>
      rw [hparse] at h
      cases h
      rfl

/-- To keep a result under its source leaves the results of other sources as they were. -/
theorem eq_ok_of_insert {α : Type} {compile : String → Except SyntaxError α}
    {kept : Std.HashMap String α} {source : String} {result : α}
    (h : ∀ ⦃source compiled⦄, kept[source]? = some compiled → compile source = .ok compiled)
    (hresult : compile source = .ok result) :
    ∀ ⦃other compiled⦄, (kept.insert source result)[other]? = some compiled →
      compile other = .ok compiled := by
  intro other compiled hkept
  rw [Std.HashMap.getElem?_insert] at hkept
  split at hkept
  · next heq =>
      cases hkept
      rwa [← eq_of_beq heq]
  · exact h hkept

namespace Faithful

variable {session : Session} (h : session.Faithful)
include h

/-- Keeping the result of compiling an expression under its source does not make a session wrong
about anything. -/
theorem keepExpression {compiled : CompiledExpression}
    (hcompiled : ReactiveTemplate.compileExpression compiled.source = .ok compiled) :
    (session.keepExpression compiled).Faithful := by
  rw [Session.keepExpression]
  split
  · exact ⟨eq_ok_of_insert h.expressions hcompiled, h.templates⟩
  · exact h

theorem keepTemplate {source : String} {compiled : CompiledTemplate}
    (hcompiled : ReactiveTemplate.compileTemplate source = .ok compiled) :
    (session.keepTemplate source compiled).Faithful := by
  rw [Session.keepTemplate]
  split
  · exact ⟨h.expressions, eq_ok_of_insert h.templates hcompiled⟩
  · exact h

/-- An expression is compiled as without a session, whether it has been kept or not. -/
theorem compileExpression (source : String) :
    (session.compileExpression source).1 = ReactiveTemplate.compileExpression source ∧
      (session.compileExpression source).2.Faithful := by
  rw [Session.compileExpression]
  split
  · next compiled hkept => exact ⟨(h.expressions hkept).symm, h⟩
  · split
    · next compiled hcompiled =>
        refine ⟨hcompiled.symm, h.keepExpression ?_⟩
        rwa [source_of_compileExpression hcompiled]
    · next e herror => exact ⟨herror.symm, h⟩

/-- The decorators of a template are compiled as without a session. Those in front of one that fails
may have been kept by then. -/
theorem compileDecorators (done : List CompiledDecorator) (decorators : List Decorator) :
    (session.compileDecorators done decorators).1 =
        (decorators.mapM compileDecorator).map (done.reverse ++ ·) ∧
      (session.compileDecorators done decorators).2.Faithful := by
  induction decorators generalizing session done with
  | nil => exact ⟨by simp [Session.compileDecorators, Except.map, pure, Except.pure], h⟩
  | cons decorator rest ih =>
      obtain ⟨hresult, hnext⟩ := h.compileExpression decorator.expression
      rw [Session.compileDecorators, List.mapM_cons, compileDecorator]
      rcases hcompile : session.compileExpression decorator.expression with ⟨result, session'⟩
      rw [hcompile] at hresult hnext
      rw [← hresult]
      cases result with
      | error e => exact ⟨rfl, hnext⟩
      | ok compiled =>
          -- The session goes on with this decorator kept, which is still faithful.
          obtain ⟨hrest, hfaithful⟩ := ih hnext (⟨decorator, compiled⟩ :: done)
          refine ⟨hrest.trans ?_, hfaithful⟩
          cases rest.mapM compileDecorator <;>
            simp [bind, Except.bind, Except.map, pure, Except.pure]

/-- Compiling a template in a session gives what compiling it afresh gives, whether it was kept,
partly kept or new. -/
theorem compileTemplate (source : String) :
    (session.compileTemplate source).1 = ReactiveTemplate.compileTemplate source ∧
      (session.compileTemplate source).2.Faithful := by
  rw [Session.compileTemplate]
  split
  · next compiled hkept => exact ⟨(h.templates hkept).symm, h⟩
  · cases hscan : scan source with
    | error e => exact ⟨by rw [ReactiveTemplate.compileTemplate, hscan], h⟩
    | ok segments =>
        obtain ⟨hresult, hnext⟩ :=
          h.compileDecorators [] (segments.filterMap Segment.decorator?)
        have htemplate : ReactiveTemplate.compileTemplate source =
            ((segments.filterMap Segment.decorator?).mapM compileDecorator).map
              fun decorators => ⟨render segments, decorators⟩ := by
          rw [ReactiveTemplate.compileTemplate, hscan]
        dsimp only
        rcases hcompile : session.compileDecorators [] (segments.filterMap Segment.decorator?)
          with ⟨result, session'⟩
        rw [hcompile] at hresult hnext
        cases hdecorators : (segments.filterMap Segment.decorator?).mapM compileDecorator with
        | error e =>
            rw [hdecorators] at hresult htemplate
            cases hresult
            exact ⟨htemplate.symm, hnext⟩
        | ok decorators =>
            rw [hdecorators] at hresult htemplate
            cases hresult
            exact ⟨htemplate.symm, hnext.keepTemplate htemplate⟩

end Faithful

/-! ## Runs -/

/-- What a session can be asked to do. -/
inductive Call where
  | expression (source : String)
  | template (source : String)
  | outline (source : String)
  | clear

/-- What a session answers. -/
inductive Answer where
  | expression (result : Except SyntaxError CompiledExpression)
  | template (result : Except SyntaxError CompiledTemplate)
  | outline (result : Except SyntaxError Json)
  | cleared

/-- The answer to one call, and the session after it. -/
def step (session : Session) : Call → Answer × Session
  | .expression source =>
      let (result, session) := session.compileExpression source
      (.expression result, session)
  | .template source =>
      let (result, session) := session.compileTemplate source
      (.template result, session)
  | .outline source =>
      let (result, session) := session.compileTemplate source
      (.outline (result.map CompiledTemplate.outline), session)
  | .clear => (.cleared, session.clear)

/-- The answers to a sequence of calls. -/
def run (session : Session) : List Call → List Answer
  | [] => []
  | call :: calls => (session.step call).1 :: (session.step call).2.run calls

/-- The answer of a session that has not been asked anything before and keeps nothing. -/
def freshAnswer (call : Call) : Answer :=
  (step { caching := false } call).1

/-- Two sessions that are not wrong about anything answer a call alike and stay so, whatever each of
them has kept. -/
theorem Faithful.step {session session' : Session} (h : session.Faithful)
    (h' : session'.Faithful) (call : Call) :
    (session.step call).1 = (session'.step call).1 ∧ (session.step call).2.Faithful := by
  cases call with
  | expression source =>
      obtain ⟨hresult, hnext⟩ := h.compileExpression source
      refine ⟨?_, hnext⟩
      simp only [Session.step]
      rw [hresult, (h'.compileExpression source).1]
  | template source =>
      obtain ⟨hresult, hnext⟩ := h.compileTemplate source
      refine ⟨?_, hnext⟩
      simp only [Session.step]
      rw [hresult, (h'.compileTemplate source).1]
  | outline source =>
      obtain ⟨hresult, hnext⟩ := h.compileTemplate source
      refine ⟨?_, hnext⟩
      simp only [Session.step]
      rw [hresult, (h'.compileTemplate source).1]
  | clear => exact ⟨rfl, faithful_clear session⟩

/-- The answers to all calls of a run are those that fresh compilations would give, by induction on
the calls. -/
theorem Faithful.run {session : Session} (h : session.Faithful) (calls : List Call) :
    session.run calls = calls.map freshAnswer := by
  induction calls generalizing session with
  | nil => rfl
  | cons call calls ih =>
      obtain ⟨hanswer, hnext⟩ := h.step (faithful_empty false) call
      rw [Session.run, hanswer, ih hnext]
      rfl

/-- Whatever a session is asked in turn, and whether it keeps what it compiles or not, each answer
is that of a fresh session that keeps nothing. -/
theorem run_transparent (caching : Bool) (calls : List Call) :
    run { caching := caching } calls = calls.map freshAnswer :=
  (faithful_empty caching).run calls

end Session

end ReactiveTemplate
