import Mathlib.Data.List.Dedup
import Mathlib.Data.List.DropRight
import ReactiveTemplate.Proofs.Session.Composition

/-!
# What a session keeps

A session that keeps what it compiles has kept exactly what has been compiled since it last forgot
everything: the expressions that were asked for, those of the templates, and the templates as a
whole. A template with a wrong expression leaves behind the expressions in front of it. The
invariant is that the expressions of a kept template are kept as well, so that nothing is missed
where a template is answered without looking at its expressions.
-/

namespace ReactiveTemplate

theorem isOk_iff {ε α : Type} {result : Except ε α} : result.isOk ↔ ∃ a, result = .ok a := by
  cases result with
  | ok a => exact iff_of_true rfl ⟨a, rfl⟩
  | error e => exact iff_of_false Bool.false_ne_true (by simp)

/-- Whether an expression can be compiled. -/
def compiles (source : String) : Bool :=
  (compileExpression source).isOk

/-- Whether a template can be compiled. -/
def compilesTemplate (source : String) : Bool :=
  (compileTemplate source).isOk

/-- The expressions of a template in front of the first that cannot be compiled. -/
def compiledExpressions (template : String) : List String :=
  match decorators template with
  | .ok ds => (ds.map Decorator.expression).takeWhile compiles
  | .error _ => []

/-- All expressions of a template that is compiled can be compiled. -/
theorem compiledExpressions_of_compileTemplate {source : String} {compiled : CompiledTemplate}
    (h : compileTemplate source = .ok compiled) :
    compiledExpressions source =
      compiled.decorators.map fun d => d.decorator.expression := by
  obtain ⟨-, hdecorators, hresults⟩ := stages_of_compileTemplate h
  rw [compiledExpressions, hdecorators]
  simp only [List.map_map]
  refine List.takeWhile_eq_self_iff.mpr (List.forall_mem_map.mpr fun d hd => ?_)
  exact isOk_iff.mpr ⟨d.compiled, hresults d hd⟩

namespace Session

/-! ## Calls -/

/-- Whether a call makes the session forget everything. -/
def Call.isClear : Call → Bool
  | clear => true
  | _ => false

/-- The expressions that a call compiles. -/
def Call.expressions : Call → List String
  | expression source => if compiles source then [source] else []
  | template source | outline source => compiledExpressions source
  | clear => []

/-- The template that a call compiles. -/
def Call.templates : Call → List String
  | template source | outline source => if compilesTemplate source then [source] else []
  | _ => []

theorem Call.expressions_of_mem_templates {call : Call} {template : String}
    (h : template ∈ call.templates) : call.expressions = compiledExpressions template := by
  cases call with
  | template source | outline source =>
      rw [templates, List.mem_ite_nil_right, List.mem_singleton] at h
      rw [expressions, h.2]
  | _ => contradiction

/-- The calls after the last that makes the session forget everything. -/
def recent (calls : List Call) : List Call :=
  calls.rtakeWhile fun call => !call.isClear

/-! ## What one operation keeps -/

theorem mem_of_getElem? {α : Type} {kept : Std.HashMap String α} {source : String} {result : α}
    (h : kept[source]? = some result) : source ∈ kept := by
  rw [Std.HashMap.mem_iff_isSome_getElem?, h]
  rfl

/-- The `expressions` and the `templates` are kept in addition to what was kept before. -/
structure Gains (session session' : Session) (expressions templates : List String) : Prop where
  caching : session'.caching = session.caching
  expressions : ∀ source, source ∈ session'.expressions ↔
    source ∈ session.expressions ∨ source ∈ expressions
  templates : ∀ source, source ∈ session'.templates ↔
    source ∈ session.templates ∨ source ∈ templates

theorem gains_nothing (session : Session) : session.Gains session [] [] :=
  ⟨rfl, by simp, by simp⟩

/-- What a session gains in two steps is what it gains in both, in whichever order the sets are put
together. -/
theorem Gains.trans {session session' session'' : Session}
    {expressions templates expressions' templates' : List String}
    (h : session.Gains session' expressions templates)
    (h' : session'.Gains session'' expressions' templates') :
    session.Gains session'' (expressions ++ expressions') (templates ++ templates') := by
  refine ⟨h'.caching.trans h.caching, fun source => ?_, fun source => ?_⟩
  · rw [h'.expressions, h.expressions, List.mem_append, or_assoc]
  · rw [h'.templates, h.templates, List.mem_append, or_assoc]

variable {session : Session}

/-- To gain what is there already changes nothing. -/
theorem gains_of_subset {expressions templates : List String}
    (hexpressions : ∀ source ∈ expressions, source ∈ session.expressions)
    (htemplates : ∀ source ∈ templates, source ∈ session.templates) :
    session.Gains session expressions templates :=
  ⟨rfl, fun source => (or_iff_left_of_imp (hexpressions source)).symm,
    fun source => (or_iff_left_of_imp (htemplates source)).symm⟩

theorem gains_keepExpression (hcaching : session.caching) (compiled : CompiledExpression) :
    session.Gains (session.keepExpression compiled) [compiled.source] [] := by
  rw [keepExpression, if_pos hcaching]
  refine ⟨rfl, fun other => ?_, by simp⟩
  rw [Std.HashMap.mem_insert, beq_iff_eq, List.mem_singleton, or_comm, eq_comm]

theorem gains_keepTemplate (hcaching : session.caching) (source : String)
    (compiled : CompiledTemplate) :
    session.Gains (session.keepTemplate source compiled) [] [source] := by
  rw [keepTemplate, if_pos hcaching]
  refine ⟨rfl, by simp, fun other => ?_⟩
  rw [Std.HashMap.mem_insert, beq_iff_eq, List.mem_singleton, or_comm, eq_comm]

/-- An expression is kept if it can be compiled, whether it was kept before or not. -/
theorem Faithful.gains_compileExpression (h : session.Faithful) (hcaching : session.caching)
    (source : String) :
    session.Gains (session.compileExpression source).2
      (if compiles source then [source] else []) [] := by
  rw [Session.compileExpression, compiles]
  split
  · next compiled hkept =>
      rw [if_pos (isOk_iff.mpr ⟨compiled, h.expressions hkept⟩)]
      exact gains_of_subset (List.forall_mem_singleton.mpr (mem_of_getElem? hkept)) (by simp)
  · split
    · next compiled hcompiled =>
        rw [if_pos (isOk_iff.mpr ⟨compiled, hcompiled⟩), ← source_of_compileExpression hcompiled]
        exact gains_keepExpression hcaching compiled
    · next e herror =>
        rw [herror]
        exact gains_nothing session

/-- The expressions in front of the first wrong one are kept. -/
theorem Faithful.gains_compileDecorators (h : session.Faithful) (hcaching : session.caching)
    (done : List CompiledDecorator) (ds : List Decorator) :
    session.Gains (session.compileDecorators done ds).2
      ((ds.map Decorator.expression).takeWhile compiles) [] := by
  induction ds generalizing session done with
  | nil => exact gains_nothing session
  | cons d ds ih =>
      obtain ⟨hresult, hnext⟩ := h.compileExpression d.expression
      have hgains := h.gains_compileExpression hcaching d.expression
      rw [Session.compileDecorators, List.map_cons, List.takeWhile_cons]
      rcases hcompile : session.compileExpression d.expression with ⟨result, session'⟩
      rw [hcompile] at hresult hnext hgains
      cases result with
      | ok compiled =>
          have hcompiles : compiles d.expression := isOk_iff.mpr ⟨compiled, hresult.symm⟩
          rw [if_pos hcompiles] at hgains ⊢
          exact hgains.trans (ih hnext (hgains.caching.trans hcaching) _)
      | error e =>
          have hfails : ¬compiles d.expression := by
            rw [compiles, ← hresult]
            exact Bool.false_ne_true
          rw [if_neg hfails] at hgains ⊢
          exact hgains

/-- A session that keeps what it compiles, and the expressions of a template with the template. -/
structure Complete (session : Session) : Prop extends session.Faithful where
  caching : session.caching
  decorators : ∀ template ∈ session.templates, ∀ source ∈ compiledExpressions template,
    source ∈ session.expressions

theorem complete_empty : Complete { caching := true } :=
  ⟨faithful_empty true, rfl, by simp⟩

namespace Complete

variable (h : session.Complete)
include h

theorem clear : session.clear.Complete :=
  ⟨faithful_clear session, h.caching, by simp [Session.clear]⟩

/-- A session that has gained results, with the expressions of each new template among them, is as
complete as before. -/
theorem gains {session' : Session} {expressions templates : List String}
    (hfaithful : session'.Faithful) (hgains : session.Gains session' expressions templates)
    (hdecorators : ∀ template ∈ templates, ∀ source ∈ compiledExpressions template,
      source ∈ expressions) : session'.Complete := by
  refine ⟨hfaithful, hgains.caching.trans h.caching, fun template htemplate source hsource => ?_⟩
  rw [hgains.expressions]
  rcases (hgains.templates template).mp htemplate with hkept | hnew
  · exact .inl (h.decorators template hkept source hsource)
  · exact .inr (hdecorators template hnew source hsource)

/-- A template is kept if it can be compiled. Its expressions are kept in any case, up to the first
that is wrong. -/
theorem gains_compileTemplate (source : String) :
    session.Gains (session.compileTemplate source).2 (compiledExpressions source)
      (if compilesTemplate source then [source] else []) := by
  have hresult : compilesTemplate source = (session.compileTemplate source).1.isOk := by
    rw [compilesTemplate, (h.toFaithful.compileTemplate source).1]
  rw [Session.compileTemplate] at hresult ⊢
  cases hkept : session.templates[source]? with
  | some compiled =>
      -- The expressions are not looked at, but they have been kept with the template.
      have hmem := mem_of_getElem? hkept
      rw [hkept] at hresult
      rw [hresult]
      exact gains_of_subset (h.decorators source hmem) (List.forall_mem_singleton.mpr hmem)
  | none =>
      cases hscan : scan source with
      | error e =>
          rw [hkept, hscan] at hresult
          rw [compiledExpressions, ReactiveTemplate.decorators, hscan, hresult]
          exact gains_nothing session
      | ok segments =>
          have hgains := h.toFaithful.gains_compileDecorators h.caching []
            (segments.filterMap Segment.decorator?)
          rw [hkept, hscan] at hresult
          rw [compiledExpressions, ReactiveTemplate.decorators, hscan]
          dsimp only [Except.map] at hresult ⊢
          rcases hcompile : session.compileDecorators [] (segments.filterMap Segment.decorator?)
            with ⟨result, session'⟩
          rw [hcompile] at hresult hgains
          rw [hresult]
          cases result with
          | error e => exact hgains
          | ok ds =>
              have hkeep := gains_keepTemplate (hgains.caching.trans h.caching) source
                ⟨render segments, ds⟩
              have hboth := hgains.trans hkeep
              rw [List.append_nil] at hboth
              exact hboth

/-- Whatever the session has kept by then, a call adds what it compiles. -/
theorem gains_step {call : Call} (hcall : ¬call.isClear) :
    session.Gains (session.step call).2 call.expressions call.templates := by
  cases call with
  | expression source => exact h.toFaithful.gains_compileExpression h.caching source
  | template source => exact h.gains_compileTemplate source
  | outline source => exact h.gains_compileTemplate source
  | clear => exact absurd rfl hcall

/-- One call leaves a complete session complete. A failing call gains the expressions in front of
the wrong one. -/
theorem step (call : Call) : (session.step call).2.Complete := by
  by_cases hcall : call.isClear
  · cases call with
    | clear => exact h.clear
    | _ => contradiction
  · refine h.gains (h.toFaithful.step (faithful_empty false) call).2 (h.gains_step hcall) ?_
    intro template htemplate source hsource
    rwa [Call.expressions_of_mem_templates htemplate]

end Complete

/-! ## Runs -/

theorem after_append (session : Session) (calls : List Call) (call : Call) :
    session.after (calls ++ [call]) = ((session.after calls).step call).2 := by
  induction calls generalizing session with
  | nil => rfl
  | cons first calls ih => exact ih _

/-- A session stays complete through all calls, which is the run lemma to the step for one call. -/
theorem Complete.after (h : session.Complete) (calls : List Call) :
    (session.after calls).Complete := by
  induction calls generalizing session with
  | nil => exact h
  | cons call calls ih => exact ih (h.step call)

/-- Since it last forgot everything, a session has gained what the calls compile. -/
theorem gains_after (calls : List Call) :
    Gains { caching := true } (after { caching := true } calls)
      ((recent calls).flatMap Call.expressions) ((recent calls).flatMap Call.templates) := by
  induction calls using List.reverseRecOn with
  | nil => exact gains_nothing _
  | append_singleton calls call ih =>
      have hcomplete := complete_empty.after calls
      rw [after_append, recent, List.rtakeWhile_concat]
      by_cases hcall : call.isClear
      · rw [if_neg (by simp [hcall])]
        cases call with
        | clear => exact ⟨hcomplete.caching, by simp [step, clear], by simp [step, clear]⟩
        | _ => contradiction
      · rw [if_pos (by simp [hcall]), List.flatMap_append, List.flatMap_append,
          List.flatMap_singleton, List.flatMap_singleton]
        exact ih.trans (hcomplete.gains_step hcall)

/-! ## Sessions that keep nothing -/

/-- A session that keeps nothing is not changed by what it compiles. -/
theorem compileExpression_idle (h : session.caching = false) (source : String) :
    (session.compileExpression source).2 = session := by
  rw [Session.compileExpression]
  split
  · rfl
  · split
    · rw [keepExpression, h, if_neg Bool.false_ne_true]
    · rfl

theorem compileDecorators_idle (h : session.caching = false) (done : List CompiledDecorator)
    (ds : List Decorator) : (session.compileDecorators done ds).2 = session := by
  induction ds generalizing done with
  | nil => rfl
  | cons d ds ih =>
      have hidle := compileExpression_idle h d.expression
      rw [Session.compileDecorators]
      rcases hcompile : session.compileExpression d.expression with ⟨result, session'⟩
      rw [hcompile] at hidle
      obtain rfl : session' = session := hidle
      cases result with
      | ok compiled => exact ih _
      | error e => rfl

/-- A session that keeps nothing is not changed by compiling, neither when it succeeds nor when it
fails. -/
theorem compileTemplate_idle (h : session.caching = false) (source : String) :
    (session.compileTemplate source).2 = session := by
  rw [Session.compileTemplate]
  split
  · rfl
  · split
    · rfl
    · next segments hscan =>
        have hidle := compileDecorators_idle h [] (segments.filterMap Segment.decorator?)
        rcases hcompile : session.compileDecorators [] (segments.filterMap Segment.decorator?)
          with ⟨result, session'⟩
        rw [hcompile] at hidle
        obtain rfl : session' = session := hidle
        cases result with
        | ok ds => exact if_neg (by simp [h])
        | error e => rfl

theorem after_idle (calls : List Call) :
    after { caching := false } calls = { caching := false } := by
  induction calls with
  | nil => rfl
  | cons call calls ih =>
      rw [after]
      have hstep : (step { caching := false } call).2 = { caching := false } := by
        cases call with
        | expression source => exact compileExpression_idle rfl source
        | template source | outline source => exact compileTemplate_idle rfl source
        | clear => rfl
      rw [hstep, ih]

/-! ## What is kept -/

/-- An expression that fails leaves the session as it is. Errors are not kept. -/
theorem compileExpression_of_error {source : String} {e : SyntaxError}
    (h : (session.compileExpression source).1 = .error e) :
    (session.compileExpression source).2 = session := by
  rw [Session.compileExpression] at h ⊢
  split at h
  · contradiction
  · cases hcompile : ReactiveTemplate.compileExpression source with
    | ok compiled =>
        rw [hcompile] at h
        contradiction
    | error e => rfl

/-- A template that fails in the scan leaves the session as it is, since none of its expressions is
looked at. -/
theorem compileTemplate_of_scan {source : String} {e : SyntaxError} (h : scan source = .error e) :
    (session.compileTemplate source).2 = session := by
  rw [Session.compileTemplate, h]
  split <;> rfl

/-- A map that has the keys of some list, and no others, is as large as the list without
repetitions. -/
theorem size_of_mem_iff {α : Type} {kept : Std.HashMap String α} {sources : List String}
    (h : ∀ source, source ∈ kept ↔ source ∈ sources) : kept.size = sources.dedup.length := by
  rw [← Std.HashMap.length_keys]
  refine List.Perm.length_eq ((List.perm_ext_iff_of_nodup Std.HashMap.nodup_keys
    (List.nodup_dedup sources)).mpr fun source => ?_)
  rw [Std.HashMap.mem_keys, h, List.mem_dedup]

/-- Each expression of a kept template is kept, with what the template has for it. -/
theorem Complete.getElem?_of_decorator (h : session.Complete) {template : String}
    {compiled : CompiledTemplate} (hkept : session.templates[template]? = some compiled)
    {d : CompiledDecorator} (hd : d ∈ compiled.decorators) :
    session.expressions[d.decorator.expression]? = some d.compiled := by
  have hcompiled := h.templates hkept
  obtain ⟨-, -, hresults⟩ := stages_of_compileTemplate hcompiled
  have hmem : d.decorator.expression ∈ session.expressions := by
    apply h.decorators template (mem_of_getElem? hkept)
    rw [compiledExpressions_of_compileTemplate hcompiled]
    exact List.mem_map_of_mem hd
  rw [Std.HashMap.mem_iff_isSome_getElem?, Option.isSome_iff_exists] at hmem
  obtain ⟨result, hresult⟩ := hmem
  have hsame := (h.expressions hresult).symm.trans (hresults d hd)
  rw [hresult, Except.ok.inj hsame]

/-- After whatever calls, a session keeps exactly the expressions and the templates that have been
compiled since it last forgot everything, and with each template its expressions. Its size is the
number of different sources among them. A wrong expression and a template that cannot be scanned
change nothing, and a session that keeps nothing stays empty. -/
theorem contents_after (calls : List Call) :
    let session := after { caching := true } calls
    (∀ source, source ∈ session.expressions ↔
      source ∈ (recent calls).flatMap Call.expressions) ∧
    (∀ source, source ∈ session.templates ↔ source ∈ (recent calls).flatMap Call.templates) ∧
    (∀ (template : String) compiled, session.templates[template]? = some compiled →
      ∀ d ∈ compiled.decorators,
        session.expressions[d.decorator.expression]? = some d.compiled) ∧
    session.size = ((recent calls).flatMap Call.expressions).dedup.length +
      ((recent calls).flatMap Call.templates).dedup.length ∧
    (∀ source e, (session.compileExpression source).1 = .error e →
      (session.compileExpression source).2 = session) ∧
    (∀ source e, scan source = .error e → (session.compileTemplate source).2 = session) ∧
    (after { caching := false } calls).size = 0 := by
  intro session
  have hcomplete : session.Complete := complete_empty.after calls
  have hgains := gains_after calls
  have hexpressions : ∀ source, source ∈ session.expressions ↔
      source ∈ (recent calls).flatMap Call.expressions := by
    intro source
    rw [hgains.expressions, or_iff_right Std.HashMap.not_mem_empty]
  have htemplates : ∀ source, source ∈ session.templates ↔
      source ∈ (recent calls).flatMap Call.templates := by
    intro source
    rw [hgains.templates, or_iff_right Std.HashMap.not_mem_empty]
  refine ⟨hexpressions, htemplates, ?_, ?_, ?_, ?_, ?_⟩
  · exact fun template compiled hkept d hd => hcomplete.getElem?_of_decorator hkept hd
  · rw [size, size_of_mem_iff hexpressions, size_of_mem_iff htemplates]
  · exact fun source e => compileExpression_of_error
  · exact fun source e => compileTemplate_of_scan
  · rw [after_idle]
    rfl

/-- What was kept before is forgotten, and the template keeps what is in front of the error. -/
example : (recent [.expression "a", .clear, .template "{b}{c c}{d}"]).flatMap
    Call.expressions = ["b"] := by
  decide +kernel

end Session

end ReactiveTemplate
