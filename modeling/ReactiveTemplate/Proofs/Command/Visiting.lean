import ReactiveTemplate.Proofs.Command.TemplateName
import ReactiveTemplate.Proofs.Session.Composition

/-!
# Visits to templates

What comes of a visit does not depend on the visits before it: it writes one file or none, it may
count as a failure, or it puts an end to the walk. What comes of a walk is made up of its visits.
-/

namespace ReactiveTemplate

theorem decodeText_toUTF8 (source : String) : decodeText source.toUTF8 = .ok source := by
  have hdecode : String.fromUTF8? source.toUTF8 = some source := dif_pos source.isValidUTF8
  rw [decodeText, hdecode]

theorem eq_toUTF8_of_decodeText {content : ByteArray} {source : String}
    (h : decodeText content = .ok source) : content = source.toUTF8 := by
  unfold decodeText String.fromUTF8? at h
  by_cases hvalid : content.IsValidUTF8
  · rw [dif_pos hvalid] at h
    cases h
    rfl
  · rw [dif_neg hvalid] at h
    contradiction

/-- What cannot be scanned cannot be compiled. -/
theorem exists_error_of_process {source : String} {e : SyntaxError}
    (h : process source = .error e) : ∃ e, compileTemplate source = .error e := by
  cases hcompile : compileTemplate source with
  | error e => exact ⟨e, rfl⟩
  | ok compiled => simp [(stages_of_compileTemplate hcompile).1] at h

namespace FileTree.Visit

/-- The text of the template that is visited. -/
def source? (v : Visit) : Option String :=
  match v.entry with
  | .directory _ => none
  | .file content => if isTemplateName v.name then (decodeText content).toOption else none

/-- The path of the file for the markup. -/
def target (v : Visit) : String :=
  join v.parent (markupName v.name)

/-- The file that a visit writes. -/
def write? (v : Visit) : Option FileWrite :=
  v.source?.bind fun source => (process source).toOption.map fun markup => ⟨v.target, markup⟩

/-- A visit to a template that cannot be compiled. -/
def Fails (v : Visit) : Prop :=
  ∃ source, v.source? = some source ∧ ∃ e, compileTemplate source = .error e

/-- A visit that puts an end to the walk: the template cannot be read, or a directory is where its
markup goes. -/
def Obstructs (v : Visit) (folders : List String) : Prop :=
  isTemplateName v.name ∧ (v.source? = none ∨ v.write? ≠ none ∧ v.target ∈ folders)

theorem source?_eq_some_iff {v : Visit} {source : String} :
    v.source? = some source ↔ isTemplateName v.name ∧ v.entry = .file source.toUTF8 := by
  unfold source?
  cases hentry : v.entry with
  | directory => simp
  | file content =>
      by_cases hname : isTemplateName v.name
      · dsimp only
        rw [if_pos hname, FileTree.file.injEq]
        constructor
        · intro h
          cases htext : decodeText content with
          | error => simp [htext, Except.toOption] at h
          | ok text =>
              rw [htext] at h
              cases h
              exact ⟨hname, eq_toUTF8_of_decodeText htext⟩
        · rintro ⟨-, rfl⟩
          rw [decodeText_toUTF8]
          rfl
      · simp [hname]

/-- A visit has something to write exactly if its source can be processed. Whether its expressions
compile plays no part. -/
theorem write?_eq_some_iff {v : Visit} {write : FileWrite} :
    v.write? = some write ↔
      ∃ source, v.source? = some source ∧ process source = .ok write.content ∧
        write.path = v.target := by
  obtain ⟨path, content⟩ := write
  rw [write?, Option.bind_eq_some_iff]
  refine exists_congr fun source => and_congr_right fun _ => ?_
  cases process source <;> simp [Except.toOption, eq_comm, and_comm]

theorem write?_ne_none_iff {v : Visit} :
    v.write? ≠ none ↔
      ∃ source, v.source? = some source ∧ ∃ markup, process source = .ok markup := by
  rw [Option.ne_none_iff_exists']
  constructor
  · rintro ⟨write, hwrite⟩
    obtain ⟨source, hsource, hprocess, -⟩ := write?_eq_some_iff.mp hwrite
    exact ⟨source, hsource, _, hprocess⟩
  · rintro ⟨source, hsource, markup, hprocess⟩
    exact ⟨⟨v.target, markup⟩, write?_eq_some_iff.mpr ⟨source, hsource, hprocess, rfl⟩⟩

/-- Only a template that can be read is written or fails. -/
theorem isTemplateName_of_source? {v : Visit} {source : String} (h : v.source? = some source) :
    isTemplateName v.name :=
  (source?_eq_some_iff.mp h).1

end FileTree.Visit

namespace Progress

open FileTree (Visit)

/-- What a visit that does not put an end to the walk adds. -/
structure Adds (progress progress' : Progress) (v : Visit) : Prop where
  count : progress'.count = progress.count + v.write?.toList.length
  failed : progress'.failed ↔ progress.failed ∨ v.Fails
  writes : progress'.writes = v.write?.toList ++ progress.writes

variable (progress : Progress) (folders : List String)

/-- A template either stops the walk, or it is added with its markup and its failure. The cases
exclude each other. -/
theorem addTemplate_cases {v : Visit} {source : String} (hname : isTemplateName v.name)
    (hsource : v.source? = some source) :
    (v.Obstructs folders ∧
        ∃ message, progress.addTemplate folders v.path v.target source = .error message) ∨
      (¬v.Obstructs folders ∧ ∃ progress',
        progress.addTemplate folders v.path v.target source = .ok progress' ∧
          progress.Adds progress' v) := by
  have hfails : v.Fails ↔ ∃ e, compileTemplate source = .error e := by
    simp [Visit.Fails, hsource]
  unfold addTemplate
  cases hprocess : process source with
  | error e =>
      have hwrite : v.write? = none := by
        simp [Visit.write?, hsource, hprocess, Except.toOption]
      have hfailed := hfails.mpr (exists_error_of_process hprocess)
      refine .inr ⟨by simp [Visit.Obstructs, hsource, hwrite], _, rfl, ?_⟩
      constructor <;> simp [report, hwrite, hfailed]
  | ok markup =>
      have hwrite : v.write? = some ⟨v.target, markup⟩ := by
        simp [Visit.write?, hsource, hprocess, Except.toOption]
      dsimp only
      split
      · next hfolder =>
          have htarget : v.target ∈ folders := by simpa using hfolder
          exact .inl ⟨⟨hname, .inr ⟨by simp [hwrite], htarget⟩⟩, _, rfl⟩
      · next hfolder =>
          have htarget : v.target ∉ folders := by simpa using hfolder
          refine .inr ⟨by simp [Visit.Obstructs, hsource, htarget], ?_⟩
          cases hcompile : compileTemplate source with
          | ok compiled =>
              refine ⟨_, rfl, ?_⟩
              constructor <;> simp [write, hwrite, hfails, hcompile]
          | error e =>
              refine ⟨_, rfl, ?_⟩
              constructor <;> simp [write, report, hwrite, hfails, hcompile]

/-- The step of a walk: an entry stops it with a message, or the progress gains what the entry adds.
All about runs follows from this. -/
theorem visit_cases (v : Visit) :
    (v.Obstructs folders ∧ ∃ message, progress.visit folders v = .error message) ∨
      (¬v.Obstructs folders ∧
        ∃ progress', progress.visit folders v = .ok progress' ∧ progress.Adds progress' v) := by
  unfold visit
  by_cases hname : isTemplateName v.name
  · rw [if_pos hname]
    cases hentry : v.entry with
    | directory entries =>
        have hsource : v.source? = none := by simp [Visit.source?, hentry]
        exact .inl ⟨⟨hname, .inl hsource⟩, _, rfl⟩
    | file content =>
        dsimp only
        cases htext : decodeText content with
        | error e =>
            have hsource : v.source? = none := by
              simp [Visit.source?, hentry, htext, Except.toOption]
            exact .inl ⟨⟨hname, .inl hsource⟩, _, rfl⟩
        | ok source =>
            have hsource : v.source? = some source := by
              simp [Visit.source?, hentry, htext, hname, Except.toOption]
            exact addTemplate_cases progress folders hname hsource
  · rw [if_neg hname]
    have hsource : v.source? = none := by
      unfold Visit.source?
      split
      · rfl
      · exact if_neg hname
    refine .inr ⟨fun h => hname h.1, progress, rfl, ?_⟩
    constructor <;> simp [Visit.write?, Visit.Fails, hsource]

/-! ## Walks -/

section

variable {progress folders} {path : String} {visits : List Visit}

/-- A walk writes nothing but what its visits write. -/
theorem mem_writes_visitAll {write : FileWrite}
    (h : write ∈ (progress.visitAll folders path visits).writes) :
    write ∈ progress.writes ∨ ∃ v ∈ visits, v.write? = some write := by
  induction visits generalizing progress with
  | nil => exact .inl (List.mem_reverse.mp h)
  | cons v visits ih =>
      rw [visitAll] at h
      rcases progress.visit_cases folders v with
        ⟨-, message, hvisit⟩ | ⟨-, progress', hvisit, hadds⟩
      · rw [hvisit] at h
        exact .inl (List.mem_reverse.mp h)
      · rw [hvisit] at h
        rcases ih h with hprogress | ⟨v', hv', hwrite⟩
        · rw [hadds.writes, List.mem_append, Option.mem_toList] at hprogress
          exact hprogress.symm.imp_right fun hwrite => ⟨v, List.mem_cons_self, hwrite⟩
        · exact .inr ⟨v', List.mem_cons_of_mem _ hv', hwrite⟩

theorem exitCode_visitAll_le : (progress.visitAll folders path visits).exitCode ≤ 1 := by
  induction visits generalizing progress with
  | nil =>
      rw [visitAll, finish]
      dsimp only
      split <;> decide
  | cons v visits ih =>
      rw [visitAll]
      split
      · exact ih
      · exact Nat.le_refl 1

/-- A walk that is obstructed fails. -/
theorem exitCode_of_obstructed (h : ∃ v ∈ visits, v.Obstructs folders) :
    (progress.visitAll folders path visits).exitCode = 1 := by
  induction visits generalizing progress with
  | nil => simp at h
  | cons v visits ih =>
      rw [visitAll]
      rcases progress.visit_cases folders v with
        ⟨-, message, hvisit⟩ | ⟨hclear, progress', hvisit, -⟩
      · rw [hvisit]
        rfl
      · rw [hvisit]
        apply ih
        obtain ⟨v', hv', hobstructs⟩ := h
        rcases List.mem_cons.mp hv' with rfl | hv'
        · exact absurd hobstructs hclear
        · exact ⟨v', hv', hobstructs⟩

/-- A walk that is not obstructed writes whatever its visits write, and it succeeds when something
is written and no visit fails. -/
theorem visitAll_of_clear (h : ∀ v ∈ visits, ¬v.Obstructs folders) :
    (∀ write, write ∈ (progress.visitAll folders path visits).writes ↔
      write ∈ progress.writes ∨ ∃ v ∈ visits, v.write? = some write) ∧
    ((progress.visitAll folders path visits).exitCode = 0 ↔
      (progress.count ≠ 0 ∨ ∃ v ∈ visits, v.write? ≠ none) ∧ ¬progress.failed ∧
        ∀ v ∈ visits, ¬v.Fails) := by
  induction visits generalizing progress with
  | nil => simp [visitAll, finish]
  | cons v visits ih =>
      rw [List.forall_mem_cons] at h
      rcases progress.visit_cases folders v with ⟨hobstructs, -⟩ | ⟨-, progress', hvisit, hadds⟩
      · exact absurd hobstructs h.1
      · obtain ⟨hwrites, hexit⟩ := @ih progress' h.2
        have hcount : progress'.count ≠ 0 ↔ progress.count ≠ 0 ∨ v.write? ≠ none := by
          rw [hadds.count]
          cases v.write? <;> simp
        rw [visitAll, hvisit]
        constructor
        · intro write
          simp only [hwrites, hadds.writes, List.mem_append, Option.mem_toList, List.mem_cons,
            exists_eq_or_imp, or_assoc, or_left_comm]
        · simp only [hexit, hcount, hadds.failed, not_or, List.mem_cons, exists_eq_or_imp,
            forall_eq_or_imp, or_assoc, and_assoc]

end

end Progress

end ReactiveTemplate
