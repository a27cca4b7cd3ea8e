import ReactiveTemplate.Proofs.Command.Templates

/-!
# Runs over directories

A run over a directory gives every template in it its markup in a file beside it, in whatever order
the walk meets them, and running it again changes nothing. Two things are in the way: a directory
with the name of a template puts an end to the walk, and two templates of one directory have their
markup in the same file when the one has no name but its ending and the other has it twice.
-/

namespace ReactiveTemplate

open FileTree

/-! ## Runs in any order -/

/-- The visits of a walk that meets the templates of a tree in any order. What else it meets is left
open: files that are no templates may appear while the walk is under way. -/
def Meets (path : String) (tree : FileTree) (visits : List Visit) : Prop :=
  ∀ v, IsTemplate v.name → (v ∈ visits ↔ v ∈ tree.walk path)

/-- `Runs tree path outcome` says that a run over the directory at `path` may have this outcome. -/
def Runs (tree : FileTree) (path : String) (outcome : Outcome) : Prop :=
  ∃ entries visits, tree.find? path = some (.directory entries) ∧
    Meets path (.directory entries) visits ∧
    outcome = ({} : Progress).visitAll (folderPaths path (.directory entries)) path visits

/-- What a run over a directory does: it writes the markup of every template, changes no other file,
and succeeds when there are templates and all of them can be compiled. -/
structure Processes (tree : FileTree) (path : String) (outcome : Outcome) : Prop where
  written : ∀ place markup, Rendered tree (destination path) place markup →
    (outcome.apply tree).look place = some (.file markup.toUTF8)
  kept : ∀ place, (∀ markup, ¬Rendered tree (destination path) place markup) →
    (outcome.apply tree).look place = tree.look place
  exitCode_le : outcome.exitCode ≤ 1
  exitCode_eq_zero_iff : outcome.exitCode = 0 ↔ Compiles tree (destination path)

/-- What holds of all runs over a directory: two templates never have their markup in one file, any
run does all its work, runs in different orders are alike, and running once more changes nothing. -/
structure ProcessedInAnyOrder (tree : FileTree) (path : String) : Prop where
  separate : ∀ folder folder' name name' place markup markup',
    Renders tree (destination path) folder name place markup →
    Renders tree (destination path) folder' name' place markup' → folder = folder' ∧ name = name'
  processes : ∀ outcome, Runs tree path outcome → Processes tree path outcome
  alike : ∀ outcome second, Runs tree path outcome → Runs tree path second →
    second.exitCode = outcome.exitCode ∧ (second.apply tree).look = (outcome.apply tree).look
  wellFormed : ∀ outcome, Runs tree path outcome → (outcome.apply tree).WellFormed
  repeated : ∀ outcome, Runs tree path outcome → ∀ again : FileTree, again.WellFormed →
    again.look = (outcome.apply tree).look →
      (∀ input json,
        Runs again path (Invocation.run ⟨input, again.find?⟩ (.processPath path json))) ∧
      ∀ second, Runs again path second →
        second.exitCode = outcome.exitCode ∧ (second.apply again).look = again.look

/-- The run of the command is one of the runs that are described here: the one whose walk goes in
the order of the tree. -/
theorem runs_run {tree : FileTree} {path : String} {entries : List (String × FileTree)}
    (h : tree.find? path = some (.directory entries)) (input : ByteArray) (json : Bool) :
    Runs tree path (Invocation.run ⟨input, tree.find?⟩ (.processPath path json)) := by
  refine ⟨entries, (FileTree.directory entries).walk path, h, fun v _ => Iff.rfl, ?_⟩
  dsimp only [Invocation.run]
  rw [h]
  rfl

namespace Meets

variable {path : String} {visits : List Visit}

/-- Whether some template that is met has a property does not depend on the order of the walk, nor
on other files that appear. -/
theorem exists_iff {tree : FileTree} (h : Meets path tree visits) {P : Visit → Prop}
    (hname : ∀ v, P v → isTemplateName v.name) :
    (∃ v ∈ visits, P v) ↔ ∃ v ∈ tree.walk path, P v :=
  exists_congr fun v => and_congr_left fun hv => h v (isTemplateName_iff.mp (hname v hv))

variable {tree : FileTree} {entries : List (String × FileTree)} (htree : Processable tree path)
  (hfind : tree.find? path = some (.directory entries))
  (h : Meets path (.directory entries) visits)

include htree hfind h

/-- Something stops the walk exactly if a directory has the name of a template, given that templates
can be read and their markup can be written. -/
theorem obstructs_iff :
    (∃ v ∈ visits, v.Obstructs (folderPaths path (.directory entries))) ↔ Misnamed tree path := by
  rw [h.exists_iff fun v hv => hv.1]
  exact ReactiveTemplate.obstructs_iff htree.wellFormed hfind htree

/-- The files that a walk writes are those for which a template in the directory has markup. -/
theorem rendered_iff {place : List String} {markup : String} :
    Rendered tree (destination path) place markup ↔
      ∃ v ∈ visits, ∃ write : FileWrite, v.write? = some write ∧ write.place = place ∧
        write.content = markup := by
  rw [ReactiveTemplate.rendered_iff htree.wellFormed hfind, h.exists_iff]
  rintro v ⟨write, hwrite, -⟩
  obtain ⟨source, hsource, -⟩ := Visit.write?_eq_some_iff.mp hwrite
  exact Visit.isTemplateName_of_source? hsource

/-- The templates that a walk meets are those of the directory, each with the text that its file
has. -/
theorem exists_source_iff {P : String → Prop} :
    (∃ v ∈ visits, ∃ source, v.source? = some source ∧ P source) ↔
      ∃ folder name source, TemplateAt tree (destination path) folder name source ∧ P source := by
  rw [← ReactiveTemplate.exists_source_iff htree.wellFormed hfind, h.exists_iff]
  rintro v ⟨source, hsource, -⟩
  exact Visit.isTemplateName_of_source? hsource

/-- Something is written and nothing fails when there are templates and all can be compiled. -/
theorem compiles_iff :
    ((∃ v ∈ visits, v.write? ≠ none) ∧ ∀ v ∈ visits, ¬v.Fails) ↔
      Compiles tree (destination path) := by
  have hok {source : String} : (∃ compiled, compileTemplate source = .ok compiled) ↔
      ¬∃ e, compileTemplate source = .error e := by
    cases compileTemplate source <;> simp
  have hfails := h.exists_source_iff htree hfind
    (P := fun source => ∃ e, compileTemplate source = .error e)
  simp only [Visit.write?_ne_none_iff, h.exists_source_iff htree hfind]
  constructor
  · rintro ⟨⟨folder, name, source, htemplate, -⟩, hnone⟩
    refine ⟨⟨folder, name, source, htemplate⟩, fun folder name source htemplate => ?_⟩
    refine hok.mpr fun herror => ?_
    obtain ⟨v, hv, hfail⟩ := hfails.mpr ⟨folder, name, source, htemplate, herror⟩
    exact hnone v hv hfail
  · rintro ⟨⟨folder, name, source, htemplate⟩, hall⟩
    -- What can be compiled has markup, too.
    obtain ⟨compiled, hcompile⟩ := hall folder name source htemplate
    have hprocess := (stages_of_compileTemplate hcompile).1
    refine ⟨⟨folder, name, source, htemplate, _, hprocess⟩, fun v hv hfail => ?_⟩
    obtain ⟨folder, name, source, htemplate, herror⟩ := hfails.mp ⟨v, hv, hfail⟩
    exact hok.mp (hall folder name source htemplate) herror

end Meets

namespace Runs

variable {tree : FileTree} {path : String} {outcome : Outcome}

theorem exitCode_le (h : Runs tree path outcome) : outcome.exitCode ≤ 1 := by
  obtain ⟨entries, visits, -, -, rfl⟩ := h
  exact Progress.exitCode_visitAll_le

variable (htree : Processable tree path) (h : Runs tree path outcome)

include htree h

/-- Nothing but the markup of templates is written. -/
theorem rendered_of_mem {write : FileWrite} (hwrite : write ∈ outcome.writes) :
    Rendered tree (destination path) write.place write.content := by
  obtain ⟨entries, visits, hfind, hmeets, rfl⟩ := h
  rcases Progress.mem_writes_visitAll hwrite with hnone | ⟨v, hv, hwrite⟩
  · contradiction
  · exact (hmeets.rendered_iff htree hfind).mpr ⟨v, hv, write, hwrite, rfl, rfl⟩

/-- Each file that is written has its directory already, and none takes the place of a directory. -/
theorem fits (write : FileWrite) (hwrite : write ∈ outcome.writes) : write.Fits tree :=
  (h.rendered_of_mem htree hwrite).fits htree rfl

/-- Every place shows the markup of a template, or else what it did before. -/
theorem look_apply (place : List String) :
    (outcome.apply tree).look place = tree.look place ∨
      ∃ markup, Rendered tree (destination path) place markup ∧
        (outcome.apply tree).look place = some (.file markup.toUTF8) := by
  rcases Outcome.look_apply (h.fits htree) place with ⟨write, hwrite, rfl, hlook⟩ | ⟨-, hlook⟩
  · exact .inr ⟨_, h.rendered_of_mem htree hwrite, hlook⟩
  · exact .inl hlook

/-- After a run, the directories and the templates are the same. -/
theorem sameTemplates {again : FileTree} (hlook : again.look = (outcome.apply tree).look) :
    SameTemplates tree again where
  folders place := by
    rw [hlook]
    rcases h.look_apply htree place with hkept | ⟨markup, hrendered, hshown⟩
    · rw [hkept]
    · simp [hshown, htree.writable _ _ hrendered]
  files folder name hname := by
    rw [hlook]
    rcases h.look_apply htree (folder ++ [name]) with hkept | ⟨markup, hrendered, -⟩
    · exact hkept
    · exact absurd rfl (hrendered.ne_template hname)

/-- A run over a tree with a directory that has the name of a template fails, at whatever point of
the walk it is met. -/
theorem exitCode_of_misnamed (hmisnamed : Misnamed tree path) : outcome.exitCode = 1 := by
  obtain ⟨entries, visits, hfind, hmeets, rfl⟩ := h
  exact Progress.exitCode_of_obstructed ((hmeets.obstructs_iff htree hfind).mpr hmisnamed)

variable (hnamed : ¬Misnamed tree path)

include hnamed

/-- A run whose directories have other names than templates comes to its end. -/
theorem completed :
    (∀ place markup, Rendered tree (destination path) place markup →
      ∃ write ∈ outcome.writes, write.place = place ∧ write.content = markup) ∧
    (outcome.exitCode = 0 ↔ Compiles tree (destination path)) := by
  obtain ⟨entries, visits, hfind, hmeets, rfl⟩ := h
  have hclear : ∀ v ∈ visits, ¬v.Obstructs (folderPaths path (.directory entries)) :=
    fun v hv hobstructs => hnamed ((hmeets.obstructs_iff htree hfind).mp ⟨v, hv, hobstructs⟩)
  obtain ⟨hwrites, hexit⟩ := @Progress.visitAll_of_clear {} _ path _ hclear
  constructor
  · intro place markup hrendered
    obtain ⟨v, hv, write, hwrite, hplace, hcontent⟩ :=
      (hmeets.rendered_iff htree hfind).mp hrendered
    exact ⟨write, (hwrites write).mpr (.inr ⟨v, hv, hwrite⟩), hplace, hcontent⟩
  · rw [hexit, ← hmeets.compiles_iff htree hfind]
    simp

/-- Where markup goes, the markup of some template is shown. -/
theorem exists_look {place : List String} {markup : String}
    (hrendered : Rendered tree (destination path) place markup) :
    ∃ shown, Rendered tree (destination path) place shown ∧
      (outcome.apply tree).look place = some (.file shown.toUTF8) := by
  obtain ⟨write, hwrite, hplace, -⟩ := (h.completed htree hnamed).1 place markup hrendered
  rcases Outcome.look_apply (h.fits htree) place with ⟨shown, hshown, rfl, hlook⟩ | ⟨hnone, -⟩
  · exact ⟨_, h.rendered_of_mem htree hshown, hlook⟩
  · exact absurd hplace (hnone write hwrite)

/-- Unless two templates share a file for their markup, a run does all that is said of it: each file
has the markup of its template. -/
theorem processes (hcollides : ¬Collides tree (destination path)) :
    Processes tree path outcome where
  written place markup hrendered := by
    obtain ⟨shown, hshown, hlook⟩ := h.exists_look htree hnamed hrendered
    rw [hlook, hshown.unique hcollides hrendered]
  kept place hnone := by
    rcases h.look_apply htree place with hkept | ⟨markup, hrendered, -⟩
    · exact hkept
    · exact absurd hrendered (hnone markup)
  exitCode_le := h.exitCode_le
  exitCode_eq_zero_iff := (h.completed htree hnamed).2

end Runs

/-! ## Directories -/

/-- Runs over trees with the same templates are alike when the trees show the same apart from the
markup of these. -/
theorem Processes.alike {tree other : FileTree} {path : String} {outcome second : Outcome}
    (h : Processes tree path outcome) (hsecond : Processes other path second)
    (hsame : SameTemplates tree other)
    (hkept : ∀ place, (∀ markup, ¬Rendered tree (destination path) place markup) →
      other.look place = tree.look place) :
    second.exitCode = outcome.exitCode ∧ (second.apply other).look = (outcome.apply tree).look := by
  constructor
  · have hzero : second.exitCode = 0 ↔ outcome.exitCode = 0 := by
      rw [hsecond.exitCode_eq_zero_iff, h.exitCode_eq_zero_iff, hsame.compiles_iff]
    have hle := h.exitCode_le
    have hle' := hsecond.exitCode_le
    omega
  · funext place
    by_cases hrendered : ∃ markup, Rendered tree (destination path) place markup
    · obtain ⟨markup, hrendered⟩ := hrendered
      rw [h.written place markup hrendered,
        hsecond.written place markup (hsame.rendered_iff.mpr hrendered)]
    · have hnone : ∀ markup, ¬Rendered tree (destination path) place markup :=
        not_exists.mp hrendered
      rw [h.kept place hnone, ← hkept place hnone]
      exact hsecond.kept place fun markup => by rw [hsame.rendered_iff]; exact hnone markup

section

variable {tree : FileTree} {path : String} {entries : List (String × FileTree)}
  (htree : Processable tree path) (hfind : tree.find? path = some (.directory entries))

include htree hfind

/-- All is done, in any order, where no directory has the name of a template and no two templates
have their markup in the same file. -/
theorem processedInAnyOrder (hnamed : ¬Misnamed tree path)
    (hcollides : ¬Collides tree (destination path)) : ProcessedInAnyOrder tree path where
  separate _ _ _ _ _ _ _ h h' := h.separate hcollides h'
  processes outcome h := h.processes htree hnamed hcollides
  alike outcome second h hsecond :=
    (h.processes htree hnamed hcollides).alike (hsecond.processes htree hnamed hcollides)
      (.refl tree) fun _ _ => rfl
  wellFormed outcome h := Outcome.wellFormed_apply (h.fits htree) htree.wellFormed
  repeated outcome h again hagain hlook := by
    -- The markup that is there now is that of no template, so all that matters is as it was.
    have hsame := h.sameTemplates htree hlook
    have hagain := hsame.processable htree hagain
    have hfolders : tree.FoldersIn again := fun place => (hsame.folders place).mpr
    obtain ⟨entries', hfind'⟩ := exists_find? hfolders hfind
    refine ⟨runs_run hfind', fun second hsecond => ?_⟩
    have hfirst := h.processes htree hnamed hcollides
    have hsecond := hsecond.processes hagain (mt hsame.misnamed_iff.mp hnamed)
      (mt hsame.collides_iff.mp hcollides)
    rw [hlook]
    exact hfirst.alike hsecond hsame fun place hnone => by rw [hlook, hfirst.kept place hnone]

/-- A walk that is put to an end cannot succeed. -/
theorem not_processedInAnyOrder_of_misnamed (hmisnamed : Misnamed tree path)
    (hcompiles : Compiles tree (destination path)) : ¬ProcessedInAnyOrder tree path := by
  intro h
  have hruns := runs_run hfind .empty false
  have hzero := (h.processes _ hruns).exitCode_eq_zero_iff.mpr hcompiles
  rw [hruns.exitCode_of_misnamed htree hmisnamed] at hzero
  contradiction

omit htree hfind in
/-- Where two templates share a file for their markup, one of them is lost, so that the statement
about all runs fails. -/
theorem not_processedInAnyOrder_of_collides (hcollides : Collides tree (destination path)) :
    ¬ProcessedInAnyOrder tree path := by
  intro h
  obtain ⟨folder, place, markup, markup', hrenders, hrenders'⟩ := hcollides
  have hname := (h.separate _ _ _ _ _ _ _ hrenders hrenders').2
  contradiction

/-- A run over a directory changes nothing but the files for the markup of its templates. Unless a
directory has the name of a template, it comes to its end, and it succeeds when there are templates
and all of them can be compiled; and unless two templates have their markup in the same file, it
gives each template its markup, whatever the order of the walk and however often it is repeated. -/
theorem run_directory (input : ByteArray) (json : Bool) :
    Runs tree path (Invocation.run ⟨input, tree.find?⟩ (.processPath path json)) ∧
    (∀ outcome, Runs tree path outcome →
      (∀ place, (outcome.apply tree).look place = tree.look place ∨
        ∃ markup, Rendered tree (destination path) place markup ∧
          (outcome.apply tree).look place = some (.file markup.toUTF8)) ∧
      (Misnamed tree path → outcome.exitCode = 1) ∧
      (¬Misnamed tree path → (outcome.exitCode = 0 ↔ Compiles tree (destination path)) ∧
        ∀ place, (∃ markup, Rendered tree (destination path) place markup) →
          ∃ markup, Rendered tree (destination path) place markup ∧
            (outcome.apply tree).look place = some (.file markup.toUTF8))) ∧
    (¬Misnamed tree path →
      (ProcessedInAnyOrder tree path ↔ ¬Collides tree (destination path))) := by
  refine ⟨runs_run hfind input json, fun outcome h => ?_, fun hnamed => ?_⟩
  · refine ⟨h.look_apply htree, h.exitCode_of_misnamed htree, fun hnamed => ?_⟩
    refine ⟨(h.completed htree hnamed).2, ?_⟩
    rintro place ⟨markup, hrendered⟩
    exact h.exists_look htree hnamed hrendered
  · exact ⟨fun h hcollides => not_processedInAnyOrder_of_collides hcollides h,
      processedInAnyOrder htree hfind hnamed⟩

end

theorem process_b : process "b" = .ok "b" := by
  decide +kernel

theorem compiles_nest_b (inner : String) :
    Compiles (nest inner [("b.html", "b")]) (destination "d") := by
  obtain ⟨compiled, hcompiled, -⟩ :
      ∃ compiled, compileTemplate "b" = .ok compiled ∧ compiled.markup = "b" :=
    exists_eq_ok_of_toOption (by decide +kernel)
  rw [compiles_nest_iff (by decide)]
  simpa using ⟨by decide, fun _ => ⟨compiled, hcompiled⟩⟩

theorem not_collides_nest_b (inner : String) :
    ¬Collides (nest inner [("b.html", "b")]) (destination "d") := by
  rintro ⟨folder, place, markup, markup', h, -⟩
  obtain ⟨-, -, -, source, hmem, -⟩ := (renders_nest_iff (by decide)).mp h
  simp at hmem

/-- A template in a directory with another name than that of a template. -/
theorem run_directory_nest :
    Processable (nest "x" [("b.html", "b")]) "d" ∧
      (∃ entries, (nest "x" [("b.html", "b")]).find? "d" = some (.directory entries)) ∧
      ProcessedInAnyOrder (nest "x" [("b.html", "b")]) "d" ∧
      ∃ outcome, Runs (nest "x" [("b.html", "b")]) "d" outcome ∧ outcome.exitCode = 0 ∧
        (outcome.apply (nest "x" [("b.html", "b")])).look ["d", "x", "b.dp.html"] =
          some (.file "b".toUTF8) := by
  have htree : Processable (nest "x" [("b.html", "b")]) "d" :=
    processable_nest (by decide) (by decide) (by decide)
  obtain ⟨entries, hfind⟩ : ∃ entries, (nest "x" [("b.html", "b")]).find? "d" =
    some (.directory entries) := find?_nest
  obtain ⟨hruns, -, hprocessed⟩ := run_directory htree hfind .empty false
  have hnamed : ¬Misnamed (nest "x" [("b.html", "b")]) "d" := by
    rw [misnamed_nest_iff]
    decide
  have h := (hprocessed hnamed).mpr (not_collides_nest_b "x")
  refine ⟨htree, ⟨entries, hfind⟩, h, _, hruns, ?_, ?_⟩
  · rw [(h.processes _ hruns).exitCode_eq_zero_iff]
    exact compiles_nest_b "x"
  · refine (h.processes _ hruns).written _ "b" ⟨["d", "x"], "b.html", ?_⟩
    exact (renders_nest_iff (by decide)).mpr ⟨rfl, by decide, by decide, "b", by simp, process_b⟩

/-- Not all directories are processed in any order: one of them has the name of a template, another
one contains two templates with their markup in the same file. -/
theorem not_processedInAnyOrder :
    (Processable (nest "x.html" [("b.html", "b")]) "d" ∧
      (∃ entries, (nest "x.html" [("b.html", "b")]).find? "d" = some (.directory entries)) ∧
      ¬Collides (nest "x.html" [("b.html", "b")]) (destination "d") ∧
      ¬ProcessedInAnyOrder (nest "x.html" [("b.html", "b")]) "d") ∧
    (Processable (nest "x" [(".html", "b"), (".html.html", "b")]) "d" ∧
      (∃ entries, (nest "x" [(".html", "b"), (".html.html", "b")]).find? "d" =
        some (.directory entries)) ∧
      ¬Misnamed (nest "x" [(".html", "b"), (".html.html", "b")]) "d" ∧
      ¬ProcessedInAnyOrder (nest "x" [(".html", "b"), (".html.html", "b")]) "d") := by
  have htree : Processable (nest "x.html" [("b.html", "b")]) "d" :=
    processable_nest (by decide) (by decide) (by decide)
  have htree' : Processable (nest "x" [(".html", "b"), (".html.html", "b")]) "d" :=
    processable_nest (by decide) (by decide) (by decide)
  refine ⟨⟨htree, find?_nest, not_collides_nest_b "x.html", ?_⟩, htree', find?_nest, ?_, ?_⟩
  · obtain ⟨entries, hfind⟩ : ∃ entries, (nest "x.html" [("b.html", "b")]).find? "d" =
      some (.directory entries) := find?_nest
    have hmisnamed : Misnamed (nest "x.html" [("b.html", "b")]) "d" :=
      misnamed_nest_iff.mpr (by decide)
    exact not_processedInAnyOrder_of_misnamed htree hfind hmisnamed (compiles_nest_b "x.html")
  · rw [misnamed_nest_iff]
    decide
  · -- Both templates have their markup in the file `.html.dp.html`.
    refine not_processedInAnyOrder_of_collides
      ⟨["d", "x"], ["d", "x", ".html.dp.html"], "b", "b", ?_, ?_⟩
    · exact (renders_nest_iff (by decide)).mpr ⟨rfl, by decide, by decide, "b", by simp, process_b⟩
    · exact (renders_nest_iff (by decide)).mpr ⟨rfl, by decide, by decide, "b", by simp, process_b⟩

end ReactiveTemplate
