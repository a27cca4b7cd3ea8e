import ReactiveTemplate.Proofs.Text.Extent
import ReactiveTemplate.Proofs.Text.Location
import ReactiveTemplate.Report.Basic

/-!
# What a report underlines

A report shows the line where its span starts, and puts the carets under those characters of the
line that the span covers. The line is the same for those who count line feeds and for those who
read the text line by line, as long as the span has no border inside of a line ending.
-/

namespace ReactiveTemplate

/-! ## Borders -/

/-- The place between two texts is not inside of a line ending. -/
def Unbroken (before after : List Char) : Prop :=
  before.getLast? = some '\r' → after.head? ≠ some '\n'

theorem Unbroken.of_append {front before after : List Char} (h : Unbroken (front ++ before) after) :
    Unbroken before after := by
  intro hlast
  refine h ?_
  rw [List.getLast?_append, hlast]
  rfl

/-- A span that covers a text and has no border inside of a line ending. -/
def Span.Clear (span : Span) (cs : List Char) : Prop :=
  ∃ before text after, cs = before ++ text ++ after ∧ span = behind before text ∧
    Unbroken before (text ++ after) ∧ Unbroken (before ++ text) after

/-! ## Lines around a border -/

/-- A text is cut where the line ends that it starts with, of which `head` stands in front of it. -/
theorem exists_line_end {head after : List Char} (hunbroken : Unbroken head after) :
    ∃ tail ending later, after = tail ++ ending ++ later ∧ '\n' ∉ tail ∧
      EndsLine (head ++ tail) ending later := by
  have hsplit := List.takeWhile_append_dropWhile (p := (· ≠ '\n')) (l := after)
  have hplain : '\n' ∉ after.takeWhile (· ≠ '\n') := fun hmem => by
    simpa using List.all_eq_true.mp List.all_takeWhile _ hmem
  generalize after.takeWhile (· ≠ '\n') = body at hsplit hplain
  cases hrest : after.dropWhile (· ≠ '\n') with
  | nil =>
      rw [hrest, List.append_nil] at hsplit
      subst hsplit
      exact ⟨body, [], [], by simp, hplain, .text⟩
  | cons c later =>
      have hc : c = '\n' := by
        have hhead := List.head?_dropWhile_not (· ≠ '\n') after
        rw [hrest] at hhead
        simpa using hhead
      rw [hrest, hc] at hsplit
      rcases List.eq_nil_or_concat' body with rfl | ⟨tail, last, rfl⟩
      · -- The line ends right behind `head`.
        refine ⟨[], ['\n'], later, by simp [← hsplit], List.not_mem_nil, .feed ?_⟩
        rw [List.append_nil]
        exact fun hlast => hunbroken hlast (by simp [← hsplit])
      · by_cases hlast : last = '\r'
        · subst hlast
          refine ⟨tail, ['\r', '\n'], later, by simp [← hsplit], ?_, .returnFeed⟩
          exact fun hmem => hplain (List.mem_append_left _ hmem)
        · refine ⟨tail ++ [last], ['\n'], later, by simp [← hsplit], hplain, .feed ?_⟩
          simpa [← List.append_assoc] using hlast

/-! ## Rows -/

/-- The line of a text where a span starts: the lines in front of it, the characters of the line in
front of the span and those from its start on, and the text that the span covers. -/
structure Span.Starts (span : Span) (cs earlier head tail text : List Char) : Prop where
  line : ∃ ending later, cs = earlier ++ (head ++ tail) ++ ending ++ later ∧
    LineAt earlier (head ++ tail) ending later
  start : span.start = byteWidth (earlier ++ head)
  covers : span.Covers cs text

namespace Report

/-- A report without colors and help: the place with its line and its column counted from one, the
message, and the line under its number, with carets below it behind as many spaces as there are
characters in front of the place. -/
def underlined (filename message : String) (number : Nat) (line : String) (indent carets : Nat) :
    String :=
  let width := max (toString number).length 2
  let blank := alignRight width ""
  "\n file: " ++ filename ++ ":" ++ toString number ++ ":" ++ toString (indent + 1) ++ "\n" ++
    "error: " ++ message ++ "\n" ++
    blank ++ " |\n" ++
    alignRight width (toString number) ++ " | " ++ line ++ "\n" ++
    blank ++ " | " ++ run indent ' ' ++ run carets '^' ++ "\n"

end Report

open Report

/-- A span that cuts no line end in two starts in a line, with some of the line in front of it and
some behind. -/
theorem Span.Clear.exists_starts {span : Span} {cs : List Char} (h : span.Clear cs) :
    ∃ earlier head tail text, span.Starts cs earlier head tail text := by
  obtain ⟨before, text, after, htext, rfl, hstart, -⟩ := h
  obtain ⟨earlier, head, rfl, hhead, hearlier⟩ := exists_line_start before
  obtain ⟨tail, ending, later, hafter, htail, hends⟩ := exists_line_end hstart.of_append
  refine ⟨earlier, head, tail, text, ⟨ending, later, ?_, hearlier, ?_, hends⟩, rfl, _, after, htext,
    rfl⟩
  · rw [htext, List.append_assoc _ text, hafter]
    simp
  · simpa using ⟨hhead, htail⟩

/-- A text without line feeds ends on the line that it starts on. -/
theorem length_le_of_plain {head tail ending later text after : List Char}
    (htext : text ++ after = tail ++ (ending ++ later))
    (hends : EndsLine (head ++ tail) ending later)
    (hplain : '\n' ∉ text) (hstop : Unbroken (head ++ text) after) :
    text.length ≤ tail.length := by
  rcases List.append_eq_append_iff.mp htext with ⟨more, rfl, -⟩ | ⟨more, rfl, hmore⟩
  · simp
  · rw [List.mem_append, not_or] at hplain
    cases more with
    | nil => simp
    | cons c more =>
        cases hends with
        | text => contradiction
        | feed =>
            cases hmore
            exact absurd List.mem_cons_self hplain.2
        | returnFeed =>
            -- The span would stop between a carriage return and its line feed.
            cases more with
            | nil =>
                cases hmore
                exact absurd rfl (hstop (by simp))
            | cons d more =>
                cases hmore
                exact absurd (List.mem_cons_of_mem _ List.mem_cons_self) hplain.2

/-- The carets stand under the characters of the line that the span covers. -/
theorem caretCount_eq {earlier head tail ending later text after : List Char}
    (htext : text ++ after = tail ++ (ending ++ later))
    (h : LineAt earlier (head ++ tail) ending later) (hstop : Unbroken (head ++ text) after) :
    caretCount (String.ofList (head ++ tail)) (.behind (earlier ++ head))
      (.behind (earlier ++ head ++ text)) = max (min text.length tail.length) 1 := by
  have hplain := h.plain
  rw [List.mem_append, not_or] at hplain
  have hstart := Position.behind_line h.start hplain.1
  unfold caretCount
  rw [hstart]
  dsimp only
  by_cases hfeed : '\n' ∈ text
  · -- The span goes beyond its line, and the carets go up to the end of the line.
    have hcount := List.count_pos_iff.mpr hfeed
    have hlines : (Position.behind (earlier ++ head ++ text)).line ≠ earlier.count '\n' := by
      simp only [Position.behind, List.count_append]
      omega
    have hle : tail.length ≤ text.length := by
      rcases List.append_eq_append_iff.mp htext with ⟨more, rfl, -⟩ | ⟨more, rfl, -⟩
      · exact absurd (List.mem_append_left more hfeed) hplain.2
      · simp
    rw [if_neg hlines, Nat.min_eq_right hle]
    simp
  · have hstop' : Position.behind (earlier ++ head ++ text) =
        ⟨byteWidth (earlier ++ (head ++ text)), earlier.count '\n', (head ++ text).length⟩ := by
      rw [List.append_assoc]
      exact Position.behind_line h.start (by simp [hplain.1, hfeed])
    rw [Nat.min_eq_left (length_le_of_plain htext h.ending hfeed hstop), hstop']
    simp

/-- A report shows the line where its span starts and underlines there what the span covers. -/
theorem Diagnostic.render_eq_underlined {d : Diagnostic} {source : String}
    {earlier head tail text : List Char} (hclear : d.span.Clear source.toList)
    (h : d.span.Starts source.toList earlier head tail text) (filename : String) :
    d.render .plain source filename =
      underlined filename d.message (earlier.count '\n' + 1) (String.ofList (head ++ tail))
        head.length (max (min text.length tail.length) 1) ++
      d.help.elim "" (helpRows .plain) ++ "\n" := by
  obtain ⟨ending, later, hline, hlineAt⟩ := h.line
  obtain ⟨before, text', after, hsource, hspan, -, hstop⟩ := hclear
  obtain rfl : text' = text := Span.Covers.unique ⟨before, after, hsource, hspan⟩ h.covers
  have hfront : before <+: source.toList := ⟨text' ++ after, by rw [hsource, List.append_assoc]⟩
  have hhead : earlier ++ head <+: source.toList := ⟨tail ++ ending ++ later, by simp [hline]⟩
  obtain rfl : before = earlier ++ head :=
    eq_of_byteWidth_eq hfront hhead (by rw [← h.start, hspan]; rfl)
  have hafter : text' ++ after = tail ++ (ending ++ later) := by
    rw [hline] at hsource
    simpa using hsource.symm
  have hunbroken : Unbroken (head ++ text') after := by
    rw [List.append_assoc] at hstop
    exact hstop.of_append
  have hplain : '\n' ∉ head := fun hmem => hlineAt.plain (List.mem_append_left _ hmem)
  have hstart : Position.locate source d.span.start = .behind (earlier ++ head) := by
    rw [h.start]
    exact Position.locate_eq (hsource.trans (List.append_assoc ..))
  have hstop' : Position.locate source d.span.stop = .behind (earlier ++ head ++ text') := by
    rw [hspan]
    exact Position.locate_eq hsource
  unfold Diagnostic.render
  rw [hstart, hstop']
  dsimp only
  rw [Position.behind_line hlineAt.start hplain]
  dsimp only
  rw [getElem?_lines hline hlineAt, ← Position.behind_line hlineAt.start hplain,
    caretCount_eq hafter hlineAt hunbroken]
  -- Both sides are the same parts with the same words between them.
  unfold underlined
  dsimp only
  generalize toString (earlier.count '\n' + 1) = number
  generalize toString (head.length + 1) = column
  generalize alignRight (max number.length 2) "" = blank
  generalize alignRight (max number.length 2) number = margin
  generalize run head.length ' ' = indent
  generalize run (max (min text'.length tail.length) 1) '^' = carets
  generalize d.help.elim "" (helpRows Palette.plain) = help
  simp [row, Palette.plain, ← String.toList_inj]

end ReactiveTemplate
