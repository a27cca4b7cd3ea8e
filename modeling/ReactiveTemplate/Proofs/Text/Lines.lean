import Mathlib.Data.List.Basic
import Mathlib.Data.List.Induction
import ReactiveTemplate.Text.Position

/-!
# Lines of a text

A line starts at the start of the text or behind a line feed. It goes up to the next line feed or to
the end of the text, and a carriage return right in front of the line feed is no part of it. The
lines that are shown are these lines, numbered by the line feeds in front of them; only the empty
line behind a final line feed is not among them.
-/

namespace ReactiveTemplate

/-- How a line ends in front of `later`. -/
inductive EndsLine (line : List Char) : List Char → List Char → Prop where
  | text : EndsLine line [] []
  | feed {later : List Char} (hline : line.getLast? ≠ some '\r') : EndsLine line ['\n'] later
  | returnFeed {later : List Char} : EndsLine line ['\r', '\n'] later

/-- A line with its ending, between `earlier` and `later`. -/
structure LineAt (earlier line ending later : List Char) : Prop where
  start : ∀ c ∈ earlier.getLast?, c = '\n'
  plain : '\n' ∉ line
  ending : EndsLine line ending later

/-- A text is cut behind its last line feed. -/
theorem exists_line_start (before : List Char) :
    ∃ earlier head, before = earlier ++ head ∧ '\n' ∉ head ∧ ∀ c ∈ earlier.getLast?, c = '\n' := by
  induction before using List.reverseRecOn with
  | nil => exact ⟨[], [], rfl, by simp, by simp⟩
  | append_singleton before c ih =>
      by_cases hc : c = '\n'
      · exact ⟨before ++ [c], [], by simp, by simp, by simp [hc]⟩
      · obtain ⟨earlier, head, rfl, hhead, hearlier⟩ := ih
        refine ⟨earlier, head ++ [c], by simp, ?_, hearlier⟩
        simp [hhead, Ne.symm hc]

/-! ## Reading lines -/

/-- A line that a line feed ends, from its characters in reverse. -/
def finishedLine : List Char → List Char
  | '\r' :: current => current.reverse
  | current => current.reverse

theorem finishedLine_reverse {line : List Char} (hline : line.getLast? ≠ some '\r') :
    finishedLine line.reverse = line := by
  unfold finishedLine
  split
  · next heq =>
      rw [← List.head?_reverse, heq] at hline
      exact absurd rfl hline
  · exact List.reverse_reverse line

variable (done : List String) (current : List Char)

theorem linesFrom_cons {c : Char} (hc : c ≠ '\n') (cs : List Char) :
    linesFrom done current (c :: cs) = linesFrom done (c :: current) cs := by
  rw [linesFrom]
  exact hc

/-- A line feed ends the current line, and a carriage return in front of it is no part of the
line. -/
theorem linesFrom_feed (cs : List Char) :
    linesFrom done current ('\n' :: cs) =
      linesFrom (String.ofList (finishedLine current) :: done) [] cs := by
  unfold finishedLine
  split
  · rw [linesFrom]
  · next hreturn =>
      rw [linesFrom]
      exact hreturn

theorem linesFrom_append {line : List Char} (hline : '\n' ∉ line) (cs : List Char) :
    linesFrom done current (line ++ cs) = linesFrom done (line.reverse ++ current) cs := by
  induction line generalizing current with
  | nil => rfl
  | cons c line ih =>
      rw [List.mem_cons, not_or] at hline
      rw [List.cons_append, linesFrom_cons _ _ (Ne.symm hline.1), ih _ hline.2]
      simp

/-- Lines that are finished stay as they are. -/
theorem linesFrom_eq_append (cs : List Char) :
    linesFrom done current cs = done.reverse ++ linesFrom [] current cs := by
  induction cs generalizing done current with
  | nil => cases current <;> simp [linesFrom]
  | cons c cs ih =>
      by_cases hc : c = '\n'
      · subst hc
        rw [linesFrom_feed, linesFrom_feed, ih, ih [_]]
        simp
      · rw [linesFrom_cons _ _ hc, linesFrom_cons _ _ hc, ih]

/-- Each line feed finishes a line. -/
theorem exists_linesFrom_feed (front cs : List Char) :
    ∃ done', linesFrom done current (front ++ '\n' :: cs) = linesFrom done' [] cs ∧
      done'.length = done.length + front.count '\n' + 1 := by
  induction front generalizing done current with
  | nil => exact ⟨_, linesFrom_feed done current cs, by simp⟩
  | cons c front ih =>
      by_cases hc : c = '\n'
      · subst hc
        obtain ⟨done', hdone, hlength⟩ := ih (String.ofList (finishedLine current) :: done) []
        refine ⟨done', ?_, ?_⟩
        · rw [List.cons_append, linesFrom_feed, hdone]
        · rw [hlength, List.count_cons_self, List.length_cons]
          omega
      · obtain ⟨done', hdone, hlength⟩ := ih done (c :: current)
        refine ⟨done', ?_, ?_⟩
        · rw [List.cons_append, linesFrom_cons _ _ hc, hdone]
        · rw [hlength, List.count_cons_of_ne hc]

/-- Behind a line feed there are as many lines done as there are line feeds in front. What they are
plays no part. -/
theorem exists_linesFrom {earlier : List Char} (h : ∀ c ∈ earlier.getLast?, c = '\n')
    (cs : List Char) :
    ∃ done, linesFrom [] [] (earlier ++ cs) = linesFrom done [] cs ∧
      done.length = earlier.count '\n' := by
  rcases List.eq_nil_or_concat' earlier with rfl | ⟨front, c, rfl⟩
  · exact ⟨[], rfl, rfl⟩
  · obtain rfl : c = '\n' := h c (by simp)
    obtain ⟨done, hdone, hlength⟩ := exists_linesFrom_feed [] [] front cs
    refine ⟨done, ?_, ?_⟩
    · rw [List.append_assoc, List.singleton_append, hdone]
    · simp [hlength]

/-- The first line of a text is what stands there; of an empty text there is none. -/
theorem head?_linesFrom {line ending later : List Char} (hline : '\n' ∉ line)
    (h : EndsLine line ending later) :
    (linesFrom [] [] (line ++ ending ++ later)).head?.getD "" = String.ofList line := by
  have hhead (cs : List Char) : (linesFrom [String.ofList line] [] cs).head?.getD "" =
      String.ofList line := by
    rw [linesFrom_eq_append]
    rfl
  rw [List.append_assoc, linesFrom_append _ _ hline, List.append_nil]
  cases h with
  | text =>
      -- An empty line at the end of the text is not shown, and reads as empty for this reason.
      rcases List.eq_nil_or_concat' line with rfl | ⟨front, c, rfl⟩
      · rfl
      · simp [linesFrom]
  | feed hlast =>
      rw [List.singleton_append, linesFrom_feed, finishedLine_reverse hlast]
      exact hhead later
  | returnFeed =>
      rw [List.cons_append, linesFrom_cons _ _ (by decide), List.singleton_append, linesFrom_feed,
        finishedLine, List.reverse_reverse]
      exact hhead later

/-! ## Sources -/

/-- A line is shown under the number of line feeds in front of it. -/
theorem getElem?_lines {source : String} {earlier line ending later : List Char}
    (hsource : source.toList = earlier ++ line ++ ending ++ later)
    (h : LineAt earlier line ending later) :
    (lines source)[earlier.count '\n']?.getD "" = String.ofList line := by
  obtain ⟨done, hdone, hlength⟩ := exists_linesFrom h.start (line ++ ending ++ later)
  have hlines : lines source = done.reverse ++ linesFrom [] [] (line ++ ending ++ later) := by
    rw [lines, hsource, List.append_assoc, List.append_assoc, ← List.append_assoc line, hdone,
      linesFrom_eq_append]
  rw [hlines, List.getElem?_append_right (by simp [hlength]), List.length_reverse, hlength,
    Nat.sub_self, ← List.head?_eq_getElem?, head?_linesFrom h.plain h.ending]

/-- No character is shown that does not stand in the text. -/
theorem mem_of_mem_linesFrom {cs : List Char} {line : String}
    (hline : line ∈ linesFrom [] current cs) {c : Char} (hc : c ∈ line.toList) :
    c ∈ current ∨ c ∈ cs := by
  induction cs generalizing current with
  | nil =>
      cases current with
      | nil => contradiction
      | cons d current =>
          simp only [linesFrom, List.reverse_singleton, List.mem_singleton] at hline
          subst hline
          rw [String.toList_ofList, List.mem_reverse] at hc
          exact .inl hc
  | cons d cs ih =>
      by_cases hd : d = '\n'
      · subst hd
        rw [linesFrom_feed, linesFrom_eq_append, List.reverse_singleton, List.mem_append,
          List.mem_singleton] at hline
        rcases hline with rfl | hline
        · refine .inl ?_
          rw [String.toList_ofList] at hc
          unfold finishedLine at hc
          split at hc <;> simp_all
        · exact .inr ((ih _ hline).elim (fun h => absurd h List.not_mem_nil)
            (List.mem_cons_of_mem _))
      · rw [linesFrom_cons _ _ hd] at hline
        rcases ih _ hline with hmem | hmem
        · rcases List.mem_cons.mp hmem with rfl | hmem
          · exact .inr List.mem_cons_self
          · exact .inl hmem
        · exact .inr (List.mem_cons_of_mem _ hmem)

theorem mem_of_mem_lines {source line : String} (hline : line ∈ lines source) {c : Char}
    (hc : c ∈ line.toList) : c ∈ source.toList :=
  (mem_of_mem_linesFrom [] hline hc).elim (fun h => absurd h List.not_mem_nil) id

end ReactiveTemplate
