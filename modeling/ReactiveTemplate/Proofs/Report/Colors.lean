import ReactiveTemplate.Fault
import ReactiveTemplate.Proofs.Text.Lines
import ReactiveTemplate.Report.Basic

/-!
# Reports without their colors

A color is a sequence that a terminal does not show: an escape character, a bracket, and all up to
the next letter `m`. Without these sequences a colored report is the plain report, character by
character, whatever the source line looks like that is highlighted in it.
-/

namespace ReactiveTemplate

/-- The character that a color starts with. -/
def escapeChar : Char :=
  '\x1b'

/-- What comes behind the color at the head of a text, if there is one. -/
def behindColor? : List Char → Option (List Char)
  | '\x1b' :: '[' :: cs =>
      match cs.dropWhile (· ≠ 'm') with
      | _ :: rest => some rest
      | [] => none
  | _ => none

theorem length_lt_of_behindColor? {cs rest : List Char} (h : behindColor? cs = some rest) :
    rest.length < cs.length := by
  unfold behindColor? at h
  split at h
  · next cs =>
      split at h
      · next c rest' hdrop =>
          cases h
          have hlength := (List.dropWhile_sublist (· ≠ 'm') (l := cs)).length_le
          rw [hdrop, List.length_cons] at hlength
          simp only [List.length_cons]
          omega
      · contradiction
  · contradiction

/-- A text without its colors. -/
def stripColors : List Char → List Char
  | [] => []
  | c :: cs =>
      match _hcolor : behindColor? (c :: cs) with
      | some rest => stripColors rest
      | none => c :: stripColors cs
  termination_by cs => cs.length
  decreasing_by
    · exact length_lt_of_behindColor? _hcolor
    · simp

/-- `Tints cs plain` says that `cs` is `plain` with colors in it. -/
inductive Tints : List Char → List Char → Prop where
  | nil : Tints [] []
  | char {c : Char} {cs plain : List Char} (hc : c ≠ escapeChar) (h : Tints cs plain) :
      Tints (c :: cs) (c :: plain)
  | color {codes cs plain : List Char} (hcodes : 'm' ∉ codes) (h : Tints cs plain) :
      Tints (escapeChar :: '[' :: (codes ++ 'm' :: cs)) plain

namespace Tints

/-- A text with colors in it is stripped to the text without them, by induction on how the colors
were put in. -/
theorem strip {cs plain : List Char} (h : Tints cs plain) : stripColors cs = plain := by
  induction h with
  | nil => rw [stripColors]
  | @char c cs plain hc _ ih =>
      have hnone : behindColor? (c :: cs) = none := by
        unfold behindColor?
        split
        · next heq =>
            cases heq
            exact absurd rfl hc
        · rfl
      rw [stripColors]
      split
      · next hcolor =>
          rw [hnone] at hcolor
          contradiction
      · rw [ih]
  | @color codes cs plain hcodes _ ih =>
      have hcolor : behindColor? (escapeChar :: '[' :: (codes ++ 'm' :: cs)) = some cs := by
        have hbefore : ∀ c ∈ codes, decide (c ≠ 'm') :=
          fun c hc => decide_eq_true fun heq => hcodes (heq ▸ hc)
        have hdrop : (codes ++ 'm' :: cs).dropWhile (· ≠ 'm') = 'm' :: cs := by
          rw [List.dropWhile_append_of_pos hbefore, List.dropWhile_cons_of_neg (by decide)]
        simp only [behindColor?, escapeChar, hdrop]
      rw [stripColors]
      split
      · next hsome =>
          rw [hcolor] at hsome
          cases hsome
          exact ih
      · next hnone =>
          rw [hcolor] at hnone
          contradiction

/-- Texts with colors can be put together, and so can what they show. No color goes on from one to
the other. -/
theorem append {cs plain cs' plain' : List Char} (h : Tints cs plain) (h' : Tints cs' plain') :
    Tints (cs ++ cs') (plain ++ plain') := by
  induction h with
  | nil => exact h'
  | char hc _ ih => exact .char hc ih
  | color hcodes _ ih =>
      rw [List.cons_append, List.cons_append, List.append_assoc, List.cons_append]
      exact .color hcodes ih

/-- A text without escape characters shows itself, since nothing in it can begin a color. -/
theorem refl {cs : List Char} (h : escapeChar ∉ cs) : Tints cs cs := by
  induction cs with
  | nil => exact .nil
  | cons c cs ih =>
      rw [List.mem_cons, not_or] at h
      exact .char (Ne.symm h.1) (ih h.2)

/-- A color with nothing behind it. -/
theorem only {codes : List Char} (hcodes : 'm' ∉ codes) :
    Tints (escapeChar :: '[' :: (codes ++ ['m'])) [] :=
  .color hcodes .nil

end Tints

/-! ## Texts -/

/-- A text that shows as `plain` where colors are not shown. -/
def ShowsAs (text plain : String) : Prop :=
  Tints text.toList plain.toList

/-- A text without escape characters, so that no color starts in it. -/
def Colorless (text : String) : Prop :=
  escapeChar ∉ text.toList

instance (text : String) : Decidable (Colorless text) :=
  inferInstanceAs (Decidable (escapeChar ∉ text.toList))

namespace ShowsAs

theorem strip {text plain : String} (h : ShowsAs text plain) :
    String.ofList (stripColors text.toList) = plain := by
  rw [Tints.strip h, String.ofList_toList]

theorem append {text plain text' plain' : String} (h : ShowsAs text plain)
    (h' : ShowsAs text' plain') : ShowsAs (text ++ text') (plain ++ plain') := by
  rw [ShowsAs, String.toList_append, String.toList_append]
  exact Tints.append h h'

theorem push {text plain : String} (h : ShowsAs text plain) {c : Char} (hc : c ≠ escapeChar) :
    ShowsAs (text.push c) (plain.push c) := by
  rw [ShowsAs, String.toList_push, String.toList_push]
  exact Tints.append h (.char hc .nil)

/-- A color behind a text shows as nothing. -/
theorem tint {text plain color : String} (h : ShowsAs text plain) (hcolor : ShowsAs color "") :
    ShowsAs (text ++ color) plain := by
  simpa using h.append hcolor

end ShowsAs

theorem Colorless.showsAs {text : String} (h : Colorless text) : ShowsAs text text :=
  .refl h

theorem ShowsAs.text {text plain more : String} (h : ShowsAs text plain) (hmore : Colorless more) :
    ShowsAs (text ++ more) (plain ++ more) :=
  h.append hmore.showsAs

theorem colorless_run {c : Char} (hc : c ≠ escapeChar) (n : Nat) : Colorless (Report.run n c) := by
  intro hmem
  rw [Report.run, String.toList_ofList] at hmem
  exact hc (List.eq_of_mem_replicate hmem).symm

theorem Colorless.append {text text' : String} (h : Colorless text) (h' : Colorless text') :
    Colorless (text ++ text') := by
  rw [Colorless, String.toList_append, List.mem_append, not_or]
  exact ⟨h, h'⟩

theorem colorless_number (n : Nat) : Colorless (toString n) := by
  intro hmem
  have hdigit := Nat.isDigit_of_mem_toDigits (by decide) (by decide) (Nat.toList_repr ▸ hmem)
  exact absurd hdigit (by decide)

theorem Colorless.alignRight {text : String} (h : Colorless text) (width : Nat) :
    Colorless (Report.alignRight width text) :=
  (colorless_run (by decide) _).append h

/-- Lines of a text without escape characters have none either. -/
theorem Colorless.line {text line : String} (h : Colorless text) (hline : line ∈ lines text) :
    Colorless line :=
  fun hmem => h (mem_of_mem_lines hline hmem)

/-! ## Highlighted lines -/

theorem showsAs_colorReset : ShowsAs colorReset "" :=
  .only (by decide : 'm' ∉ ['0'])

namespace Highlight

theorem showsAs_stringColor : ShowsAs stringColor "" :=
  .only (by decide : 'm' ∉ "38;5;72".toList)

theorem showsAs_numberColor : ShowsAs numberColor "" :=
  .only (by decide : 'm' ∉ "38;5;73".toList)

theorem showsAs_bracketColor : ShowsAs bracketColor "" :=
  .only (by decide : 'm' ∉ "38;5;180".toList)

variable {out plain : String} {c : Char}

/-- Beginning a word, a number or a bracket puts at most a color in front of the character that is
shown. -/
theorem showsAs_start (h : ShowsAs out plain) (hc : c ≠ escapeChar) :
    ShowsAs (start out c).2 (plain.push c) := by
  unfold start
  split
  · exact (h.tint showsAs_stringColor).push hc
  · split
    · exact (h.tint showsAs_numberColor).push hc
    · split
      · exact h.push hc
      · split
        · exact ((h.tint showsAs_bracketColor).push hc).tint showsAs_colorReset
        · exact h.push hc

/-- Each character is shown once, whatever it is part of. -/
theorem showsAs_step (mode : Mode) (h : ShowsAs out plain) (hc : c ≠ escapeChar) :
    ShowsAs (step (mode, out) c).2 (plain.push c) := by
  have hplain := showsAs_start h hc
  have hreset := showsAs_start (h.tint showsAs_colorReset) hc
  cases mode <;> dsimp only [step]
  case plain => exact hplain
  case name => split <;> [exact h.push hc; exact hplain]
  case number => split <;> [exact h.push hc; exact hreset]
  case escape => exact h.push hc
  case string =>
    split
    · exact (h.push hc).tint showsAs_colorReset
    · split <;> exact h.push hc

/-- Highlighting a line shows the line, whatever mode it begins in. The induction is on the
characters of the line. -/
theorem showsAs_foldl (cs : List Char) (mode : Mode) (h : ShowsAs out plain)
    (hcs : escapeChar ∉ cs) :
    ShowsAs (cs.foldl step (mode, out)).2 (plain ++ String.ofList cs) := by
  induction cs generalizing mode out plain with
  | nil => simpa using h
  | cons c cs ih =>
      rw [List.mem_cons, not_or] at hcs
      have hstep := showsAs_step mode h (Ne.symm hcs.1)
      have htext : plain ++ String.ofList (c :: cs) = plain.push c ++ String.ofList cs := by
        simp [← String.toList_inj]
      rw [List.foldl_cons, htext]
      exact ih _ hstep hcs.2

theorem showsAs_finish {state : Mode × String} (h : ShowsAs state.2 plain) :
    ShowsAs (finish state) plain := by
  unfold finish
  split
  · exact h
  · exact h
  · exact h.tint showsAs_colorReset
  · exact h.tint showsAs_colorReset
  · exact h.tint showsAs_colorReset

end Highlight

/-- A highlighted line is the line with colors in it. -/
theorem showsAs_highlight {line : String} (h : Colorless line) : ShowsAs (highlight line) line := by
  have hfold := Highlight.showsAs_foldl line.toList .plain (show ShowsAs "" "" from .nil) h
  rw [String.ofList_toList, String.empty_append] at hfold
  exact Highlight.showsAs_finish hfold

/-! ## Reports -/

open Report

/-- A palette that only adds colors. -/
structure Palette.OnlyColors (palette : Palette) : Prop where
  alarm : ShowsAs palette.alarm plain.alarm
  dim : ShowsAs palette.dim plain.dim
  hint : ShowsAs palette.hint plain.hint
  reset : ShowsAs palette.reset plain.reset
  showLine : ∀ line, Colorless line → ShowsAs (palette.showLine line) (plain.showLine line)

theorem onlyColors_colored : Palette.colored.OnlyColors where
  alarm := .only (by decide : 'm' ∉ "1;31".toList)
  dim := .only (by decide : 'm' ∉ ['2'])
  hint := .only (by decide : 'm' ∉ "1;38;5;73".toList)
  reset := showsAs_colorReset
  showLine _ := showsAs_highlight

namespace Palette.OnlyColors

variable {palette : Palette}

/-- A row of a report shows the same with colors as without, provided that its margin has none and
its text does. -/
theorem row (h : palette.OnlyColors) {margin text plain : String} (hmargin : Colorless margin)
    (htext : ShowsAs text plain) :
    ShowsAs (Report.row palette margin text) (Report.row .plain margin plain) :=
  ((((h.dim.text hmargin).text (by decide)).append h.reset).append htext).text (by decide)

/-- The rows of a hint show the same with colors as without, as long as the hint has no escape
character in it. -/
theorem helpRows (h : palette.OnlyColors) {help : String} (hhelp : Colorless help) :
    ShowsAs (Report.helpRows palette help) (Report.helpRows .plain help) := by
  have hlines : ∀ line ∈ lines help, Colorless line := fun line hline => hhelp.line hline
  unfold Report.helpRows
  split
  · exact Colorless.showsAs (by decide)
  · next first rest heq =>
      rw [heq, List.forall_mem_cons] at hlines
      have hrest : Colorless (String.join (rest.map fun line => "       " ++ line ++ "\n")) := by
        intro hmem
        rw [String.toList_join, List.mem_flatMap] at hmem
        obtain ⟨_, hrow, hmem⟩ := hmem
        obtain ⟨line, hline, rfl⟩ := List.mem_map.mp hrow
        exact ((Colorless.append (by decide) (hlines.2 line hline)).append (by decide)) hmem
      have hstart : ShowsAs "\n " "\n " := Colorless.showsAs (by decide)
      exact ((((((hstart.append h.hint).text (by decide)).append h.reset).text (by decide)).text
        hlines.1).text (by decide)).text hrest

/-- A report is the plain report with colors in it. -/
theorem render (h : palette.OnlyColors) (d : Diagnostic) {source filename : String}
    (hmessage : Colorless d.message) (hhelp : ∀ help ∈ d.help, Colorless help)
    (hsource : Colorless source) (hfilename : Colorless filename) :
    ShowsAs (d.render palette source filename) (d.render .plain source filename) := by
  unfold Diagnostic.render
  dsimp only
  generalize Position.locate source d.span.start = start
  generalize Position.locate source d.span.stop = stop
  have hline : Colorless ((lines source)[start.line]?.getD "") := by
    cases hget : (lines source)[start.line]? with
    | none => exact (by decide : Colorless "")
    | some line => exact hsource.line (List.mem_of_getElem? hget)
  generalize (lines source)[start.line]?.getD "" = line at hline ⊢
  have hnumber := colorless_number (start.line + 1)
  generalize toString (start.line + 1) = number at hnumber ⊢
  have hplace : Colorless (filename ++ ":" ++ number ++ ":" ++ toString (start.column + 1)) :=
    (((hfilename.append (by decide)).append hnumber).append (by decide)).append
      (colorless_number _)
  have hblank : Colorless (alignRight (max number.length 2) "") :=
    Colorless.alignRight (by decide) _
  have hspace : Colorless " " := by decide
  have hfeed : Colorless "\n" := by decide
  -- Row by row, in the order in which they are put together.
  have hfile : ShowsAs ("\n " ++ palette.dim ++ "file:" ++ palette.reset ++ " ")
      ("\n " ++ Palette.plain.dim ++ "file:" ++ Palette.plain.reset ++ " ") :=
    ((((hfeed.append hspace).showsAs.append h.dim).text (by decide)).append h.reset).text hspace
  have halarm := ((hfile.text hplace).text hfeed).append h.alarm
  have hword := (halarm.text (by decide : Colorless "error:")).append h.reset
  have herror := ((hword.text hspace).text hmessage).text hfeed
  have hempty := h.row hblank (Colorless.showsAs (by decide : Colorless ""))
  have hshown := h.row (hnumber.alignRight (max number.length 2))
    (hspace.showsAs.append (h.showLine line hline))
  have hindent := colorless_run (by decide : ' ' ≠ escapeChar) start.column
  have hunder := colorless_run (by decide : '^' ≠ escapeChar) (caretCount line start stop)
  have hcarets := h.row hblank
    ((((hspace.append hindent).showsAs.append h.alarm).text hunder).append h.reset)
  refine ((((herror.append hempty).append hshown).append hcarets).append ?_).text hfeed
  cases hhelp' : d.help with
  | none => exact Colorless.showsAs (by decide : Colorless "")
  | some help => exact h.helpRows (hhelp help hhelp')

end Palette.OnlyColors

variable {d : Diagnostic} {source filename : String}

/-- A colored report without its colors is the plain report, whatever it is about, as long as the
texts that it is made of have no escape characters of their own. -/
theorem stripColors_render (hmessage : escapeChar ∉ d.message.toList)
    (hhelp : ∀ help ∈ d.help, escapeChar ∉ help.toList) (hsource : escapeChar ∉ source.toList)
    (hfilename : escapeChar ∉ filename.toList) :
    String.ofList (stripColors (d.render .colored source filename).toList) =
      d.render .plain source filename :=
  (onlyColors_colored.render d hmessage hhelp hsource hfilename).strip

/-- A string that ends in an escaped quote, behind brackets and a number. -/
theorem stripColors_render_unterminated :
    ∃ d : Diagnostic, d = SyntaxError.diagnostic ⟨.unterminatedString '"', ⟨9, 12⟩⟩ ∧
      escapeChar ∉ d.message.toList ∧ (∀ help ∈ d.help, escapeChar ∉ help.toList) ∧
      escapeChar ∉ "é[a1] 1.5\"\\\"".toList ∧ escapeChar ∉ "x.html".toList ∧
      String.ofList (stripColors (d.render .colored "é[a1] 1.5\"\\\"" "x.html").toList) =
        d.render .plain "é[a1] 1.5\"\\\"" "x.html" := by
  have hmessage : escapeChar ∉ "Unexpected end of string".toList := by decide
  have hhelp : ∀ help ∈ some "Close the string with \"", escapeChar ∉ help.toList := by decide
  have hsource : escapeChar ∉ "é[a1] 1.5\"\\\"".toList := by decide
  have hfilename : escapeChar ∉ "x.html".toList := by decide
  exact ⟨_, rfl, hmessage, hhelp, hsource, hfilename,
    stripColors_render hmessage hhelp hsource hfilename⟩

end ReactiveTemplate
