import ReactiveTemplate.Proofs.Text.Lines

/-!
# Where an offset is

The place at an offset between two characters is counted on what stands in front of it: its bytes,
its line feeds, and the characters behind the last of these.
-/

namespace ReactiveTemplate

namespace Position

/-- The place behind a text. -/
def behind (before : List Char) : Position :=
  ⟨byteWidth before, before.count '\n', (before.reverse.takeWhile (· ≠ '\n')).length⟩

/-- Passing one more character gives the position behind that character, whether it is a line feed
or not. -/
theorem advance_behind (before : List Char) (c : Char) :
    (behind before).advance c = behind (before ++ [c]) := by
  unfold advance behind
  split
  · next hc =>
      subst hc
      simp
  · next hc => simp [hc]

/-- Looking for the offset behind some text, from the beginning on, finds the position behind that
text. -/
theorem locateFrom_behind (before front rest : List Char) :
    locateFrom (behind before) (byteWidth (before ++ front)) (front ++ rest) =
      behind (before ++ front) := by
  induction front generalizing before with
  | nil =>
      cases rest with
      | nil => simp [locateFrom]
      | cons c rest =>
          have hpos := c.utf8Size_pos
          rw [List.append_nil, List.nil_append, locateFrom, if_neg]
          simp only [behind]
          omega
  | cons c front ih =>
      have hfront : before ++ c :: front = before ++ [c] ++ front := by simp
      rw [List.cons_append, locateFrom, if_pos, advance_behind, hfront, ih]
      simp only [behind, byteWidth_append, byteWidth_cons]
      omega

/-- An offset between two characters is located behind what stands in front of it. -/
theorem locate_eq {source : String} {before after : List Char}
    (hsource : source.toList = before ++ after) :
    locate source (byteWidth before) = behind before := by
  rw [locate, hsource]
  exact locateFrom_behind [] before after

/-- In a line, the characters of the line are counted. -/
theorem behind_line {earlier head : List Char} (hearlier : ∀ c ∈ earlier.getLast?, c = '\n')
    (hhead : '\n' ∉ head) :
    behind (earlier ++ head) =
      ⟨byteWidth (earlier ++ head), earlier.count '\n', head.length⟩ := by
  have hplain : ∀ c ∈ head.reverse, decide (c ≠ '\n') :=
    fun c hc => decide_eq_true fun heq => hhead (heq ▸ List.mem_reverse.mp hc)
  have hcolumn : (earlier ++ head).reverse.takeWhile (· ≠ '\n') = head.reverse := by
    rw [List.reverse_append, List.takeWhile_append_of_pos hplain]
    rcases List.eq_nil_or_concat' earlier with rfl | ⟨front, c, rfl⟩
    · simp
    · obtain rfl : c = '\n' := hearlier c (by simp)
      simp
  rw [behind, hcolumn, List.count_append, List.count_eq_zero.mpr hhead, List.length_reverse,
    Nat.add_zero]

end Position

end ReactiveTemplate
