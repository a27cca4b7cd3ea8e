import Mathlib.Data.List.Induction
import Mathlib.Data.Prod.Lex
import Mathlib.Order.Bounds.Defs
import Mathlib.Order.Monotone.Defs
import ReactiveTemplate.Proofs.Text.Extent
import ReactiveTemplate.Proofs.Text.Location

/-!
# Lines and columns

Every offset is located at the last border between two characters that is not behind it. The
borders of a text come in the order of their lines and columns, so a line and a column name one
border at most.
-/

namespace ReactiveTemplate

/-- Whether byte `byte` of `source` is where a character starts, or the end of the source. -/
def IsBorder (source : String) (byte : Nat) : Prop :=
  (⟨byte⟩ : String.Pos.Raw).IsValid source

/-- A border between characters is an offset behind some front part of the text. The end of the text
is one as well. -/
theorem isBorder_iff {source : String} {byte : Nat} :
    IsBorder source byte ↔
      ∃ before after, source.toList = before ++ after ∧ byte = byteWidth before := by
  rw [IsBorder, String.Pos.Raw.isValid_iff_exists_append]
  constructor
  · rintro ⟨before, after, rfl, hbyte⟩
    refine ⟨before.toList, after.toList, String.toList_append, ?_⟩
    rw [byteWidth_toList]
    exact congrArg String.Pos.Raw.byteIdx hbyte
  · rintro ⟨before, after, hsource, rfl⟩
    refine ⟨String.ofList before, String.ofList after, ?_, ?_⟩
    · rw [← String.ofList_append, ← hsource, String.ofList_toList]
    · rw [← String.toList_ofList (l := before), byteWidth_toList, String.ofList_toList]
      rfl

namespace Position

/-- What a place tells of the text `before` in front of it: its bytes, its line feeds, and the
characters behind the last line feed. -/
structure Measures (p : Position) (before : List Char) : Prop where
  byte : p.byte = byteWidth before
  line : p.line = before.count '\n'
  column : ∃ earlier head, before = earlier ++ head ∧ '\n' ∉ head ∧
    (∀ c ∈ earlier.getLast?, c = '\n') ∧ p.column = head.length

/-- The position behind a text has its bytes, its line breaks, and the characters since the last of
these. -/
theorem measures_behind (before : List Char) : (behind before).Measures before := by
  obtain ⟨earlier, head, rfl, hhead, hearlier⟩ := exists_line_start before
  exact ⟨rfl, rfl, earlier, head, rfl, hhead, hearlier, by rw [behind_line hearlier hhead]⟩

/-! ## The border in front of an offset -/

/-- Looking for an offset stops at the last border that does not lie behind it, by induction on the
text that is left. -/
theorem exists_locateFrom (before cs : List Char) (offset : Nat)
    (hoffset : byteWidth before ≤ offset) :
    ∃ front rest, cs = front ++ rest ∧
      locateFrom (behind before) offset cs = behind (before ++ front) ∧
      byteWidth (before ++ front) ≤ offset ∧
      ∀ c ∈ rest.head?, offset < byteWidth (before ++ front) + c.utf8Size := by
  induction cs generalizing before with
  | nil => exact ⟨[], [], rfl, by simp [locateFrom], by simpa using hoffset, by simp⟩
  | cons c cs ih =>
      rw [locateFrom]
      split
      · next hle =>
          have hnext : byteWidth (before ++ [c]) ≤ offset := by
            simpa [behind] using hle
          obtain ⟨front, rest, rfl, hlocate, hfront, hrest⟩ := ih (before ++ [c]) hnext
          rw [List.append_assoc, List.singleton_append] at hlocate hfront hrest
          exact ⟨c :: front, rest, rfl, by rw [advance_behind, hlocate], hfront, hrest⟩
      · next hlt =>
          refine ⟨[], c :: cs, rfl, by simp, by simpa using hoffset, ?_⟩
          rintro d ⟨⟩
          simpa [behind] using hlt

/-- An offset is located between two characters, and inside of the second one at most. -/
theorem exists_locate (source : String) (offset : Nat) :
    ∃ before after, source.toList = before ++ after ∧ locate source offset = behind before ∧
      byteWidth before ≤ offset ∧ ∀ c ∈ after.head?, offset < byteWidth before + c.utf8Size :=
  exists_locateFrom [] source.toList offset (Nat.zero_le offset)

/-- No border lies between the place of an offset and the offset. -/
theorem isGreatest_locate (source : String) (offset : Nat) :
    IsGreatest {byte | IsBorder source byte ∧ byte ≤ min offset source.utf8ByteSize}
      (locate source offset).byte := by
  obtain ⟨before, after, hsource, hlocate, hle, hnext⟩ := exists_locate source offset
  have hsize : source.utf8ByteSize = byteWidth (before ++ after) := by
    rw [← byteWidth_toList, hsource]
  have hbyte : (locate source offset).byte = byteWidth before := by
    rw [hlocate]
    rfl
  rw [hbyte]
  constructor
  · refine ⟨isBorder_iff.mpr ⟨before, after, hsource, rfl⟩, ?_⟩
    rw [hsize, byteWidth_append]
    omega
  · rintro byte ⟨hborder, hmin⟩
    obtain ⟨before', after', hsource', rfl⟩ := isBorder_iff.mp hborder
    by_contra hlt
    -- The border would lie behind the character that the offset falls into.
    obtain ⟨more, rfl⟩ := prefix_of_byteWidth_le (hsource ▸ List.prefix_append before after)
      (hsource' ▸ List.prefix_append before' after') (Nat.le_of_not_le hlt)
    have hafter : after = more ++ after' :=
      List.append_cancel_left (hsource.symm.trans (hsource'.trans (List.append_assoc _ _ _)))
    cases more with
    | nil => simp at hlt
    | cons c more =>
        have hinside := hnext c (by simp [hafter])
        simp only [byteWidth_append, byteWidth_cons] at hmin
        omega

theorem locate_byte_locate (source : String) (offset : Nat) :
    locate source (locate source offset).byte = locate source offset := by
  obtain ⟨before, after, hsource, hlocate, -⟩ := exists_locate source offset
  rw [hlocate]
  exact locate_eq hsource

/-! ## The order of places -/

/-- The line and the column of a place, of which the line counts more. -/
def coordinates (p : Position) : Nat ×ₗ Nat :=
  toLex (p.line, p.column)

/-- One character further is further in the order of lines and columns: in the next line, or in the
next column of the same. -/
theorem coordinates_lt_advance (p : Position) (c : Char) :
    p.coordinates < (p.advance c).coordinates := by
  rw [coordinates, coordinates, Prod.Lex.toLex_lt_toLex]
  unfold advance
  split
  · exact .inl (Nat.lt_succ_self _)
  · exact .inr ⟨rfl, Nat.lt_succ_self _⟩

/-- Places are in order when the one stands behind a longer text than the other. -/
theorem coordinates_behind_lt (before : List Char) {more : List Char} (hmore : more ≠ []) :
    (behind before).coordinates < (behind (before ++ more)).coordinates := by
  induction more using List.reverseRecOn with
  | nil => contradiction
  | append_singleton more c ih =>
      rw [← List.append_assoc, ← advance_behind]
      have hlast := coordinates_lt_advance (behind (before ++ more)) c
      by_cases hnil : more = []
      · simpa [hnil] using hlast
      · exact (ih hnil).trans hlast

/-- Among borders, lines and columns are in the order of offsets. So no two borders have both in
common. -/
theorem strictMonoOn_coordinates (source : String) :
    StrictMonoOn (fun byte => (locate source byte).coordinates) {byte | IsBorder source byte} := by
  intro byte hbyte byte' hbyte' hlt
  obtain ⟨before, after, hsource, rfl⟩ := isBorder_iff.mp hbyte
  obtain ⟨before', after', hsource', rfl⟩ := isBorder_iff.mp hbyte'
  obtain ⟨more, rfl⟩ := prefix_of_byteWidth_le (hsource ▸ List.prefix_append before after)
    (hsource' ▸ List.prefix_append before' after') (Nat.le_of_lt hlt)
  have hmore : more ≠ [] := by
    rintro rfl
    simp at hlt
  dsimp only
  rw [locate_eq hsource, locate_eq hsource']
  exact coordinates_behind_lt before hmore

/-- An offset is located at the last border of the source that is not behind it, with the line and
the column counted on the text up to there; and locating this border gives the same place. Borders
are in the order of their lines and columns, so no two of them share both. -/
theorem locate_invertible (source : String) :
    (∀ offset,
      IsGreatest {byte | IsBorder source byte ∧ byte ≤ min offset source.utf8ByteSize}
        (locate source offset).byte ∧
      (∃ before after, source.toList = before ++ after ∧
        (locate source offset).Measures before) ∧
      locate source (locate source offset).byte = locate source offset) ∧
    StrictMonoOn (fun byte => (locate source byte).coordinates) {byte | IsBorder source byte} ∧
    Set.InjOn (fun byte => ((locate source byte).line, (locate source byte).column))
      {byte | IsBorder source byte} := by
  refine ⟨fun offset => ⟨isGreatest_locate source offset, ?_, locate_byte_locate source offset⟩,
    strictMonoOn_coordinates source, ?_⟩
  · obtain ⟨before, after, hsource, hlocate, -⟩ := exists_locate source offset
    exact ⟨before, after, hsource, hlocate ▸ measures_behind before⟩
  · intro byte hbyte byte' hbyte' heq
    exact (strictMonoOn_coordinates source).injOn hbyte hbyte' (congrArg toLex heq)

end Position

end ReactiveTemplate
