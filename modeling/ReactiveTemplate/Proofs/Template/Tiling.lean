import ReactiveTemplate.Proofs.Template.Piece
import ReactiveTemplate.Proofs.Token.Order

/-!
# Segments tile their template

Every character of a template belongs to exactly one of its segments. A text shows what its source
text says, run for run, and a decorator stands where its spans say.
-/

namespace ReactiveTemplate

namespace Template

/-! ## Texts -/

/-- `Shows rest raw shown` says that `shown` is shown for the text `raw` in front of `rest`. -/
inductive Shows (rest : List Char) : List Char → List Char → Prop where
  | nil : Shows rest [] []
  | cons {raw shown raws showns : List Char} (h : Run (raws ++ rest) raw shown)
      (hmore : Shows rest raws showns) : Shows rest (raw ++ raws) (shown ++ showns)

theorem Shows.snoc {rest raw held shown more : List Char} (h : Shows (raw ++ rest) held shown)
    (hrun : Run rest raw more) : Shows rest (held ++ raw) (shown ++ more) := by
  induction h with
  | nil =>
      have hlast : Shows rest (raw ++ []) (more ++ []) := .cons hrun .nil
      simpa using hlast
  | cons h _ ih =>
      rw [List.append_assoc, List.append_assoc]
      refine .cons ?_ ih
      rwa [List.append_assoc]

/-- Something is shown for every text. -/
theorem Shows.eq_nil {rest raw shown : List Char} (h : Shows rest raw shown) (hshown : shown = []) :
    raw = [] := by
  cases h with
  | nil => rfl
  | cons h => exact absurd (List.append_eq_nil_iff.mp hshown).1 h.shown_ne_nil

end Template

open Template

/-- How a segment stands in its template, with the source text `raw` between `before` and
`after`. -/
def Segment.Written (before raw after : List Char) : Segment → Prop
  | text shown => shown ≠ "" ∧ Shows after raw shown.toList
  | decorator d => d.Written before raw

/-! ## Tilings -/

/-- A segment with its source text. -/
abbrev Tile :=
  Segment × List Char

/-- The source text of tiles that stand one behind the other. -/
def Tile.source (tiles : List Tile) : List Char :=
  (tiles.map Prod.snd).flatten

/-- Tiles behind the text `before`. No two texts stand side by side. -/
inductive Tiles : List Char → List Tile → Prop where
  | nil {before : List Char} : Tiles before []
  | cons {before raw : List Char} {segment : Segment} {tiles : List Tile}
      (h : segment.Written before raw (Tile.source tiles))
      (hnext : segment.decorator? = none → ∀ tile ∈ tiles.head?, tile.1.decorator? ≠ none)
      (hmore : Tiles (before ++ raw) tiles) : Tiles before ((segment, raw) :: tiles)

namespace Tiles

variable {before : List Char} {tiles : List Tile}

/-- Each segment is written as its tile says: behind the tiles in front of it, and in front of those
that are left. -/
theorem written (h : Tiles before tiles) {front back : List Tile} {segment : Segment}
    {raw : List Char} (htiles : tiles = front ++ (segment, raw) :: back) :
    segment.Written (before ++ Tile.source front) raw (Tile.source back) := by
  induction h generalizing front with
  | nil => simp at htiles
  | cons h _ _ ih =>
      cases front with
      | nil =>
          cases htiles
          simpa [Tile.source] using h
      | cons tile front =>
          rw [List.cons_append, List.cons.injEq] at htiles
          obtain ⟨rfl, htiles⟩ := htiles
          simpa [Tile.source] using ih htiles

/-- Two texts never come one behind the other: the scan puts all text between two decorators into
one segment. -/
theorem apart (h : Tiles before tiles) (front back : List Segment) (shown shown' : String) :
    tiles.map Prod.fst ≠ front ++ .text shown :: .text shown' :: back := by
  induction h generalizing front with
  | nil => simp
  | @cons before raw segment tiles _ hnext _ ih =>
      intro htexts
      cases front with
      | nil =>
          rw [List.map_cons, List.nil_append, List.cons.injEq] at htexts
          obtain ⟨rfl, htexts⟩ := htexts
          obtain ⟨tile, more, rfl, htile, -⟩ := List.map_eq_cons_iff.mp htexts
          refine hnext rfl tile rfl ?_
          rw [htile]
          rfl
      | cons _ front =>
          rw [List.map_cons, List.cons_append, List.cons.injEq] at htexts
          exact ih front htexts.2

/-- The decorators of a template are in the order of the source and share nothing, as the pieces
that they are read from do not overlap. -/
theorem inOrder (h : Tiles before tiles) :
    Span.InOrder (byteWidth before) (byteWidth (before ++ Tile.source tiles))
      (((tiles.map Prod.fst).filterMap Segment.decorator?).map Decorator.span) := by
  induction h with
  | nil => simp [Span.InOrder, Tile.source]
  | @cons before raw segment tiles h _ _ ih =>
      have hsource : before ++ Tile.source ((segment, raw) :: tiles) =
          before ++ raw ++ Tile.source tiles := by
        simp [Tile.source]
      rw [hsource]
      cases segment with
      | text shown =>
          refine ih.widen ?_ (Nat.le_refl _)
          simp
      | decorator d =>
          have hraw : raw ≠ [] := by
            rintro rfl
            exact absurd h.opening (by simp)
          have hpos := byteWidth_pos hraw
          have hspan : d.span = .behind before raw := h.span
          refine ⟨?_, ?_, ?_⟩
          · simp [hspan, Span.behind]
          · simpa [hspan, Span.behind] using hpos
          · simpa [hspan, Span.behind] using ih

/-- Text that has been held back becomes a tile, unless it is empty. -/
theorem flush {held shown : List Char} (h : Tiles (before ++ held) tiles)
    (hshows : Shows (Tile.source tiles) held shown.reverse)
    (hnext : ∀ tile ∈ tiles.head?, tile.1.decorator? ≠ none) (done : List Segment) :
    ∃ tiles', Tiles before tiles' ∧ Tile.source tiles' = held ++ Tile.source tiles ∧
      (Template.flush done shown).reverse ++ tiles.map Prod.fst =
        done.reverse ++ tiles'.map Prod.fst := by
  cases shown with
  | nil =>
      have hheld := hshows.eq_nil rfl
      subst hheld
      refine ⟨tiles, ?_, rfl, rfl⟩
      simpa using h
  | cons c shown =>
      refine ⟨(.text (String.ofList (c :: shown).reverse), held) :: tiles, .cons ⟨?_, ?_⟩ ?_ h, rfl,
        ?_⟩
      · simp [← String.toList_inj]
      · simpa using hshows
      · exact fun _ => hnext
      · simp [Template.flush]

end Tiles

/-! ## Scanning -/

/-- What is left to scan becomes tiles, together with the text `held`, which is shown as `shown` but
is no segment yet. -/
theorem Template.exists_tiles_of_scanFrom {done segments : List Segment} {shown cs : List Char}
    {offset : Nat} (h : scanFrom done shown offset cs = .ok segments) {before held : List Char}
    (hoffset : offset = byteWidth (before ++ held)) (hshows : Shows cs held shown.reverse) :
    ∃ tiles, Tiles before tiles ∧ Tile.source tiles = held ++ cs ∧
      segments = done.reverse ++ tiles.map Prod.fst := by
  fun_induction scanFrom done shown offset cs generalizing before held with
  | case1 done shown offset =>
      cases h
      have hnone : Tiles (before ++ held) [] := .nil
      obtain ⟨tiles, htiles, hsource, hsegments⟩ := hnone.flush hshows (by simp) done
      refine ⟨tiles, htiles, hsource, ?_⟩
      simpa using hsegments
  | case2 => contradiction
  | case3 done shown offset c cs more raw rest hread ih =>
      obtain ⟨happend, hpiece⟩ := readPiece_cases hread
      have happend : raw ++ rest = c :: cs := happend
      rcases hpiece with ⟨_, _, htext, hrun⟩ | ⟨_, _, hdecorator, -⟩
      · cases htext
        rw [← happend] at hshows
        have hmore : Shows rest (held ++ raw) (more.reverse ++ shown).reverse := by
          simpa using hshows.snoc hrun
        have hwidth : offset + byteWidth raw = byteWidth (before ++ (held ++ raw)) := by
          simp [hoffset, Nat.add_assoc]
        rw [← happend, ← List.append_assoc]
        exact ih h hwidth hmore
      · contradiction
  | case4 done shown offset c cs opening body closer rest hread decorator ih =>
      obtain ⟨happend, hpiece⟩ := readPiece_cases hread
      rcases hpiece with ⟨_, _, htext, -⟩ | ⟨_, _, hdecorator, hopening⟩
      · contradiction
      · cases hdecorator
        -- The text held back ends here, and nothing is held back behind the decorator.
        have hwritten := written_decoratorAt hopening (before ++ held) body
        rw [← hoffset] at hwritten
        generalize (Piece.decorator opening body opening.value.closer).raw = raw at happend hwritten
        have hstop : decorator.span.stop = byteWidth (before ++ held ++ raw ++ []) := by
          rw [hwritten.span, List.append_nil]
          rfl
        obtain ⟨tiles, htiles, hsource, hsegments⟩ := ih h hstop .nil
        have htile : Tiles (before ++ held) ((.decorator decorator, raw) :: tiles) :=
          .cons hwritten (by simp [Segment.decorator?]) htiles
        have hrest : Tile.source ((.decorator decorator, raw) :: tiles) = c :: cs := by
          rw [← happend]
          exact congrArg (raw ++ ·) hsource
        rw [← hrest] at hshows
        obtain ⟨tiles', htiles', hsource', hsegments'⟩ :=
          htile.flush hshows (by simp [Segment.decorator?]) done
        refine ⟨tiles', htiles', ?_, ?_⟩
        · rw [hsource', hrest]
        · rw [hsegments, ← hsegments']
          simp

/-- Every accepted source is cut into the pieces of its segments, with nothing left out. This is the
invariant of the scan at its end. -/
theorem exists_tiles_of_scan {source : String} {segments : List Segment}
    (h : scan source = .ok segments) :
    ∃ tiles, Tiles [] tiles ∧ Tile.source tiles = source.toList ∧
      segments = tiles.map Prod.fst := by
  have hstart : 0 = byteWidth ([] ++ []) := rfl
  obtain ⟨tiles, htiles, hsource, hsegments⟩ := exists_tiles_of_scanFrom h hstart .nil
  exact ⟨tiles, htiles, hsource, hsegments⟩

/-- Every decorator stands in its template where its spans say. -/
theorem written_of_scan {source : String} {segments : List Segment}
    (h : scan source = .ok segments) {d : Decorator}
    (hd : d ∈ segments.filterMap Segment.decorator?) :
    ∃ before raw after, source.toList = before ++ raw ++ after ∧ d.Written before raw := by
  obtain ⟨tiles, htiles, hsource, rfl⟩ := exists_tiles_of_scan h
  obtain ⟨segment, hsegment, hdecorator⟩ := List.mem_filterMap.mp hd
  obtain ⟨⟨segment, raw⟩, htile, rfl⟩ := List.mem_map.mp hsegment
  obtain ⟨front, back, rfl⟩ := List.append_of_mem htile
  have hwritten := htiles.written rfl
  cases segment with
  | text shown => contradiction
  | decorator d =>
      cases hdecorator
      refine ⟨Tile.source front, raw, Tile.source back, ?_, hwritten⟩
      rw [← hsource]
      simp [Tile.source]

/-- The span of an expression covers the text of the expression in the whole source, wherever the
decorator stands. -/
theorem Decorator.Written.covers_expression {d : Decorator} {before raw after cs : List Char}
    (h : d.Written before raw) (hcs : cs = before ++ raw ++ after) :
    d.expressionSpan.Covers cs d.expression.toList := by
  obtain ⟨opening, closing, -, -, hraw, hspan⟩ := h.expression
  exact ⟨before ++ opening, closing ++ after, by simp [hcs, hraw], hspan⟩

/-- The segments of a template tile it. A text is not empty and shows what its source text says, and
a decorator is the source text at its span, with its expression inside of the brackets. No two texts
stand side by side, and decorators stand one behind the other. -/
theorem tiles_of_scan {source : String} {segments : List Segment} (h : scan source = .ok segments) :
    ∃ tiles : List Tile,
      tiles.map Prod.fst = segments ∧ Tile.source tiles = source.toList ∧
      (∀ front segment raw back, tiles = front ++ (segment, raw) :: back →
        segment.Written (Tile.source front) raw (Tile.source back)) ∧
      (∀ front back shown shown', segments ≠ front ++ .text shown :: .text shown' :: back) ∧
      Span.InOrder 0 (byteWidth source.toList)
        ((segments.filterMap Segment.decorator?).map Decorator.span) := by
  obtain ⟨tiles, htiles, hsource, rfl⟩ := exists_tiles_of_scan h
  refine ⟨tiles, rfl, hsource, ?_, htiles.apart, ?_⟩
  · intro front segment raw back heq
    exact htiles.written heq
  · rw [← hsource]
    exact htiles.inOrder

/-- Neither a backslash in a comment nor an escaped bracket means anything. -/
theorem scan_of_comments :
    ∃ segments, scan r"a\{<!-- \x -->{ b }[if c < d]<!-- \" = .ok segments ∧
      segments =
        [.text r"a{<!-- \x -->", .decorator ⟨.ofContent "text", "b", ⟨14, 19⟩, ⟨16, 17⟩⟩,
          .decorator ⟨⟨.processor, "if", none, none, false⟩, "c < d", ⟨19, 29⟩, ⟨23, 28⟩⟩,
          .text "<!-- \\"] :=
  exists_eq_ok_of_toOption (by decide +kernel)

/-- An escaped brace, a comment with a backslash in it, a decorator of each form, and a comment that
nothing ends. -/
theorem tiles_of_scan_comments :
    ∃ segments, scan r"a\{<!-- \x -->{ b }[if c < d]<!-- \" = .ok segments ∧
      segments.length = 4 ∧
      ∃ tiles : List Tile,
        tiles.map Prod.fst = segments ∧
        Tile.source tiles = r"a\{<!-- \x -->{ b }[if c < d]<!-- \".toList ∧
        (∀ front segment raw back, tiles = front ++ (segment, raw) :: back →
          segment.Written (Tile.source front) raw (Tile.source back)) ∧
        (∀ front back shown shown', segments ≠ front ++ .text shown :: .text shown' :: back) ∧
        Span.InOrder 0
          (byteWidth r"a\{<!-- \x -->{ b }[if c < d]<!-- \".toList)
          ((segments.filterMap Segment.decorator?).map Decorator.span) := by
  obtain ⟨segments, hscan, hsegments⟩ := scan_of_comments
  exact ⟨segments, hscan, congrArg List.length hsegments, tiles_of_scan hscan⟩

end ReactiveTemplate
