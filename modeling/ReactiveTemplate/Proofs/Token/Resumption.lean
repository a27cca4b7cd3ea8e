import ReactiveTemplate.Proofs.Expr.Source
import ReactiveTemplate.Proofs.Text.Extent
import ReactiveTemplate.Proofs.Token.Halting

/-!
# Reading on behind an error

A cursor keeps nothing but a place in the source. Reading from there is reading the text behind it
as a source of its own, apart from the place of the spans, and after an error the next place is the
end of the offending text. So repeated readings get to the end of any source.
-/

namespace ReactiveTemplate

open Spanned

namespace Cursor

/-! ## One reading -/

/-- The tokens at a later place are the same tokens, moved. -/
theorem tokensFrom_shift (n : Nat) (done : List Token) (offset : Nat) (cs : List Char) :
    tokensFrom (mapSpans (·.shift n) done) (offset + n) cs =
      (mapSpans (·.shift n) (tokensFrom done offset cs).1,
        ⟨(tokensFrom done offset cs).2.offset + n, (tokensFrom done offset cs).2.rest⟩) := by
  fun_induction tokensFrom done offset cs with
  | case1 done offset =>
      rw [tokensFrom, mapSpans_ok, mapSpans_eq_map, mapSpans_eq_map, List.map_reverse]
  | case2 done offset c cs hblank ih =>
      rw [tokensFrom_of_blank hblank, ← ih, Nat.add_right_comm]
  | case3 done offset c cs hblank lexeme rest hread width ih =>
      have htoken : lexeme.token (offset + n) width =
          mapSpans (·.shift n) (lexeme.token offset width) := by
        simp [Lexeme.token, mapSpans, Span.shift, Nat.add_right_comm]
      rw [tokensFrom_of_read hblank hread, ← ih, Nat.add_right_comm, mapSpans_cons, ← htoken]
  | case4 done offset c cs hblank halt hread error =>
      have herror : halt.error (offset + n) = mapSpans (·.shift n) error := by
        simp only [error, Halt.error, mapSpans, Span.shift, SyntaxError.mk.injEq, Span.mk.injEq,
          true_and]
        omega
      rw [tokensFrom_of_halt hblank hread, herror]
      rfl

/-- Reading takes a text off the head of what is left. -/
theorem exists_front_of_tokensFrom (done : List Token) (offset : Nat) (cs : List Char) :
    ∃ front, front ++ (tokensFrom done offset cs).2.rest = cs ∧
      (tokensFrom done offset cs).2.offset = offset + byteWidth front := by
  fun_induction tokensFrom done offset cs with
  | case1 => exact ⟨[], rfl, rfl⟩
  | case2 done offset c cs hblank ih =>
      obtain ⟨front, hfront, hoffset⟩ := ih
      exact ⟨c :: front, by simp [hfront], by rw [hoffset, byteWidth_cons, Nat.add_assoc]⟩
  | case3 done offset c cs hblank lexeme rest hread width ih =>
      obtain ⟨front, hfront, hoffset⟩ := ih
      refine ⟨lexeme.text ++ front, ?_, ?_⟩
      · rw [List.append_assoc, hfront, append_readLexeme hread]
      · rw [hoffset, byteWidth_append, Nat.add_assoc]
  | case4 done offset c cs hblank halt hread error =>
      refine ⟨halt.before ++ halt.text, append_halt hread, ?_⟩
      simp [error, Halt.error, Nat.add_assoc]

/-- An error is about a text of at least one byte, and there reading stops. -/
theorem stop_of_tokensFrom_eq_error {done : List Token} {offset : Nat} {cs : List Char}
    {e : SyntaxError} (h : (tokensFrom done offset cs).1 = .error e) :
    (tokensFrom done offset cs).2.offset = e.span.stop ∧ offset < e.span.stop := by
  obtain ⟨front, c, rest, halt, -, -, hread, rfl, hstop⟩ := exists_halt h
  have hpos := byteWidth_pos (stands_of_readLexeme hread).nonempty
  rw [hstop]
  refine ⟨rfl, ?_⟩
  simp only [Halt.error]
  omega

/-- Without an error nothing is left. -/
theorem rest_of_tokensFrom_eq_ok {done tokens : List Token} {offset : Nat} {cs : List Char}
    (h : (tokensFrom done offset cs).1 = .ok tokens) : (tokensFrom done offset cs).2.rest = [] := by
  fun_induction tokensFrom done offset cs with
  | case1 => rfl
  | case2 _ _ _ _ _ ih => exact ih h
  | case3 _ _ _ _ _ _ _ _ _ ih => exact ih h
  | case4 => contradiction

/-! ## Places in a source -/

/-- A cursor between two characters of a source. -/
def Within (cursor : Cursor) (source : String) : Prop :=
  ∃ before, source.toList = before ++ cursor.rest ∧ cursor.offset = byteWidth before

namespace Within

variable {cursor : Cursor} {source : String}

theorem ofSource (source : String) : (ofSource source).Within source :=
  ⟨[], rfl, rfl⟩

/-- A reading leaves the cursor inside the source: what is left is still the end of it, at the
offset that the cursor has. -/
theorem next (h : cursor.Within source) : cursor.tokens.2.Within source := by
  obtain ⟨before, hsource, hoffset⟩ := h
  obtain ⟨front, hfront, hnext⟩ := exists_front_of_tokensFrom [] cursor.offset cursor.rest
  refine ⟨before ++ front, ?_, ?_⟩
  · rw [hsource, List.append_assoc]
    exact congrArg (before ++ ·) hfront.symm
  · rw [byteWidth_append, ← hoffset]
    exact hnext

/-- The cursor never points behind the end of the source, since what is left of the source has no
negative size. -/
theorem offset_le (h : cursor.Within source) : cursor.offset ≤ source.utf8ByteSize := by
  obtain ⟨before, hsource, hoffset⟩ := h
  rw [← byteWidth_toList, hsource, byteWidth_append]
  omega

/-- Only the end of a source has nothing behind it. -/
theorem eq_end (h : cursor.Within source) (hrest : cursor.rest = []) :
    cursor = ⟨source.utf8ByteSize, []⟩ := by
  obtain ⟨before, hsource, hoffset⟩ := h
  rw [hrest, List.append_nil] at hsource
  rw [← byteWidth_toList, hsource, ← hoffset, ← hrest]

/-- At the end of the source nothing is left, because every character has at least one byte. -/
theorem rest_eq_nil (h : cursor.Within source) (hoffset : cursor.offset = source.utf8ByteSize) :
    cursor.rest = [] := by
  obtain ⟨before, hsource, hbefore⟩ := h
  rw [← byteWidth_toList, hsource, byteWidth_append] at hoffset
  cases hrest : cursor.rest with
  | nil => rfl
  | cons c rest =>
      have hpos := byteWidth_pos (List.cons_ne_nil c rest)
      rw [hrest] at hoffset
      omega

end Within

/-! ## Repeated readings -/

/-- The place where the last of `count` readings stops. -/
def after (cursor : Cursor) : Nat → Cursor
  | 0 => cursor
  | count + 1 => cursor.tokens.2.after count

theorem after_succ (cursor : Cursor) (count : Nat) :
    cursor.after (count + 1) = (cursor.after count).tokens.2 := by
  induction count generalizing cursor with
  | zero => rfl
  | succ count ih => exact ih cursor.tokens.2

/-- The result of each call is the one at the cursor that the calls in front of it have left
behind. -/
theorem readings_eq_map (cursor : Cursor) (count : Nat) :
    cursor.readings count = (List.range count).map fun calls => (cursor.after calls).tokens.1 := by
  induction count generalizing cursor with
  | zero => rfl
  | succ count ih =>
      have hfirst : cursor.readings (count + 1) =
          cursor.tokens.1 :: cursor.tokens.2.readings count := rfl
      rw [hfirst, ih, List.range_succ_eq_map, List.map_cons, List.map_map]
      rfl

/-- However often it is called, the tokenizer stays inside the source. This is the run lemma to the
step for one reading. -/
theorem Within.after {cursor : Cursor} {source : String} (h : cursor.Within source)
    (count : Nat) : (cursor.after count).Within source := by
  induction count with
  | zero => exact h
  | succ count ih =>
      rw [after_succ]
      exact ih.next

theorem after_end (size count : Nat) : (⟨size, []⟩ : Cursor).after count = ⟨size, []⟩ := by
  induction count with
  | zero => rfl
  | succ count ih => rw [after_succ, ih, tokens, tokensFrom]

/-- As long as there are errors, each reading takes a byte off the source at least. -/
theorem le_offset_after {source : String} {count : Nat}
    (h : ∀ calls < count, ∃ e, ((ofSource source).after calls).tokens.1 = .error e) :
    count ≤ ((ofSource source).after count).offset := by
  induction count with
  | zero => exact Nat.zero_le _
  | succ count ih =>
      obtain ⟨e, he⟩ := h count (Nat.lt_succ_self count)
      obtain ⟨hoffset, hlt⟩ := stop_of_tokensFrom_eq_error he
      have hle := ih fun calls hcalls => h calls (Nat.lt_succ_of_lt hcalls)
      rw [after_succ, tokens, hoffset]
      omega

/-- Calling again comes to an end: after at most as many calls as the source has bytes, one gives
the tokens that are left. -/
theorem exists_ok_of_readings (source : String) :
    ∃ calls ≤ source.utf8ByteSize, ∃ tokens,
      ((ofSource source).after calls).tokens.1 = .ok tokens := by
  refine Classical.byContradiction fun hnone => ?_
  have hall : ∀ calls ≤ source.utf8ByteSize,
      ∃ e, ((ofSource source).after calls).tokens.1 = .error e := by
    intro calls hcalls
    cases hread : ((ofSource source).after calls).tokens.1 with
    | error e => exact ⟨e, rfl⟩
    | ok tokens => exact absurd ⟨calls, hcalls, tokens, hread⟩ hnone
  have hwithin := (Within.ofSource source).after source.utf8ByteSize
  have hle := le_offset_after fun calls hcalls => hall calls (Nat.le_of_lt hcalls)
  have hrest := hwithin.rest_eq_nil (Nat.le_antisymm hwithin.offset_le hle)
  -- With nothing left there is no error any more.
  obtain ⟨e, he⟩ := hall source.utf8ByteSize (Nat.le_refl _)
  rw [hwithin.eq_end hrest, tokens, tokensFrom] at he
  contradiction

/-- A place where reading can go on. -/
structure Resumes (cursor : Cursor) (source : String) : Prop where
  within : cursor.Within source
  /-- Reading depends on what is left alone, but for the place of the spans. -/
  result : cursor.tokens.1 =
    mapSpans (·.shift cursor.offset) (tokenize (String.ofList cursor.rest))
  /-- After an error the cursor stands behind the offending text. -/
  onward : ∀ e, cursor.tokens.1 = .error e →
    cursor.tokens.2.offset = e.span.stop ∧ cursor.offset < cursor.tokens.2.offset ∧
      cursor.tokens.2.Within source
  /-- Otherwise it stands at the end, and there are no more tokens. -/
  finished : ∀ tokens, cursor.tokens.1 = .ok tokens →
    cursor.tokens.2 = ⟨source.utf8ByteSize, []⟩ ∧
      ∀ more, (cursor.after (more + 1)).tokens = (.ok [], ⟨source.utf8ByteSize, []⟩)

/-- A cursor inside a source has all that is said of resuming: what it reads next is the source from
there on, with spans moved. -/
theorem Within.resumes {cursor : Cursor} {source : String} (h : cursor.Within source) :
    cursor.Resumes source where
  within := h
  result := by
    have hshift := tokensFrom_shift cursor.offset [] 0 cursor.rest
    rw [Nat.zero_add] at hshift
    rw [tokenize, Cursor.ofSource, String.toList_ofList]
    exact congrArg Prod.fst hshift
  onward e he := by
    obtain ⟨hoffset, hlt⟩ := stop_of_tokensFrom_eq_error he
    exact ⟨hoffset, Nat.lt_of_lt_of_eq hlt hoffset.symm, h.next⟩
  finished tokens htokens := by
    have hend := h.next.eq_end (rest_of_tokensFrom_eq_ok htokens)
    refine ⟨hend, fun more => ?_⟩
    rw [Cursor.after, hend, after_end, Cursor.tokens, tokensFrom]
    rfl

/-- However often a source has been read from, whatever errors there were, reading goes on as if
what is left were a source of its own. There are no more errors than bytes. -/
theorem resumes_after (source : String) :
    (∀ calls, ((ofSource source).after calls).Resumes source) ∧
    (∀ count, (ofSource source).readings count =
      (List.range count).map fun calls => ((ofSource source).after calls).tokens.1) ∧
    ∃ tokens, .ok tokens ∈ (ofSource source).readings (source.utf8ByteSize + 1) := by
  refine ⟨fun calls => ((Within.ofSource source).after calls).resumes,
    fun count => readings_eq_map _ count, ?_⟩
  obtain ⟨calls, hcalls, tokens, htokens⟩ := exists_ok_of_readings source
  refine ⟨tokens, ?_⟩
  rw [readings_eq_map, List.mem_map]
  exact ⟨calls, List.mem_range.mpr (Nat.lt_succ_of_le hcalls), htokens⟩

end Cursor

end ReactiveTemplate
