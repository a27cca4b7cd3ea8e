/-!
# Positions in a text

Spans count bytes; a reader counts lines and characters. `Position.locate` turns a byte offset into
a line and a column, and `lines` gives the lines as they are shown.
-/

namespace ReactiveTemplate

/-- The number of bytes of a text in UTF-8. -/
def byteWidth (cs : List Char) : Nat :=
  cs.foldl (fun width c => width + c.utf8Size) 0

@[simp] theorem byteWidth_nil : byteWidth [] = 0 :=
  rfl

theorem foldl_utf8Size (width : Nat) (cs : List Char) :
    cs.foldl (fun width c => width + c.utf8Size) width = width + byteWidth cs := by
  induction cs generalizing width with
  | nil => rfl
  | cons c cs ih =>
      rw [byteWidth, List.foldl_cons, List.foldl_cons, ih, ih (0 + c.utf8Size)]
      omega

@[simp] theorem byteWidth_cons (c : Char) (cs : List Char) :
    byteWidth (c :: cs) = c.utf8Size + byteWidth cs := by
  rw [byteWidth, List.foldl_cons, foldl_utf8Size, Nat.zero_add]

/-- The number of bytes adds up over texts that are put together, as byte offsets into a source
do. -/
@[simp] theorem byteWidth_append (cs ds : List Char) :
    byteWidth (cs ++ ds) = byteWidth cs + byteWidth ds := by
  rw [byteWidth, List.foldl_append, foldl_utf8Size, foldl_utf8Size, Nat.zero_add]

/-- A place between two characters of a text. -/
structure Position where
  /-- The bytes before it. -/
  byte : Nat
  /-- The line feeds before it. -/
  line : Nat
  /-- The characters between it and the line feed before it. -/
  column : Nat
deriving DecidableEq, Inhabited

namespace Position

/-- The place right after the character `c`. -/
def advance (p : Position) (c : Char) : Position :=
  if c = '\n' then ⟨p.byte + c.utf8Size, p.line + 1, 0⟩
  else ⟨p.byte + c.utf8Size, p.line, p.column + 1⟩

/-- The last place at or before byte `offset`, in the text `cs` that follows `p`. -/
def locateFrom (p : Position) (offset : Nat) : List Char → Position
  | [] => p
  | c :: cs =>
      if p.byte + c.utf8Size ≤ offset then (p.advance c).locateFrom offset cs else p

/-- The last place at or before byte `offset` of `source`: an offset past the end stands for the
end, one inside a character for the start of that character. -/
def locate (source : String) (offset : Nat) : Position :=
  locateFrom ⟨0, 0, 0⟩ offset source.toList

end Position

/-- The lines of `rest`, after the finished lines `done` and the characters `current` of the line
at hand, both in reverse. -/
def linesFrom (done : List String) (current : List Char) : List Char → List String
  | [] =>
      match current with
      | [] => done.reverse
      | current => (String.ofList current.reverse :: done).reverse
  | '\n' :: rest =>
      match current with
      | '\r' :: current => linesFrom (String.ofList current.reverse :: done) [] rest
      | current => linesFrom (String.ofList current.reverse :: done) [] rest
  | c :: rest => linesFrom done (c :: current) rest

/-- The lines of a text. A line ends at a line feed, and a carriage return right before it belongs
to the ending; after a final line feed there is no further line. -/
def lines (text : String) : List String :=
  linesFrom [] [] text.toList

end ReactiveTemplate
