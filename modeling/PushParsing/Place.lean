import PushParsing.Document

/-!
# Places

A byte offset as a person finds it in an editor: line and column, both counted from one, columns in
characters. Offsets beyond the end stand for the end.
-/
namespace PushParsing

structure Place where
  offset : Nat := 0
  line : Nat := 1
  column : Nat := 1
  deriving DecidableEq, Repr, Inhabited

namespace Place

/-- Line and column after the characters that begin within the next `n` bytes. -/
def advance : List Char → Nat → Nat × Nat → Nat × Nat
  | [], _, place => place
  | _ :: _, 0, place => place
  | c :: cs, n + 1, (line, column) =>
    advance cs (n + 1 - c.utf8Size) (if c = '\n' then (line + 1, 1) else (line, column + 1))

/-- The place of an offset in a document. -/
def ofOffset (d : Document) (offset : Nat) : Place :=
  let offset := min offset d.size
  let (line, column) := advance d.chars offset (1, 1)
  { offset, line, column }

def text (p : Place) : String :=
  "line " ++ toString p.line ++ ", column " ++ toString p.column

end Place

/-- The stretch between two places. -/
structure Region where
  start : Place
  stop : Place
  deriving DecidableEq, Repr

namespace Region

def ofOffsets (d : Document) (start stop : Nat) : Region :=
  ⟨Place.ofOffset d start, Place.ofOffset d stop⟩

/-- Bytes between the places, none if they are in the wrong order. -/
def length (r : Region) : Nat := r.stop.offset - r.start.offset

def isEmpty (r : Region) : Bool := r.start.offset == r.stop.offset

/-- The line is named once if the region stays on it. -/
def text (r : Region) : String :=
  let start := toString r.start.line ++ ":" ++ toString r.start.column
  if r.start.line = r.stop.line then start ++ "-" ++ toString r.stop.column
  else start ++ "-" ++ toString r.stop.line ++ ":" ++ toString r.stop.column

end Region

/-- The line around the `n`-th byte of a text, given the reversed part of the line before it. An
offset inside a character counts as the start of that character. -/
def lineAround (before : List Char) : List Char → Nat → List Char
  | cs, 0 => before.reverse ++ cs.takeWhile (· ≠ '\n')
  | [], _ + 1 => before.reverse
  | c :: cs, n + 1 =>
    if c.utf8Size ≤ n + 1 then
      lineAround (if c = '\n' then [] else c :: before) cs (n + 1 - c.utf8Size)
    else before.reverse ++ (c :: cs).takeWhile (· ≠ '\n')

namespace Document

/-- The line that holds an offset, without its line break. -/
def lineAt (d : Document) (offset : Nat) : String :=
  String.ofList (lineAround [] d.chars offset)

end Document

end PushParsing
