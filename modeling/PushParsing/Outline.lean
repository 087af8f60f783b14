import PushParsing.Grammar

/-!
# Outlines of trees

A tree as people read it, with the parsers' descriptions and the matched text: printed with one line
for each node, or as a structure of the same shape.
-/
namespace PushParsing

variable {κ : Type}

/-- How a tree is printed. -/
structure Printer where
  /-- What is put before a line once for each level. -/
  indent : String := "  "
  /-- The greatest depth of a node that is printed. -/
  maxDepth : Option Nat := none
  /-- The greatest number of characters of a matched text that are printed. -/
  maxText : Nat := 40

namespace Printer

/-- The indentation of a line at some depth. -/
def margin (p : Printer) : Nat → String
  | 0 => ""
  | n + 1 => p.indent ++ p.margin n

/-- A text cut off if it is too long. -/
def clip (p : Printer) (text : String) : String :=
  let cs := text.toList
  if cs.length ≤ p.maxText then text else String.ofList (cs.take p.maxText) ++ "..."

/-- The line of a node without its indentation. -/
def entry (p : Printer) (g : Grammar κ) (d : Document) (t : Tree.Span) : String :=
  g.describe t.parser ++ " [" ++ toString t.start ++ ".." ++ toString t.stop ++ ") " ++
    Text.quote (p.clip (d.slice t.start t.stop))

mutual

/-- The lines of a tree whose root is at some depth. Below the greatest depth a node has an ellipsis
for its line, and the nodes under it have none. -/
def lines (p : Printer) (g : Grammar κ) (d : Document) (depth : Nat) : Tree → List String
  | .node parser start stop children =>
    if p.maxDepth.any (· < depth) then [p.margin depth ++ "..."]
    else
      (p.margin depth ++ p.entry g d ⟨parser, start, stop⟩) :: p.linesAll g d (depth + 1) children

def linesAll (p : Printer) (g : Grammar κ) (d : Document) (depth : Nat) : List Tree → List String
  | [] => []
  | t :: ts => p.lines g d depth t ++ p.linesAll g d depth ts

end

/-- The printed tree. Every line is ended by a line break. -/
def print (p : Printer) (g : Grammar κ) (d : Document) (t : Tree) : String :=
  String.join ((p.lines g d 0 t).map (· ++ "\n"))

end Printer

inductive Outline where
  | node (parser : String) (start stop : Nat) (text : String) (children : List Outline)

mutual

def Outline.ofTree (g : Grammar κ) (d : Document) : Tree → Outline
  | .node parser start stop children =>
    .node (g.describe parser) start stop (d.slice start stop) (Outline.ofTrees g d children)

def Outline.ofTrees (g : Grammar κ) (d : Document) : List Tree → List Outline
  | [] => []
  | t :: ts => Outline.ofTree g d t :: Outline.ofTrees g d ts

end

end PushParsing
