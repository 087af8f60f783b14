import PushParsing.Document

/-!
# Patterns

What a regular expression is and what it finds is up to a library, of which only the interface is known
here: it compiles texts, and what is compiled finds one match in a text or none. The text of a pattern
is set between `^(?:` and `)` and compiled as a whole. A pattern then matches what is found in the text
from an offset on. Only the end of what is found counts.
-/
namespace PushParsing

namespace Pattern

/-- A compiled regular expression: the byte offsets between which it finds its match in a text. -/
structure Expression where
  find? : List Char → Option (Nat × Nat)
  /-- A match ends between two characters of the text. -/
  ends : ∀ text span, find? text = some span → ∃ taken, taken <+: text ∧ span.2 = byteLength taken

/-- Why a text is not a regular expression. -/
structure Rejection where
  message : String
  deriving DecidableEq, Repr

/-- A library of regular expressions. -/
structure Library where
  /-- Compile a text as it stands. -/
  compile : List Char → Except Rejection Expression

/-- The text that is compiled for a pattern. -/
def anchored (source : List Char) : List Char :=
  "^(?:".toList ++ source ++ [')']

end Pattern

structure Pattern where
  source : String
  expression : Pattern.Expression

namespace Pattern

def ofString (lib : Library) (source : String) : Except Rejection Pattern :=
  (lib.compile (anchored source.toList)).map fun expression => { source, expression }

/-- Where the match that is found in a text ends, in bytes from the beginning of the text. -/
def find? (p : Pattern) (text : List Char) : Option Nat :=
  (p.expression.find? text).map (·.2)

end Pattern

end PushParsing
