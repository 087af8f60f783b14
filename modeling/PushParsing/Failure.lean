import PushParsing.Place
import PushParsing.Tree

/-!
# Failures

What goes wrong, as data: a match attempt that failed at an offset, a document that is refused for
its size, and the two together for a whole document. Each cause has one wording.
-/
namespace PushParsing

/-- Why a match attempt failed. -/
inductive Cause where
  | expectedText (text : String)
  | expectedPattern (pattern : String)
  | noAlternatives
  | beyondEnd
  | unknownParser (parser : ParserId)
  | stopsBeforeStart (stop start : Nat)
  | unexpectedInput
  | noMatches
  deriving DecidableEq, Repr

def Cause.message : Cause → String
  | expectedText text => "Expected '" ++ text ++ "'"
  | expectedPattern pattern => "Expected " ++ pattern
  | noAlternatives => "No alternatives to match"
  | beyondEnd => "Position is beyond the end of the input"
  | unknownParser parser => "Unknown parser " ++ parser.text
  | stopsBeforeStart stop start =>
    "Match ends at " ++ toString stop ++ " before its start " ++ toString start
  | unexpectedInput => "Unexpected input"
  | noMatches => "No matches found"

/-- Contexts are numbered from one in the order in which they are made. -/
abbrev ContextNumber := Nat

/-- The way a context's number is written. -/
def ContextNumber.text (n : ContextNumber) : String := "ctx" ++ toString (show Nat from n)

/-- A match attempt that failed: where, why, which parser says so, and in which context. Failures
are compared by value. -/
structure Failure where
  position : Nat
  message : String
  parser : ParserId
  context : ContextNumber
  deriving DecidableEq, Repr

namespace Failure

def text (f : Failure) : String :=
  "\x7bparser:" ++ f.parser.text ++ ",position:" ++ toString f.position ++
    ",message:" ++ f.message ++ "\x7d"

def place (f : Failure) (d : Document) : Place := Place.ofOffset d f.position

/-- The failure as told to a person who has the document. -/
def report (f : Failure) (d : Document) : String :=
  let place := f.place d
  "Error at line " ++ toString place.line ++ ", column " ++ toString place.column ++ ": " ++
    f.message

/-- The failure that lies further on, the first of two at one position. -/
def furthest : Option Failure → Failure → Option Failure
  | none, f => some f
  | some best, f => if best.position < f.position then some f else some best

end Failure

/-- A document larger than its context admits. -/
structure Oversize where
  size : Nat
  limit : Nat
  deriving DecidableEq, Repr

def Oversize.message (e : Oversize) : String :=
  "Input too large: " ++ toString e.size ++ " bytes exceeds limit of " ++ toString e.limit ++
    " bytes"

/-- Why a whole document was not parsed. -/
inductive DocumentError where
  | refused (cause : Oversize)
  | failed (cause : Failure)
  deriving DecidableEq, Repr

namespace DocumentError

def message : DocumentError → String
  | refused e => e.message
  | failed f => "Parse failed at position " ++ toString f.position ++ ": " ++ f.message

/-- The wording of the cause alone. -/
def source : DocumentError → String
  | refused e => e.message
  | failed f => f.text

end DocumentError

end PushParsing
