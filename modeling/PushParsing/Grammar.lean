import PushParsing.Failure
import PushParsing.Pattern
import PushParsing.Text.Quoted

/-!
# Grammars

A grammar is an array of parsers which refer to each other by their places in it, so rules may be
recursive in any way. Besides the five standard kinds there are custom parsers; what those do is
told by a code of type `κ`, which whoever runs the grammar can read.
-/
namespace PushParsing

/-- Why a grammar could not be put together. -/
inductive GrammarError where
  | undefinedRule (name : String)
  | alreadyDefined (id : ParserId)
  | unknownParser (id referencedBy : ParserId)
  | invalidPattern (pattern reason : String)
  deriving DecidableEq, Repr

def GrammarError.message : GrammarError → String
  | undefinedRule name => "Rule '" ++ name ++ "' was declared but never defined"
  | alreadyDefined id => "Parser " ++ id.text ++ " is already defined"
  | unknownParser id referencedBy =>
    "Parser " ++ referencedBy.text ++ " refers to unknown parser " ++ id.text
  | invalidPattern pattern reason => "Invalid pattern '" ++ pattern ++ "': " ++ reason

variable {κ : Type}

inductive Parser (κ : Type) where
  /-- Matches exactly its text. -/
  | literal (text : String)
  /-- Matches what a regular expression finds. -/
  | pattern (p : Pattern)
  /-- Matches its elements one after another. -/
  | sequence (elements : List ParserId)
  /-- Matches what any of its alternatives matches. -/
  | choice (alternatives : List ParserId)
  /-- Matches what its inner parser matches, or nothing. -/
  | optional (inner : ParserId)
  | custom (label : String) (references : List ParserId) (code : κ)

namespace Parser

/-- A parser for a regular expression, as a library compiles it. -/
def compiled (lib : Pattern.Library) (source : String) : Except GrammarError (Parser κ) :=
  match Pattern.ofString lib source with
  | .ok p => .ok (pattern p)
  | .error e => .error (.invalidPattern source e.message)

/-- What a parser is called if it has no name. -/
def label : Parser κ → String
  | literal text => "'" ++ text ++ "'"
  | pattern p => "regex('" ++ p.source ++ "')"
  | sequence _ => "sequence"
  | choice _ => "choice"
  | optional _ => "optional"
  | custom label _ _ => label

/-- The parsers that a parser says it makes use of. -/
def references : Parser κ → List ParserId
  | literal _ | pattern _ => []
  | sequence ids | choice ids => ids
  | optional id => [id]
  | custom _ ids _ => ids

end Parser

structure Rule (κ : Type) where
  name : Option String
  parser : Parser κ

structure Grammar (κ : Type) where
  rules : Array (Rule κ)

namespace Grammar

def size (g : Grammar κ) : Nat := g.rules.size

def parser? (g : Grammar κ) (id : ParserId) : Option (Parser κ) :=
  g.rules[id]?.map (·.parser)

def name? (g : Grammar κ) (id : ParserId) : Option String :=
  g.rules[id]?.bind (·.name)

/-- The first parser with a name. -/
def find? (g : Grammar κ) (name : String) : Option ParserId :=
  g.rules.findIdx? (·.name == some name)

/-- The name of a parser, or else its label, or else its number. -/
def describe (g : Grammar κ) (id : ParserId) : String :=
  match g.rules[id]? with
  | some rule => rule.name.getD rule.parser.label
  | none => id.text

/-- Numbers and descriptions of all parsers, quoted, in brackets. -/
def text (g : Grammar κ) : String :=
  let row (id : ParserId) : String := Text.quote (id.text ++ " " ++ g.describe id)
  "[" ++ ", ".intercalate ((List.range g.size).map row) ++ "]"

end Grammar

end PushParsing
