import PushParsing.Engine.Store

/-!
# Reports on contexts and accumulators

Texts for people: what an accumulator holds, told by the matched texts, and summaries on one line.
-/
namespace PushParsing

variable {κ : Type}

/-- A summary of a failure on one line. -/
def Failure.summary (f : Failure) : String :=
  "ParseError \x7b position: " ++ toString f.position ++ ", message: " ++ Text.quote f.message ++
    ", parser: ParserId(" ++ toString f.parser ++ "), context: ContextId(" ++
    toString f.context ++ ") \x7d"

/-- What an accumulator found. Without the document trees are told by their offsets. -/
def Accumulator.report (a : Accumulator κ) (d : Option Document) : String :=
  let text (t : Tree) : String :=
    match d with
    | some d => t.text d
    | none => "[" ++ toString t.start ++ ".." ++ toString t.stop ++ ")"
  match a.trees with
  | [] =>
    match a.best with
    | some f => "Failed at position " ++ toString f.position ++ ": " ++ f.message
    | none =>
      "Failed at position " ++ toString a.position ++ ": " ++ Cause.noMatches.message
  | t :: ts => "Success, matched " ++ text t ++ String.join (ts.map fun t => "\nand " ++ text t)

/-- A summary of an accumulator on one line. -/
def Accumulator.summary (a : Accumulator κ) : String :=
  let best := match a.best with
    | some f => "Some(" ++ f.summary ++ ")"
    | none => "None"
  "ParseResults \x7b matcher: ParserId(" ++ toString a.parser ++ "), position: " ++
    toString a.position ++ ", matches: " ++ toString a.trees.length ++ ", best_error: " ++ best ++
    ", listeners: " ++ toString a.listeners.length ++ " \x7d"

namespace Store

/-- A summary of a context on one line. -/
def summary? (s : Store κ) (c : ContextNumber) : Option String :=
  (s.context? c).map fun x =>
    "ParseContext \x7b id: ContextId(" ++ toString c ++ "), input_len: " ++
      toString x.document.size ++ ", cached: " ++ toString x.memo.size ++ " \x7d"

/-- The document of an accumulator, as long as its context is alive. -/
def documentOf? (s : Store κ) (a : Accumulator κ) : Option Document :=
  if s.holds a.context then (s.context? a.context).map (·.document) else none

/-- Ask a context for the accumulators of given pairs, without evaluating any. -/
def lookupAll (s : Store κ) (c : ContextNumber) (pairs : List (ParserId × Nat)) :
    List (ParserId × Nat × Accumulator κ) × Store κ :=
  let (rows, s) := pairs.foldl
    (fun (rows, s) (p, position) =>
      let (id, s) := s.lookup c p position
      match id.bind s.accumulator? with
      | some a => ((p, position, a) :: rows, s)
      | none => (rows, s))
    ([], s)
  (rows.reverse, s)

end Store

/-- All pairs of a parser below a number and a position up to a bound, by parser and position. -/
def allPairs (parsers last : Nat) : List (ParserId × Nat) :=
  (List.range parsers).flatMap fun p => (List.range (last + 1)).map fun i => (p, i)

end PushParsing
