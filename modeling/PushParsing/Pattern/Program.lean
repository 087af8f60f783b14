import PushParsing.Pattern.Regex

/-!
# Programs for regular expressions

A program is a graph of instructions. A fork names the preferred branch first, so the paths through
a program are ordered. Code is laid out from the end backwards: each part is handed the place where
the match goes on and answers the place where it begins.
-/
namespace PushParsing.Pattern

inductive Instr where
  | consume (set : CharSet) (next : Nat)
  | check (anchor : Anchor) (next : Nat)
  | fork (preferred other : Nat)
  | accept
  deriving Repr

abbrev Code := Array Instr

namespace Code

/-- Put an instruction behind the others. Answers its place. -/
def add (code : Code) (i : Instr) : Code × Nat :=
  let place := code.size
  (code.push i, place)

/-- A fork between going round and leaving. -/
def branch (greedy : Bool) (inner outer : Nat) : Instr :=
  if greedy then .fork inner outer else .fork outer inner

/-- A part of code: given the place after it, the code with the part and the place where it starts.
-/
abbrev Part := Code → Nat → Code × Nat

/-- The part `n` times in a row. -/
def times (part : Part) : Nat → Part
  | 0, code, next => (code, next)
  | n + 1, code, next =>
    let (code, next) := part code next
    times part n code next

/-- Up to `n` rounds, each of which may be left out together with all after it. -/
def upTo (part : Part) (greedy : Bool) (exit : Nat) : Nat → Part
  | 0, code, next => (code, next)
  | n + 1, code, next =>
    let (code, start) := part code next
    let (code, next) := code.add (branch greedy start exit)
    upTo part greedy exit n code next

/-- One round, and then round after round. Answers the start of the body and the fork behind it. -/
def loop (part : Part) (greedy : Bool) (code : Code) (next : Nat) : Code × Nat × Nat :=
  let (code, fork) := code.add (.fork next next)
  let (code, start) := part code fork
  (code.setIfInBounds fork (branch greedy start next), start, fork)

/-- Any number of rounds from `least` on. A body that may match nothing gets a fork of its own in
front, so that leaving at once and going round without progress are told apart. -/
def atLeast (part : Part) (consumes greedy : Bool) (code : Code) (next : Nat) :
    Nat → Code × Nat
  | 0 =>
    let (code, start, fork) := loop part greedy code next
    if consumes then (code, fork) else code.add (branch greedy start next)
  | n + 1 =>
    let (code, start, _) := loop part greedy code next
    times part n code start

/-- Characters in a row. -/
def text : List Char → Part
  | [], code, next => (code, next)
  | c :: cs, code, next =>
    let (code, next) := text cs code next
    code.add (.consume (.char c) next)

end Code

namespace Regex

mutual

/-- The code of an expression. -/
def code : Regex → Code.Part
  | empty, code, next => (code, next)
  | text cs, code, next => Code.text cs code next
  | oneOf set, code, next => code.add (.consume set next)
  | anchor a, code, next => code.add (.check a next)
  | rounds body least none greedy, code, next =>
    Code.atLeast body.code body.consumes greedy code next least
  | rounds body least (some most) greedy, code, next =>
    let (code, next) := Code.upTo body.code greedy next (most - least) code next
    Code.times body.code least code next
  | group _ body, code, next => body.code code next
  | seq parts, code, next => rowCode parts code next
  | alt branches, code, next => choiceCode branches code next

/-- The code of expressions one after another. -/
def rowCode : List Regex → Code.Part
  | [], code, next => (code, next)
  | r :: rs, code, next =>
    let (code, next) := rowCode rs code next
    r.code code next

/-- The code of expressions as alternatives. -/
def choiceCode : List Regex → Code.Part
  | [], code, next => code.add (.consume .none next)
  | [r], code, next => r.code code next
  | r :: rs, code, next =>
    let (code, other) := choiceCode rs code next
    let (code, preferred) := r.code code next
    code.add (.fork preferred other)

end

end Regex

structure Program where
  code : Code
  start : Nat
  /-- Whether every path begins with a check for the beginning of the text. -/
  anchored : Bool
  deriving Repr

/-- The program that accepts where the expression's match ends. -/
def Regex.program (r : Regex) : Program :=
  let (code, start) := r.code #[.accept] 0
  { code, start, anchored := r.opensWith .textStart }

end PushParsing.Pattern
