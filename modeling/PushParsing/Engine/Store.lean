import PushParsing.Engine.Accumulator
import PushParsing.Grammar
import PushParsing.Memo.Table

/-!
# Stores

All contexts and accumulators of a grammar. A context is one document with the accumulators asked
for in it, found by parser and position. Contexts and accumulators are never removed; whether one is
still alive depends on what is held from outside.
-/
namespace PushParsing

/-- Limits and expectations under which a document is parsed. -/
structure Limits where
  /-- The largest size of a document in bytes; zero stands for no limit. -/
  maxInputSize : Nat := 104857600
  /-- The number of accumulators expected; zero if it is to be guessed. -/
  initialCapacity : Nat := 0
  deriving DecidableEq, Repr

structure Context where
  document : Document
  limits : Limits
  memo : Memo.Table AccumulatorId

variable {κ : Type}

structure Store (κ : Type) where
  /-- The context with number `n + 1` stands in place `n`. -/
  contexts : Array Context := #[]
  accumulators : Array (Accumulator κ) := #[]
  /-- How many listeners were made. -/
  listenerCount : Nat := 0
  /-- The contexts that are held from outside. -/
  heldContexts : List ContextNumber := []
  /-- The accumulators that are held from outside. -/
  heldAccumulators : List AccumulatorId := []

namespace Store

def context? (s : Store κ) : ContextNumber → Option Context
  | 0 => none
  | n + 1 => s.contexts[n]?

def accumulator? (s : Store κ) (a : AccumulatorId) : Option (Accumulator κ) :=
  s.accumulators[a]?

/-- A new context for a document, unless the document is too large. The number of parsers helps to
guess how many accumulators there will be. -/
def openContext (s : Store κ) (parsers : Nat) (d : Document) (limits : Limits) :
    Except Oversize (ContextNumber × Store κ) :=
  if 0 < limits.maxInputSize ∧ limits.maxInputSize < d.size then
    .error ⟨d.size, limits.maxInputSize⟩
  else
    let memo :=
      if 0 < limits.initialCapacity then .ofEstimate limits.initialCapacity
      else .forInput d.size parsers
    .ok (s.contexts.size + 1, { s with contexts := s.contexts.push ⟨d, limits, memo⟩ })

def modifyMemo (s : Store κ) (c : ContextNumber)
    (f : Memo.Table AccumulatorId → Memo.Table AccumulatorId) : Store κ :=
  match c with
  | 0 => s
  | n + 1 => { s with contexts := s.contexts.modify n fun x => { x with memo := f x.memo } }

def modifyAccumulator (s : Store κ) (a : AccumulatorId) (f : Accumulator κ → Accumulator κ) :
    Store κ :=
  { s with accumulators := s.accumulators.modify a f }

/-- The accumulator of a parser at a position, if it was asked for before. -/
def peek? (s : Store κ) (c : ContextNumber) (p : ParserId) (position : Nat) :
    Option AccumulatorId :=
  (s.context? c).bind fun x => x.memo.peek? position p

/-- The same, counted as a question to the context. -/
def lookup (s : Store κ) (c : ContextNumber) (p : ParserId) (position : Nat) :
    Option AccumulatorId × Store κ :=
  (s.peek? c p position, s.modifyMemo c fun t => (t.get? position p).2)

/-- The accumulator of a parser at a position, made now if it was not asked for before, and whether
it is new. In a context that does not exist nothing is made. -/
def request (s : Store κ) (c : ContextNumber) (p : ParserId) (position : Nat) :
    AccumulatorId × Bool × Store κ :=
  let fresh := s.accumulators.size
  match s.peek? c p position with
  | some a => (a, false, s.modifyMemo c fun t => (t.getOrInsert position p fresh).2.2)
  | none =>
    if (s.context? c).isSome then
      let s := s.modifyMemo c fun t => (t.getOrInsert position p fresh).2.2
      (fresh, true,
        { s with accumulators := s.accumulators.push { context := c, parser := p, position } })
    else (fresh, false, s)

def newListener (s : Store κ) (role : Role κ) : Listener κ × Store κ :=
  (⟨s.listenerCount, role⟩, { s with listenerCount := s.listenerCount + 1 })

/-- Whether a context is still alive. -/
def holds (s : Store κ) (c : ContextNumber) : Bool := s.heldContexts.contains c

/-- An accumulator lives as long as its context does or it is held itself. -/
def isLive (s : Store κ) (a : AccumulatorId) : Bool :=
  s.heldAccumulators.contains a ||
    match s.accumulator? a with
    | some x => s.holds x.context
    | none => false

/-- The accumulators of a context in the order in which they were asked for. -/
def accumulatorsOf (s : Store κ) (c : ContextNumber) : List (Accumulator κ) :=
  match s.context? c with
  | some x => x.memo.entries.toList.filterMap fun e => s.accumulator? e.value
  | none => []

/-- The furthest failure of a context; of several, that of the accumulator asked for first. -/
def furthest? (s : Store κ) (c : ContextNumber) : Option Failure :=
  ((s.accumulatorsOf c).filterMap (·.best)).foldl Failure.furthest none

/-- The match of a whole document among the trees of the root's accumulator, or else how far the
parse came: to the furthest failure of the context, unless the longest match reaches as far. -/
def verdict (s : Store κ) (c : ContextNumber) (root : ParserId) (id : AccumulatorId) :
    Except Failure Tree :=
  match s.context? c, s.accumulator? id with
  | some x, some a =>
    match a.complete? x.document.size with
    | some t => .ok t
    | none =>
      let fail (cause : Cause) (position : Nat) : Failure :=
        { position, message := cause.message, parser := root, context := c }
      match a.longest?, s.furthest? c with
      | some t, some f =>
        .error (if t.stop < f.position then f else fail .unexpectedInput t.stop)
      | some t, none => .error (fail .unexpectedInput t.stop)
      | none, some f => .error f
      | none, none => .error (fail .noMatches 0)
  | _, _ =>
    .error { position := 0, message := Cause.noMatches.message, parser := root, context := c }

end Store

end PushParsing
