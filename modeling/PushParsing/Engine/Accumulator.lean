import PushParsing.Failure

/-!
# Accumulators

An accumulator gathers what one parser finds at one offset: trees, at most one for each length, and
failures, of which the furthest is kept at hand. Listeners are told of everything recorded. The
operations here record only; telling the listeners is the engine's part.
-/
namespace PushParsing

/-- Accumulators are numbered from zero in the order in which they are made. -/
abbrev AccumulatorId := Nat

/-- A sequence that waits for one of its elements. -/
structure Sequel where
  /-- The accumulator of the whole sequence. -/
  target : AccumulatorId
  /-- Where the whole sequence starts. -/
  start : Nat
  /-- The matches of the elements before. -/
  taken : List Tree
  /-- The elements after. -/
  rest : List ParserId
  deriving DecidableEq, Repr

variable {κ : Type}

/-- What a listener does with what it is told. -/
inductive Role (κ : Type) where
  /-- Record it in another accumulator. -/
  | forward (target : AccumulatorId)
  /-- Go on with a sequence. -/
  | element (sequel : Sequel)
  | custom (code : κ)
  deriving Repr

/-- Listeners are told apart by number alone. -/
structure Listener (κ : Type) where
  id : Nat
  role : Role κ
  deriving Repr

structure Accumulator (κ : Type) where
  /-- The number of the context that it belongs to. -/
  context : ContextNumber
  parser : ParserId
  position : Nat
  /-- In the order in which they were recorded. -/
  trees : List Tree := []
  /-- The first of the furthest failures recorded. -/
  best : Option Failure := none
  /-- All failures recorded, latest first. -/
  failures : List Failure := []
  /-- In the order of registration. -/
  listeners : List (Listener κ) := []

namespace Accumulator

/-- A tree as this accumulator keeps it: under its own parser. -/
def adopt (a : Accumulator κ) (t : Tree) : Tree :=
  if t.parser = a.parser then t else .wrap a.parser t

/-- Whether a tree of the given length is stored. -/
def hasLength (a : Accumulator κ) (n : Nat) : Bool :=
  a.trees.any (·.length == n)

/-- Record a tree, unless one of its length is stored. -/
def addTree? (a : Accumulator κ) (t : Tree) : Option (Accumulator κ) :=
  if a.hasLength t.length then none else some { a with trees := a.trees ++ [t] }

/-- Record a failure, unless it was recorded before. -/
def addFailure? (a : Accumulator κ) (f : Failure) : Option (Accumulator κ) :=
  if f ∈ a.failures then none
  else some { a with best := Failure.furthest a.best f, failures := f :: a.failures }

/-- Register a listener, unless it is registered. -/
def addListener? (a : Accumulator κ) (l : Listener κ) : Option (Accumulator κ) :=
  if a.listeners.any (·.id == l.id) then none
  else some { a with listeners := a.listeners ++ [l] }

/-- A failure of this accumulator's parser. -/
def failure (a : Accumulator κ) (message : String) (position : Nat) : Failure :=
  { position, message, parser := a.parser, context := a.context }

def succeeded (a : Accumulator κ) : Bool := !a.trees.isEmpty

/-- The first of the longest trees. -/
def longest? (a : Accumulator κ) : Option Tree :=
  a.trees.foldl
    (fun best t =>
      match best with
      | none => some t
      | some b => if b.length < t.length then some t else some b)
    none

/-- The first tree that reaches the end of a document of the given size. -/
def complete? (a : Accumulator κ) (size : Nat) : Option Tree :=
  a.trees.find? (·.stop == size)

/-- The tree to show for a document of the given size: one that reaches its end, or else one of the
longest. -/
def preferred? (a : Accumulator κ) (size : Nat) : Option Tree :=
  (a.complete? size).or a.longest?

/-- The greatest length of a tree, zero if there is none. -/
def longestLength (a : Accumulator κ) : Nat :=
  a.trees.foldl (fun n t => max n t.length) 0

/-- The message of the best failure. Without one it tells that there is nothing, if there is
nothing. -/
def message (a : Accumulator κ) : String :=
  match a.best with
  | some f => f.message
  | none => if a.trees.isEmpty then Cause.noMatches.message else ""

/-- The position of the best failure in words. -/
def failurePosition (a : Accumulator κ) : String :=
  match a.best with
  | some f => toString f.position
  | none => "unknown"

end Accumulator

/-- The essence of an accumulator: the offsets of its trees, its best failure and the number of its
listeners. -/
structure Brief where
  trees : List (Nat × Nat)
  best : Option Failure
  listeners : Nat
  deriving DecidableEq, Repr

def Accumulator.brief (a : Accumulator κ) : Brief where
  trees := a.trees.map fun t => (t.start, t.stop)
  best := a.best
  listeners := a.listeners.length

end PushParsing
