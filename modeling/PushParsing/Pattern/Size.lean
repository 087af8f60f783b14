import PushParsing.Hash
import PushParsing.Pattern.Regex
import PushParsing.Pattern.Utf8

/-!
# Sizes of expressions

An expression stands for an automaton that reads bytes, forwards or backwards. A state takes 32
bytes; the ways out of a fork and out of a branching state take more. Expressions whose automaton
takes more than 10 MiB in either direction are too large. Nothing of the automaton is kept here but
what its size depends on: the number of its states so far and the states met lately that others
like them can share. Laying out an automaton ends as soon as it has become too large.
-/
namespace PushParsing.Pattern

inductive Direction where
  | forwards | backwards
  deriving DecidableEq, Repr

/-- How large an automaton may be, in bytes. -/
def sizeLimit : Nat := 10485760

/-- An automaton while it is laid out. `shelf` keeps states for sharing, each with what it is made
of; a later one may take the place of an earlier one. -/
structure Layout where
  states : Nat := 0
  links : Nat := 0
  shelf : Array (List Nat × Nat)

/-- A step of laying out, which fails if the automaton becomes too large. -/
abbrev Laying (α : Type) := StateT Layout Option α

namespace Layout

def size (l : Layout) : Nat := 32 * l.states + l.links

def checked {α : Type} (a : α) (l : Layout) : Option (α × Layout) :=
  if l.size ≤ sizeLimit then some (a, l) else none

/-- A state whose ways out take the given number of bytes. Answers its number. -/
def add (links : Nat) : Laying Nat := fun l =>
  let n := l.states
  checked n { l with states := n + 1, links := l.links + links }

def addMany (n : Nat) : Laying Unit := fun l => checked () { l with states := l.states + n }

/-- More bytes for ways out of states that are there already. -/
def link (bytes : Nat) : Laying Unit := fun l => checked () { l with links := l.links + bytes }

/-- Go on behind a part of the automaton. If it ends in a fork, that gets one more way out. -/
def leave (isFork : Bool) : Laying Unit := link (if isFork then 4 else 0)

/-- The state that is made of the given numbers: one from the shelf or else a new one. -/
def share (key : List Nat) (make : Laying Nat) : Laying Nat := fun l =>
  let place := (hashOf key).toNat % l.shelf.size
  match l.shelf[place]? with
  | some (key', n) => if key' = key then some (n, l) else keep place l
  | none => keep place l
where
  keep (place : Nat) (l : Layout) : Option (Nat × Layout) :=
    match make l with
    | some (n, ⟨states, links, shelf⟩) =>
      some (n, ⟨states, links, shelf.setIfInBounds place (key, n)⟩)
    | none => none

/-- A state that is left alone, and no fork. -/
def point : Laying Bool := do
  let _ ← add 0
  return false

/-- A way out of a branching state: a range of bytes and where it leads. -/
structure Way where
  low : Nat
  high : Nat
  next : Nat

/-- A branching state that is not finished: its finished ways, and the range of the last one, which
leads on to the next unfinished state. -/
structure Pending where
  ways : List Way := []
  last : Option (Nat × Nat) := none

/-- The branching state with the given ways. -/
def branching (ways : List Way) : Laying Nat :=
  share (ways.flatMap fun w => [w.low, w.high, w.next]) (add (8 * ways.length))

/-- The ways of a state whose last range leads to the given state. -/
def Pending.finish (p : Pending) (next : Nat) : List Way :=
  match p.last with
  | some (low, high) => p.ways ++ [⟨low, high, next⟩]
  | none => p.ways

/-- Finish a chain of states, the last one first. Answers the first one. -/
def finishChain (target : Nat) : List Pending → Laying Nat
  | [] => pure target
  | p :: ps => do
    let next ← finishChain target ps
    branching (p.finish next)

/-- Add a block to a chain of states. The states that the block has in common with the one before
it stay unfinished. -/
def addBlock (target : Nat) : List Pending → List (Nat × Nat) → Laying (List Pending)
  | p :: ps, r :: rs =>
    if p.last = some r then do
      let ps ← addBlock target ps rs
      return p :: ps
    else do
      let next ← finishChain target ps
      return { ways := p.finish next, last := some r } :: rs.map ({ last := some · })
  | ps, _ => pure ps

/-- Add blocks, in order, to a chain of states. -/
def addBlocks (target : Nat) : List (List (Nat × Nat)) → List Pending → Laying (List Pending)
  | [], ps => pure ps
  | b :: bs, ps => do
    let ps ← addBlock target ps b
    addBlocks target bs ps

/-- The states of a block read from its last byte on, which lead to the given state. Answers the
one that reads the last byte. -/
def traceBlock : List (Nat × Nat) → Nat → Laying Nat
  | [], target => pure target
  | r :: rs, target => do
    let n ← share [target, r.1, r.2] (add 0)
    traceBlock rs n

/-- The blocks read backwards, as ways out of one fork. -/
def traceBlocks (target : Nat) : List (List (Nat × Nat)) → Laying Unit
  | [] => pure ()
  | b :: bs => do
    let _ ← traceBlock b target
    link 4
    traceBlocks target bs

/-- One character of a set. -/
def set (d : Direction) (s : CharSet) : Laying Bool := do
  if s.isAscii then
    let _ ← add 0
    let _ ← add (8 * s.ranges.length)
  else
    let blocks := s.ranges.flatMap byteBlocks
    match d with
    | .forwards =>
      let target ← add 0
      let ps ← addBlocks target blocks [{}]
      let _ ← finishChain target ps
    | .backwards =>
      let _ ← add 0
      let target ← add 0
      traceBlocks target blocks
  return false

/-- Part after part, `n` more times, behind one that ends in a fork or does not. -/
def again (part : Laying Bool) : Nat → Bool → Laying Bool
  | 0, isFork => pure isFork
  | n + 1, isFork => do
    leave isFork
    let isFork ← part
    again part n isFork

/-- A part `n` times in a row. -/
def times (part : Laying Bool) : Nat → Laying Bool
  | 0 => point
  | n + 1 => do
    let isFork ← part
    again part n isFork

/-- A part up to `n` times behind one that ends in a fork or does not, each time with a fork in
front. -/
def upTo (part : Laying Bool) : Nat → Bool → Laying Unit
  | 0, isFork => leave isFork
  | n + 1, isFork => do
    let _ ← add 8
    leave isFork
    let isFork ← part
    upTo part n isFork

/-- Rounds of a part. -/
def rounds (part : Laying Bool) (consumes : Bool) : Nat → Option Nat → Laying Bool
  | 0, some 1 => do
    let _ ← add 8
    leave (← part)
    point
  | 0, none =>
    if consumes then do
      let _ ← add 4
      leave (← part)
      return true
    else do
      leave (← part)
      let _ ← add 8
      let _ ← add 8
      point
  | n + 1, none => do
    leave (← times part (n + 1))
    let _ ← add 4
    return true
  | least, some most => do
    let isFork ← times part least
    if least = most then return isFork
    else
      let _ ← add 0
      upTo part (most - least) isFork
      return false

/-- The different first bytes of words, each with what follows it in words that begin with it. -/
def byFirstByte (words : List (List Nat)) : List (Nat × List (List Nat)) :=
  let firsts := (words.filterMap List.head?).eraseDups
  firsts.map fun b => (b, words.filterMap fun w => if w.head? = some b then some w.tail else none)

/-- Cut a list of words where one of them is empty. Answers the words before the first cut and
those behind each cut. -/
def cutAtEmpty : List (List Nat) → List (List Nat) × List (List (List Nat))
  | [] => ([], [])
  | w :: ws =>
    let (group, groups) := cutAtEmpty ws
    if w.isEmpty then ([], group :: groups) else (w :: group, groups)

/-- The tree of words that are alternatives, the earlier ones preferred. Words that stand between
the same shorter ones share their beginnings. The fuel is the length of the longest word. -/
def tree : Nat → List (List Nat) → Laying Unit
  | 0, _ => pure ()
  | fuel + 1, words => do
    let (group, groups) := cutAtEmpty words
    let ends := countEnds group.isEmpty groups
    let filled := (group :: groups).map byFirstByte |>.filter (!·.isEmpty)
    for branches in filled do
      let _ ← add (if branches.length = 1 then 0 else 8 * branches.length)
      for (_, rest) in branches do
        if rest.any (!·.isEmpty) then tree fuel rest
    let _ ← add (4 * (filled.length + ends))
where
  /-- The number of ends among the words. Before the first longer word one is as good as many. -/
  countEnds (untouched : Bool) : List (List (List Nat)) → Nat
    | [] => 0
    | [_] => 1
    | g :: gs =>
      if untouched && g.isEmpty then countEnds true gs else 1 + countEnds false gs

end Layout

namespace Regex

/-- The words, if all expressions are characters in a row. -/
def words? : List Regex → Option (List (List Char))
  | [] => some []
  | text cs :: rs => (words? rs).map (cs :: ·)
  | _ => none

def bytesOf (cs : List Char) : List Nat := cs.flatMap fun c => utf8Bytes c.toNat

open Layout in
mutual

/-- Lay out an expression. Answers whether it ends in a fork. -/
def lay (d : Direction) : Regex → Laying Bool
  | empty | anchor _ => point
  | text cs => do
    addMany (bytesOf cs).length
    return false
  | oneOf s => Layout.set d s
  | rounds body least most _ => Layout.rounds (body.lay d) body.consumes least most
  | group _ body =>
    match d with
    | .forwards => do
      let _ ← add 0
      leave (← body.lay d)
      point
    | .backwards => body.lay d
  | seq parts => layRow d parts
  | alt branches =>
    match words? branches with
    | some words => do
      let words := words.map fun cs =>
        match d with
        | .forwards => bytesOf cs
        | .backwards => (bytesOf cs).reverse
      let _ ← add 0
      tree ((words.map List.length).foldl max 0) words
      return false
    | none => do
      layBranches d 0 branches
      return false

/-- Lay out expressions one after another. -/
def layRow (d : Direction) : List Regex → Laying Bool
  | [] => point
  | [r] => r.lay d
  | r :: rs =>
    match d with
    | .forwards => do
      leave (← r.lay d)
      layRow d rs
    | .backwards => do
      leave (← layRow d rs)
      r.lay d

/-- Lay out alternatives behind `n` others. They stand between a fork and a common end, which are
added with the second one. -/
def layBranches (d : Direction) (n : Nat) : List Regex → Laying Unit
  | [] => pure ()
  | r :: rs => do
    leave (← r.lay d)
    if n = 1 then addMany 2
    link 4
    layBranches d (n + 1) rs

end

open Layout in
/-- Lay out the automaton of an expression. If matches need not begin where the automaton does, a
loop over all bytes stands in front. -/
def layAll (d : Direction) (r : Regex) : Laying Unit := do
  let isBound := match d with
    | .forwards => r.opensWith .textStart
    | .backwards => r.closesWith .textEnd
  if isBound then addMany 1
  else
    addMany 3
    link 16
  leave (← (match d with
    | .forwards => (group 0 r).lay d
    | .backwards => r.lay d))
  addMany 1

/-- Whether the expression is not too large. -/
def fits (r : Regex) : Bool :=
  (r.layAll .forwards { shelf := Array.replicate 10000 ([], 0) }).isSome &&
    (r.layAll .backwards { shelf := Array.replicate 1000 ([], 0) }).isSome

end Regex

end PushParsing.Pattern
