import PushParsing.Hash
import PushParsing.Tree

/-!
# Memo tables

A memo table keeps one value for each pair of a position and a parser. The entries stand in the
order of their first insertion; an array of slots, searched from the hash of a pair onwards, leads
to them. Entries are never removed, so a search may end at the first vacant slot. The table counts
how many questions found an entry and how many did not.
-/
namespace PushParsing.Memo

structure Entry (α : Type) where
  position : Nat
  parser : ParserId
  value : α
  deriving Repr

structure Table (α : Type) where
  slots : Array (Option Nat)
  entries : Array (Entry α) := #[]
  hits : Nat := 0
  misses : Nat := 0
  deriving Repr

/-- Where the search for a pair ends. -/
inductive Probe where
  | present (index : Nat)
  | vacant (slot : Nat)
  deriving DecidableEq, Repr

/-- Search from a slot onwards, round the end of the array, for an entry that is wanted or a vacant
slot. Of the given number of slots at most all are visited. -/
def probe (slots : Array (Option Nat)) (wanted : Nat → Bool) : Nat → Nat → Probe
  | 0, slot => .vacant slot
  | n + 1, slot =>
    match slots[slot]? with
    | some (some index) =>
      if wanted index then .present index else probe slots wanted n ((slot + 1) % slots.size)
    | _ => .vacant slot

/-- The slot at which the search for a pair begins. -/
def home (slots : Array (Option Nat)) (position : Nat) (parser : ParserId) : Nat :=
  (hashOf [position, parser]).toNat % slots.size

/-- The largest number of entries for which room is made in advance. -/
def presizeLimit : Nat := 1048576

/-- The smallest power of two that is at least 16 and at least the given number. -/
def roundUp (n : Nat) : Nat :=
  if n ≤ 16 then 16 else Nat.pow 2 ((n - 1).log2 + 1)

namespace Table

variable {α : Type}

/-- An empty table with room for about as many entries as estimated. -/
def ofEstimate (estimate : Nat) : Table α :=
  { slots := Array.replicate (roundUp (min estimate presizeLimit)) none }

/-- An empty table for a document and a grammar of the given sizes: about one parser for every few
bytes, up to eight parsers deep. -/
def forInput (bytes parsers : Nat) : Table α :=
  ofEstimate (min (max (bytes / 4 * min (max parsers 1) 8) 64) presizeLimit)

instance : Inhabited (Table α) := ⟨ofEstimate 1024⟩

def capacity (t : Table α) : Nat := t.slots.size

def size (t : Table α) : Nat := t.entries.size

/-- Whether the entry at an index is that of a pair. -/
def isAt (t : Table α) (position : Nat) (parser : ParserId) (index : Nat) : Bool :=
  match t.entries[index]? with
  | some e => e.position == position && e.parser == parser
  | none => false

def find (t : Table α) (position : Nat) (parser : ParserId) : Probe :=
  probe t.slots (t.isAt position parser) t.slots.size (home t.slots position parser)

/-- The value of a pair, without counting the question. -/
def peek? (t : Table α) (position : Nat) (parser : ParserId) : Option α :=
  match t.find position parser with
  | .present index => t.entries[index]?.map (·.value)
  | .vacant _ => none

/-- The value of a pair. -/
def get? (t : Table α) (position : Nat) (parser : ParserId) : Option α × Table α :=
  match t.peek? position parser with
  | some value => (some value, { t with hits := t.hits + 1 })
  | none => (none, { t with misses := t.misses + 1 })

/-- Lead from the first vacant slot for a pair to an index. -/
def occupy (slots : Array (Option Nat)) (position : Nat) (parser : ParserId) (index : Nat) :
    Array (Option Nat) :=
  match probe slots (fun _ => false) slots.size (home slots position parser) with
  | .vacant slot => slots.setIfInBounds slot (some index)
  | .present _ => slots

/-- Slots of the given number that lead to the entries. -/
def index (entries : List (Entry α)) (capacity : Nat) : Array (Option Nat) :=
  entries.zipIdx.foldl (fun slots (e, i) => occupy slots e.position e.parser i)
    (Array.replicate capacity none)

/-- Whether one more entry would take more than three quarters of the slots. -/
def isFull (t : Table α) : Bool := 3 * t.capacity < 4 * (t.size + 1)

/-- The table with twice as many slots. -/
def grow (t : Table α) : Table α :=
  { t with slots := index t.entries.toList (2 * t.capacity) }

/-- A value for a pair that has none yet, in a slot that is free. -/
def append (t : Table α) (position : Nat) (parser : ParserId) (value : α) : Table α :=
  match t with
  | ⟨slots, entries, hits, misses⟩ =>
    { slots := occupy slots position parser entries.size
      entries := entries.push ⟨position, parser, value⟩
      hits, misses }

/-- A value for a pair that has none yet. A full table grows first. -/
def insert (t : Table α) (position : Nat) (parser : ParserId) (value : α) : Table α :=
  let t := { t with misses := t.misses + 1 }
  (if t.isFull then t.grow else t).append position parser value

/-- The value of a pair, which is the given one if it had none, and whether it had one. -/
def getOrInsert (t : Table α) (position : Nat) (parser : ParserId) (value : α) :
    α × Bool × Table α :=
  match t.peek? position parser with
  | some old => (old, true, { t with hits := t.hits + 1 })
  | none => (value, false, t.insert position parser value)

/-- The share of questions that found an entry, nothing if none was asked. -/
def rate (t : Table α) : Float :=
  if t.hits + t.misses = 0 then 0
  else Float.ofNat t.hits / Float.ofNat (t.hits + t.misses)

end Table

end PushParsing.Memo
