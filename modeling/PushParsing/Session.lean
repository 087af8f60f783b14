import PushParsing.Engine.Report
import PushParsing.Script

/-!
# Sessions

Contexts, accumulators and listeners under names, over one grammar of scripts. A context lives while
a name stands for it; an accumulator lives as long as its context or while a name stands for it. To
give a name anew drops what it stood for.
-/
namespace PushParsing

open Script (Code World)

structure Session where
  engine : Engine Code World
  store : Store Code := {}
  world : World := {}
  contexts : List (String × ContextNumber) := []
  accumulators : List (String × AccumulatorId) := []

/-- What a context counted. -/
structure Statistics where
  pairs : Nat
  hits : Nat
  misses : Nat
  rate : Float

/-- The statistics of a memo table. -/
def Memo.Table.statistics {α : Type} (t : Memo.Table α) : Statistics :=
  ⟨t.size, t.hits, t.misses, t.rate⟩

/-- Give a name to something. -/
def assign {β : Type} (name : String) (value : β) (names : List (String × β)) :
    List (String × β) :=
  (name, value) :: names.filter (·.1 != name)

namespace Session

/-- A session over a grammar in which nothing has a name. -/
def ofGrammar (g : Grammar Code) : Session := { engine := Script.engine g }

/-- Let the store know what has a name. -/
def hold (s : Session) : Session :=
  { s with store := { s.store with
      heldContexts := s.contexts.map (·.2), heldAccumulators := s.accumulators.map (·.2) } }

def context? (s : Session) (name : String) : Option ContextNumber := s.contexts.lookup name

def accumulatorId? (s : Session) (name : String) : Option AccumulatorId :=
  s.accumulators.lookup name

def accumulator? (s : Session) (name : String) : Option (Accumulator Code) :=
  (s.accumulatorId? name).bind s.store.accumulator?

def document? (s : Session) (name : String) : Option Document :=
  ((s.context? name).bind s.store.context?).map (·.document)

/-- The log since it was last taken, and the session with an empty one. -/
def takeLog (s : Session) : List Script.Event × Session :=
  (s.world.log.reverse, { s with world := { s.world with log := [] } })

/-- Open a context under a name. A document that is too large changes nothing. -/
def openContext (s : Session) (name : String) (d : Document) (limits : Limits) :
    Except Oversize (ContextNumber × Session) :=
  (s.store.openContext s.engine.grammar.size d limits).map fun (c, store) =>
    (c, hold { s with store, contexts := assign name c s.contexts })

/-- Give a context a further name. -/
def cloneContext (s : Session) (new : String) (c : ContextNumber) : Session :=
  hold { s with contexts := assign new c s.contexts }

/-- Give up a context's name. Answers whether it was one. -/
def dropContext (s : Session) (name : String) : Bool × Session :=
  ((s.context? name).isSome, hold { s with contexts := s.contexts.filter (·.1 != name) })

/-- Give up an accumulator's name. Answers whether it was one. -/
def dropAccumulator (s : Session) (name : String) : Bool × Session :=
  ((s.accumulatorId? name).isSome,
    hold { s with accumulators := s.accumulators.filter (·.1 != name) })

def nameAccumulator (s : Session) (name : String) (id : AccumulatorId) : Session :=
  hold { s with accumulators := assign name id s.accumulators }

/-- The accumulator of a parser at a position, evaluated if it is new, under a name. -/
def request (s : Session) (name : String) (c : ContextNumber) (p : ParserId) (position : Nat) :
    AccumulatorId × Session :=
  let (id, store, world) := s.engine.request s.store s.world c p position
  (id, nameAccumulator { s with store, world } name id)

/-- The accumulator of a parser at a position under a name, if there is one. -/
def lookup (s : Session) (name : String) (c : ContextNumber) (p : ParserId) (position : Nat) :
    Option AccumulatorId × Session :=
  let (found, store) := s.store.lookup c p position
  let s := { s with store }
  match found with
  | some id => (some id, s.nameAccumulator name id)
  | none => (none, s)

def parse (s : Session) (c : ContextNumber) (root : ParserId) : Except Failure Tree × Session :=
  let (result, store, world) := s.engine.parse s.store s.world c root
  (result, { s with store, world })

/-- Do an operation and all it calls for. -/
def perform (s : Session) (o : Operation Code) : Session :=
  let (store, world) := s.engine.perform s.store s.world o
  { s with store, world }

def statistics? (s : Session) (c : ContextNumber) : Option Statistics :=
  (s.store.context? c).map (·.memo.statistics)

/-- The accumulators of a context for all parsers and positions. -/
def dump (s : Session) (c : ContextNumber) (last : Nat) :
    List (ParserId × Nat × Accumulator Code) × Session :=
  let (rows, store) := s.store.lookupAll c (allPairs s.engine.grammar.size last)
  (rows, { s with store })

/-- Make a listener and give it a name. -/
def makeListener (s : Session) (name : String) (role : Role Code) : Session :=
  let (l, store) := s.store.newListener role
  { s with store, world := { s.world with listeners := assign name l s.world.listeners } }

/-- Where a forwarding listener leads, while that is alive. -/
def destination? (s : Session) (name : String) : Option (Accumulator Code) :=
  match s.world.listener? name with
  | some ⟨_, .forward target⟩ =>
    if s.store.isLive target then s.store.accumulator? target else none
  | _ => none

end Session

end PushParsing
