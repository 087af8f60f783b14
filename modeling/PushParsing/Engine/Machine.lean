import PushParsing.Engine.Store

/-!
# The engine

Evaluation is a machine whose state is a store and a list of jobs. Each step takes the first job;
what that job calls for is put in front of the others, so a delivery is followed to its last
consequence before the next one is made. A parser that is asked for again while it is at work
answers with the accumulator it has so far, and whoever asked is told of the rest as it is found.
-/
namespace PushParsing

/-- What can be asked of an engine from outside and by custom parsers and listeners. A code says
what to do with the answer. -/
inductive Operation (κ : Type) where
  /-- The accumulator of a parser at a position, evaluated if it is new. -/
  | request (context : ContextNumber) (parser : ParserId) (position : Nat) (next : κ)
  /-- The accumulator of a parser at a position, if there is one. -/
  | lookup (context : ContextNumber) (parser : ParserId) (position : Nat) (next : κ)
  | addTree (target : AccumulatorId) (tree : Tree)
  /-- A match without parts, from the accumulator's position on. -/
  | addStop (target : AccumulatorId) (stop : Nat)
  | addFailure (target : AccumulatorId) (failure : Failure)
  | failAt (target : AccumulatorId) (message : String) (position : Nat)
  /-- Register a listener and tell it of the trees stored so far. -/
  | listen (source : AccumulatorId) (listener : Listener κ)
  /-- The same with a listener made for the purpose. -/
  | watch (source : AccumulatorId) (role : Role κ)
  /-- Record whatever is recorded in one accumulator in another one too. -/
  | forward (source target : AccumulatorId)
  /-- Go on with a code. -/
  | resume (next : κ)

/-- What a custom code is faced with. -/
inductive Occasion where
  /-- Its parser is to match into an accumulator. -/
  | started (target : AccumulatorId)
  /-- A tree was recorded. -/
  | found (source : AccumulatorId) (tree : Tree)
  /-- A failure was recorded. -/
  | failed (source : AccumulatorId) (failure : Failure)
  /-- The accumulator that was asked for. -/
  | reached (target : Option AccumulatorId)
  | resumed

/-- A grammar and the way in which its custom codes act, on a state `σ` of their own. -/
structure Engine (κ σ : Type) where
  grammar : Grammar κ
  react : κ → Occasion → Store κ → σ → σ × List (Operation κ)
  /-- The number of steps after which a run is given up. -/
  limit : Nat := 4611686018427387904

/-- The engine of a grammar without custom parsers. -/
def Engine.standard (g : Grammar Empty) : Engine Empty Unit where
  grammar := g
  react code _ _ _ := nomatch code

/-- What is done with an accumulator that was asked for. -/
inductive Next (κ : Type) where
  | forwardTo (target : AccumulatorId)
  | await (sequel : Sequel)
  | custom (code : κ)

/-- Something recorded in an accumulator. -/
inductive News where
  | found (tree : Tree)
  | failed (failure : Failure)
  deriving DecidableEq, Repr

/-- One thing the machine has to do. -/
inductive Job (κ : Type) where
  | operate (o : Operation κ)
  /-- Ask for the accumulator of a parser at a position. -/
  | ask (context : ContextNumber) (parser : ParserId) (position : Nat) (next : Next κ)
  /-- Let the parser of a new accumulator match. -/
  | start (target : AccumulatorId)
  | proceed (next : Next κ) (target : AccumulatorId)
  | tell (listener : Listener κ) (source : AccumulatorId) (news : News)
  /-- Record the best failure of one accumulator in another one. -/
  | carry (source target : AccumulatorId)

variable {κ σ : Type}

/-- The jobs of a parser that begins to match into an accumulator of its own. Custom parsers are
left to their code. -/
def Parser.begin (d : Document) (id : AccumulatorId) (a : Accumulator κ) :
    Parser κ → List (Job κ)
  | .literal text =>
    if (d.rest? a.position).any (text.toList.isPrefixOf ·) then
      [.operate (.addStop id (a.position + byteLength text.toList))]
    else [.operate (.failAt id (Cause.expectedText text).message a.position)]
  | .pattern p =>
    match (d.rest? a.position).bind p.find? with
    | some stop => [.operate (.addStop id (a.position + stop))]
    | none => [.operate (.failAt id (Cause.expectedPattern p.source).message a.position)]
  | .sequence [] => [.operate (.addTree id (.nothing a.parser a.position))]
  | .sequence (element :: rest) =>
    [.ask a.context element a.position (.await ⟨id, a.position, [], rest⟩)]
  | .choice [] => [.operate (.failAt id Cause.noAlternatives.message a.position)]
  | .choice alternatives =>
    alternatives.map fun p => .ask a.context p a.position (.forwardTo id)
  | .optional inner =>
    [.operate (.addStop id a.position), .ask a.context inner a.position (.forwardTo id)]
  | .custom _ _ _ => []

/-- The jobs of a sequence that is told of a match of the element it waits for. -/
def Sequel.continue (q : Sequel) (s : Store κ) (t : Tree) : List (Job κ) :=
  match s.accumulator? q.target with
  | none => []
  | some a =>
    let taken := q.taken ++ [t]
    match q.rest with
    | [] => [.operate (.addTree q.target (.join a.parser q.start taken))]
    | element :: rest =>
      if s.holds a.context then
        [.ask a.context element t.stop (.await { q with taken, rest })]
      else []

/-- Let a custom code act. -/
def Engine.act (e : Engine κ σ) (code : κ) (o : Occasion) (s : Store κ) (w : σ) :
    Store κ × σ × List (Job κ) :=
  let (w, operations) := e.react code o s w
  (s, w, operations.map .operate)

/-- The jobs of telling all listeners of an accumulator. -/
def Accumulator.broadcast (a : Accumulator κ) (id : AccumulatorId) (news : News) : List (Job κ) :=
  a.listeners.map fun l => .tell l id news

/-- Start an operation. What it leads to is left as jobs. -/
def Operation.perform (e : Engine κ σ) (s : Store κ) (w : σ) :
    Operation κ → Store κ × σ × List (Job κ)
  | request c p position next => (s, w, [.ask c p position (.custom next)])
  | lookup c p position next =>
    let (found, s) := s.lookup c p position
    e.act next (.reached found) s w
  | addTree target t =>
    match s.accumulator? target with
    | none => (s, w, [])
    | some a =>
      let t := a.adopt t
      match a.addTree? t with
      | none => (s, w, [])
      | some a' => (s.modifyAccumulator target fun _ => a', w, a.broadcast target (.found t))
  | addStop target stop =>
    match s.accumulator? target with
    | none => (s, w, [])
    | some a =>
      if stop < a.position then
        (s, w, [.operate
          (.failAt target (Cause.stopsBeforeStart stop a.position).message a.position)])
      else (s, w, [.operate (.addTree target (.leaf a.parser a.position stop))])
  | addFailure target f =>
    match s.accumulator? target with
    | none => (s, w, [])
    | some a =>
      match a.addFailure? f with
      | none => (s, w, [])
      | some a' => (s.modifyAccumulator target fun _ => a', w, a.broadcast target (.failed f))
  | failAt target message position =>
    match s.accumulator? target with
    | none => (s, w, [])
    | some a => (s, w, [.operate (.addFailure target (a.failure message position))])
  | listen source l =>
    match s.accumulator? source with
    | none => (s, w, [])
    | some a =>
      match a.addListener? l with
      | none => (s, w, [])
      | some a' =>
        (s.modifyAccumulator source fun _ => a', w, a.trees.map fun t => .tell l source (.found t))
  | watch source role =>
    let (l, s) := s.newListener role
    (s, w, [.operate (.listen source l)])
  | forward source target =>
    (s, w, [.operate (.watch source (.forward target)), .carry source target])
  | resume next => e.act next .resumed s w

/-- Do one job. Answers the jobs that it calls for. -/
def Job.perform (e : Engine κ σ) (s : Store κ) (w : σ) :
    Job κ → Store κ × σ × List (Job κ)
  | operate o => o.perform e s w
  | ask c p position next =>
    let (id, isNew, s) := s.request c p position
    (s, w, if isNew then [.start id, .proceed next id] else [.proceed next id])
  | start id =>
    match s.accumulator? id with
    | none => (s, w, [])
    | some a =>
      match s.context? a.context with
      | none => (s, w, [])
      | some x =>
        if x.document.size < a.position then
          (s, w, [.operate (.failAt id Cause.beyondEnd.message a.position)])
        else
          match e.grammar.parser? a.parser with
          | none =>
            (s, w, [.operate (.failAt id (Cause.unknownParser a.parser).message a.position)])
          | some (.custom _ _ code) => e.act code (.started id) s w
          | some p => (s, w, p.begin x.document id a)
  | proceed (.forwardTo target) id => (s, w, [.operate (.forward id target)])
  | proceed (.await q) id =>
    (s, w, [.operate (.watch id (.element q)), .carry id q.target])
  | proceed (.custom code) id => e.act code (.reached (some id)) s w
  | tell ⟨_, .forward target⟩ _ news =>
    if s.isLive target then
      match news with
      | .found t => (s, w, [.operate (.addTree target t)])
      | .failed f => (s, w, [.operate (.addFailure target f)])
    else (s, w, [])
  | tell ⟨_, .element q⟩ _ news =>
    if s.isLive q.target then
      match news with
      | .found t => (s, w, q.continue s t)
      | .failed f => (s, w, [.operate (.addFailure q.target f)])
    else (s, w, [])
  | tell ⟨_, .custom code⟩ source news =>
    match news with
    | .found t => e.act code (.found source t) s w
    | .failed f => e.act code (.failed source f) s w
  | carry source target =>
    match (s.accumulator? source).bind (·.best) with
    | some f => (s, w, [.operate (.addFailure target f)])
    | none => (s, w, [])

/-- A store, the state of the custom codes, and what is left to do, first things first. -/
structure Machine (κ σ : Type) where
  store : Store κ
  world : σ
  agenda : List (Job κ)

namespace Machine

/-- Do the first job; what it calls for comes before the rest. -/
def step (e : Engine κ σ) : Machine κ σ → Machine κ σ
  | ⟨s, w, []⟩ => ⟨s, w, []⟩
  | ⟨s, w, t :: ts⟩ =>
    let (s, w, first) := t.perform e s w
    ⟨s, w, first ++ ts⟩

/-- At most `n` steps, fewer if nothing is left to do. -/
def run (e : Engine κ σ) : Nat → Machine κ σ → Machine κ σ
  | 0, m => m
  | n + 1, m =>
    match m.agenda with
    | [] => m
    | _ :: _ => run e n (m.step e)

@[simp] theorem run_zero (e : Engine κ σ) (m : Machine κ σ) : run e 0 m = m := rfl

@[simp] theorem step_idle (e : Engine κ σ) (s : Store κ) (w : σ) :
    step e ⟨s, w, []⟩ = ⟨s, w, []⟩ := rfl

/-- Stopping early does not change what a run leads to. -/
theorem run_succ (e : Engine κ σ) (n : Nat) (m : Machine κ σ) :
    run e (n + 1) m = run e n (m.step e) := by
  obtain ⟨s, w, ts⟩ := m
  cases ts with
  | nil => cases n <;> rfl
  | cons t ts => rfl

theorem run_add (e : Engine κ σ) (m n : Nat) (x : Machine κ σ) :
    run e (m + n) x = run e n (run e m x) := by
  induction m generalizing x with
  | zero => simp
  | succ m ih => rw [Nat.succ_add, run_succ, run_succ, ih]

theorem run_idle (e : Engine κ σ) (n : Nat) (s : Store κ) (w : σ) :
    run e n ⟨s, w, []⟩ = ⟨s, w, []⟩ := by
  cases n <;> rfl

/-- Once nothing is left to do, further steps change nothing. -/
theorem run_of_idle {e : Engine κ σ} {n k : Nat} {x : Machine κ σ} (h : (run e n x).agenda = [])
    (hk : n ≤ k) : run e k x = run e n x := by
  obtain ⟨j, rfl⟩ := Nat.exists_eq_add_of_le hk
  rw [run_add]
  generalize run e n x = y at *
  obtain ⟨s, w, ts⟩ := y
  subst h
  exact run_idle e j s w

end Machine

namespace Engine

/-- Do jobs and all they call for. -/
def settle (e : Engine κ σ) (s : Store κ) (w : σ) (jobs : List (Job κ)) : Store κ × σ :=
  let m := Machine.run e e.limit ⟨s, w, jobs⟩
  (m.store, m.world)

/-- The accumulator of a parser at a position, evaluated if it is new. -/
def request (e : Engine κ σ) (s : Store κ) (w : σ) (c : ContextNumber) (p : ParserId)
    (position : Nat) : AccumulatorId × Store κ × σ :=
  let (id, isNew, s) := s.request c p position
  if isNew then (id, e.settle s w [.start id]) else (id, s, w)

/-- Do an operation and all it calls for. -/
def perform (e : Engine κ σ) (s : Store κ) (w : σ) (o : Operation κ) : Store κ × σ :=
  e.settle s w [.operate o]

/-- Match the whole document of a context against a root. -/
def parse (e : Engine κ σ) (s : Store κ) (w : σ) (c : ContextNumber) (root : ParserId) :
    Except Failure Tree × Store κ × σ :=
  let (id, s, w) := e.request s w c root 0
  (s.verdict c root id, s, w)

/-- Open a context for a document, held from outside. -/
def openContext (e : Engine κ σ) (s : Store κ) (d : Document) (limits : Limits) :
    Except Oversize (ContextNumber × Store κ) :=
  (s.openContext e.grammar.size d limits).map fun (c, s) =>
    (c, { s with heldContexts := c :: s.heldContexts })

/-- Match a whole document against a root in a context of its own. -/
def parseDocument (e : Engine κ σ) (s : Store κ) (w : σ) (root : ParserId) (d : Document) :
    Except DocumentError Tree × Store κ × σ :=
  match e.openContext s d {} with
  | .error cause => (.error (.refused cause), s, w)
  | .ok (c, s) =>
    let (result, s, w) := e.parse s w c root
    (result.mapError .failed, s, w)

/-- Match documents against a root one after another, each in a context of its own. -/
def parseBatch (e : Engine κ σ) (s : Store κ) (w : σ) (root : ParserId) :
    List Document → List (Except DocumentError Tree) × Store κ × σ
  | [] => ([], s, w)
  | d :: ds =>
    let (result, s, w) := e.parseDocument s w root d
    let (results, s, w) := e.parseBatch s w root ds
    (result :: results, s, w)

end Engine

end PushParsing
