import PushParsing.Engine.Machine

/-!
# Scripted parsers and recorders

Custom parsers and listeners whose behaviour is data: a parser does a list of actions when it is
started, a recorder notes what it is told and then does a list of reactions. Everything noted goes
to a log.
-/
namespace PushParsing.Script

/-- Positions stay within 64 bits. -/
def clamp (n : Int) : Nat := min n.toNat 18446744073709551615

/-- What a scripted parser can do. Shifts are relative to where the parser starts. -/
inductive Action where
  /-- A match up to a position. -/
  | stopAt (stop : Nat)
  | stopAfter (shift : Int)
  | tree (tree : Tree)
  | fail (message : String) (shift : Int)
  /-- Forward what another parser finds. -/
  | forward (parser : ParserId) (shift : Int)
  /-- The same without the failures recorded before. -/
  | relay (parser : ParserId) (shift : Int)
  /-- Log what another parser has found so far. -/
  | inspect (parser : ParserId) (shift : Int)
  /-- Set a recorder to another parser. -/
  | record (parser : ParserId) (shift : Int) (name : String)
  /-- Choose by the text from where the parser starts. -/
  | branch (text : String) (yes no : List Action)

/-- What a recorder does about something at a position. -/
inductive Reaction where
  /-- One byte more, while the position is below a bound. -/
  | grow (bound : Nat)
  /-- One byte less, while the position is above a bound. -/
  | shrink (bound : Nat)
  | fail (message : String)
  /-- A failure one byte further on, while the position is below a bound. -/
  | failNext (bound : Nat)
  /-- Register the recorder that bears a name now. -/
  | attach (name : String)

/-- The codes of scripts. The last four say what to do with an accumulator that was asked for. -/
inductive Code where
  | parser (label : String) (actions : List Action)
  | recorder (name : String) (onTree onFailure : List Reaction)
  | forwardInto (target : AccumulatorId)
  | relayInto (target : AccumulatorId)
  | inspectFor (label : String) (target : AccumulatorId)
  | recordAs (name : String)

/-- An entry of the log. -/
inductive Event where
  | started (label : String) (parser : ParserId) (position : Nat)
  | inspected (label : String) (parser : ParserId) (position : Nat) (isOwn : Bool) (brief : Brief)
  | found (name : String) (parser : ParserId) (position : Nat) (node : Tree.Span)
  | failed (name : String) (parser : ParserId) (position : Nat) (failure : Failure)

/-- What scripts act on: the log, latest entry first, and the listeners that bear names. -/
structure World where
  log : List Event := []
  listeners : List (String × Listener Code) := []

namespace World

def note (w : World) (e : Event) : World := { w with log := e :: w.log }

def listener? (w : World) (name : String) : Option (Listener Code) := w.listeners.lookup name

end World

mutual

/-- What an action asks of the engine for a parser that was started. -/
def Action.operations (label : String) (d : Document) (id : AccumulatorId) (a : Accumulator Code) :
    Action → List (Operation Code)
  | .stopAt stop => [.addStop id stop]
  | .stopAfter shift => [.addStop id (clamp (a.position + shift))]
  | .tree t => [.addTree id t]
  | .fail message shift => [.failAt id message (clamp (a.position + shift))]
  | .forward p shift => [.request a.context p (clamp (a.position + shift)) (.forwardInto id)]
  | .relay p shift => [.request a.context p (clamp (a.position + shift)) (.relayInto id)]
  | .inspect p shift => [.request a.context p (clamp (a.position + shift)) (.inspectFor label id)]
  | .record p shift name => [.request a.context p (clamp (a.position + shift)) (.recordAs name)]
  | .branch text yes no =>
    if (d.rest? a.position).any (text.toList.isPrefixOf ·) then
      Action.operationsAll label d id a yes
    else Action.operationsAll label d id a no

def Action.operationsAll (label : String) (d : Document) (id : AccumulatorId)
    (a : Accumulator Code) : List Action → List (Operation Code)
  | [] => []
  | x :: xs => x.operations label d id a ++ Action.operationsAll label d id a xs

end

/-- What a reaction to something at a position asks of the engine. -/
def Reaction.operations (w : World) (source : AccumulatorId) (position : Nat) :
    Reaction → List (Operation Code)
  | .grow bound => if position < bound then [.addStop source (position + 1)] else []
  | .shrink bound => if bound < position then [.addStop source (position - 1)] else []
  | .fail message => [.failAt source message position]
  | .failNext bound =>
    if position < bound then
      [.failAt source ("next " ++ toString position) (position + 1)]
    else []
  | .attach name =>
    match w.listener? name with
    | some l => [.listen source l]
    | none => []

/-- How the codes of scripts act. -/
def react (code : Code) (o : Occasion) (s : Store Code) (w : World) :
    World × List (Operation Code) :=
  match code, o with
  | .parser label actions, .started id =>
    match s.accumulator? id with
    | none => (w, [])
    | some a =>
      match s.context? a.context with
      | none => (w, [])
      | some x =>
        (w.note (.started label a.parser a.position),
          Action.operationsAll label x.document id a actions)
  | .recorder name onTree _, .found id t =>
    match s.accumulator? id with
    | none => (w, [])
    | some a =>
      (w.note (.found name a.parser a.position t.span),
        onTree.flatMap (Reaction.operations w id t.stop))
  | .recorder name _ onFailure, .failed id f =>
    match s.accumulator? id with
    | none => (w, [])
    | some a =>
      (w.note (.failed name a.parser a.position f),
        onFailure.flatMap (Reaction.operations w id f.position))
  | .forwardInto target, .reached (some id) => (w, [.forward id target])
  | .relayInto target, .reached (some id) => (w, [.watch id (.forward target)])
  | .inspectFor label target, .reached (some id) =>
    match s.accumulator? id with
    | none => (w, [])
    | some a => (w.note (.inspected label a.parser a.position (id == target) a.brief), [])
  | .recordAs name, .reached (some id) => (w, [.watch id (.custom (.recorder name [] []))])
  | _, _ => (w, [])

/-- The engine of a grammar with scripted parsers. -/
def engine (g : Grammar Code) : Engine Code World where
  grammar := g
  react := react

end PushParsing.Script
