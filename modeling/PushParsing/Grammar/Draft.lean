import PushParsing.Grammar

/-!
# Drafts of grammars

A draft hands out places for parsers, which may be filled later. A call that fails leaves the draft
as it was. A draft becomes a grammar once every place is filled and every reference leads to a
place; otherwise the first bad place is reported, a missing parser before a reference into the void.
-/
namespace PushParsing

variable {κ : Type}

structure Slot (κ : Type) where
  name : Option String
  parser : Option (Parser κ)

structure Draft (κ : Type) where
  slots : Array (Slot κ) := #[]

namespace Draft

/-- Hand out the next place. -/
def push (d : Draft κ) (slot : Slot κ) : ParserId × Draft κ :=
  (d.slots.size, { slots := d.slots.push slot })

/-- Fill a place that was declared. -/
def define (d : Draft κ) (id : ParserId) (p : Parser κ) : Except GrammarError (Draft κ) :=
  match d.slots[id]? with
  | none => .error (.unknownParser id id)
  | some ⟨_, some _⟩ => .error (.alreadyDefined id)
  | some ⟨name, none⟩ => .ok { slots := d.slots.setIfInBounds id ⟨name, some p⟩ }

/-- Something asked of a draft. A parser comes together with the way it was made, which may have
failed. -/
inductive Call (κ : Type) where
  | declare (name : String)
  | define (id : ParserId) (made : Except GrammarError (Parser κ))
  | rule (name : String) (made : Except GrammarError (Parser κ))
  | add (made : Except GrammarError (Parser κ))

/-- Do what is asked. Answers the place that was handed out, if one was. -/
def call (d : Draft κ) : Call κ → Except GrammarError (Option ParserId × Draft κ)
  | .declare name =>
    let (id, d) := d.push ⟨some name, none⟩
    .ok (some id, d)
  | .define id made => do
    let d ← d.define id (← made)
    return (none, d)
  | .rule name made => do
    let (id, d) := d.push ⟨some name, some (← made)⟩
    return (some id, d)
  | .add made => do
    let (id, d) := d.push ⟨none, some (← made)⟩
    return (some id, d)

/-- Do one thing after another; what fails is reported and skipped. -/
def callAll (d : Draft κ) : List (Call κ) → List (Except GrammarError (Option ParserId)) × Draft κ
  | [] => ([], d)
  | c :: cs =>
    match d.call c with
    | .ok (id, d) => let (answers, d) := d.callAll cs; (.ok id :: answers, d)
    | .error e => let (answers, d) := d.callAll cs; (.error e :: answers, d)

/-- The rule in a place, if the place is good among the given number of places. -/
def checkSlot (count : Nat) (id : ParserId) (slot : Slot κ) : Except GrammarError (Rule κ) :=
  match slot.parser with
  | none => .error (.undefinedRule (slot.name.getD id.text))
  | some p =>
    match p.references.find? (count ≤ ·) with
    | some missing => .error (.unknownParser missing id)
    | none => .ok ⟨slot.name, p⟩

/-- The rules in the places of a list, of which the first has the given number. -/
def checkFrom (count : Nat) : ParserId → List (Slot κ) → Except GrammarError (List (Rule κ))
  | _, [] => .ok []
  | id, slot :: slots => do
    let rule ← checkSlot count id slot
    let rules ← checkFrom count (id + 1) slots
    return rule :: rules

/-- The finished grammar. -/
def build (d : Draft κ) : Except GrammarError (Grammar κ) :=
  (checkFrom d.slots.size 0 d.slots.toList).map fun rules => { rules := rules.toArray }

end Draft

/-- Why calls did not lead to a grammar: the cause, and the place of the call that failed, unless
the calls went well and the draft is at fault. -/
structure BuildFailure where
  cause : GrammarError
  call : Option Nat := none
  deriving DecidableEq, Repr

/-- The draft after calls of which the first has the given place, none of which may fail. -/
def Draft.callFrom (d : Draft κ) : Nat → List (Draft.Call κ) → Except BuildFailure (Draft κ)
  | _, [] => .ok d
  | n, c :: cs =>
    match d.call c with
    | .ok (_, d) => d.callFrom (n + 1) cs
    | .error cause => .error { cause, call := some n }

/-- The grammar that calls lead to. -/
def Grammar.ofCalls (calls : List (Draft.Call κ)) : Except BuildFailure (Grammar κ) := do
  let d ← ({} : Draft κ).callFrom 0 calls
  d.build.mapError fun cause => { cause }

end PushParsing
