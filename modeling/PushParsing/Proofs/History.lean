import Mathlib.Data.List.Nodup
import PushParsing.Engine.Machine

/-!
# Histories

What happens to accumulators, event by event, in whatever order the jobs of a run bring it about:
something is recorded, a listener is registered, a listener is told. A chronicle follows a store
through any number of operations from outside, each with all its consequences.
-/
namespace PushParsing

variable {κ σ : Type}

inductive Event (κ : Type) where
  | recorded (source : AccumulatorId) (news : News)
  | registered (source : AccumulatorId) (listener : Listener κ)
  | told (source : AccumulatorId) (listener : Listener κ) (news : News)

namespace News

def tree? : News → Option Tree
  | found t => some t
  | failed _ => none

def failure? : News → Option Failure
  | found _ => none
  | failed f => some f

end News

def treesOf (news : List News) : List Tree := news.filterMap News.tree?

def failuresOf (news : List News) : List Failure := news.filterMap News.failure?

@[simp] theorem treesOf_nil : treesOf [] = [] := rfl
@[simp] theorem failuresOf_nil : failuresOf [] = [] := rfl
@[simp] theorem treesOf_append (as bs : List News) : treesOf (as ++ bs) = treesOf as ++ treesOf bs :=
  List.filterMap_append
@[simp] theorem failuresOf_append (as bs : List News) :
    failuresOf (as ++ bs) = failuresOf as ++ failuresOf bs := List.filterMap_append

namespace Accumulator

/-- Whether something is not yet recorded: no tree of its length, or not the failure itself. -/
def IsNew (a : Accumulator κ) : News → Prop
  | .found t => a.hasLength t.length = false
  | .failed f => f ∉ a.failures

instance (a : Accumulator κ) (news : News) : Decidable (a.IsNew news) :=
  match news with
  | .found t => inferInstanceAs (Decidable (a.hasLength t.length = false))
  | .failed f => inferInstanceAs (Decidable (f ∉ a.failures))

/-- A tree that is new has another length than those that are there. -/
theorem IsNew.length_ne {a : Accumulator κ} {t u : Tree} (hn : a.IsNew (.found t))
    (hu : u ∈ a.trees) : u.length ≠ t.length := by
  simp only [IsNew, hasLength, List.any_eq_false, beq_iff_eq] at hn
  exact hn u hu

def record (a : Accumulator κ) : News → Accumulator κ
  | .found t => { a with trees := a.trees ++ [t] }
  | .failed f => { a with best := Failure.furthest a.best f, failures := f :: a.failures }

def register (a : Accumulator κ) (l : Listener κ) : Accumulator κ :=
  { a with listeners := a.listeners ++ [l] }

theorem addTree?_eq (a : Accumulator κ) (t : Tree) :
    a.addTree? t = if a.IsNew (.found t) then some (a.record (.found t)) else none := by
  cases h : a.hasLength t.length <;> simp [addTree?, IsNew, record, h]

theorem addFailure?_eq (a : Accumulator κ) (f : Failure) :
    a.addFailure? f = if a.IsNew (.failed f) then some (a.record (.failed f)) else none := by
  by_cases h : f ∈ a.failures <;> simp [addFailure?, IsNew, record, h]

theorem addListener?_eq (a : Accumulator κ) (l : Listener κ) :
    a.addListener? l = if a.listeners.any (·.id == l.id) then none else some (a.register l) := rfl

end Accumulator

/-- The event that doing a job is, unless it only leads to other jobs. -/
def Job.event? (s : Store κ) : Job κ → Option (Event κ)
  | .tell l source news => some (.told source l news)
  | .operate (.addTree target t) =>
    (s.accumulator? target).bind fun a =>
      if a.IsNew (.found (a.adopt t)) then some (.recorded target (.found (a.adopt t))) else none
  | .operate (.addFailure target f) =>
    (s.accumulator? target).bind fun a =>
      if a.IsNew (.failed f) then some (.recorded target (.failed f)) else none
  | .operate (.listen source l) =>
    (s.accumulator? source).bind fun a =>
      if a.listeners.any (·.id == l.id) then none else some (.registered source l)
  | _ => none

/-- The events of the first `n` steps. -/
def Machine.history (e : Engine κ σ) : Nat → Machine κ σ → List (Event κ)
  | 0, _ => []
  | _ + 1, ⟨_, _, []⟩ => []
  | n + 1, ⟨s, w, j :: js⟩ => (j.event? s).toList ++ history e n (Machine.step e ⟨s, w, j :: js⟩)

/-- The jobs of a request from outside for an accumulator, which is evaluated if it is new. -/
def Machine.ofRequest (s : Store κ) (w : σ) (c : ContextNumber) (p : ParserId) (position : Nat) :
    Machine κ σ :=
  let (id, isNew, s) := s.request c p position
  ⟨s, w, if isNew then [.start id] else []⟩

/-- An engine answers a request with what the machine leads to within the engine's limit. -/
theorem Engine.request_eq (e : Engine κ σ) (s : Store κ) (w : σ) (c : ContextNumber) (p : ParserId)
    (position : Nat) : e.request s w c p position = ((s.request c p position).1,
      (Machine.run e e.limit (.ofRequest s w c p position)).store,
      (Machine.run e e.limit (.ofRequest s w c p position)).world) := by
  simp only [request, Machine.ofRequest, settle]
  split
  · rfl
  · rw [Machine.run_idle]

/-- What a step does is independent of the limit. -/
theorem Machine.run_limit (e : Engine κ σ) (limit n : Nat) :
    ∀ m : Machine κ σ, Machine.run { e with limit } n m = Machine.run e n m := by
  induction n with
  | zero => exact fun _ => rfl
  | succ n ih =>
    intro m
    rw [run_succ, run_succ, ih]
    rfl

/-- A store and all that happened to its accumulators, by operations and requests from outside, one
after another, each done with everything it calls for. What else is done from outside, such as to
open and drop contexts, to hold accumulators or to make listeners, leaves accumulators alone. -/
inductive Engine.Chronicle (e : Engine κ σ) : Store κ → List (Event κ) → Prop
  | start : Chronicle e {} []
  | aside {s s' : Store κ} {h : List (Event κ)} : Chronicle e s h →
      s'.accumulators = s.accumulators → Chronicle e s' h
  | operation {s : Store κ} {h : List (Event κ)} (w : σ) (o : Operation κ) (n : Nat) :
      Chronicle e s h → (Machine.run e n ⟨s, w, [.operate o]⟩).agenda = [] →
      Chronicle e (Machine.run e n ⟨s, w, [.operate o]⟩).store
        (h ++ Machine.history e n ⟨s, w, [.operate o]⟩)
  | request {s : Store κ} {h : List (Event κ)} (w : σ) (c : ContextNumber) (p : ParserId)
      (position n : Nat) : Chronicle e s h →
      (Machine.run e n (.ofRequest s w c p position)).agenda = [] →
      Chronicle e (Machine.run e n (.ofRequest s w c p position)).store
        (h ++ Machine.history e n (.ofRequest s w c p position))

/-- Whether a job is to tell a listener something. -/
def Job.isTell : Job κ → Bool
  | .tell _ _ _ => true
  | _ => false

/-- What a job that is an event does, or one that is none, to the accumulators, and whom it calls
upon to tell something. A parser is started for each new accumulator. -/
inductive Effect (s : Store κ) : Option (Event κ) → Store κ → List (Job κ) → Prop
  | silent {s' : Store κ} {js : List (Job κ)} : s'.accumulators = s.accumulators →
      (∀ j ∈ js, j.isTell = false) → Effect s none s' js
  | created {s' : Store κ} {js : List (Job κ)} (c : ContextNumber) (p : ParserId) (position : Nat) :
      s'.accumulators = s.accumulators.push { context := c, parser := p, position } →
      .start s.accumulators.size ∈ js → (∀ j ∈ js, j.isTell = false) → Effect s none s' js
  | told {s' : Store κ} {js : List (Job κ)} (id : AccumulatorId) (l : Listener κ) (news : News) :
      s'.accumulators = s.accumulators → (∀ j ∈ js, j.isTell = false) →
      Effect s (some (.told id l news)) s' js
  | recorded {s' : Store κ} {id : AccumulatorId} {a : Accumulator κ} {news : News} :
      s.accumulator? id = some a → a.IsNew news →
      s'.accumulators = s.accumulators.modify id (fun _ => a.record news) →
      Effect s (some (.recorded id news)) s' (a.broadcast id news)
  | registered {s' : Store κ} {id : AccumulatorId} {a : Accumulator κ} {l : Listener κ} :
      s.accumulator? id = some a → (∀ l' ∈ a.listeners, l'.id ≠ l.id) →
      s'.accumulators = s.accumulators.modify id (fun _ => a.register l) →
      Effect s (some (.registered id l)) s' (a.trees.map fun t => .tell l id (.found t))

theorem Effect.nothing (s : Store κ) : Effect s none s [] := .silent rfl (by simp)

@[simp] theorem accumulators_modifyMemo (s : Store κ) (c : ContextNumber)
    (f : Memo.Table AccumulatorId → Memo.Table AccumulatorId) :
    (s.modifyMemo c f).accumulators = s.accumulators := by
  cases c <;> rfl

theorem accumulator?_congr {s s' : Store κ} (h : s'.accumulators = s.accumulators)
    (id : AccumulatorId) : s'.accumulator? id = s.accumulator? id := by
  rw [Store.accumulator?, h, Store.accumulator?]

theorem accumulator?_push {s s' : Store κ} {a : Accumulator κ}
    (h : s'.accumulators = s.accumulators.push a) (id : AccumulatorId) :
    s'.accumulator? id = if id = s.accumulators.size then some a else s.accumulator? id := by
  rw [Store.accumulator?, h, Array.getElem?_push, Store.accumulator?]

theorem accumulator?_modify {s s' : Store κ} {id : AccumulatorId} {a b : Accumulator κ}
    (ha : s.accumulator? id = some a)
    (h : s'.accumulators = s.accumulators.modify id fun _ => b) (k : AccumulatorId) :
    s'.accumulator? k = if k = id then some b else s.accumulator? k := by
  rw [Store.accumulator?] at ha ⊢
  rw [h, Array.getElem?_modify]
  by_cases hk : id = k
  · subst hk
    simp [ha]
  · rw [if_neg hk, if_neg (Ne.symm hk), Store.accumulator?]

theorem accumulator?_modify_cases {s s' : Store κ} {id k : AccumulatorId} {a b c : Accumulator κ}
    (ha : s.accumulator? id = some a)
    (h : s'.accumulators = s.accumulators.modify id fun _ => b) (hk : s'.accumulator? k = some c) :
    k = id ∧ c = b ∨ k ≠ id ∧ s.accumulator? k = some c := by
  rw [accumulator?_modify ha h] at hk
  by_cases he : k = id
  · rw [if_pos he] at hk
    exact .inl ⟨he, (Option.some.inj hk).symm⟩
  · rw [if_neg he] at hk
    exact .inr ⟨he, hk⟩

/-- Accumulators stay as they are, but for new ones, which are empty. -/
structure Quiet (s s' : Store κ) : Prop where
  kept : ∀ id a, s.accumulator? id = some a → s'.accumulator? id = some a
  fresh : ∀ id a, s.accumulator? id = none → s'.accumulator? id = some a →
    a.trees = [] ∧ a.failures = [] ∧ a.listeners = []

theorem Quiet.of_eq {s s' : Store κ} (h : s'.accumulators = s.accumulators) : Quiet s s' where
  kept id a ha := by rwa [accumulator?_congr h]
  fresh id a ha ha' := by
    rw [accumulator?_congr h, ha] at ha'
    cases ha'

theorem Quiet.of_push {s s' : Store κ} {c : ContextNumber} {p : ParserId} {i : Nat}
    (h : s'.accumulators = s.accumulators.push { context := c, parser := p, position := i }) :
    Quiet s s' where
  kept id a ha := by
    have hne : id ≠ s.accumulators.size := by
      rintro rfl
      simp [Store.accumulator?] at ha
    rw [accumulator?_push h, if_neg hne, ha]
  fresh id a ha ha' := by
    rw [accumulator?_push h, ha] at ha'
    split at ha'
    · cases ha'
      exact ⟨rfl, rfl, rfl⟩
    · cases ha'

theorem Quiet.cases {s s' : Store κ} (hq : Quiet s s') {id : AccumulatorId} {a : Accumulator κ}
    (ha : s'.accumulator? id = some a) : s.accumulator? id = some a ∨
      s.accumulator? id = none ∧ a.trees = [] ∧ a.failures = [] ∧ a.listeners = [] := by
  cases hs : s.accumulator? id with
  | none => exact .inr ⟨rfl, hq.fresh id a hs ha⟩
  | some b =>
    rw [hq.kept id b hs] at ha
    exact .inl ha

/-- What a custom code asks for is not to tell anybody anything at once. -/
theorem Effect.act {e : Engine κ σ} {s s' : Store κ} (h : s'.accumulators = s.accumulators)
    (code : κ) (o : Occasion) (w : σ) :
    Effect s none (e.act code o s' w).1 (e.act code o s' w).2.2 := by
  refine .silent h ?_
  intro j hj
  obtain ⟨o, -, rfl⟩ := List.mem_map.1 hj
  rfl

theorem Quiet.request (s : Store κ) (c : ContextNumber) (p : ParserId) (position : Nat) :
    Quiet s (s.request c p position).2.2 := by
  unfold Store.request
  cases s.peek? c p position with
  | some a => exact .of_eq (by simp)
  | none =>
    cases hc : (s.context? c).isSome with
    | true =>
      refine .of_push (c := c) (p := p) (i := position) ?_
      simp
    | false => exact .of_eq (by simp)

theorem Effect.ask (e : Engine κ σ) (s : Store κ) (w : σ) (c : ContextNumber) (p : ParserId)
    (position : Nat) (next : Next κ) :
    Effect s none ((Job.ask c p position next).perform e s w).1
      ((Job.ask c p position next).perform e s w).2.2 := by
  simp only [Job.perform, Store.request]
  cases s.peek? c p position with
  | some a => exact .silent (by simp) (by simp [Job.isTell])
  | none =>
    cases hc : (s.context? c).isSome with
    | true => exact .created c p position (by simp) (by simp) (by simp [Job.isTell])
    | false => exact .silent (by simp) (by simp [Job.isTell])

theorem isTell_begin (d : Document) (id : AccumulatorId) (a : Accumulator κ) (p : Parser κ) :
    ∀ j ∈ p.begin d id a, j.isTell = false := by
  cases p with
  | literal text => simp only [Parser.begin]; split <;> simp [Job.isTell]
  | pattern p => simp only [Parser.begin]; split <;> simp [Job.isTell]
  | sequence es => cases es <;> simp [Parser.begin, Job.isTell]
  | choice qs => cases qs <;> simp [Parser.begin, Job.isTell]
  | optional q => simp [Parser.begin, Job.isTell]
  | custom label refs code => simp [Parser.begin]

theorem isTell_continue (q : Sequel) (s : Store κ) (t : Tree) :
    ∀ j ∈ q.continue s t, j.isTell = false := by
  unfold Sequel.continue
  split
  · simp
  · split
    · simp [Job.isTell]
    · split <;> simp [Job.isTell]

/-- Doing an operation has the effect of the event that it is. -/
theorem Operation.effect (e : Engine κ σ) (s : Store κ) (w : σ) (o : Operation κ) :
    Effect s ((Job.operate o).event? s) (o.perform e s w).1 (o.perform e s w).2.2 := by
  cases o with
  | request c p position next => exact .silent rfl (by simp [Operation.perform, Job.isTell])
  | lookup c p position next => exact Effect.act (accumulators_modifyMemo ..) ..
  | addTree target t =>
    simp only [Operation.perform, Job.event?, Accumulator.addTree?_eq]
    cases ha : s.accumulator? target with
    | none => exact .nothing s
    | some a =>
      by_cases hn : a.IsNew (.found (a.adopt t))
      · simp only [Option.bind_some, if_pos hn]
        exact .recorded ha hn rfl
      · simp only [Option.bind_some, if_neg hn]
        exact .nothing s
  | addStop target stop =>
    simp only [Operation.perform, Job.event?]
    cases s.accumulator? target with
    | none => exact .nothing s
    | some a => dsimp only; split <;> exact .silent rfl (by simp [Job.isTell])
  | addFailure target f =>
    simp only [Operation.perform, Job.event?, Accumulator.addFailure?_eq]
    cases ha : s.accumulator? target with
    | none => exact .nothing s
    | some a =>
      by_cases hn : a.IsNew (.failed f)
      · simp only [Option.bind_some, if_pos hn]
        exact .recorded ha hn rfl
      · simp only [Option.bind_some, if_neg hn]
        exact .nothing s
  | failAt target message position =>
    simp only [Operation.perform, Job.event?]
    cases s.accumulator? target with
    | none => exact .nothing s
    | some a => exact .silent rfl (by simp [Job.isTell])
  | listen source l =>
    simp only [Operation.perform, Job.event?, Accumulator.addListener?_eq]
    cases ha : s.accumulator? source with
    | none => exact .nothing s
    | some a =>
      by_cases hn : a.listeners.any (·.id == l.id)
      · simp only [Option.bind_some, if_pos hn]
        exact .nothing s
      · simp only [Option.bind_some, if_neg hn]
        exact .registered ha (by simpa using hn) rfl
  | watch source role => exact .silent rfl (by simp [Operation.perform, Job.isTell])
  | forward source target => exact .silent rfl (by simp [Operation.perform, Job.isTell])
  | resume next => exact Effect.act rfl ..

/-- Doing a job has the effect of the event that it is. -/
theorem Job.effect (e : Engine κ σ) (s : Store κ) (w : σ) (j : Job κ) :
    Effect s (j.event? s) (j.perform e s w).1 (j.perform e s w).2.2 := by
  cases j with
  | operate o => exact o.effect e s w
  | ask c p position next => exact Effect.ask ..
  | start id =>
    simp only [Job.perform, Job.event?]
    split
    · exact .silent rfl (by simp)
    · split
      · exact .silent rfl (by simp)
      · split
        · exact .silent rfl (by simp [Job.isTell])
        · split
          · exact .silent rfl (by simp [Job.isTell])
          · exact Effect.act rfl ..
          · exact .silent rfl (isTell_begin _ _ _ _)
  | proceed next id =>
    cases next with
    | forwardTo target => exact .silent rfl (by simp [Job.perform, Job.isTell])
    | await q => exact .silent rfl (by simp [Job.perform, Job.isTell])
    | custom code => exact Effect.act rfl ..
  | tell l source news =>
    obtain ⟨n, role⟩ := l
    have hact (code : κ) (o : Occasion) :
        Effect s (some (.told source ⟨n, role⟩ news)) (e.act code o s w).1 (e.act code o s w).2.2 := by
      refine .told source _ news rfl ?_
      intro j hj
      obtain ⟨o, -, rfl⟩ := List.mem_map.1 hj
      rfl
    cases role with
    | forward target =>
      simp only [Job.perform, Job.event?]
      split
      · split <;> exact .told _ _ _ rfl (by simp [Job.isTell])
      · exact .told _ _ _ rfl (by simp)
    | element q =>
      simp only [Job.perform, Job.event?]
      split
      · split
        · exact .told _ _ _ rfl (isTell_continue _ _ _)
        · exact .told _ _ _ rfl (by simp [Job.isTell])
      · exact .told _ _ _ rfl (by simp)
    | custom code => cases news <;> exact hact ..
  | carry source target =>
    simp only [Job.perform, Job.event?]
    split <;> exact .silent rfl (by simp [Job.isTell])

end PushParsing
