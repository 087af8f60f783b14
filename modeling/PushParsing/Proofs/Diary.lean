import PushParsing.Proofs.Reach
import PushParsing.Proofs.Steps

/-!
# Diaries

A diary tells which pairs contexts were asked for in the course of a run, with or without evaluation,
from outside and by parsers and listeners of any kind, and which parsers were started. Only to ask
adds a pair to a store, and calls for a parser to be started.
-/
namespace PushParsing

/-- An entry of a diary. -/
inductive Call where
  /-- The accumulator of a pair was asked for, and this is the answer. -/
  | requested (context : ContextNumber) (parser : ParserId) (position : Nat) (id : AccumulatorId)
  /-- The same, without evaluation. -/
  | looked (context : ContextNumber) (parser : ParserId) (position : Nat)
      (found : Option AccumulatorId)
  /-- The parser of a pair was started. -/
  | started (context : ContextNumber) (parser : ParserId) (position : Nat)
  deriving DecidableEq, Repr

/-- The pair of a context whose accumulator was asked for. -/
def Call.pair? (c : ContextNumber) : Call → Option (ParserId × Nat)
  | requested c' p i _ => if c' = c then some (p, i) else none
  | _ => none

variable {κ σ : Type}

/-- Whether a context can start a parser at a position: the grammar has the parser, and the document
the position. -/
def Store.admits (s : Store κ) (g : Grammar κ) (c : ContextNumber) (p : ParserId) (i : Nat) :
    Bool :=
  (s.document? c).any fun d => g.Covers d p i

/-- What the diary tells of a job. -/
def Job.call? (e : Engine κ σ) (s : Store κ) : Job κ → Option Call
  | .ask c p i _ =>
    if (s.context? c).isSome then some (.requested c p i (s.request c p i).1) else none
  | .operate (.lookup c p i _) => some (.looked c p i (s.lookup c p i).1)
  | .start id =>
    (s.accumulator? id).bind fun a =>
      if s.admits e.grammar a.context a.parser a.position then
        some (.started a.context a.parser a.position)
      else none
  | _ => none

namespace Machine

/-- What the diary tells of a step. -/
def call? (e : Engine κ σ) : Machine κ σ → Option Call
  | ⟨_, _, []⟩ => none
  | ⟨s, _, j :: _⟩ => j.call? e s

/-- What the diary tells of the first `n` steps. -/
def calls (e : Engine κ σ) : Nat → Machine κ σ → List Call
  | 0, _ => []
  | n + 1, m => (m.call? e).toList ++ calls e n (m.step e)

/-- Whether the parser of an accumulator is to be started next. -/
def isStarting (m : Machine κ σ) (id : AccumulatorId) : Bool :=
  match m.agenda with
  | .start k :: _ => k == id
  | _ => false

end Machine

/-- A machine in the course of whatever is done from outside, and the diary so far. Contexts are
opened, asked and looked up, and operations are done, one thing after another, each with all its
consequences. What else is done from outside, such as to hold contexts or to make listeners, leaves
contexts and accumulators alone. -/
inductive Engine.Diary (e : Engine κ σ) : Machine κ σ → List Call → Prop
  | start (w : σ) : Diary e ⟨{}, w, []⟩ []
  | aside {s s' : Store κ} {w : σ} {h : List Call} (w' : σ) : Diary e ⟨s, w, []⟩ h →
      s'.contexts = s.contexts → s'.accumulators = s.accumulators → Diary e ⟨s', w', []⟩ h
  | opened {s s' : Store κ} {w : σ} {h : List Call} {d : Document} {limits : Limits}
      {c : ContextNumber} : Diary e ⟨s, w, []⟩ h → e.openContext s d limits = .ok (c, s') →
      Diary e ⟨s', w, []⟩ h
  | looked {s : Store κ} {w : σ} {h : List Call} (c : ContextNumber) (p : ParserId) (i : Nat) :
      Diary e ⟨s, w, []⟩ h →
      Diary e ⟨(s.lookup c p i).2, w, []⟩ (h ++ [.looked c p i (s.lookup c p i).1])
  | requested {s : Store κ} {w : σ} {h : List Call} {c : ContextNumber} (p : ParserId) (i : Nat) :
      Diary e ⟨s, w, []⟩ h → (s.context? c).isSome →
      Diary e (.ofRequest s w c p i) (h ++ [.requested c p i (s.request c p i).1])
  | operation {s : Store κ} {w : σ} {h : List Call} (o : Operation κ) : Diary e ⟨s, w, []⟩ h →
      Diary e ⟨s, w, [.operate o]⟩ h
  | step {m : Machine κ σ} {h : List Call} : Diary e m h →
      Diary e (m.step e) (h ++ (m.call? e).toList)

theorem Engine.Diary.run {e : Engine κ σ} (n : Nat) :
    ∀ {m : Machine κ σ} {h : List Call}, e.Diary m h →
      e.Diary (Machine.run e n m) (h ++ Machine.calls e n m) := by
  induction n with
  | zero =>
    intro m h hd
    rwa [Machine.calls, List.append_nil]
  | succ n ih =>
    intro m h hd
    rw [Machine.run_succ, Machine.calls, ← List.append_assoc]
    exact ih hd.step

section Starting

variable {e : Engine κ σ} {s : Store κ} {w : σ} {id : AccumulatorId}

/-- Where the diary tells that a parser was started, it is its turn. -/
theorem Job.perform_started {c : ContextNumber} {p : ParserId} {i : Nat}
    (h : (Job.start id).call? e s = some (.started c p i)) :
    ∃ a x parser, s.accumulator? id = some a ∧ s.context? c = some x ∧
      e.grammar.parser? p = some parser ∧ (Job.start id).perform e s w =
        match parser with
        | .custom _ _ code => e.act code (.started id) s w
        | parser => (s, w, parser.begin x.document id a) := by
  obtain ⟨a, ha, h⟩ := Option.bind_eq_some_iff.1 h
  split at h
  next hadmits =>
    cases h
    obtain ⟨d, hd, hcov⟩ := (Option.any_eq_true _ _).1 hadmits
    obtain ⟨x, hx, rfl⟩ := Option.map_eq_some_iff.1 hd
    obtain ⟨hp, hi⟩ := of_decide_eq_true hcov
    have hparser : e.grammar.parser? a.parser = some e.grammar.rules[a.parser].parser :=
      Option.map_eq_some_iff.2 ⟨_, Array.getElem?_eq_getElem hp, rfl⟩
    refine ⟨a, x, _, ha, hx, hparser, ?_⟩
    simp only [perform, ha, hx, if_neg (Nat.not_lt.2 hi), hparser]
    cases e.grammar.rules[a.parser].parser <;> rfl
  next => cases h

theorem Job.call?_start {c : ContextNumber} {p : ParserId} {i : Nat} (h : s.IsFor id c p i) :
    (Job.start id).call? e s =
      if s.admits e.grammar c p i then some (.started c p i) else none := by
  obtain ⟨a, ha, rfl, rfl, rfl⟩ := h
  rw [call?, ha, Option.bind_some]

/-- Of a start it tells that the parser of the accumulator's pair is started. -/
theorem Job.started_of_call {x : Call} (h : (Job.start id).call? e s = some x) :
    ∃ c p i, x = .started c p i ∧ s.IsFor id c p i := by
  obtain ⟨a, ha, h⟩ := Option.bind_eq_some_iff.1 h
  split at h
  next =>
    cases h
    exact ⟨_, _, _, rfl, a, ha, rfl, rfl, rfl⟩
  next => cases h

/-- Where it tells of nothing, no more than a failure is to be recorded. -/
theorem Job.perform_refused (h : (Job.start id).call? e s = none) :
    ∃ js, (Job.start id).perform e s w = (s, w, js) ∧
      ∀ j ∈ js, ∃ message position, j = .operate (.failAt id message position) := by
  simp only [perform]
  split
  · exact ⟨[], rfl, by simp⟩
  next a ha =>
    split
    · exact ⟨[], rfl, by simp⟩
    next x hx =>
      split
      · exact ⟨_, rfl, fun j hj => ⟨_, _, List.mem_singleton.1 hj⟩⟩
      next hi =>
        have hparser : e.grammar.parser? a.parser = none := by
          cases hp : e.grammar.parser? a.parser with
          | none => rfl
          | some y =>
            have hcov : e.grammar.Covers x.document a.parser a.position :=
              ⟨Grammar.lt_size hp, Nat.not_lt.1 hi⟩
            simp [call?, ha, Store.admits, Store.document?, hx, hcov] at h
        rw [hparser]
        exact ⟨_, rfl, fun j hj => ⟨_, _, List.mem_singleton.1 hj⟩⟩

end Starting

section Asides

variable {s s' : Store κ} {id : AccumulatorId} {c : ContextNumber} {p : ParserId} {i : Nat}

/-- No pair is added, and accumulators and documents stay what they are. -/
structure Store.Aside (s s' : Store κ) : Prop where
  valid : s'.Valid
  peek : ∀ c p i, s'.peek? c p i = s.peek? c p i
  isFor : ∀ id c p i, s'.IsFor id c p i ↔ s.IsFor id c p i
  document : ∀ c d, s.document? c = some d → s'.document? c = some d

theorem Store.isFor_congr (hs : s'.accumulators = s.accumulators) :
    s'.IsFor id c p i ↔ s.IsFor id c p i := by
  simp only [Store.IsFor, accumulator?_congr hs]

theorem Store.isFor_modify {k : AccumulatorId} {a b : Accumulator κ}
    (ha : s.accumulator? k = some a) (hb : a.Extends b)
    (hs : s'.accumulators = s.accumulators.modify k fun _ => b) :
    s'.IsFor id c p i ↔ s.IsFor id c p i := by
  simp only [Store.IsFor, accumulator?_modify ha hs]
  by_cases hk : id = k
  · subst hk
    simp only [if_pos, ha, Option.some.injEq, exists_eq_left', hb.context, hb.parser, hb.position]
  · simp only [if_neg hk]

theorem Store.isFor_push {k : ContextNumber} {q : ParserId} {n : Nat}
    (hs : s'.accumulators = s.accumulators.push { context := c, parser := p, position := i }) :
    s'.IsFor id k q n ↔
      if id = s.accumulators.size then k = c ∧ q = p ∧ n = i else s.IsFor id k q n := by
  by_cases he : id = s.accumulators.size
  · simp only [Store.IsFor, accumulator?_push hs, if_pos he]
    constructor
    · rintro ⟨a, ha, hc, hp, hi⟩
      cases ha
      exact ⟨hc.symm, hp.symm, hi.symm⟩
    · rintro ⟨rfl, rfl, rfl⟩
      exact ⟨_, rfl, rfl, rfl, rfl⟩
  · simp only [Store.IsFor, accumulator?_push hs, if_neg he]

/-- Unless a parser is to be started no accumulator is made. -/
theorem Effect.isFor_iff {ev : Option (Event κ)} {js : List (Job κ)} (he : Effect s ev s' js)
    (hjs : ∀ j ∈ js, j.isStart = false) : s'.IsFor id c p i ↔ s.IsFor id c p i := by
  cases he with
  | silent hs _ | told _ _ _ hs _ => exact Store.isFor_congr hs
  | created c p i hs hstart _ => cases hjs _ hstart
  | recorded ha _ hs => exact Store.isFor_modify ha (.record ..) hs
  | registered ha _ hs => exact Store.isFor_modify ha (.register ..) hs

theorem Store.Aside.of_contexts (hv : s.Valid) (hc : s'.contexts = s.contexts)
    (hi : ∀ id c p i, s'.IsFor id c p i ↔ s.IsFor id c p i) : s.Aside s' where
  valid c x hx := hv c x (by rwa [context?_congr hc] at hx)
  peek := peek?_congr hc
  isFor := hi
  document c d hd := by rwa [document?_congr hc]

theorem Store.Aside.lookup (hv : s.Valid) (c : ContextNumber) (p : ParserId) (i : Nat) :
    s.Aside (s.lookup c p i).2 where
  valid := hv.lookup c p i
  peek := s.peek?_lookup c p i
  isFor _ _ _ _ := isFor_congr (accumulators_modifyMemo ..)
  document c d hd := by rwa [Store.lookup, document?_modifyMemo]

theorem Store.Aside.opened {e : Engine κ σ} {d : Document} {limits : Limits} (hv : s.Valid)
    (h : e.openContext s d limits = .ok (c, s')) : s.Aside s' where
  valid k x hx := by
    obtain ⟨n, hk⟩ := context?_opened h
    rw [hk] at hx
    split at hx
    · cases hx
      exact Memo.Table.valid_ofEstimate n
    · exact hv k x hx
  peek := peek?_opened h
  isFor _ _ _ _ := by
    obtain ⟨-, n, rfl⟩ := Engine.openContext_eq h
    exact Iff.rfl
  document c d hd := (Grows.opened h).document hd

/-- To ask for a pair once more is no more than to look it up. -/
theorem Store.Aside.request (hv : s.Valid) (hp : s.peek? c p i = some id) :
    s.Aside (s.request c p i).2.2 where
  valid := hv.request
  peek k q m := by
    obtain ⟨d, hd⟩ := document_of_peek hp
    rw [hv.peek?_request (isSome_context hd)]
    split
    next he =>
      obtain ⟨rfl, rfl, rfl⟩ := he
      rw [(request_old hp).1, hp]
    next => rfl
  isFor _ _ _ _ := isFor_congr (request_old hp).2.2
  document c d hd := by rwa [document?_request]

variable {e : Engine κ σ} {w : σ}

/-- The step lemma for stores: nothing but to ask adds a pair. -/
theorem Job.aside (hv : s.Valid) {j : Job κ} (hj : ∀ c p i next, j ≠ .ask c p i next) :
    s.Aside (j.perform e s w).1 := by
  have hisFor (id : AccumulatorId) (c : ContextNumber) (p : ParserId) (i : Nat) :
      (j.perform e s w).1.IsFor id c p i ↔ s.IsFor id c p i :=
    (j.effect e s w).isFor_iff fun _ hk => (Job.callsFor hk).isStart hj
  rcases j.perform_store e s w with ⟨hc, -⟩ | ⟨c, p, i, next, -, hs⟩ |
    ⟨c, p, i, next, heq, -⟩
  · exact .of_contexts hv hc hisFor
  · rw [hs]
    exact .lookup hv c p i
  · exact absurd heq (hj c p i next)

end Asides

end PushParsing
