import PushParsing.Proofs.Effects
import PushParsing.Proofs.MemoTable

/-!
# Stores only grow

No job takes anything away: documents stay, a pair that was asked for keeps its accumulator, and
accumulators only gain trees, failures and listeners.
-/
namespace PushParsing

variable {κ σ : Type}

/-- A later state of an accumulator. -/
structure Accumulator.Extends (a b : Accumulator κ) : Prop where
  context : b.context = a.context
  parser : b.parser = a.parser
  position : b.position = a.position
  trees : a.trees <+: b.trees
  failures : a.failures <:+ b.failures
  listeners : a.listeners <+: b.listeners

namespace Accumulator.Extends

theorem refl (a : Accumulator κ) : a.Extends a :=
  ⟨rfl, rfl, rfl, List.prefix_refl _, List.suffix_refl _, List.prefix_refl _⟩

theorem trans {a b c : Accumulator κ} (h : a.Extends b) (h' : b.Extends c) : a.Extends c :=
  ⟨h'.context.trans h.context, h'.parser.trans h.parser, h'.position.trans h.position,
    h.trees.trans h'.trees, h.failures.trans h'.failures, h.listeners.trans h'.listeners⟩

theorem record (a : Accumulator κ) (news : News) : a.Extends (a.record news) := by
  cases news with
  | found t =>
    exact ⟨rfl, rfl, rfl, List.prefix_append .., List.suffix_refl _, List.prefix_refl _⟩
  | failed f =>
    exact ⟨rfl, rfl, rfl, List.prefix_refl _, List.suffix_cons .., List.prefix_refl _⟩

theorem register (a : Accumulator κ) (l : Listener κ) : a.Extends (a.register l) :=
  ⟨rfl, rfl, rfl, List.prefix_refl _, List.suffix_refl _, List.prefix_append ..⟩

end Accumulator.Extends

/-- Accumulators stay, and gain at most. -/
def Store.Gains (s s' : Store κ) : Prop :=
  ∀ id a, s.accumulator? id = some a → ∃ b, s'.accumulator? id = some b ∧ a.Extends b

theorem Store.Gains.refl (s : Store κ) : s.Gains s := fun _ a ha => ⟨a, ha, .refl a⟩

theorem Store.Gains.trans {s s' s'' : Store κ} (h : s.Gains s') (h' : s'.Gains s'') :
    s.Gains s'' := by
  intro id a ha
  obtain ⟨b, hb, he⟩ := h id a ha
  obtain ⟨b', hb', he'⟩ := h' id b hb
  exact ⟨b', hb', he.trans he'⟩

/-- One accumulator gains something. -/
theorem Store.Gains.modify {s s' : Store κ} {id : AccumulatorId} {a b : Accumulator κ}
    (ha : s.accumulator? id = some a) (he : a.Extends b)
    (hs : s'.accumulators = s.accumulators.modify id fun _ => b) : s.Gains s' := by
  intro k c hc
  rw [accumulator?_modify ha hs]
  split
  next hk =>
    cases ha.symm.trans (hk ▸ hc)
    exact ⟨b, rfl, he⟩
  next => exact ⟨c, hc, .refl c⟩

theorem Effect.gains {s s' : Store κ} {ev : Option (Event κ)} {js : List (Job κ)}
    (he : Effect s ev s' js) : s.Gains s' := by
  intro id a ha
  obtain ⟨b, hb⟩ := he.stays ha
  refine ⟨b, hb, ?_⟩
  cases he.leaves hb with
  | kept hold =>
    cases ha.symm.trans hold
    exact .refl a
  | made _ _ _ hnone => cases ha.symm.trans hnone
  | recorded hold _ =>
    cases ha.symm.trans hold
    exact .record a _
  | registered hold _ =>
    cases ha.symm.trans hold
    exact .register a _

namespace Store

/-- All memo tables answer as finite maps. -/
def Valid (s : Store κ) : Prop := ∀ c x, s.context? c = some x → x.memo.Valid

structure Grows (s s' : Store κ) : Prop where
  context : ∀ c x, s.context? c = some x →
    ∃ x', s'.context? c = some x' ∧ x'.document = x.document
  peek : ∀ c p position id, s.peek? c p position = some id → s'.peek? c p position = some id
  accumulator : ∀ id a, s.accumulator? id = some a → ∃ b, s'.accumulator? id = some b ∧ a.Extends b
  holds : ∀ c, s.holds c → s'.holds c

theorem Grows.extends {s s' : Store κ} (h : Grows s s') {id : AccumulatorId} {a b : Accumulator κ}
    (ha : s.accumulator? id = some a) (hb : s'.accumulator? id = some b) : a.Extends b := by
  obtain ⟨b', hb', he⟩ := h.accumulator id a ha
  rw [hb] at hb'
  cases hb'
  exact he

theorem Grows.refl (s : Store κ) : Grows s s :=
  ⟨fun _ x h => ⟨x, h, rfl⟩, fun _ _ _ _ h => h, fun _ a h => ⟨a, h, .refl a⟩, fun _ h => h⟩

theorem Grows.trans {s t u : Store κ} (h : Grows s t) (h' : Grows t u) : Grows s u where
  context c x hx := by
    obtain ⟨y, hy, he⟩ := h.context c x hx
    obtain ⟨z, hz, he'⟩ := h'.context c y hy
    exact ⟨z, hz, he'.trans he⟩
  peek c p position id hp := h'.peek c p position id (h.peek c p position id hp)
  accumulator id a ha := by
    obtain ⟨b, hb, he⟩ := h.accumulator id a ha
    obtain ⟨d, hd, he'⟩ := h'.accumulator id b hb
    exact ⟨d, hd, he.trans he'⟩
  holds c hc := h'.holds c (h.holds c hc)

theorem context?_congr {s s' : Store κ} (h : s'.contexts = s.contexts) (c : ContextNumber) :
    s'.context? c = s.context? c := by
  cases c with
  | zero => rfl
  | succ n => simp only [context?, h]

theorem peek?_congr {s s' : Store κ} (h : s'.contexts = s.contexts) (c : ContextNumber)
    (p : ParserId) (position : Nat) : s'.peek? c p position = s.peek? c p position := by
  rw [peek?, context?_congr h, peek?]

theorem context?_modifyMemo (s : Store κ) (c : ContextNumber)
    (f : Memo.Table AccumulatorId → Memo.Table AccumulatorId) (k : ContextNumber) :
    (s.modifyMemo c f).context? k =
      if k = c then (s.context? k).map fun x => { x with memo := f x.memo } else s.context? k := by
  cases c with
  | zero => cases k <;> rfl
  | succ n =>
    cases k with
    | zero => rfl
    | succ k =>
      simp only [modifyMemo, context?, Array.getElem?_modify]
      by_cases h : n = k
      · rw [if_pos h, if_pos (congrArg Nat.succ h.symm)]
      · rw [if_neg h, if_neg fun hk => h (Nat.succ.inj hk).symm]

@[simp] theorem heldContexts_modifyMemo (s : Store κ) (c : ContextNumber)
    (f : Memo.Table AccumulatorId → Memo.Table AccumulatorId) :
    (s.modifyMemo c f).heldContexts = s.heldContexts := by
  cases c <;> rfl

theorem peek?_eq_some_iff {s : Store κ} {c : ContextNumber} {p : ParserId} {position : Nat}
    {id : AccumulatorId} : s.peek? c p position = some id ↔
      ∃ x, s.context? c = some x ∧ x.memo.peek? position p = some id := Option.bind_eq_some_iff

theorem Valid.modifyMemo {s s' : Store κ} (hv : s.Valid) {c : ContextNumber}
    {f : Memo.Table AccumulatorId → Memo.Table AccumulatorId}
    (hc : s'.contexts = (s.modifyMemo c f).contexts)
    (hf : ∀ x, s.context? c = some x → (f x.memo).Valid) : s'.Valid := by
  intro k y hy
  rw [context?_congr hc, context?_modifyMemo] at hy
  split at hy
  next he =>
    subst he
    obtain ⟨x, hx, rfl⟩ := Option.map_eq_some_iff.1 hy
    exact hf x hx
  next he => exact hv k y hy

/-- Only the memo table of one context changes, in that pairs are added. -/
theorem Grows.modifyMemo {s s' : Store κ} {c : ContextNumber}
    {f : Memo.Table AccumulatorId → Memo.Table AccumulatorId}
    (hc : s'.contexts = (s.modifyMemo c f).contexts) (hh : s'.heldContexts = s.heldContexts)
    (ha : ∀ id a, s.accumulator? id = some a → s'.accumulator? id = some a)
    (hf : ∀ x, s.context? c = some x → ∀ p position id, x.memo.peek? position p = some id →
      (f x.memo).peek? position p = some id) : s.Grows s' where
  context k x hx := by
    rw [context?_congr hc, context?_modifyMemo, hx]
    split
    · exact ⟨_, rfl, rfl⟩
    · exact ⟨x, rfl, rfl⟩
  peek k p position id hp := by
    obtain ⟨x, hx, hm⟩ := peek?_eq_some_iff.1 hp
    rw [peek?_congr hc, peek?, context?_modifyMemo, hx]
    split
    next he => subst he; exact hf x hx p position id hm
    next he => exact hm
  accumulator id a h := ⟨a, ha id a h, .refl a⟩
  holds k hk := by rwa [Store.holds, hh]

/-- A store whose one changed accumulator gains something grows. -/
theorem Grows.modify {s s' : Store κ} {id : AccumulatorId} {a b : Accumulator κ}
    (ha : s.accumulator? id = some a) (hb : a.Extends b)
    (hs : s'.accumulators = s.accumulators.modify id fun _ => b) (hc : s'.contexts = s.contexts)
    (hh : s'.heldContexts = s.heldContexts) : s.Grows s' where
  context k x hx := ⟨x, by rw [context?_congr hc, hx], rfl⟩
  peek k p position id hp := by rw [peek?_congr hc, hp]
  accumulator := Store.Gains.modify ha hb hs
  holds k hk := by rwa [Store.holds, hh]

theorem lookup_grows (s : Store κ) (c : ContextNumber) (p : ParserId) (position : Nat) :
    s.Grows (s.lookup c p position).2 := by
  refine Grows.modifyMemo rfl (heldContexts_modifyMemo ..) (fun id a ha => ?_) ?_
  · exact (accumulator?_congr (accumulators_modifyMemo ..) id).trans ha
  · intro x _ q i id hm
    simp only [Memo.Table.get?]
    split <;> exact hm

theorem Valid.lookup {s : Store κ} (hv : s.Valid) (c : ContextNumber) (p : ParserId)
    (position : Nat) : (s.lookup c p position).2.Valid := by
  apply hv.modifyMemo rfl
  intro x hx
  simp only [Memo.Table.get?]
  split <;> exact (hv c x hx).count ..

section Request

variable {s : Store κ} {c : ContextNumber} {p : ParserId} {position : Nat}

theorem contexts_request (hc : s.peek? c p position = none → (s.context? c).isSome) :
    (s.request c p position).2.2.contexts =
      (s.modifyMemo c fun t => (t.getOrInsert position p s.accumulators.size).2.2).contexts := by
  unfold request
  cases h : s.peek? c p position with
  | some id => rfl
  | none => simp [hc h]

theorem heldContexts_request : (s.request c p position).2.2.heldContexts = s.heldContexts := by
  unfold request
  cases s.peek? c p position with
  | some id => exact heldContexts_modifyMemo ..
  | none => dsimp only; split <;> simp

theorem listenerCount_modifyMemo (s : Store κ) (c : ContextNumber)
    (f : Memo.Table AccumulatorId → Memo.Table AccumulatorId) :
    (s.modifyMemo c f).listenerCount = s.listenerCount := by
  cases c <;> rfl

theorem listenerCount_request : (s.request c p position).2.2.listenerCount = s.listenerCount := by
  unfold request
  cases s.peek? c p position with
  | some id => exact listenerCount_modifyMemo ..
  | none => dsimp only; split <;> simp [listenerCount_modifyMemo]

/-- A pair that was asked for before keeps its accumulator, and none is made. -/
theorem request_old {id : AccumulatorId} (h : s.peek? c p position = some id) :
    (s.request c p position).1 = id ∧ (s.request c p position).2.1 = false ∧
      (s.request c p position).2.2.accumulators = s.accumulators := by
  unfold request
  rw [h]
  exact ⟨rfl, rfl, accumulators_modifyMemo ..⟩

theorem peek?_of_isNew (h : (s.request c p position).2.1 = true) : s.peek? c p position = none := by
  cases hp : s.peek? c p position with
  | none => rfl
  | some id =>
    rw [(request_old hp).2.1] at h
    cases h

/-- For any other pair an accumulator is made. -/
theorem request_new (h : s.peek? c p position = none) (hc : (s.context? c).isSome) :
    (s.request c p position).1 = s.accumulators.size ∧ (s.request c p position).2.1 = true ∧
      (s.request c p position).2.2.accumulators =
        s.accumulators.push { context := c, parser := p, position } := by
  unfold request
  rw [h]
  simp [hc]

/-- In a context that does not exist nothing is made. -/
theorem request_astray (h : s.context? c = none) :
    s.request c p position = (s.accumulators.size, false, s) := by
  simp [request, peek?, h]

theorem Valid.request (hv : s.Valid) : (s.request c p position).2.2.Valid := by
  cases hc : s.context? c with
  | none => rwa [request_astray hc]
  | some x =>
    refine hv.modifyMemo (contexts_request fun _ => by simp [hc]) fun x hx => ?_
    simp only [Memo.Table.getOrInsert]
    split
    · exact (hv c x hx).count ..
    · exact (hv c x hx).insert ‹_› _

/-- An accumulator that is new stands behind all others. -/
theorem request_of_isNew (h : (s.request c p position).2.1 = true) :
    (s.request c p position).1 = s.accumulators.size ∧ (s.context? c).isSome := by
  cases hc : s.context? c with
  | none =>
    rw [request_astray hc] at h
    cases h
  | some x => exact ⟨(request_new (peek?_of_isNew h) (by rw [hc]; rfl)).1, rfl⟩

/-- After a request the pair has the accumulator that was answered, and others have theirs. -/
theorem Valid.peek?_request (hv : s.Valid) (hc : (s.context? c).isSome) (k : ContextNumber)
    (q : ParserId) (i : Nat) : (s.request c p position).2.2.peek? k q i =
      if k = c ∧ q = p ∧ i = position then some (s.request c p position).1
      else s.peek? k q i := by
  obtain ⟨x, hx⟩ := Option.isSome_iff_exists.1 hc
  rw [peek?_congr (contexts_request fun _ => hc), peek?, context?_modifyMemo]
  by_cases hk : k = c
  · subst hk
    rw [if_pos rfl, hx, Option.map_some, Option.bind_some]
    simp only [true_and]
    have hpeek (q : ParserId) (i : Nat) : s.peek? k q i = x.memo.peek? i q := by
      simp [peek?, hx]
    cases hm : x.memo.peek? position p with
    | some id =>
      have hid := (request_old ((hpeek p position).trans hm)).1
      simp only [Memo.Table.getOrInsert, hm, hid, hpeek]
      split
      next he => obtain ⟨rfl, rfl⟩ := he; exact hm
      next he => rfl
    | none =>
      have hid := (request_new ((hpeek p position).trans hm) hc).1
      simp only [Memo.Table.getOrInsert, hm, hid, hpeek, (hv k x hx).peek?_insert hm]
      simp only [and_comm]
  · simp [hk, peek?]

theorem Valid.request_grows (hv : s.Valid) : s.Grows (s.request c p position).2.2 := by
  cases hc : s.context? c with
  | none => rw [request_astray hc]; exact .refl s
  | some x =>
    have hsome : (s.context? c).isSome := by simp [hc]
    refine Grows.modifyMemo (contexts_request fun _ => hsome) heldContexts_request ?_ ?_
    · exact (Quiet.request s c p position).kept
    · intro x hx q i id hm
      simp only [Memo.Table.getOrInsert]
      split
      · exact hm
      next hn =>
        rw [(hv c x hx).peek?_insert hn, if_neg, hm]
        rintro ⟨rfl, rfl⟩
        rw [hn] at hm
        cases hm

end Request

end Store

/-- What becomes of the store apart from its accumulators. -/
theorem Job.perform_store (e : Engine κ σ) (s : Store κ) (w : σ) (j : Job κ) :
    (j.perform e s w).1.contexts = s.contexts ∧
        (j.perform e s w).1.heldContexts = s.heldContexts ∧
        s.listenerCount ≤ (j.perform e s w).1.listenerCount ∨
      (∃ c p position next, j = .operate (.lookup c p position next) ∧
        (j.perform e s w).1 = (s.lookup c p position).2) ∨
      ∃ c p position next, j = .ask c p position next ∧
        (j.perform e s w).1 = (s.request c p position).2.2 := by
  cases j with
  | operate o =>
    cases o with
    | lookup c p position next => exact .inr (.inl ⟨c, p, position, next, rfl, rfl⟩)
    | addTree target t =>
      left
      simp only [Job.perform, Operation.perform]
      split
      · exact ⟨rfl, rfl, Nat.le_refl _⟩
      · split <;> exact ⟨rfl, rfl, Nat.le_refl _⟩
    | addFailure target f =>
      left
      simp only [Job.perform, Operation.perform]
      split
      · exact ⟨rfl, rfl, Nat.le_refl _⟩
      · split <;> exact ⟨rfl, rfl, Nat.le_refl _⟩
    | listen source l =>
      left
      simp only [Job.perform, Operation.perform]
      split
      · exact ⟨rfl, rfl, Nat.le_refl _⟩
      · split <;> exact ⟨rfl, rfl, Nat.le_refl _⟩
    | addStop target stop =>
      left
      simp only [Job.perform, Operation.perform]
      split
      · exact ⟨rfl, rfl, Nat.le_refl _⟩
      · split <;> exact ⟨rfl, rfl, Nat.le_refl _⟩
    | failAt target message position =>
      left
      simp only [Job.perform, Operation.perform]
      split <;> exact ⟨rfl, rfl, Nat.le_refl _⟩
    | watch source role => exact .inl ⟨rfl, rfl, Nat.le_succ _⟩
    | _ => exact .inl ⟨rfl, rfl, Nat.le_refl _⟩
  | ask c p position next => exact .inr (.inr ⟨c, p, position, next, rfl, rfl⟩)
  | start id =>
    left
    simp only [Job.perform]
    split
    · exact ⟨rfl, rfl, Nat.le_refl _⟩
    · split
      · exact ⟨rfl, rfl, Nat.le_refl _⟩
      · split
        · exact ⟨rfl, rfl, Nat.le_refl _⟩
        · split <;> exact ⟨rfl, rfl, Nat.le_refl _⟩
  | proceed next id => cases next <;> exact .inl ⟨rfl, rfl, Nat.le_refl _⟩
  | tell l source news =>
    obtain ⟨n, role⟩ := l
    left
    cases role with
    | forward target => simp only [Job.perform]; split <;> (try split) <;> exact ⟨rfl, rfl, Nat.le_refl _⟩
    | element q => simp only [Job.perform]; split <;> (try split) <;> exact ⟨rfl, rfl, Nat.le_refl _⟩
    | custom code => cases news <;> exact ⟨rfl, rfl, Nat.le_refl _⟩
  | carry source target => left; simp only [Job.perform]; split <;> exact ⟨rfl, rfl, Nat.le_refl _⟩

/-- The step lemma: a job done leaves a valid store that has grown. -/
theorem Job.perform_grows (e : Engine κ σ) {s : Store κ} (w : σ) (j : Job κ) (hv : s.Valid) :
    (j.perform e s w).1.Valid ∧ s.Grows (j.perform e s w).1 := by
  rcases j.perform_store e s w with ⟨hc, hh, -⟩ | ⟨c, p, position, next, -, hs⟩ |
    ⟨c, p, position, next, -, hs⟩
  · refine ⟨fun k x hx => hv k x (by rwa [Store.context?_congr hc] at hx), ?_, ?_, ?_, ?_⟩
    · exact fun k x hx => ⟨x, by rw [Store.context?_congr hc, hx], rfl⟩
    · exact fun k p i id hp => by rw [Store.peek?_congr hc, hp]
    · exact (j.effect e s w).gains
    · exact fun k hk => by rwa [Store.holds, hh]
  · rw [hs]
    exact ⟨hv.lookup c p position, s.lookup_grows c p position⟩
  · rw [hs]
    exact ⟨hv.request, hv.request_grows⟩

end PushParsing
