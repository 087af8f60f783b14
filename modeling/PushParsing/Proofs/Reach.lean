import PushParsing.Proofs.Soundness

/-!
# Stores that are reached

A standard engine is driven from outside by opening contexts, which stay held, and by asking them
for accumulators, one request after another.
-/
namespace PushParsing

/-- A store reached from the empty one, by requests for admitted pairs only. A request is answered
when nothing is left to do. -/
inductive Grammar.Reached (g : Grammar Empty) (admits : Document → ParserId → Nat → Prop) :
    Store Empty → Prop
  | start : Reached g admits {}
  | opened {s s' : Store Empty} {d : Document} {limits : Limits} {c : ContextNumber} :
      Reached g admits s → (Engine.standard g).openContext s d limits = .ok (c, s') →
      Reached g admits s'
  | looked {s : Store Empty} (c : ContextNumber) (p : ParserId) (i : Nat) :
      Reached g admits s → Reached g admits (s.lookup c p i).2
  | requested {s : Store Empty} {d : Document} {c : ContextNumber} {p : ParserId} {i n : Nat} :
      Reached g admits s → s.document? c = some d → admits d p i →
      (Machine.run (.standard g) n (.ofRequest s () c p i)).agenda = [] →
      Reached g admits (Machine.run (.standard g) n (.ofRequest s () c p i)).store

variable {g : Grammar Empty} {d : Document} {s s' : Store Empty} {c : ContextNumber}
  {admits : Document → ParserId → Nat → Prop}

theorem Store.Sound.start : ({} : Store Empty).Sound g where
  valid c x hx := by cases c <;> simp [Store.context?] at hx
  held c d hd := by cases c <;> simp [Store.document?, Store.context?] at hd
  kept id a ha := by simp [Store.accumulator?] at ha
  known c p i id hp := by cases c <;> simp [Store.peek?, Store.context?] at hp

section Opening

variable {κ σ : Type} {e : Engine κ σ} {s s' : Store κ} {limits : Limits}

/-- The store after a context was opened: one more context, with an empty memo table. -/
theorem Engine.openContext_eq (h : e.openContext s d limits = .ok (c, s')) :
    c = s.contexts.size + 1 ∧ ∃ n, s' = { s with
      contexts := s.contexts.push ⟨d, limits, .ofEstimate n⟩
      heldContexts := c :: s.heldContexts } := by
  unfold Engine.openContext Store.openContext at h
  split at h
  · cases h
  · cases h
    refine ⟨rfl, ?_⟩
    split
    · exact ⟨_, rfl⟩
    · exact ⟨_, rfl⟩

theorem Store.context?_opened (h : e.openContext s d limits = .ok (c, s')) :
    ∃ n, ∀ k, s'.context? k = if k = c then some ⟨d, limits, .ofEstimate n⟩ else s.context? k := by
  obtain ⟨hc, n, rfl⟩ := Engine.openContext_eq h
  refine ⟨n, ?_⟩
  intro k
  cases k with
  | zero => rw [hc, if_neg (Nat.succ_ne_zero _).symm]; rfl
  | succ k =>
    rw [context?, Array.getElem?_push, hc]
    by_cases hk : k = s.contexts.size
    · rw [if_pos hk, if_pos (congrArg Nat.succ hk)]
    · have hne : k + 1 ≠ s.contexts.size + 1 := fun he => hk (Nat.succ.inj he)
      rw [if_neg hk, if_neg hne, context?]

theorem Memo.Table.peek?_ofEstimate (n position : Nat) (p : ParserId) :
    (ofEstimate n : Memo.Table AccumulatorId).peek? position p = none := by
  have hempty : ∀ x ∈ (ofEstimate n : Memo.Table AccumulatorId).entries.toList,
      ¬(x.position = position ∧ x.parser = p) := by simp [ofEstimate]
  exact (valid_ofEstimate n).peek?_eq_none_iff.2 hempty

/-- A context that is opened is new to the store. -/
theorem Store.context?_of_opened (h : e.openContext s d limits = .ok (c, s')) :
    s.context? c = none := by
  obtain ⟨hc, -⟩ := Engine.openContext_eq h
  subst hc
  simp [Store.context?]

theorem Store.peek?_opened (h : e.openContext s d limits = .ok (c, s'))
    (k : ContextNumber) (p : ParserId) (i : Nat) : s'.peek? k p i = s.peek? k p i := by
  obtain ⟨n, hk⟩ := context?_opened h
  rw [peek?, hk, peek?]
  by_cases he : k = c
  · subst he
    rw [if_pos rfl, Store.context?_of_opened h, Option.bind_some, Memo.Table.peek?_ofEstimate]
    rfl
  · rw [if_neg he]

theorem Store.Grows.opened (h : e.openContext s d limits = .ok (c, s')) :
    s.Grows s' where
  context k x hx := by
    obtain ⟨n, hk⟩ := context?_opened h
    have hne : k ≠ c := by
      rintro rfl
      rw [context?_of_opened h] at hx
      cases hx
    exact ⟨x, by rw [hk, if_neg hne, hx], rfl⟩
  peek k p i id hp := by rwa [peek?_opened h]
  accumulator id a ha := by
    obtain ⟨-, n, rfl⟩ := Engine.openContext_eq h
    exact ⟨a, ha, .refl a⟩
  holds k hk := by
    obtain ⟨-, n, rfl⟩ := Engine.openContext_eq h
    exact List.elem_iff.2 (List.mem_cons_of_mem c (List.elem_iff.1 hk))

end Opening

theorem Store.Sound.opened {limits : Limits} (hs : s.Sound g)
    (h : (Engine.standard g).openContext s d limits = .ok (c, s')) : s'.Sound g := by
  have hgrows := Grows.opened h
  obtain ⟨n, hk⟩ := context?_opened h
  refine hs.of_accumulators hgrows ?_ ?_ ?_ ?_
  · intro k x hx
    rw [hk] at hx
    split at hx
    · cases hx
      exact Memo.Table.valid_ofEstimate n
    · exact hs.valid k x hx
  · intro k d' hd'
    by_cases he : k = c
    · obtain ⟨-, m, rfl⟩ := Engine.openContext_eq h
      rw [he, Store.holds]
      exact List.elem_cons_self
    · rw [document?, hk, if_neg he] at hd'
      exact hgrows.holds k (hs.held k d' hd')
  · intro k p i id hp
    rwa [peek?_opened h] at hp
  · intro id a ha
    have hacc : s.accumulator? id = some a := by
      obtain ⟨-, m, rfl⟩ := Engine.openContext_eq h
      exact ha
    exact ⟨a, hacc, .refl a, fun d' _ hsound => hsound.mono hgrows⟩


section Looking

theorem Store.peek?_lookup {κ : Type} (s : Store κ) (c : ContextNumber) (p : ParserId) (i : Nat)
    (k : ContextNumber) (q : ParserId) (m : Nat) :
    (s.lookup c p i).2.peek? k q m = s.peek? k q m := by
  have hget (t : Memo.Table AccumulatorId) : (t.get? i p).2.peek? m q = t.peek? m q := by
    simp only [Memo.Table.get?]
    split <;> rfl
  rw [peek?, lookup, context?_modifyMemo, peek?]
  cases s.context? k with
  | none => split <;> rfl
  | some x =>
    split
    · simp only [Option.map_some, Option.bind_some, hget]
    · rfl

theorem Store.Sound.looked (hs : s.Sound g) (c : ContextNumber) (p : ParserId) (i : Nat) :
    (s.lookup c p i).2.Sound g := by
  have hgrows := s.lookup_grows c p i
  refine hs.of_accumulators hgrows (hs.valid.lookup c p i) ?_ ?_ ?_
  · intro k d hd
    rw [Store.lookup, document?_modifyMemo] at hd
    exact hgrows.holds k (hs.held k d hd)
  · intro k q m id hp
    rwa [peek?_lookup] at hp
  · intro id a ha
    have hacc : s.accumulator? id = some a :=
      (accumulator?_congr (accumulators_modifyMemo ..) id).symm.trans ha
    exact ⟨a, hacc, .refl a, fun d _ hsound => hsound.mono hgrows⟩

end Looking

/-- Whatever is reached is sound. -/
theorem Grammar.Reached.sound (hg : g.Closed) (h : g.Reached admits s) : s.Sound g := by
  induction h with
  | start => exact .start
  | opened _ hopen ih => exact ih.opened hopen
  | looked c p i _ ih => exact ih.looked c p i
  | requested _ hd _ _ ih => exact ((Machine.Sound.ofRequest ih hd _ _).1.run hg _).1.store

/-- A request leaves the document of its context where it is. -/
theorem Grammar.Reached.document_request (hg : g.Closed) (h : g.Reached admits s)
    (hd : s.document? c = some d) (p : ParserId) (i n : Nat) :
    (Machine.run (.standard g) n (.ofRequest s () c p i)).store.document? c = some d :=
  ((Machine.Sound.ofRequest (h.sound hg) hd p i).1.run hg n).1.document

section Invariants

variable {P : Machine Empty Unit → Prop}

/-- What each step preserves a run preserves. -/
theorem Machine.Sound.preserves (hg : g.Closed)
    (hstep : ∀ m, m.Sound g d c → P m → P (m.step (.standard g))) (n : Nat) :
    ∀ {m}, m.Sound g d c → P m → P (m.run (.standard g) n) := by
  induction n with
  | zero => exact fun _ h => h
  | succ n ih =>
    intro m hm h
    rw [Machine.run_succ]
    exact ih (hm.step hg).1 (hstep m hm h)

/-- What each step preserves, and new accumulators as well while nothing is to be done, is true of
whatever is reached. -/
theorem Grammar.Reached.invariant (hg : g.Closed) (hstart : P ⟨{}, (), []⟩)
    (hquiet : ∀ s s' js, s.Sound g → P ⟨s, (), []⟩ → s.Grows s' → Quiet s s' →
      (∀ j ∈ js, ∃ id, j = .start id) → P ⟨s', (), js⟩)
    (hstep : ∀ d c m, m.Sound g d c → P m → P (m.step (.standard g)))
    (h : g.Reached admits s) : P ⟨s, (), []⟩ := by
  induction h with
  | start => exact hstart
  | @opened s s' d limits c hreach hopen ih =>
    have hkept : Quiet s s' := by
      obtain ⟨-, n, rfl⟩ := Engine.openContext_eq hopen
      exact .of_eq rfl
    exact hquiet s s' [] (hreach.sound hg) ih (.opened hopen) hkept (by simp)
  | @looked s c p i hreach ih =>
    have hkept : Quiet s (s.lookup c p i).2 := .of_eq (accumulators_modifyMemo ..)
    exact hquiet s _ [] (hreach.sound hg) ih (s.lookup_grows c p i) hkept (by simp)
  | @requested s d c p i n hreach hd _ hrest ih =>
    have hs := hreach.sound hg
    obtain ⟨hsound, hgrows, -⟩ := Machine.Sound.ofRequest hs hd p i
    have hagenda : ∀ j ∈ (Machine.ofRequest s () c p i).agenda, ∃ id, j = .start id := by
      intro j hj
      simp only [Machine.ofRequest] at hj
      split at hj
      · exact ⟨_, List.mem_singleton.1 hj⟩
      · cases hj
    have hasked : P (.ofRequest s () c p i) :=
      hquiet s _ _ hs ih hgrows (Quiet.request s c p i) hagenda
    have hend := hsound.preserves hg (hstep d c) n hasked
    have heq : (Machine.ofRequest s () c p i).run (.standard g) n =
        ⟨((Machine.ofRequest s () c p i).run (.standard g) n).store, (), []⟩ := by
      rw [← hrest]
    rwa [heq] at hend

end Invariants

section Pairs

/-- A pair memoized after a job was memoized before, or the job asked for it. -/
theorem Job.peek?_perform (hs : s.Sound g) {w : Unit} {j : Job Empty} {k : ContextNumber}
    {q : ParserId} {m : Nat} {id : AccumulatorId}
    (h : (j.perform (.standard g) s w).1.peek? k q m = some id) :
    s.peek? k q m = some id ∨ ∃ next, j = .ask k q m next ∧ s.peek? k q m = none := by
  rcases j.perform_store (.standard g) s w with ⟨hc, -⟩ | ⟨c', p, i, next, -, hstore⟩ |
    ⟨c', p, i, next, rfl, hstore⟩
  · rw [Store.peek?_congr hc] at h
    exact .inl h
  · rw [hstore, Store.peek?_lookup] at h
    exact .inl h
  · rw [hstore] at h
    by_cases hc : (s.context? c').isSome
    · rw [hs.valid.peek?_request hc] at h
      split at h
      next he =>
        obtain ⟨rfl, rfl, rfl⟩ := he
        cases hp : s.peek? k q m with
        | some id' =>
          rw [(Store.request_old hp).1] at h
          exact .inl h
        | none => exact .inr ⟨next, rfl, rfl⟩
      next => exact .inl h
    · have hnone : s.context? c' = none := by simpa using hc
      rw [Store.request_astray hnone] at h
      exact .inl h

/-- Doing a job adds no pair but one that a memoized pair makes use of. -/
theorem Job.Sound.pairs (hs : s.Sound g) (hd : s.document? c = some d) {w : Unit} {j : Job Empty}
    (hj : j.Sound g d s c) {k : ContextNumber} {q : ParserId} {m : Nat} {id : AccumulatorId}
    (h : (j.perform (.standard g) s w).1.peek? k q m = some id) :
    s.peek? k q m = some id ∨
      k = c ∧ ∃ p i id', s.peek? c p i = some id' ∧ Requests g d (p, i) (q, m) := by
  rcases Job.peek?_perform hs h with hold | ⟨next, rfl, -⟩
  · exact .inl hold
  · obtain ⟨rfl, -, hserves⟩ := hj
    obtain ⟨p, i, hfor, hreq⟩ := hserves.requests hs hd
    exact .inr ⟨rfl, p, i, _, hs.isFor_iff.1 hfor, hreq⟩

/-- What is true of the memoized pairs of a context and of whatever such pairs make use of is true
of each pair that a run adds. -/
theorem Machine.Sound.pairs (hg : g.Closed) {P : ParserId × Nat → Prop}
    (hP : ∀ x y, Requests g d x y → P x → P y) (n : Nat) :
    ∀ {m : Machine Empty Unit}, m.Sound g d c →
      (∀ p i id, m.store.peek? c p i = some id → P (p, i)) →
      ∀ {k : ContextNumber} {q : ParserId} {i : Nat} {id : AccumulatorId},
        (Machine.run (.standard g) n m).store.peek? k q i = some id →
        m.store.peek? k q i = some id ∨ k = c ∧ P (q, i) := by
  induction n with
  | zero => exact fun _ _ _ _ _ _ h => .inl h
  | succ n ih =>
    intro m hm hpairs k q i id h
    have hstep {k : ContextNumber} {q : ParserId} {i : Nat} {id : AccumulatorId}
        (h : (m.step (.standard g)).store.peek? k q i = some id) :
        m.store.peek? k q i = some id ∨ k = c ∧ P (q, i) := by
      obtain ⟨s, w, js⟩ := m
      cases js with
      | nil => exact .inl h
      | cons j js =>
        have hj : j.Sound g d s c := hm.jobs j List.mem_cons_self
        rcases hj.pairs hm.store hm.document h with hold | ⟨rfl, p, i', id', hp, hreq⟩
        · exact .inl hold
        · exact .inr ⟨rfl, hP _ _ hreq (hpairs p i' id' hp)⟩
    rw [Machine.run_succ] at h
    have hpairs' (p : ParserId) (i : Nat) (id : AccumulatorId)
        (hp : (m.step (.standard g)).store.peek? c p i = some id) : P (p, i) := by
      rcases hstep hp with hold | ⟨-, hnew⟩
      · exact hpairs p i id hold
      · exact hnew
    rcases ih (hm.step hg).1 hpairs' h with hnow | hlater
    · exact hstep hnow
    · exact .inr hlater

theorem Store.document_of_peek {κ : Type} {s : Store κ} {p : ParserId} {i : Nat}
    {id : AccumulatorId} (h : s.peek? c p i = some id) : ∃ d, s.document? c = some d := by
  obtain ⟨x, hx, -⟩ := peek?_eq_some_iff.1 h
  exact ⟨x.document, by rw [document?, hx]; rfl⟩

/-- A pair of the store before has its document there already. -/
theorem Store.Grows.document_of_peek (h : s.Grows s') {p : ParserId} {i : Nat} {id : AccumulatorId}
    (hp : s.peek? c p i = some id) (hd : s'.document? c = some d) : s.document? c = some d := by
  obtain ⟨d', hd'⟩ := Store.document_of_peek hp
  rw [h.document hd'] at hd
  rwa [← hd]

/-- What is true of all pairs that are admitted and of whatever such pairs make use of is true of
all memoized pairs. -/
theorem Grammar.Reached.forall_pairs (hg : g.Closed) {P : Document → ParserId × Nat → Prop}
    (hP : ∀ d x y, Requests g d x y → P d x → P d y) (hadm : ∀ d p i, admits d p i → P d (p, i))
    (h : g.Reached admits s) : ∀ {c : ContextNumber} {d : Document} {p : ParserId} {i : Nat}
      {id : AccumulatorId}, s.document? c = some d → s.peek? c p i = some id → P d (p, i) := by
  induction h with
  | start =>
    intro c d p i id hd hp
    cases c <;> simp [Store.peek?, Store.context?] at hp
  | opened _ hopen ih =>
    intro c d p i id hd hp
    rw [Store.peek?_opened hopen] at hp
    exact ih ((Store.Grows.opened hopen).document_of_peek hp hd) hp
  | @looked s c' q k _ ih =>
    intro c d p i id hd hp
    rw [Store.peek?_lookup] at hp
    exact ih ((s.lookup_grows c' q k).document_of_peek hp hd) hp
  | @requested s d' c' q k n hreach hd' hask _ ih =>
    intro c d p i id hd hp
    obtain ⟨hsound, hgrows, -⟩ := Machine.Sound.ofRequest (hreach.sound hg) hd' q k
    obtain ⟨-, hgrows'⟩ := hsound.run hg n
    have hc := Store.isSome_context hd'
    have hasked {c : ContextNumber} {d : Document} {p : ParserId} {i : Nat} {id : AccumulatorId}
        (hd : (Machine.ofRequest s () c' q k).store.document? c = some d)
        (hp : (Machine.ofRequest s () c' q k).store.peek? c p i = some id) : P d (p, i) := by
      have hmem := hp
      rw [Machine.ofRequest, (hreach.sound hg).valid.peek?_request hc] at hmem
      split at hmem
      next he =>
        obtain ⟨rfl, rfl, rfl⟩ := he
        rw [hgrows.document hd'] at hd
        cases hd
        exact hadm _ _ _ hask
      next => exact ih (hgrows.document_of_peek hmem hd) hmem
    have hold (p : ParserId) (i : Nat) (id : AccumulatorId)
        (hp : (Machine.ofRequest s () c' q k).store.peek? c' p i = some id) : P d' (p, i) :=
      hasked (hgrows.document hd') hp
    rcases hsound.pairs hg (hP d') n hold hp with hp | ⟨rfl, hnew⟩
    · exact hasked (hgrows'.document_of_peek hp hd) hp
    · rw [(hgrows.trans hgrows').document hd'] at hd
      cases hd
      exact hnew

/-- Memoized are only pairs that were admitted and pairs within the grammar and the document. -/
theorem Grammar.Reached.pairs (hg : g.Closed) (h : g.Reached admits s)
    (hd : s.document? c = some d) {p : ParserId} {i : Nat} {id : AccumulatorId}
    (hp : s.peek? c p i = some id) : admits d p i ∨ g.Covers d p i :=
  h.forall_pairs hg (P := fun d x => admits d x.1 x.2 ∨ g.Covers d x.1 x.2)
    (fun _ _ _ hreq _ => .inr (hreq.covers hg).1) (fun _ _ _ hadm => .inl hadm) hd hp

end Pairs

end PushParsing
