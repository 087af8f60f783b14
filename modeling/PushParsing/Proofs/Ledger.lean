import PushParsing.Proofs.Effects
import PushParsing.Proofs.Reach
import PushParsing.Proofs.Steps

/-!
# Ledgers

A ledger tells which jobs of a standard engine were done. What such a job called for was done too,
or it is on the agenda still; the same is true of the start of every parser and of the telling of
every tree to every listener. So once the agenda is empty, the jobs done are closed under all their
consequences.
-/
namespace PushParsing

section Numbers

variable {s : Store Empty} {js : List (Job Empty)}

/-- A listener that is registered somewhere, or will be. -/
def Known (s : Store Empty) (js : List (Job Empty)) (l : Listener Empty) : Prop :=
  (∃ id a, s.accumulator? id = some a ∧ l ∈ a.listeners) ∨ ∃ id, .operate (.listen id l) ∈ js

/-- Listeners have numbers that were handed out, and two of one number do the same. -/
structure Numbered (s : Store Empty) (js : List (Job Empty)) : Prop where
  bound : ∀ l, Known s js l → l.id < s.listenerCount
  one : ∀ l l', Known s js l → Known s js l' → l.id = l'.id → l.role = l'.role

/-- Only to watch calls for a listener to be registered, one that is made for the purpose. -/
theorem Job.watch_of_listen {g : Grammar Empty} {w : Unit} {j : Job Empty} {id : AccumulatorId}
    {l : Listener Empty} (h : .operate (.listen id l) ∈ (j.perform (.standard g) s w).2.2) :
    ∃ role, j = .operate (.watch id role) ∧ l = ⟨s.listenerCount, role⟩ := by
  cases Job.callsFor h with
  | code code _ => exact code.elim
  | listen => exact ⟨_, rfl, rfl⟩

theorem Job.listenerCount_le {g : Grammar Empty} (w : Unit) (j : Job Empty) :
    s.listenerCount ≤ (j.perform (.standard g) s w).1.listenerCount := by
  rcases j.perform_store (.standard g) s w with ⟨-, -, hle⟩ | ⟨c, p, i, next, -, hstore⟩ |
    ⟨c, p, i, next, -, hstore⟩
  · exact hle
  · rw [hstore]
    exact Nat.le_of_eq (Store.listenerCount_modifyMemo ..).symm
  · rw [hstore]
    exact Nat.le_of_eq Store.listenerCount_request.symm

/-- The step lemma for numbers. -/
theorem Numbered.step {g : Grammar Empty} {w : Unit} {j : Job Empty}
    (h : Numbered s (j :: js)) :
    Numbered (j.perform (.standard g) s w).1 ((j.perform (.standard g) s w).2.2 ++ js) := by
  have hle := Job.listenerCount_le (s := s) (g := g) w j
  have hknown (l : Listener Empty)
      (hl : Known (j.perform (.standard g) s w).1 ((j.perform (.standard g) s w).2.2 ++ js) l) :
      Known s (j :: js) l ∨ ∃ id role, j = .operate (.watch id role) ∧ l = ⟨s.listenerCount, role⟩ := by
    rcases hl with ⟨id, a, ha, hl⟩ | ⟨id, hl⟩
    · rcases (j.effect (.standard g) s w).listening ha hl with hold | hev
      · exact .inl (.inl ⟨id, hold⟩)
      · exact .inl (.inr ⟨id, Job.eq_listen_of_event hev ▸ List.mem_cons_self⟩)
    · rcases List.mem_append.1 hl with hl | hl
      · obtain ⟨role, hw⟩ := Job.watch_of_listen hl
        exact .inr ⟨id, role, hw⟩
      · exact .inl (.inr ⟨id, List.mem_cons_of_mem _ hl⟩)
  constructor
  · intro l hl
    rcases hknown l hl with hl | ⟨id, role, rfl, rfl⟩
    · exact Nat.lt_of_lt_of_le (h.bound l hl) hle
    · exact Nat.lt_succ_self _
  · intro l l' hl hl' he
    rcases hknown l hl with hl | ⟨id, role, rfl, rfl⟩
    · rcases hknown l' hl' with hl' | ⟨id', role', rfl, rfl⟩
      · exact h.one l l' hl hl' he
      · have hlt := h.bound l hl
        simp only at he
        omega
    · rcases hknown l' hl' with hl' | ⟨id', role', heq, rfl⟩
      · have hlt := h.bound l' hl'
        simp only at he
        omega
      · cases heq
        rfl

end Numbers

variable {g : Grammar Empty} {d : Document} {s s' : Store Empty} {c : ContextNumber}
  {js : List (Job Empty)} {done : Job Empty → Prop}

/-- A sound job was done at some time before, and all that it called for was done or is to do. -/
def Job.Met (g : Grammar Empty) (s : Store Empty) (due : Job Empty → Prop) (j : Job Empty) : Prop :=
  ∃ s₀ c d, s₀.Sound g ∧ s₀.document? c = some d ∧ j.Sound g d s₀ c ∧
    (j.perform (.standard g) s₀ ()).1.Grows s ∧ ∀ k ∈ (j.perform (.standard g) s₀ ()).2.2, due k

/-- What the jobs done say about a store and what is on the agenda. -/
structure Ledger (g : Grammar Empty) (s : Store Empty) (js : List (Job Empty))
    (done : Job Empty → Prop) : Prop where
  met : ∀ j, done j → j.Met g s fun k => done k ∨ k ∈ js
  begun : ∀ id a, s.accumulator? id = some a → done (.start id) ∨ .start id ∈ js
  heard : ∀ id a, s.accumulator? id = some a → ∀ l ∈ a.listeners, ∀ t ∈ a.trees,
    done (.tell l id (.found t)) ∨ .tell l id (.found t) ∈ js
  listening : ∀ id l, done (.operate (.listen id l)) →
    ∃ a, s.accumulator? id = some a ∧ ∃ l' ∈ a.listeners, l'.role = l.role
  numbered : Numbered s js

theorem Job.Met.mono {due due' : Job Empty → Prop} {j : Job Empty} (h : j.Met g s due)
    (hs : s.Grows s') (hd : ∀ k, due k → due' k) : j.Met g s' due' := by
  obtain ⟨s₀, c, d, hsound, hdoc, hj, hgrows, hjobs⟩ := h
  exact ⟨s₀, c, d, hsound, hdoc, hj, hgrows.trans hs, fun k hk => hd k (hjobs k hk)⟩

theorem Ledger.start : Ledger g {} [] fun _ => False where
  met _ h := h.elim
  begun id a ha := by simp [Store.accumulator?] at ha
  heard id a ha := by simp [Store.accumulator?] at ha
  listening _ _ h := h.elim
  numbered := by
    have hnone (l : Listener Empty) : ¬Known ({} : Store Empty) [] l := by
      simp [Known, Store.accumulator?]
    exact ⟨fun l hl => absurd hl (hnone l), fun l _ hl => absurd hl (hnone l)⟩

/-- Nothing changes for a ledger as long as accumulators do not. -/
theorem Ledger.still (h : Ledger g s js done) (hs : s.Grows s')
    (ha : s'.accumulators = s.accumulators) (hn : s'.listenerCount = s.listenerCount) :
    Ledger g s' js done where
  met j hj := (h.met j hj).mono hs fun _ hk => hk
  begun id a hid := h.begun id a (by rwa [accumulator?_congr ha] at hid)
  heard id a hid := h.heard id a (by rwa [accumulator?_congr ha] at hid)
  listening id l hl := by
    rw [accumulator?_congr ha]
    exact h.listening id l hl
  numbered := by
    have hknown (l : Listener Empty) (hl : Known s' js l) : Known s js l := by
      rcases hl with ⟨id, a, hid, hl⟩ | hl
      · exact .inl ⟨id, a, by rwa [accumulator?_congr ha] at hid, hl⟩
      · exact .inr hl
    refine ⟨fun l hl => ?_, fun l l' hl hl' => h.numbered.one l l' (hknown l hl) (hknown l' hl')⟩
    rw [hn]
    exact h.numbered.bound l (hknown l hl)

/-- The step lemma: the job done is entered, and what it calls for is on the agenda. -/
theorem Ledger.step {w : Unit} {j : Job Empty} (hs : s.Sound g) (hd : s.document? c = some d)
    (hj : j.Sound g d s c) (h : Ledger g s (j :: js) done) :
    Ledger g (j.perform (.standard g) s w).1 ((j.perform (.standard g) s w).2.2 ++ js)
      (fun k => done k ∨ k = j) := by
  have hgrows := hs.grows_perform j w
  have heffect := j.effect (.standard g) s w
  have hdue (k : Job Empty) (hk : done k ∨ k ∈ j :: js) :
      (done k ∨ k = j) ∨ k ∈ (j.perform (.standard g) s w).2.2 ++ js := by
    rcases hk with hk | hk
    · exact .inl (.inl hk)
    · rcases List.mem_cons.1 hk with rfl | hk
      · exact .inl (.inr rfl)
      · exact .inr (List.mem_append_right _ hk)
  refine ⟨?_, ?_, ?_, ?_, h.numbered.step⟩
  · intro k hk
    rcases hk with hk | rfl
    · exact (h.met k hk).mono hgrows hdue
    · refine ⟨s, c, d, hs, hd, hj, .refl _, ?_⟩
      intro x hx
      exact .inr (List.mem_append_left _ hx)
  · intro id a ha
    rcases heffect.begun ha with ⟨b, hb⟩ | hstart
    · exact hdue _ (h.begun id b hb)
    · exact .inr (List.mem_append_left _ hstart)
  · intro id a ha l hl t ht
    rcases heffect.heard ha hl ht with ⟨b, hb, hl, ht⟩ | htell
    · exact hdue _ (h.heard id b hb l hl t ht)
    · exact .inr (List.mem_append_left _ htell)
  · intro id l hl
    rcases hl with hl | rfl
    · obtain ⟨a, ha, l', hl', hr⟩ := h.listening id l hl
      obtain ⟨b, hb, he⟩ := hgrows.accumulator id a ha
      exact ⟨b, hb, l', he.listeners.subset hl', hr⟩
    · obtain ⟨q, k, hq, -⟩ := hj
      obtain ⟨a, ha, -⟩ := hq
      simp only [Job.perform, Operation.perform, ha, Accumulator.addListener?_eq]
      by_cases hany : a.listeners.any (·.id == l.id)
      · -- the number is taken, by a listener that does the same
        rw [if_pos hany]
        obtain ⟨l', hl', he⟩ := List.any_eq_true.1 hany
        have hknown : Known s (.operate (.listen id l) :: js) l' := .inl ⟨id, a, ha, hl'⟩
        have hself : Known s (.operate (.listen id l) :: js) l := .inr ⟨id, List.mem_cons_self⟩
        exact ⟨a, ha, l', hl', h.numbered.one l' l hknown hself (beq_iff_eq.1 he)⟩
      · rw [if_neg hany]
        refine ⟨a.register l, ?_, l, List.mem_append_right _ (List.mem_singleton.2 rfl), rfl⟩
        rw [accumulator?_modify ha rfl, if_pos rfl]

theorem Ledger.run (hg : g.Closed) (n : Nat) :
    ∀ {m : Machine Empty Unit} {done : Job Empty → Prop}, m.Sound g d c →
      Ledger g m.store m.agenda done → ∃ done', Ledger g (Machine.run (.standard g) n m).store
        (Machine.run (.standard g) n m).agenda done' := by
  induction n with
  | zero => exact fun _ h => ⟨_, h⟩
  | succ n ih =>
    intro m done hm h
    rw [Machine.run_succ]
    have hstep := (hm.step hg).1
    obtain ⟨s, w, js⟩ := m
    cases js with
    | nil => exact ih hstep h
    | cons j js =>
      exact ih hstep (h.step hm.store hm.document (hm.jobs j List.mem_cons_self))

/-- A request from outside enters nothing, but the start of a new parser is on the agenda. -/
theorem Ledger.ofRequest (hs : s.Sound g) (h : Ledger g s [] done) (c : ContextNumber)
    (p : ParserId) (i : Nat) : Ledger g (Machine.ofRequest s () c p i).store
      (Machine.ofRequest s () c p i).agenda done := by
  have hgrows : s.Grows (s.request c p i).2.2 := hs.valid.request_grows
  have hquiet := Quiet.request s c p i
  cases hc : s.context? c with
  | none =>
    simp only [Machine.ofRequest, Store.request_astray hc]
    exact h
  | some x =>
    cases hp : s.peek? c p i with
    | some id =>
      obtain ⟨-, hnew, hacc⟩ := Store.request_old hp
      simp only [Machine.ofRequest, hnew]
      exact h.still hgrows hacc Store.listenerCount_request
    | none =>
      obtain ⟨hid, hnew, hacc⟩ := Store.request_new hp (by rw [hc]; rfl)
      simp only [Machine.ofRequest, hnew, if_true]
      have hknown (l : Listener Empty)
          (hl : Known (s.request c p i).2.2 [.start (s.request c p i).1] l) : Known s [] l := by
        rcases hl with ⟨id, a, ha, hl⟩ | ⟨id, hl⟩
        · rcases hquiet.cases ha with ha | ⟨-, -, -, hnil⟩
          · exact .inl ⟨id, a, ha, hl⟩
          · rw [hnil] at hl
            cases hl
        · simp at hl
      refine ⟨?_, ?_, ?_, ?_, ?_⟩
      · intro j hj
        refine (h.met j hj).mono hgrows fun k hk => ?_
        exact .inl (hk.resolve_right (by simp))
      · intro id a ha
        rw [accumulator?_push hacc] at ha
        split at ha
        next he => exact .inr (by rw [he, hid]; exact List.mem_singleton.2 rfl)
        next => exact .inl ((h.begun id a ha).resolve_right (by simp))
      · intro id a ha l hl t ht
        rcases hquiet.cases ha with ha | ⟨-, -, -, hnil⟩
        · exact .inl ((h.heard id a ha l hl t ht).resolve_right (by simp))
        · rw [hnil] at hl
          cases hl
      · intro id l hl
        obtain ⟨a, ha, hl'⟩ := h.listening id l hl
        exact ⟨a, hquiet.kept id a ha, hl'⟩
      · refine ⟨fun l hl => ?_, fun l l' hl hl' => ?_⟩
        · rw [Store.listenerCount_request]
          exact h.numbered.bound l (hknown l hl)
        · exact h.numbered.one l l' (hknown l hl) (hknown l' hl')

theorem Grammar.Reached.ledger {admits : Document → ParserId → Nat → Prop} (hg : g.Closed)
    (h : g.Reached admits s) : ∃ done, Ledger g s [] done := by
  induction h with
  | start => exact ⟨_, .start⟩
  | opened hreach hopen ih =>
    obtain ⟨done, h⟩ := ih
    obtain ⟨-, n, rfl⟩ := Engine.openContext_eq hopen
    exact ⟨done, h.still (.opened hopen) rfl rfl⟩
  | looked c p i hreach ih =>
    obtain ⟨done, h⟩ := ih
    exact ⟨done, h.still (Store.lookup_grows _ c p i) (accumulators_modifyMemo ..)
      (Store.listenerCount_modifyMemo ..)⟩
  | requested hreach hd hadm hrest ih =>
    obtain ⟨done, h⟩ := ih
    have hs := hreach.sound hg
    obtain ⟨done', h'⟩ := Ledger.run hg _ (Machine.Sound.ofRequest hs hd _ _).1
      (h.ofRequest hs _ _ _)
    rw [hrest] at h'
    exact ⟨done', h'⟩

end PushParsing
