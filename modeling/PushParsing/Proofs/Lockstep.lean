import PushParsing.Proofs.Targets
import PushParsing.Proofs.Twins

/-!
# In lockstep

Two machines that begin alike go on alike, step by step, whenever they are stopped. Moreover, what is
done in one context leaves all others as they are.
-/
namespace PushParsing

variable {g : Grammar Empty} {d : Document} {s s' t t' : Store Empty} {c c' k : ContextNumber}
  {δ : Nat} {m m' : Machine Empty Unit}

section Numbers

/-- Listeners have numbers that were handed out, and only the first job may register one. -/
structure Machine.Orderly (m : Machine Empty Unit) : Prop where
  bound : ∀ id a, m.store.accumulator? id = some a → ∀ l ∈ a.listeners, l.id < m.store.listenerCount
  first : ∀ j ∈ m.agenda.head?, j.Unheard m.store
  rest : ∀ j ∈ m.agenda.tail, ∀ id l, j ≠ .operate (.listen id l)

theorem Machine.Orderly.start : Machine.Orderly ⟨{}, (), []⟩ where
  bound id a ha := by simp [Store.accumulator?] at ha
  first j hj := by cases hj
  rest j hj := by cases hj

/-- Other jobs than to register listeners may stand on the agenda in any order. -/
theorem Machine.Orderly.of_bound {js : List (Job Empty)}
    (hb : ∀ id a, s.accumulator? id = some a → ∀ l ∈ a.listeners, l.id < s.listenerCount)
    (hjs : ∀ j ∈ js, ∀ id l, j ≠ .operate (.listen id l)) : Machine.Orderly ⟨s, (), js⟩ where
  bound := hb
  first j hj source l he := absurd he (hjs j (List.mem_of_mem_head? hj) source l)
  rest j hj := hjs j (List.mem_of_mem_tail hj)

/-- The step lemma for the numbers of listeners. -/
theorem Machine.Orderly.step (h : m.Orderly) : (m.step (.standard g)).Orderly := by
  obtain ⟨s, w, js⟩ := m
  cases js with
  | nil => exact h
  | cons j js =>
    have hle := Job.listenerCount_le (s := s) (g := g) w j
    have hbound (id : AccumulatorId) (b : Accumulator Empty)
        (hb : (j.perform (.standard g) s w).1.accumulator? id = some b) (l : Listener Empty)
        (hl : l ∈ b.listeners) : l.id < (j.perform (.standard g) s w).1.listenerCount := by
      refine Nat.lt_of_lt_of_le ?_ hle
      rcases (j.effect (.standard g) s w).listening hb hl with ⟨a, ha, hl⟩ | hev
      · exact h.bound id a ha l hl
      · exact (h.first j rfl id l (Job.eq_listen_of_event hev)).1
    by_cases hw : ∃ source role, j = .operate (.watch source role)
    · -- the listener gets the next number and is registered at once
      obtain ⟨source, role, rfl⟩ := hw
      refine ⟨hbound, ?_, h.rest⟩
      rintro _ ⟨⟩ _ _ ⟨⟩
      exact ⟨Nat.lt_succ_self _, fun id a ha l hl => Nat.ne_of_lt (h.bound id a ha l hl)⟩
    · refine .of_bound hbound fun k hk id l he => ?_
      subst he
      rcases List.mem_append.1 hk with hk | hk
      · obtain ⟨role, rfl, -⟩ := Job.watch_of_listen hk
        exact hw ⟨id, role, rfl⟩
      · exact h.rest _ hk id l rfl

end Numbers

section Alike

/-- Two machines do the same, each in its own context. -/
structure Machine.Lockstep (g : Grammar Empty) (c c' : ContextNumber) (δ : Nat)
    (m m' : Machine Empty Unit) : Prop where
  alike : m.store.Alike m'.store c c' δ
  agenda : List.Forall₂ (Job.Alike m.store m'.store c c' δ) m.agenda m'.agenda
  sound : ∃ d, m.Sound g d c
  sound' : ∃ d, m'.Sound g d c'
  orderly : m.Orderly
  orderly' : m'.Orderly

/-- The step lemma. -/
theorem Machine.Lockstep.step (hg : g.Closed) (h : Machine.Lockstep g c c' δ m m') :
    Machine.Lockstep g c c' δ (m.step (.standard g)) (m'.step (.standard g)) := by
  obtain ⟨halike, hagenda, ⟨d, hm⟩, ⟨d', hm'⟩, ho, ho'⟩ := h
  obtain ⟨hstep, hgrows⟩ := hm.step hg
  obtain ⟨hstep', hgrows'⟩ := hm'.step hg
  obtain ⟨s, w, js⟩ := m
  obtain ⟨s', w', js'⟩ := m'
  cases hagenda with
  | nil => exact ⟨halike, .nil, ⟨d, hstep⟩, ⟨d', hstep'⟩, ho.step, ho'.step⟩
  | cons hjj hjjs =>
    obtain ⟨hstore, hjobs⟩ := hjj.perform hm.store hm'.store halike
      (hm.jobs _ List.mem_cons_self) (ho.first _ rfl) (ho'.first _ rfl)
    exact ⟨hstore, List.rel_append hjobs (hjjs.imp fun _ _ hk => hk.mono hgrows hgrows'),
      ⟨d, hstep⟩, ⟨d', hstep'⟩, ho.step, ho'.step⟩

/-- The run lemma. -/
theorem Machine.Lockstep.run (hg : g.Closed) (n : Nat) :
    ∀ {m m' : Machine Empty Unit}, Machine.Lockstep g c c' δ m m' →
      Machine.Lockstep g c c' δ (Machine.run (.standard g) n m)
        (Machine.run (.standard g) n m') := by
  induction n with
  | zero => exact fun h => h
  | succ n ih =>
    intro m m' h
    rw [Machine.run_succ, Machine.run_succ]
    exact ih (h.step hg)

end Alike

section Frame

/-- All contexts but the given one are as they were, with their accumulators. -/
structure Store.Confined (k : ContextNumber) (s t : Store Empty) : Prop where
  context : ∀ c, c ≠ k → t.context? c = s.context? c
  accumulator : ∀ id a, s.accumulator? id = some a → a.context ≠ k → t.accumulator? id = some a

theorem Store.Confined.refl (k : ContextNumber) (s : Store Empty) : s.Confined k s :=
  ⟨fun _ _ => rfl, fun _ _ ha _ => ha⟩

theorem Store.Confined.trans {u : Store Empty} (h : Store.Confined k s t)
    (h' : Store.Confined k t u) : Store.Confined k s u where
  context c hc := (h'.context c hc).trans (h.context c hc)
  accumulator id a ha hc := h'.accumulator id a (h.accumulator id a ha hc) hc

theorem Store.Confined.of_modifyMemo {f : Memo.Table AccumulatorId → Memo.Table AccumulatorId}
    (hc : t.contexts = (s.modifyMemo k f).contexts)
    (ha : ∀ id a, s.accumulator? id = some a → t.accumulator? id = some a) :
    Store.Confined k s t where
  context c hne := by rw [context?_congr hc, context?_modifyMemo, if_neg hne]
  accumulator id a hid _ := ha id a hid

theorem Store.Confined.request (s : Store Empty) (p : ParserId) (i : Nat) :
    Store.Confined k s (s.request k p i).2.2 := by
  cases hk : s.context? k with
  | none =>
    rw [Store.request_astray hk]
    exact .refl k s
  | some x =>
    have hsome : s.peek? k p i = none → (s.context? k).isSome := fun _ => by rw [hk]; rfl
    exact .of_modifyMemo (Store.contexts_request hsome) (Quiet.request s k p i).kept

theorem Store.Confined.lookup (s : Store Empty) (p : ParserId) (i : Nat) :
    Store.Confined k s (s.lookup k p i).2 :=
  .of_modifyMemo rfl fun id _ ha => (accumulator?_congr (accumulators_modifyMemo ..) id).trans ha

theorem Store.Confined.opened {limits : Limits}
    (ho : (Engine.standard g).openContext s d limits = .ok (k, t)) : Store.Confined k s t where
  context c hc := by
    obtain ⟨n, hcontext⟩ := Store.context?_opened ho
    rw [hcontext, if_neg hc]
  accumulator id a ha _ := by
    obtain ⟨-, n, rfl⟩ := Engine.openContext_eq ho
    exact ha

/-- The step lemma: a job done on behalf of one context leaves the others alone. -/
theorem Job.Sound.confined (hs : s.Sound g) (hd : s.document? k = some d) {j : Job Empty}
    (hj : j.Sound g d s k) : Store.Confined k s (j.perform (.standard g) s ()).1 where
  context c hc := by
    rcases j.perform_store (.standard g) s () with ⟨hcontexts, -⟩ | ⟨c', p, i, next, -, -⟩ |
      ⟨c', p, i, next, rfl, hstore⟩
    · exact Store.context?_congr hcontexts c
    · exact next.elim
    · obtain ⟨rfl, -⟩ := hj
      rw [hstore]
      exact (Store.Confined.request s p i).context c hc
  accumulator id a ha hc := by
    have heffect := j.effect (.standard g) s ()
    obtain ⟨b, hb⟩ := heffect.stays ha
    have hleaves := heffect.leaves hb
    generalize hev : j.event? s = ev at hleaves
    generalize (j.perform (.standard g) s ()).2.2 = js at hleaves
    cases hleaves with
    | kept hold =>
      cases ha.symm.trans hold
      exact hb
    | made _ _ _ hnone => cases ha.symm.trans hnone
    | recorded =>
      -- what is recorded is recorded on behalf of the other context
      obtain ⟨p, i, a', ha', hc', -⟩ := hj.isFor_target hs hd
      rw [Job.target_of_recorded hev, ha] at ha'
      cases ha'
      exact absurd hc' hc
    | registered =>
      obtain rfl := Job.eq_listen_of_event hev
      obtain ⟨q, m, ⟨a', ha', hc', -⟩, -⟩ := hj
      cases ha.symm.trans ha'
      exact absurd hc' hc

/-- The run lemma. -/
theorem Machine.Sound.confined (hg : g.Closed) (hm : m.Sound g d k) (n : Nat) :
    Store.Confined k m.store (Machine.run (.standard g) n m).store := by
  refine hm.preserves hg (P := fun x => Store.Confined k m.store x.store) ?_ n (.refl k m.store)
  intro x hx h
  obtain ⟨s, w, js⟩ := x
  cases js with
  | nil => exact h
  | cons j js => exact h.trans ((hx.jobs j List.mem_cons_self).confined hx.store hx.document)

/-- What is done elsewhere leaves contexts alike. -/
theorem Store.Alike.confined (h : s.Alike s' c c' δ) (hs' : s'.Sound g) (ht' : t'.Sound g)
    (hgrows : s'.Grows t') (hk : Store.Confined k s' t') (hne : c' ≠ k) : s.Alike t' c c' δ where
  context := by
    obtain ⟨x, x', hx, hx', hrest⟩ := h.context
    exact ⟨x, x', hx, (hk.context c' hne).trans hx', hrest⟩
  accumulator id id' a a' ht ha ha' := by
    obtain ⟨p, i, hid, hid'⟩ := ht
    have hpeek : s'.peek? c' p (i + δ) = some id' := by
      rw [Store.peek?, ← hk.context c' hne]
      exact ht'.isFor_iff.1 hid'
    have htwins : Twins s s' c c' δ id id' := ⟨p, i, hid, hs'.isFor_iff.2 hpeek⟩
    obtain ⟨b, hb, hc, -⟩ := hs'.known c' p (i + δ) id' hpeek
    cases (hk.accumulator id' b hb (hc ▸ hne)).symm.trans ha'
    exact (h.accumulator id id' a a' htwins ha hb).mono (.refl s) hgrows

end Frame

section Requests

/-- A store at rest that further requests may be made to. -/
structure Store.Fit (g : Grammar Empty) (s : Store Empty) : Prop where
  sound : s.Sound g
  bound : ∀ id a, s.accumulator? id = some a → ∀ l ∈ a.listeners, l.id < s.listenerCount

theorem Store.Fit.start : ({} : Store Empty).Fit g :=
  ⟨.start, Machine.Orderly.start.bound⟩

theorem Store.Fit.opened {limits : Limits} (hs : s.Fit g)
    (ho : (Engine.standard g).openContext s d limits = .ok (k, t)) : t.Fit g where
  sound := hs.sound.opened ho
  bound := by
    obtain ⟨-, n, rfl⟩ := Engine.openContext_eq ho
    exact hs.bound

theorem Store.Fit.lookup (hs : s.Fit g) (c : ContextNumber) (p : ParserId) (i : Nat) :
    (s.lookup c p i).2.Fit g where
  sound := hs.sound.looked c p i
  bound id a ha := by
    rw [Store.lookup, Store.listenerCount_modifyMemo]
    exact hs.bound id a ((accumulator?_congr (accumulators_modifyMemo ..) id).symm.trans ha)

theorem Machine.Orderly.ofRequest (hs : s.Fit g) (c : ContextNumber) (p : ParserId) (i : Nat) :
    (Machine.ofRequest s () c p i).Orderly := by
  have hbound (id : AccumulatorId) (a : Accumulator Empty)
      (ha : (s.request c p i).2.2.accumulator? id = some a) (l : Listener Empty)
      (hl : l ∈ a.listeners) : l.id < (s.request c p i).2.2.listenerCount := by
    rw [Store.listenerCount_request]
    rcases (Quiet.request s c p i).cases ha with ha | ⟨-, -, -, hnil⟩
    · exact hs.bound id a ha l hl
    · rw [hnil] at hl
      cases hl
  have hjobs (j : Job Empty) (hj : j ∈ (Machine.ofRequest s () c p i).agenda) (id : AccumulatorId)
      (l : Listener Empty) : j ≠ .operate (.listen id l) := by
    rintro rfl
    simp only [Machine.ofRequest] at hj
    split at hj <;> simp at hj
  have horderly : Machine.Orderly
      ⟨(s.request c p i).2.2, (), (Machine.ofRequest s () c p i).agenda⟩ := .of_bound hbound hjobs
  exact horderly

/-- A request leaves a store that further ones may be made to, and other contexts alone. -/
theorem Store.Fit.request (hg : g.Closed) (hs : s.Fit g) (hd : s.document? k = some d)
    (p : ParserId) (i n : Nat) :
    (Machine.run (.standard g) n (.ofRequest s () k p i)).store.Fit g ∧
      s.Grows (Machine.run (.standard g) n (.ofRequest s () k p i)).store ∧
      Store.Confined k s (Machine.run (.standard g) n (.ofRequest s () k p i)).store := by
  obtain ⟨hm, hgrows, -⟩ := Machine.Sound.ofRequest hs.sound hd p i
  obtain ⟨hend, hgrows'⟩ := hm.run hg n
  have horderly := hm.preserves hg (P := Machine.Orderly) (fun _ _ ho => ho.step) n
    (Machine.Orderly.ofRequest hs k p i)
  exact ⟨⟨hend.store, horderly.bound⟩, hgrows.trans hgrows',
    (Store.Confined.request s p i).trans (hm.confined hg n)⟩

/-- Further requests may be made to whatever is reached. -/
theorem Grammar.Reached.fit {admits : Document → ParserId → Nat → Prop} (hg : g.Closed)
    (h : g.Reached admits s) : s.Fit g := by
  induction h with
  | start => exact .start
  | opened _ ho ih => exact ih.opened ho
  | looked c p i _ ih => exact ih.lookup c p i
  | requested _ hd _ _ ih => exact (ih.request hg hd _ _ _).1

/-- Requests for one pair to contexts alike begin alike. -/
theorem Machine.Lockstep.ofRequest (hs : s.Fit g) (hs' : s'.Fit g) (h : s.Alike s' c c' δ)
    (p : ParserId) (i : Nat) : Machine.Lockstep g c c' δ (.ofRequest s () c p i)
      (.ofRequest s' () c' p (i + δ)) := by
  obtain ⟨hnew, ht, halike⟩ := h.request hs.sound hs'.sound p i
  obtain ⟨x, x', hx, hx', -⟩ := h.context
  have hd : s.document? c = some x.document := by rw [Store.document?, hx]; rfl
  have hd' : s'.document? c' = some x'.document := by rw [Store.document?, hx']; rfl
  refine ⟨halike, ?_, ⟨_, (Machine.Sound.ofRequest hs.sound hd p i).1⟩,
    ⟨_, (Machine.Sound.ofRequest hs'.sound hd' p (i + δ)).1⟩, .ofRequest hs c p i,
    .ofRequest hs' c' p (i + δ)⟩
  simp only [Machine.ofRequest, hnew]
  split
  · exact .cons (.start ht) .nil
  · exact .nil

end Requests

end PushParsing
