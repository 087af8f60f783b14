import PushParsing.Proofs.Completeness
import PushParsing.Proofs.Targets

/-!
# The furthest failure

A listener is not told of the failures that were recorded before it came. Instead the best failure
is carried over right after its registration, so the furthest position at which a pair fails comes
to all pairs that make use of it, whichever was asked for first.
-/
namespace PushParsing

open Relation

variable {g : Grammar Empty} {d : Document} {s s' : Store Empty} {c : ContextNumber}
  {js ks : List (Job Empty)} {j k : Job Empty} {id source target : AccumulatorId} {n : Nat}
  {done : Job Empty → Prop}

/-- A pair fails by itself: its parser is a terminal or a choice without alternatives, and it
matches nothing there. -/
inductive Grammar.Fails (g : Grammar Empty) (d : Document) (p : ParserId) (i : Nat) : Cause → Prop
  | literal {text : String} : g.parser? p = some (.literal text) → (∀ j, ¬Derives g d p i j) →
      Fails g d p i (.expectedText text)
  | pattern {r : Pattern} : g.parser? p = some (.pattern r) → (∀ j, ¬Derives g d p i j) →
      Fails g d p i (.expectedPattern r.source)
  | choice : g.parser? p = some (.choice []) → Fails g d p i .noAlternatives

section Causes

theorem Derives.literal_iff {p : ParserId} {i : Nat} {text : String}
    (hp : g.parser? p = some (.literal text)) :
    (∃ j, Derives g d p i j) ↔ (d.rest? i).any (text.toList.isPrefixOf ·) = true := by
  rw [Option.any_eq_true]
  constructor
  · rintro ⟨j, h⟩
    cases h with
    | literal hp' hr ht =>
      rw [hp] at hp'
      cases hp'
      exact ⟨_, hr, List.isPrefixOf_iff_prefix.2 ht⟩
    | pattern hp' _ _ | sequence hp' _ | choice hp' _ _ | nothing hp' | optional hp' _ =>
      rw [hp] at hp'
      cases hp'
  · rintro ⟨rest, hr, ht⟩
    exact ⟨_, .literal hp hr (List.isPrefixOf_iff_prefix.1 ht)⟩

theorem Derives.pattern_iff {p : ParserId} {i : Nat} {r : Pattern}
    (hp : g.parser? p = some (.pattern r)) :
    (∃ j, Derives g d p i j) ↔ ∃ e, (d.rest? i).bind r.find? = some e := by
  constructor
  · rintro ⟨j, h⟩
    cases h with
    | pattern hp' hr he =>
      rw [hp] at hp'
      cases hp'
      exact ⟨_, Option.bind_eq_some_iff.2 ⟨_, hr, he⟩⟩
    | literal hp' _ _ | sequence hp' _ | choice hp' _ _ | nothing hp' | optional hp' _ =>
      rw [hp] at hp'
      cases hp'
  · rintro ⟨e, he⟩
    obtain ⟨rest, hr, he⟩ := Option.bind_eq_some_iff.1 he
    exact ⟨_, .pattern hp hr he⟩

theorem Grammar.exists_parser (g : Grammar Empty) {p : ParserId} (h : p < g.size) :
    ∃ x, g.parser? p = some x :=
  ⟨_, Option.map_eq_some_iff.2 ⟨_, Array.getElem?_eq_getElem h, rfl⟩⟩

theorem Grammar.Fails.lt_size {p : ParserId} {i : Nat} {cause : Cause} (h : g.Fails d p i cause) :
    p < g.size := by
  cases h with
  | literal hp _ | pattern hp _ | choice hp => exact Grammar.lt_size hp

theorem Parser.fails_of_cause? {x : Parser Empty} {p : ParserId} {i : Nat} {cause : Cause}
    (hx : g.parser? p = some x) (h : x.cause? d i = some cause) : g.Fails d p i cause := by
  cases x with
  | literal text =>
    rw [cause?] at h
    split at h
    next => cases h
    next hn =>
      cases h
      exact .literal hx fun j hj => hn ((Derives.literal_iff hx).1 ⟨j, hj⟩)
  | pattern r =>
    rw [cause?] at h
    split at h
    next => cases h
    next hn =>
      cases h
      refine .pattern hx fun j hj => ?_
      obtain ⟨e, he⟩ := (Derives.pattern_iff hx).1 ⟨j, hj⟩
      rw [hn] at he
      cases he
  | choice qs =>
    cases qs with
    | nil =>
      cases h
      exact .choice hx
    | cons q qs => cases h
  | sequence es => cases h
  | optional q => cases h
  | custom label refs code => exact code.elim

theorem Grammar.Fails.cause? {x : Parser Empty} {p : ParserId} {i : Nat} {cause : Cause}
    (h : g.Fails d p i cause) (hx : g.parser? p = some x) : x.cause? d i = some cause := by
  cases h with
  | literal hp hn =>
    rw [hx] at hp
    cases hp
    rw [Parser.cause?, if_neg]
    intro hany
    obtain ⟨j, hj⟩ := (Derives.literal_iff hx).2 hany
    exact hn j hj
  | pattern hp hn =>
    rw [hx] at hp
    cases hp
    rw [Parser.cause?]
    split
    next e he =>
      obtain ⟨j, hj⟩ := (Derives.pattern_iff hx).2 ⟨e, he⟩
      exact absurd hj (hn j)
    next => rfl
  | choice hp =>
    rw [hx] at hp
    cases hp
    rfl

/-- Within the document a pair fails by itself for the cause that is recorded for it. -/
theorem Grammar.cause?_eq_some_iff {p : ParserId} {i : Nat} (h : g.Covers d p i) {cause : Cause} :
    g.cause? d p i = some cause ↔ g.Fails d p i cause := by
  obtain ⟨x, hx⟩ := g.exists_parser h.1
  rw [Grammar.cause?_eq h.2 hx]
  exact ⟨Parser.fails_of_cause? hx, fun hf => hf.cause? hx⟩

/-- A parser that fails by itself records it when it begins. -/
theorem Parser.failAt_mem_begin {x : Parser Empty} {a : Accumulator Empty} {cause : Cause}
    (h : x.cause? d a.position = some cause) :
    .operate (.failAt id cause.message a.position) ∈ x.begin d id a := by
  cases x with
  | literal text =>
    rw [cause?] at h
    split at h
    next => cases h
    next hn =>
      cases h
      rw [begin, if_neg hn]
      exact List.mem_singleton.2 rfl
  | pattern r =>
    rw [cause?] at h
    split at h
    next => cases h
    next hn =>
      cases h
      rw [begin, hn]
      exact List.mem_singleton.2 rfl
  | choice qs =>
    cases qs with
    | nil =>
      cases h
      exact List.mem_singleton.2 rfl
    | cons q qs => cases h
  | sequence es => cases h
  | optional q => cases h
  | custom label refs code => exact code.elim

end Causes

/-- A failure at the offset or further on is recorded in the accumulator. -/
def Store.Reports (s : Store Empty) (id : AccumulatorId) (n : Nat) : Prop :=
  ∃ a, s.accumulator? id = some a ∧ ∃ f ∈ a.failures, n ≤ f.position

theorem Store.Reports.mono (h : s.Reports id n) (hgrows : s.Grows s') : s'.Reports id n := by
  obtain ⟨a, ha, f, hf, hn⟩ := h
  obtain ⟨b, hb, he⟩ := hgrows.accumulator id a ha
  exact ⟨b, hb, f, he.failures.subset hf, hn⟩

section Carrying

/-- Whom a job registers a listener with, at once or in the next step, and for whom. -/
def Job.subscribes : Job Empty → Option (AccumulatorId × AccumulatorId)
  | .operate (.watch source role) => some (source, role.target)
  | .operate (.listen source l) => some (source, l.role.target)
  | _ => none

/-- Whenever a listener is to be registered, the best failure is to be carried over later. -/
def Carried : List (Job Empty) → Prop
  | [] => True
  | j :: js => (∀ x ∈ j.subscribes, .carry x.1 x.2 ∈ js) ∧ Carried js

theorem Carried.append (hks : ∀ k ∈ ks, k.subscribes = none) (h : Carried js) :
    Carried (ks ++ js) := by
  induction ks with
  | nil => exact h
  | cons k ks ih =>
    refine ⟨?_, ih fun x hx => hks x (List.mem_cons_of_mem _ hx)⟩
    rw [hks k List.mem_cons_self]
    exact fun x hx => absurd hx (Option.not_mem_none x)

/-- Only to watch, to forward and to wait for an element calls for a listener to be registered. -/
theorem Job.subscribes_called (h : k ∈ (j.perform (.standard g) s ()).2.2) :
    k.subscribes = none ∨ (∃ source role, j = .operate (.watch source role)) ∨
      (∃ source target, j = .operate (.forward source target)) ∨
      ∃ r source, j = .proceed (.await r) source := by
  cases Job.callsFor h with
  | code code _ => exact code.elim
  | @request _ _ _ next => exact next.elim
  | listen => exact .inr (.inl ⟨_, _, rfl⟩)
  | forwardWatch => exact .inr (.inr (.inl ⟨_, _, rfl⟩))
  | awaitWatch => exact .inr (.inr (.inr ⟨_, _, rfl⟩))
  | _ => exact .inl rfl

/-- The step lemma for what is to be carried over. -/
theorem Job.carried_called (h : Carried (j :: js)) :
    Carried ((j.perform (.standard g) s ()).2.2 ++ js) := by
  obtain ⟨hj, hjs⟩ := h
  by_cases hnone : ∀ k ∈ (j.perform (.standard g) s ()).2.2, k.subscribes = none
  · exact hjs.append hnone
  · simp only [not_forall] at hnone
    obtain ⟨k, hk, hsome⟩ := hnone
    rcases (Job.subscribes_called hk).resolve_left hsome with
      ⟨source, role, rfl⟩ | ⟨source, target, rfl⟩ | ⟨r, source, rfl⟩
    · -- the job to carry over is still to come
      refine ⟨?_, hjs⟩
      rintro _ ⟨⟩
      exact hj _ rfl
    · -- it comes next
      refine ⟨?_, ⟨fun x hx => absurd hx (Option.not_mem_none x), hjs⟩⟩
      rintro _ ⟨⟩
      exact List.mem_cons_self
    · refine ⟨?_, ⟨fun x hx => absurd hx (Option.not_mem_none x), hjs⟩⟩
      rintro _ ⟨⟩
      exact List.mem_cons_self

end Carrying

section Owing

/-- Doing the job brings a failure at the offset, or further on, to an accumulator. -/
def Job.Owes (s : Store Empty) (target : AccumulatorId) (n : Nat) : Job Empty → Prop
  | .tell l _ (.failed f) => l.role.target = target ∧ n ≤ f.position
  | .operate (.addFailure k f) => k = target ∧ n ≤ f.position
  | .carry source k => k = target ∧ s.Reports source n
  | _ => False

theorem Job.Owes.mono (h : j.Owes s target n) (hgrows : s.Grows s') : j.Owes s' target n := by
  cases j with
  | operate o => cases o <;> exact h
  | tell l source news => cases news <;> exact h
  | carry source k => exact ⟨h.1, h.2.mono hgrows⟩
  | _ => exact h

/-- The failure is brought at once, or it is owed still. -/
theorem Job.Owes.called (hs : s.Sound g) (hd : s.document? c = some d) (hj : j.Sound g d s c)
    (h : j.Owes s target n) : (j.perform (.standard g) s ()).1.Reports target n ∨
      ∃ k ∈ (j.perform (.standard g) s ()).2.2,
        k.Owes (j.perform (.standard g) s ()).1 target n := by
  cases j with
  | tell l source news =>
    cases news with
    | found t => exact h.elim
    | failed f =>
      obtain ⟨rfl, hn⟩ := h
      obtain ⟨q, m, -, hserves, -⟩ := hj
      obtain ⟨p, i, hp, -⟩ := hserves.requests hs hd
      have hlive : s.isLive l.role.target = true := hs.isLive hp
      obtain ⟨number, role⟩ := l
      cases role with
      | forward target =>
        have hlive : s.isLive target = true := hlive
        simp only [perform, if_pos hlive]
        exact .inr ⟨_, List.mem_singleton.2 rfl, rfl, hn⟩
      | element r =>
        have hlive : s.isLive r.target = true := hlive
        simp only [perform, if_pos hlive]
        exact .inr ⟨_, List.mem_singleton.2 rfl, rfl, hn⟩
      | custom code => exact code.elim
  | operate o =>
    cases o with
    | addFailure k f =>
      obtain ⟨rfl, hn⟩ := h
      obtain ⟨p, i, ⟨a, ha, -⟩, -⟩ := hj
      simp only [perform, Operation.perform, ha, Accumulator.addFailure?_eq]
      by_cases hnew : a.IsNew (.failed f)
      · simp only [if_pos hnew]
        refine .inl ⟨a.record (.failed f), ?_, f, List.mem_cons_self, hn⟩
        rw [accumulator?_modify ha rfl, if_pos rfl]
      · simp only [if_neg hnew]
        exact .inl ⟨a, ha, f, not_not.1 hnew, hn⟩
    | _ => exact h.elim
  | carry source k =>
    obtain ⟨rfl, a, ha, f, hf, hn⟩ := h
    obtain ⟨-, d', hd', hsound⟩ := hs.kept source a ha
    obtain ⟨best, hbest, hle⟩ := position_le_of_foldr_furthest hf
    rw [← hsound.best] at hbest
    simp only [perform, ha, Option.bind_some, hbest]
    exact .inr ⟨_, List.mem_singleton.2 rfl, rfl, Nat.le_trans hn hle⟩
  | _ => exact h.elim

/-- Failures of one accumulator have come to those that listen to it, or will come. -/
structure Machine.Informed (m : Machine Empty Unit) : Prop where
  carried : Carried m.agenda
  owed : ∀ id a l f, m.store.accumulator? id = some a → l ∈ a.listeners → f ∈ a.failures →
    m.store.Reports l.role.target f.position ∨
      ∃ j ∈ m.agenda, j.Owes m.store l.role.target f.position

/-- The step lemma: a new failure is told to those who listen, and whoever comes to listen has the
best of the failures carried over. -/
theorem Machine.Informed.step {m : Machine Empty Unit} (hm : m.Sound g d c) (h : m.Informed) :
    (m.step (.standard g)).Informed := by
  obtain ⟨s, w, js⟩ := m
  cases js with
  | nil => exact h
  | cons j js =>
    have hs : s.Sound g := hm.store
    have hj : j.Sound g d s c := hm.jobs j List.mem_cons_self
    have hgrows := hs.grows_perform j w
    have heffect := j.effect (.standard g) s w
    refine ⟨Job.carried_called h.carried, ?_⟩
    intro id b l f hb hl hf
    have hholds : b.Holds (.failed f) := hf
    rcases heffect.held hb hholds with ⟨a, ha, hold⟩ | hev
    · rcases heffect.listening hb hl with ⟨a', ha', hlold⟩ | hev
      · rw [ha] at ha'
        cases ha'
        rcases h.owed id a l f ha hlold hold with hreports | ⟨k, hk, howes⟩
        · exact .inl (hreports.mono hgrows)
        · rcases List.mem_cons.1 hk with rfl | hk
          · rcases howes.called hs hm.document hj with hreports | ⟨x, hx, howes⟩
            · exact .inl hreports
            · exact .inr ⟨x, List.mem_append_left _ hx, howes⟩
          · exact .inr ⟨k, List.mem_append_right _ hk, howes.mono hgrows⟩
      · obtain rfl := Job.eq_listen_of_event hev
        have hcarry := h.carried.1 _ rfl
        have hreports : s.Reports id f.position := ⟨a, ha, f, hold, Nat.le_refl _⟩
        exact .inr ⟨_, List.mem_append_right _ hcarry, rfl, hreports.mono hgrows⟩
    · obtain ⟨a, ha, hnew, ⟨t, -, ht⟩ | ⟨f', rfl, hf'⟩⟩ := Job.eq_of_recorded hev
      · cases ht
      · cases hf'
        rcases heffect.listening hb hl with ⟨a', ha', hlold⟩ | hev'
        · rw [ha] at ha'
          cases ha'
          have htold : .tell l id (.failed f) ∈
              ((Job.operate (.addFailure id f)).perform (.standard g) s w).2.2 := by
            simp only [Job.perform, Operation.perform, ha, Accumulator.addFailure?_eq, if_pos hnew]
            exact List.mem_map.2 ⟨l, hlold, rfl⟩
          exact .inr ⟨_, List.mem_append_left _ htold, rfl, Nat.le_refl _⟩
        · cases Job.eq_listen_of_event hev'

/-- While nothing is to be done, new accumulators change nothing. -/
theorem Machine.Informed.quiet (h : Machine.Informed ⟨s, (), []⟩) (hgrows : s.Grows s')
    (hquiet : Quiet s s') (hjs : Carried js) : Machine.Informed ⟨s', (), js⟩ := by
  refine ⟨hjs, ?_⟩
  intro id b l f hb hl hf
  rcases hquiet.cases hb with hold | ⟨-, -, -, hnil⟩
  · rcases h.owed id b l f hold hl hf with hreports | ⟨k, hk, -⟩
    · exact .inl (hreports.mono hgrows)
    · cases hk
  · rw [hnil] at hl
    cases hl

/-- Whatever is reached, failures have come to all who listen. -/
theorem Grammar.Reached.informed {admits : Document → ParserId → Nat → Prop} (hg : g.Closed)
    (h : g.Reached admits s) : Machine.Informed ⟨s, (), []⟩ := by
  refine h.invariant hg ⟨trivial, ?_⟩ ?_ fun _ _ _ hm hinformed => hinformed.step hm
  · intro id a l f ha
    simp [Store.accumulator?] at ha
  · intro s s' js _ hinformed hgrows hquiet hjs
    refine hinformed.quiet hgrows hquiet ?_
    have hcarried : Carried (js ++ []) := Carried.append (fun j hj => ?_) trivial
    · rwa [List.append_nil] at hcarried
    · obtain ⟨id, rfl⟩ := hjs j hj
      rfl

end Owing

section Rest

variable (h : Ledger g s [] done)
include h

theorem Ledger.addFailure {f : Failure} (hj : done (.operate (.addFailure target f))) :
    s.Reports target f.position := by
  obtain ⟨s₀, c, d, hs, hd, hsound, hgrows, -⟩ := h.closed hj
  obtain ⟨p, i, ⟨a, ha, -⟩, -⟩ := hsound
  simp only [Job.perform, Operation.perform, ha, Accumulator.addFailure?_eq] at hgrows
  by_cases hn : a.IsNew (.failed f)
  · simp only [if_pos hn] at hgrows
    refine Store.Reports.mono ⟨a.record (.failed f), ?_, f, List.mem_cons_self, Nat.le_refl _⟩ hgrows
    rw [accumulator?_modify ha rfl, if_pos rfl]
  · simp only [if_neg hn] at hgrows
    exact Store.Reports.mono ⟨a, ha, f, not_not.1 hn, Nat.le_refl _⟩ hgrows

theorem Ledger.failAt {message : String} {position : Nat}
    (hj : done (.operate (.failAt target message position))) : s.Reports target position := by
  obtain ⟨s₀, c, d, -, -, ⟨p, i, ⟨a, ha, -⟩, -⟩, -, hjobs⟩ := h.closed hj
  simp only [Job.perform, Operation.perform, ha] at hjobs
  exact h.addFailure (hjobs _ List.mem_cons_self)

variable (hs : s.Sound g) (hd : s.document? c = some d)
include hs hd

/-- A pair that fails by itself has its failure recorded. -/
theorem Ledger.fails {p : ParserId} {i : Nat} {cause : Cause} (hid : s.peek? c p i = some id)
    (hi : i ≤ d.size) (hf : g.Fails d p i cause) : s.Reports id i := by
  obtain ⟨x, hx⟩ := g.exists_parser hf.lt_size
  obtain ⟨a, -, -, rfl, hjobs⟩ := h.begins hs hd hid hi hx
  exact h.failAt (hjobs _ (Parser.failAt_mem_begin (hf.cause? hx)))

/-- A sequence that waits for the first of some elements comes to wait for each of them, wherever
those before it end. -/
theorem Ledger.waits {before after : List ParserId} {q : ParserId} {k : Nat} :
    ∀ {i : Nat} {e : ParserId} {r : Sequel}, DerivesAll g d before i k → i ≤ d.size →
      before ++ q :: after = e :: r.rest → s.peek? c e i = some id → s.Linked id (.element r) →
      ∃ id' r', s.peek? c q k = some id' ∧ s.Linked id' (.element r') ∧ r'.target = r.target := by
  induction before generalizing id with
  | nil =>
    intro i e r hall _ hes hid hl
    cases hall
    obtain ⟨rfl, -⟩ := List.cons.inj hes
    exact ⟨id, r, hid, hl, rfl⟩
  | cons e' before ih =>
    intro i e r hall hi hes hid hl
    obtain ⟨rfl, hrest⟩ := List.cons.inj hes
    cases hall with
    | cons hder hall =>
      have hstop := h.hasStop hs hd hder hi id hid
      have hk := (hder.bounds hi).2
      rcases h.continued hs hid hl hstop with
        ⟨hnil, -⟩ | ⟨e', rest, id', r', hcons, htar, hrest', hid', hl'⟩
      · rw [hnil] at hrest
        simp at hrest
      · obtain ⟨x, r'', hx, hlx, htx⟩ :=
          ih hall hk (hrest.trans (hcons.trans (congrArg _ hrest'.symm))) hid' hl'
        exact ⟨x, r'', hx, hlx, htx.trans htar⟩

/-- A pair listens to each pair that it makes use of. -/
theorem Ledger.listens {p q : ParserId} {i k : Nat} (hid : s.peek? c p i = some id)
    (hreq : Requests g d (p, i) (q, k)) :
    ∃ id' role, s.peek? c q k = some id' ∧ s.Linked id' role ∧ role.target = id := by
  cases hreq with
  | pass hi hp =>
    obtain ⟨id', hid', hl⟩ := h.forwards hs hd hid hi hp
    exact ⟨id', _, hid', hl, rfl⟩
  | @sequence _ _ before after _ _ hi hp hall =>
    obtain ⟨e, rest, hes⟩ : ∃ e rest, before ++ q :: after = e :: rest := by
      cases before with
      | nil => exact ⟨q, after, rfl⟩
      | cons e before => exact ⟨e, before ++ q :: after, rfl⟩
    rw [hes] at hp
    obtain ⟨id', r, hid', hl, htar, hrest⟩ := h.awaits hs hd hid hi hp
    obtain ⟨x, r', hx, hlx, htx⟩ := h.waits hs hd hall hi (hes.trans (hrest ▸ rfl)) hid' hl
    exact ⟨x, .element r', hx, hlx, htx.trans htar⟩

/-- By induction on the way from the one pair to the other: what the other one reports comes back
to the one. -/
theorem Ledger.reports (hinformed : Machine.Informed ⟨s, (), []⟩) {x y : ParserId × Nat}
    {cause : Cause} (hreach : ReflTransGen (Requests g d) x y) (hf : g.Fails d y.1 y.2 cause)
    (hy : y.2 ≤ d.size) (hid : s.peek? c x.1 x.2 = some id) : s.Reports id y.2 := by
  induction hreach using ReflTransGen.head_induction_on generalizing id with
  | refl => exact h.fails hs hd hid hy hf
  | head hreq _ ih =>
    obtain ⟨id', role, hid', ⟨a, ha, l, hl, rfl⟩, rfl⟩ := h.listens hs hd hid hreq
    obtain ⟨b, hb, f, hf, hle⟩ := ih hid'
    rw [ha] at hb
    cases hb
    rcases hinformed.owed id' a l f ha hl hf with ⟨b, hb, f', hf', hle'⟩ | ⟨k, hk, -⟩
    · exact ⟨b, hb, f', hf', Nat.le_trans hle hle'⟩
    · cases hk

end Rest

/-- The best failure is there if and only if some pair that the pair makes use of, directly or not,
fails by itself. It is the failure of such a pair, and none of them fails further on. -/
structure Grammar.IsFurthest (g : Grammar Empty) (d : Document) (x : ParserId × Nat)
    (best : Option Failure) : Prop where
  none_iff : best = none ↔
    ∀ y cause, ReflTransGen (Requests g d) x y → ¬g.Fails d y.1 y.2 cause
  genuine : ∀ f ∈ best, ∃ cause, ReflTransGen (Requests g d) x (f.parser, f.position) ∧
    g.Fails d f.parser f.position cause ∧ f.message = cause.message
  furthest : ∀ f ∈ best, ∀ y cause, ReflTransGen (Requests g d) x y → g.Fails d y.1 y.2 cause →
    y.2 ≤ f.position

section Results

variable {x : ParserId × Nat} {best best' : Option Failure}

/-- There is one furthest position. -/
theorem Grammar.IsFurthest.position_eq (h : g.IsFurthest d x best) (h' : g.IsFurthest d x best') :
    best'.map Failure.position = best.map Failure.position := by
  cases best with
  | none =>
    obtain rfl := h'.none_iff.2 (h.none_iff.1 rfl)
    rfl
  | some f =>
    cases best' with
    | none => cases h.none_iff.2 (h'.none_iff.1 rfl)
    | some f' =>
      obtain ⟨cause, hreach, hfails, -⟩ := h.genuine f rfl
      obtain ⟨cause', hreach', hfails', -⟩ := h'.genuine f' rfl
      have hle : f.position ≤ f'.position := h'.furthest f' rfl _ cause hreach hfails
      have hge : f'.position ≤ f.position := h.furthest f rfl _ cause' hreach' hfails'
      exact congrArg some (Nat.le_antisymm hge hle)

/-- Whatever a pair within the grammar and the document makes use of is one, too. -/
theorem Grammar.Covers.reach (hg : g.Closed) {y : ParserId × Nat} (hx : g.Covers d x.1 x.2)
    (h : ReflTransGen (Requests g d) x y) : g.Covers d y.1 y.2 := by
  rcases h.cases_tail with rfl | ⟨z, -, hzy⟩
  · exact hx
  · exact (hzy.covers hg).1

/-- Whatever is reached, the best failure of a pair within the grammar and the document is the
furthest one. -/
theorem Grammar.Reached.isFurthest {admits : Document → ParserId → Nat → Prop} (hg : g.Closed)
    (hr : g.Reached admits s) (hd : s.document? c = some d) (hx : g.Covers d x.1 x.2)
    (hid : s.peek? c x.1 x.2 = some id) {a : Accumulator Empty} (ha : s.accumulator? id = some a) :
    g.IsFurthest d x a.best := by
  have hs := hr.sound hg
  obtain ⟨done, hledger⟩ := hr.ledger hg
  obtain ⟨b, hb, rfl, hparser, hposition, -, hsound⟩ := hs.accumulator hd (hs.known _ _ _ id hid)
  rw [ha] at hb
  cases hb
  have hreported (y : ParserId × Nat) (cause : Cause) (hreach : ReflTransGen (Requests g d) x y)
      (hfails : g.Fails d y.1 y.2 cause) : ∃ f, a.best = some f ∧ y.2 ≤ f.position := by
    obtain ⟨b, hb, f, hf, hle⟩ :=
      hledger.reports hs hd (hr.informed hg) hreach hfails (hx.reach hg hreach).2 hid
    rw [ha] at hb
    cases hb
    obtain ⟨best, hbest, hle'⟩ := position_le_of_foldr_furthest hf
    exact ⟨best, hsound.best.trans hbest, Nat.le_trans hle hle'⟩
  have hgenuine (f : Failure) (hf : a.best = some f) :
      ∃ cause, ReflTransGen (Requests g d) x (f.parser, f.position) ∧
        g.Fails d f.parser f.position cause ∧ f.message = cause.message := by
    obtain ⟨q, k, hreach, hfailure⟩ :=
      hsound.failures f (mem_of_foldr_furthest (hsound.best ▸ hf))
    obtain ⟨cause, hcause, rfl⟩ := Option.map_eq_some_iff.1 hfailure
    have hpair : (a.parser, a.position) = x := Prod.ext hparser hposition
    rw [hpair] at hreach
    exact ⟨cause, hreach, (Grammar.cause?_eq_some_iff (hx.reach hg hreach)).1 hcause, rfl⟩
  refine ⟨⟨fun hnone y cause hreach hfails => ?_, fun hall => ?_⟩, hgenuine, ?_⟩
  · obtain ⟨f, hf, -⟩ := hreported y cause hreach hfails
    rw [hnone] at hf
    cases hf
  · cases hbest : a.best with
    | none => rfl
    | some f =>
      obtain ⟨cause, hreach, hfails, -⟩ := hgenuine f hbest
      exact absurd hfails (hall _ cause hreach)
  · intro f hf y cause hreach hfails
    obtain ⟨f', hf', hle⟩ := hreported y cause hreach hfails
    rw [hf] at hf'
    cases hf'
    exact hle

end Results

/-- Whenever a request is done, the best failure of each pair memoized is the furthest one, of all
pairs which that pair makes use of, directly or not. So its position is the same whatever else was
asked for, and in whatever order. -/
theorem best_failure_is_furthest {draft : Draft Empty} (hb : draft.build = .ok g)
    (hr : g.Reached g.Covers s) (hd : s.document? c = some d) {p : ParserId} {i : Nat}
    {id : AccumulatorId} (hp : s.peek? c p i = some id) :
    ∃ a, s.accumulator? id = some a ∧ a.parser = p ∧ a.position = i ∧
      g.IsFurthest d (p, i) a.best ∧
      ∀ (s' : Store Empty) (c' : ContextNumber) (id' : AccumulatorId) (a' : Accumulator Empty),
        g.Reached g.Covers s' → s'.document? c' = some d → s'.peek? c' p i = some id' →
        s'.accumulator? id' = some a' →
          a'.best.map Failure.position = a.best.map Failure.position := by
  have hg := Draft.closed_build hb
  obtain ⟨a, ha, -, rfl, rfl⟩ := (hr.sound hg).known c p i id hp
  have hcov : g.Covers d a.parser a.position := (or_self_iff).1 (hr.pairs hg hd hp)
  have hfurthest : g.IsFurthest d (a.parser, a.position) a.best := hr.isFurthest hg hd hcov hp ha
  refine ⟨a, ha, rfl, rfl, hfurthest, ?_⟩
  intro s' c' id' a' hr' hd' hp' ha'
  exact hfurthest.position_eq (hr'.isFurthest hg hd' hcov hp' ha')

/-- The rule that begins with itself makes use of the literal at the end of the document, which
fails there, and no pair that it makes use of fails further on. -/
theorem best_failure_is_furthest_left_recursion :
    ReflTransGen (Requests LeftRecursion.grammar LeftRecursion.document) (0, 0) (2, 2) ∧
      LeftRecursion.grammar.Fails LeftRecursion.document 2 2 (.expectedText "a") ∧
      ∀ y cause, ReflTransGen (Requests LeftRecursion.grammar LeftRecursion.document) (0, 0) y →
        LeftRecursion.grammar.Fails LeftRecursion.document y.1 y.2 cause → y.2 ≤ 2 := by
  have hpeek : LeftRecursion.store.peek? 1 0 0 = some 0 := by decide +kernel
  have hbest : (LeftRecursion.store.accumulator? 0).bind (·.best) =
      some ((Cause.expectedText "a").failure 1 2 2) := by decide +kernel
  obtain ⟨a, ha, -, -, hfurthest, -⟩ := best_failure_is_furthest LeftRecursion.built
    LeftRecursion.reached LeftRecursion.document?_store hpeek
  rw [ha, Option.bind_some] at hbest
  obtain ⟨cause, hreach, hfails, -⟩ := hfurthest.genuine _ hbest
  refine ⟨hreach, ?_, hfurthest.furthest _ hbest⟩
  cases hfails with
  | literal hp hn =>
    cases hp
    exact .literal rfl hn
  | pattern hp _ => cases hp
  | choice hp => cases hp

end PushParsing
