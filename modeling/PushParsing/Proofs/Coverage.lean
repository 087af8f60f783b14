import PushParsing.Proofs.Identity

/-!
# What a complete parse covers

The match of a whole document is chosen by where it stops. That it also starts with the document
takes that custom codes keep to the place: what they record in an accumulator starts where its parser
does, and what they pass on to it was found from there. All that the engine does by itself is in
place.
-/
namespace PushParsing

variable {κ σ : Type} {e : Engine κ σ} {s s' : Store κ} {w : σ} {m : Machine κ σ} {h : List Call}
  {j k : Job κ} {c : ContextNumber} {p : ParserId} {i : Nat} {id : AccumulatorId}

section Places

/-- Where the parser of an accumulator starts. -/
def Store.position? (s : Store κ) (id : AccumulatorId) : Option Nat :=
  (s.accumulator? id).map (·.position)

/-- Whether what is recorded for listening at an offset starts where it is to start. A listener of
the custom kind does not record anything itself. -/
def Role.InPlace (s : Store κ) (i : Option Nat) : Role κ → Prop
  | .forward target => i.isSome ∧ s.position? target = i
  | .element q => s.position? q.target = some q.start
  | .custom _ => True

/-- Whether an operation records nothing out of place and does not make a listener do so. -/
def Operation.InPlace (s : Store κ) : Operation κ → Prop
  | .addTree target t => s.position? target = some t.start
  | .listen source l => l.role.InPlace s (s.position? source)
  | .watch source role => role.InPlace s (s.position? source)
  | .forward source target => (Role.forward target).InPlace s (s.position? source)
  | _ => True

instance (s : Store κ) (i : Option Nat) (role : Role κ) : Decidable (role.InPlace s i) :=
  match role with
  | .forward target => inferInstanceAs (Decidable (i.isSome ∧ s.position? target = i))
  | .element q => inferInstanceAs (Decidable (s.position? q.target = some q.start))
  | .custom _ => inferInstanceAs (Decidable True)

instance (s : Store κ) (o : Operation κ) : Decidable (o.InPlace s) :=
  match o with
  | .addTree target t => inferInstanceAs (Decidable (s.position? target = some t.start))
  | .listen source l => inferInstanceAs (Decidable (l.role.InPlace s (s.position? source)))
  | .watch source role => inferInstanceAs (Decidable (role.InPlace s (s.position? source)))
  | .forward source target =>
    inferInstanceAs (Decidable ((Role.forward target).InPlace s (s.position? source)))
  | .request .. | .lookup .. | .addStop .. | .addFailure .. | .failAt .. | .resume _ =>
    inferInstanceAs (Decidable True)

/-- The same of a job. A request may find no context in which there could be an accumulator. -/
def Job.InPlace (s : Store κ) : Job κ → Prop
  | .operate o => o.InPlace s
  | .ask c _ i next => next.role.InPlace s ((s.context? c).map fun _ => i)
  | .proceed next id => next.role.InPlace s (s.position? id)
  | .tell l source news => l.role.InPlace s (s.position? source) ∧
      ∀ t, news = .found t → s.position? source = some t.start
  | .start _ | .carry _ _ => True

/-- Trees start where the parsers of their accumulators do, and listeners keep it so. -/
structure Store.InPlace (s : Store κ) : Prop where
  trees : ∀ id a, s.accumulator? id = some a → ∀ t ∈ a.trees, t.start = a.position
  listeners : ∀ id a, s.accumulator? id = some a → ∀ l ∈ a.listeners,
    l.role.InPlace s (s.position? id)

structure Machine.InPlace (m : Machine κ σ) : Prop where
  store : m.store.InPlace
  jobs : ∀ j ∈ m.agenda, j.InPlace m.store

/-- If it is a custom code's turn, it asks for nothing that is out of place. -/
def Machine.KeepsPlace (e : Engine κ σ) : Machine κ σ → Prop
  | ⟨_, _, []⟩ => True
  | ⟨s, w, j :: _⟩ => ∀ o ∈ j.asks e s w, o.InPlace s

instance (e : Engine κ σ) (m : Machine κ σ) : Decidable (m.KeepsPlace e) :=
  match m with
  | ⟨_, _, []⟩ => inferInstanceAs (Decidable True)
  | ⟨s, w, j :: _⟩ => inferInstanceAs (Decidable (∀ o ∈ j.asks e s w, o.InPlace s))

theorem Store.position?_eq {a : Accumulator κ} (ha : s.accumulator? id = some a) :
    s.position? id = some a.position := by
  rw [position?, ha, Option.map_some]

theorem Store.Gains.position? (hg : s.Gains s') (hi : s.position? id = some i) :
    s'.position? id = some i := by
  obtain ⟨a, ha, rfl⟩ := Option.map_eq_some_iff.1 hi
  obtain ⟨b, hb, he⟩ := hg id a ha
  rw [Store.position?_eq hb, he.position]

theorem Role.InPlace.mono (hg : s.Gains s') {i i' : Option Nat} (hi : ∀ n, i = some n → i' = some n)
    {role : Role κ} (h : role.InPlace s i) : role.InPlace s' i' := by
  cases role with
  | forward target =>
    obtain ⟨hsome, htarget⟩ := h
    obtain ⟨n, rfl⟩ := Option.isSome_iff_exists.1 hsome
    rw [InPlace, hi n rfl]
    exact ⟨rfl, hg.position? htarget⟩
  | element q => exact hg.position? h
  | custom code => exact h

theorem Operation.InPlace.mono (hg : s.Gains s') {o : Operation κ} (h : o.InPlace s) :
    o.InPlace s' := by
  cases o with
  | addTree target t => exact hg.position? h
  | listen source l => exact Role.InPlace.mono hg (fun _ => hg.position?) h
  | watch source role => exact Role.InPlace.mono hg (fun _ => hg.position?) h
  | forward source target =>
    have hforward : (Role.forward target).InPlace s (s.position? source) := h
    exact hforward.mono hg fun _ => hg.position?
  | _ => exact h

theorem Job.InPlace.mono (hg : s.Grows s') (h : j.InPlace s) : j.InPlace s' := by
  have hgains : s.Gains s' := hg.accumulator
  cases j with
  | operate o => exact Operation.InPlace.mono hgains h
  | ask c p i next =>
    refine Role.InPlace.mono hgains (fun n hn => ?_) h
    obtain ⟨x, hx, rfl⟩ := Option.map_eq_some_iff.1 hn
    obtain ⟨x', hx', -⟩ := hg.context c x hx
    rw [hx', Option.map_some]
  | proceed next id => exact Role.InPlace.mono hgains (fun _ => hgains.position?) h
  | tell l source news =>
    exact ⟨h.1.mono hgains fun _ => hgains.position?, fun t ht => hgains.position? (h.2 t ht)⟩
  | start id => exact h
  | carry source target => exact h

end Places

section Steps

theorem Accumulator.start_adopt (a : Accumulator κ) (t : Tree) : (a.adopt t).start = t.start := by
  rw [adopt]
  split <;> rfl

/-- An event after which trees and listeners are in place, if what is recorded or registered is. -/
theorem Effect.inPlace {ev : Option (Event κ)} {js : List (Job κ)} (he : Effect s ev s' js)
    (hs : s.InPlace)
    (htree : ∀ id t, ev = some (.recorded id (.found t)) → s.position? id = some t.start)
    (hlistener : ∀ id l, ev = some (.registered id l) → l.role.InPlace s (s.position? id)) :
    s'.InPlace := by
  have hlater {id : AccumulatorId} {role : Role κ} (h : role.InPlace s (s.position? id)) :
      role.InPlace s' (s'.position? id) := h.mono he.gains fun _ => he.gains.position?
  refine ⟨fun id a ha t ht => ?_, fun id a ha l hl => ?_⟩
  · have hholds : a.Holds (.found t) := ht
    rcases he.held ha hholds with ⟨b, hb, hold⟩ | hnew
    · have hposition := he.gains.position? (Store.position?_eq hb)
      rw [Store.position?_eq ha, Option.some_inj] at hposition
      exact (hs.trees id b hb t hold).trans hposition.symm
    · have hposition := he.gains.position? (htree id t hnew)
      rw [Store.position?_eq ha, Option.some_inj] at hposition
      exact hposition.symm
  · rcases he.listening ha hl with ⟨b, hb, hold⟩ | hnew
    · exact hlater (hs.listeners id b hb l hold)
    · exact hlater (hlistener id l hnew)

/-- The pair that is asked for has its accumulator at the offset it is asked for at. -/
theorem Store.Agrees.position?_request (hs : s.Agrees h) (hc : (s.context? c).isSome) :
    (s.request c p i).2.2.position? (s.request c p i).1 = some i := by
  cases hp : s.peek? c p i with
  | none =>
    obtain ⟨hid, -, hacc⟩ := Store.request_new hp hc
    rw [position?, accumulator?_push hacc, if_pos hid, Option.map_some]
  | some id =>
    obtain ⟨hid, -, hacc⟩ := Store.request_old hp
    obtain ⟨a, ha, -, -, rfl⟩ := (hs.pairs c p i id).1 hp
    rw [hid, position?, accumulator?_congr hacc, ha, Option.map_some]

/-- Accumulators stand in contexts that there are. -/
theorem Store.Agrees.context (hs : s.Agrees h) {a : Accumulator κ}
    (ha : s.accumulator? id = some a) : (s.context? a.context).isSome := by
  obtain ⟨d, hd⟩ := Store.document_of_peek ((hs.pairs _ _ _ id).2 ⟨a, ha, rfl, rfl, rfl⟩)
  exact Store.isSome_context hd

/-- What a job calls for is in place, if it is in place itself and so is what a custom code asks
for. -/
theorem Job.InPlace.called (hagrees : s.Agrees h) (hs : s.InPlace) (hj : j.InPlace s)
    (hasks : ∀ o ∈ j.asks e s w, o.InPlace s) (hk : k ∈ (j.perform e s w).2.2) :
    k.InPlace (j.perform e s w).1 := by
  have hgrows : s.Grows (j.perform e s w).1 := (j.perform_grows e w hagrees.valid).2
  have hlater {x : Job κ} (hx : x.InPlace s) : x.InPlace (j.perform e s w).1 := hx.mono hgrows
  cases Job.callsFor hk with
  | code code o ho => exact (hasks o ho).mono hgrows.accumulator
  | tellTree ha hl =>
    refine hlater ⟨hs.listeners _ _ ha _ hl, fun t ht => ?_⟩
    cases ht
    rw [Accumulator.start_adopt]
    exact hj
  | tellFailure ha hl => exact hlater ⟨hs.listeners _ _ ha _ hl, fun t ht => by cases ht⟩
  | leaf ha => exact hlater (Store.position?_eq ha)
  | @replay source l a t ha ht =>
    refine hlater ⟨hj, fun u hu => ?_⟩
    cases hu
    rw [Store.position?_eq ha, hs.trees source a ha t ht]
  | listen => exact hlater hj
  | forwardWatch => exact hlater hj
  | @proceed c p i next =>
    refine Role.InPlace.mono hgrows.accumulator (fun n hn => ?_) hj
    obtain ⟨x, hx, rfl⟩ := Option.map_eq_some_iff.1 hn
    exact hagrees.position?_request (hx ▸ rfl)
  | beginTree ha => exact hlater (Store.position?_eq ha)
  | @beginElement id a p rest ha =>
    exact hlater (x := .ask _ _ _ (.await ⟨id, a.position, [], rest⟩)) (Store.position?_eq ha)
  | @beginPass id a p ha =>
    obtain ⟨x, hx⟩ := Option.isSome_iff_exists.1 (hagrees.context ha)
    refine hlater (x := .ask a.context p a.position (.forwardTo id)) ?_
    simp only [InPlace, Next.role, Role.InPlace, hx, Option.map_some, Option.isSome_some]
    exact ⟨trivial, Store.position?_eq ha⟩
  | forwardTo => exact hlater hj
  | awaitWatch => exact hlater hj
  | passTree => exact hlater (hj.1.2.trans (hj.2 _ rfl))
  | complete => exact hlater hj.1
  | @«continue» n q q' source t c p htarget hstart =>
    refine hlater (x := .ask c p t.stop (.await q')) ?_
    simp only [InPlace, Next.role, Role.InPlace, htarget, hstart]
    exact hj.1
  | request | refuse | fail | forwardCarry | start | beginFail | beginStop | awaitCarry | passFailure
  | elementFailure | carry => exact trivial

/-- The step lemma. -/
theorem Machine.InPlace.step (hagrees : m.store.Agrees h) (hm : m.InPlace) (hkeeps : m.KeepsPlace e) :
    (m.step e).InPlace := by
  obtain ⟨s, w, js⟩ := m
  cases js with
  | nil => exact hm
  | cons j js =>
    have hj : j.InPlace s := hm.jobs j List.mem_cons_self
    have hgrows : s.Grows (j.perform e s w).1 := (j.perform_grows e w hagrees.valid).2
    refine ⟨(j.effect e s w).inPlace hm.store (fun id t hev => ?_) (fun id l hev => ?_), ?_⟩
    · obtain ⟨a, -, -, ⟨u, rfl, hu⟩ | ⟨f, -, hf⟩⟩ := Job.eq_of_recorded hev
      · cases hu
        rw [Accumulator.start_adopt]
        exact hj
      · cases hf
    · rw [Job.eq_listen_of_event hev] at hj
      exact hj
    · intro k hk
      rcases List.mem_append.1 hk with hk | hk
      · exact hj.called hagrees hm.store hkeeps hk
      · exact (hm.jobs k (List.mem_cons_of_mem _ hk)).mono hgrows

/-- A run leaves a store that has grown. -/
theorem Engine.Diary.grows (n : Nat) : ∀ {m : Machine κ σ} {h : List Call}, e.Diary m h →
    m.store.Grows (Machine.run e n m).store := by
  induction n with
  | zero => exact fun _ => .refl _
  | succ n ih =>
    intro m h hd
    rw [Machine.run_succ]
    refine Store.Grows.trans ?_ (ih hd.step)
    obtain ⟨s, w, js⟩ := m
    cases js with
    | nil => exact .refl _
    | cons j js => exact (j.perform_grows e w hd.agrees.store.valid).2

/-- The run lemma: as long as custom codes keep to the place, all is in place. -/
theorem Machine.InPlace.run (n : Nat) : ∀ {m : Machine κ σ} {h : List Call}, e.Diary m h →
    m.InPlace → (∀ k, (Machine.run e k m).KeepsPlace e) → (Machine.run e n m).InPlace := by
  induction n with
  | zero => exact fun _ hm _ => hm
  | succ n ih =>
    intro m h hd hm hkeeps
    rw [Machine.run_succ]
    refine ih hd.step (hm.step hd.agrees.store (hkeeps 0)) fun k => ?_
    rw [← Machine.run_succ]
    exact hkeeps (k + 1)

theorem Machine.InPlace.ofRequest (e : Engine κ σ) (hs : s.InPlace) (w : σ) (c : ContextNumber)
    (p : ParserId) (i : Nat) : (Machine.ofRequest s w c p i).InPlace where
  store := by
    -- the store is as it is when a job asks for the pair
    have heffect := Effect.ask e s w c p i (.forwardTo 0)
    exact heffect.inPlace hs (fun _ _ hev => by cases hev) fun _ _ hev => by cases hev
  jobs j hj := by
    rw [Machine.ofRequest] at hj
    dsimp only at hj
    split at hj
    · rw [List.mem_singleton.1 hj]
      trivial
    · cases hj

end Steps

/-- The match of a whole document is one of those that are recorded for the root at the start of the
document, and it stops at the end. -/
theorem Store.mem_of_verdict {d : Document} {root : ParserId} {t : Tree} (hd : s.document? c = some d)
    (h : s.verdict c root id = .ok t) :
    ∃ a, s.accumulator? id = some a ∧ t ∈ a.trees ∧ t.stop = d.size := by
  obtain ⟨x, hx, rfl⟩ := Option.map_eq_some_iff.1 hd
  rw [verdict, hx] at h
  cases ha : s.accumulator? id with
  | none =>
    rw [ha] at h
    cases h
  | some a =>
    rw [ha] at h
    dsimp only at h
    split at h
    next u hu =>
      cases h
      have hstop := List.find?_some hu
      exact ⟨a, rfl, List.mem_of_find?_eq_some hu, beq_iff_eq.1 hstop⟩
    next => split at h <;> cases h

/-- A match of a whole document stops where the document does. It also starts there, whatever parsers
and listeners there are, if all was in place before and custom codes keep to the place while the root
is evaluated. -/
theorem complete_match_covers {d : Document} {root : ParserId} (hdiary : e.Diary ⟨s, w, []⟩ h)
    (hd : s.document? c = some d) {t : Tree} {w' : σ} (hok : e.parse s w c root = (.ok t, s', w')) :
    (∃ id a, s'.peek? c root 0 = some id ∧ s'.accumulator? id = some a ∧ t ∈ a.trees) ∧
    t.stop = d.size ∧
    (s.InPlace → (∀ n, (Machine.run e n (.ofRequest s w c root 0)).KeepsPlace e) →
      s'.InPlace ∧ t.start = 0) := by
  have hc : (s.context? c).isSome := Store.isSome_context hd
  have hasked := hdiary.requested root 0 hc
  have hgrows := hasked.grows e.limit
  rw [Engine.parse, Engine.request_eq] at hok
  obtain ⟨hverdict, hok⟩ := Prod.mk.inj hok
  obtain ⟨rfl, rfl⟩ := Prod.mk.inj hok
  have hpeek : (Machine.ofRequest s w c root 0).store.peek? c root 0 =
      some (s.request c root 0).1 := by
    refine (hdiary.agrees.store.valid.peek?_request hc c root 0).trans ?_
    rw [if_pos ⟨rfl, rfl, rfl⟩]
  have hdoc : (Machine.ofRequest s w c root 0).store.document? c = some d :=
    (Store.document?_request s c root 0 c).trans hd
  obtain ⟨a, ha, ht, hstop⟩ := Store.mem_of_verdict (hgrows.document hdoc) hverdict
  refine ⟨⟨_, a, hgrows.peek _ _ _ _ hpeek, ha, ht⟩, hstop, fun hs hkeeps => ?_⟩
  have hplace := (Machine.InPlace.ofRequest e hs w c root 0).run e.limit hasked hkeeps
  have hgains : Store.Gains _ _ := hgrows.accumulator
  have hroot := hgains.position? (hdiary.agrees.store.position?_request hc)
  rw [Store.position?_eq ha, Option.some_inj] at hroot
  exact ⟨hplace.store, (hplace.store.trees _ a ha t ht).trans hroot⟩

namespace Alias

open Script (Code World)

/-- A parser that passes on what another one finds, where it starts itself or elsewhere. -/
def engine (shift : Int) : Engine Code World :=
  Script.engine ⟨#[⟨none, .literal "b"⟩,
    ⟨some "r", .custom "alias" [0] (.parser "alias" [.forward 0 shift])⟩]⟩

def opened (text : String) : Store Code :=
  { contexts := #[⟨.ofString text, {}, .forInput (Document.ofString text).size 2⟩],
    heldContexts := [1] }

theorem opens (text : String) (shift : Int)
    (h : ¬(0 < 104857600 ∧ 104857600 < (Document.ofString text).size)) :
    (engine shift).openContext {} (.ofString text) {} = .ok (1, opened text) := by
  rw [Engine.openContext, Store.openContext, if_neg h]
  rfl

theorem inPlace_opened (text : String) : (opened text).InPlace where
  trees id a ha := by simp [Store.accumulator?, opened] at ha
  listeners id a ha := by simp [Store.accumulator?, opened] at ha

/-- The first steps of the parse of a document. -/
def run (text : String) (shift : Int) (n : Nat) : Machine Code World :=
  .run (engine shift) n (.ofRequest (opened text) {} 1 1 0)

end Alias

/-- A parser that passes on what is found where it starts itself covers the document. -/
theorem complete_match_covers_alias :
    ∃ t s' w', (Alias.engine 0).parse (Alias.opened "b") {} 1 1 = (.ok t, s', w') ∧
      t.start = 0 ∧ t.stop = (Document.ofString "b").size ∧ s'.InPlace := by
  have hdiary : (Alias.engine 0).Diary ⟨Alias.opened "b", {}, []⟩ [] :=
    .opened (.start _) (Alias.opens "b" 0 (by decide))
  have hrest : (Alias.run "b" 0 30).agenda.isEmpty = true := by decide +kernel
  have hbusy : ∀ n < 30, (Alias.run "b" 0 n).KeepsPlace (Alias.engine 0) := by decide +kernel
  have hdone : (Alias.run "b" 0 30).KeepsPlace (Alias.engine 0) := by decide +kernel
  have hkeeps (n : Nat) : (Alias.run "b" 0 n).KeepsPlace (Alias.engine 0) := by
    rcases Nat.lt_or_ge n 30 with hn | hn
    · exact hbusy n hn
    · rw [Alias.run, Machine.run_of_idle (List.isEmpty_iff.1 hrest) hn]
      exact hdone
  have hok : ((Alias.engine 0).parse (Alias.opened "b") {} 1 1).1 =
      .ok (.node 1 0 1 [.node 0 0 1 []]) := by
    rw [Engine.parse, Engine.request_eq, Machine.run_of_idle (List.isEmpty_iff.1 hrest) (by decide)]
    decide +kernel
  obtain ⟨-, hstop, hcovers⟩ := complete_match_covers hdiary rfl (Prod.ext hok rfl)
  obtain ⟨hplace, hstart⟩ := hcovers (Alias.inPlace_opened "b") hkeeps
  exact ⟨_, _, _, Prod.ext hok rfl, hstart, hstop, hplace⟩

/-- One that passes on what is found further on does not: the match that is returned leaves out the
first letter. -/
theorem complete_match_skips :
    ∃ t, ((Alias.engine 1).parse (Alias.opened "ab") {} 1 1).1 = .ok t ∧
      ¬(t.start = 0 ∧ t.stop = (Document.ofString "ab").size) := by
  refine ⟨.node 1 1 2 [.node 0 1 2 []], ?_, by decide⟩
  have hrest : (Alias.run "ab" 1 30).agenda.isEmpty = true := by decide +kernel
  rw [Engine.parse, Engine.request_eq, Machine.run_of_idle (List.isEmpty_iff.1 hrest) (by decide)]
  decide +kernel

end PushParsing
