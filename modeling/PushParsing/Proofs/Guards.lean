import PushParsing.Proofs.Finality
import PushParsing.Proofs.Furthest
import PushParsing.Proofs.WellFormed

/-!
# Guards that nothing runs into

Parsers of a grammar that was built, asked for at positions of the document, never ask for a parser
that the grammar does not have or for a position beyond the end, never let a match stop before it
starts, and put trees together from parts that begin where the whole does.
-/
namespace PushParsing

variable {g : Grammar Empty} {d : Document} {s s' : Store Empty} {c : ContextNumber}
  {p : ParserId} {i : Nat} {m : Machine Empty Unit}

section Pairs

/-- Since a request for a position pairs were asked for within the grammar and the document only, in
its context and not further left, and only on behalf of each other. -/
structure Machine.Ahead (g : Grammar Empty) (d : Document) (c : ContextNumber) (s : Store Empty)
    (i : Nat) (m : Machine Empty Unit) : Prop where
  apart : m.Apart s.accumulators.size
  pairs : ∀ k q j id, m.store.peek? k q j = some id →
    s.peek? k q j = some id ∨ k = c ∧ g.Covers d q j ∧ i ≤ j

/-- A new accumulator lies not further left than the request. -/
theorem Machine.Ahead.le (hs : s.Sound g) (hm : m.Sound g d c) (h : m.Ahead g d c s i)
    {id : AccumulatorId} (hid : s.accumulators.size ≤ id) {q : ParserId} {j : Nat}
    (hfor : m.store.IsFor id c q j) : i ≤ j := by
  rcases h.pairs c q j id (hm.store.isFor_iff.1 hfor) with hold | ⟨-, -, hle⟩
  · obtain ⟨a, ha, -⟩ := hs.known c q j id hold
    exact absurd (Array.getElem?_eq_some_iff.1 ha).1 (Nat.not_lt.2 hid)
  · exact hle

/-- The step lemma: what asks for a pair is a new accumulator, and it asks within the grammar and the
document and not to its left. -/
theorem Machine.Ahead.step (hg : g.Closed) (hs : s.Sound g) (hm : m.Sound g d c)
    (h : m.Ahead g d c s i) : (m.step (.standard g)).Ahead g d c s i := by
  refine ⟨h.apart.step, fun k q j id hp => ?_⟩
  obtain ⟨t, w, js⟩ := m
  cases js with
  | nil => exact h.pairs k q j id hp
  | cons job js =>
    rcases Job.peek?_perform hm.store hp with hold | ⟨next, rfl, -⟩
    · exact h.pairs k q j id hold
    · have hjob : (Job.ask k q j next).Sound g d t c := hm.jobs _ List.mem_cons_self
      obtain ⟨rfl, hcovers, hserves⟩ := hjob
      obtain ⟨p, i', hfor, hrequests⟩ := hserves.requests hm.store hm.document
      have hle : i ≤ i' := h.le hs hm (h.apart.jobs _ List.mem_cons_self) hfor
      exact .inr ⟨rfl, hcovers, Nat.le_trans hle (hrequests.covers hg).2⟩

/-- The run lemma. -/
theorem Machine.Ahead.run (hg : g.Closed) (hs : s.Sound g) (hm : m.Sound g d c)
    (h : m.Ahead g d c s i) (n : Nat) : (m.run (.standard g) n).Ahead g d c s i :=
  hm.preserves hg (fun _ hm h => h.step hg hs hm) n h

theorem Machine.Ahead.ofRequest (hs : s.Sound g) (hd : s.document? c = some d)
    (hcovers : g.Covers d p i) : (Machine.ofRequest s () c p i).Ahead g d c s i where
  apart := .ofRequest s c p i
  pairs k q j id hp := by
    rw [Machine.ofRequest, hs.valid.peek?_request (Store.isSome_context hd)] at hp
    split at hp
    next he =>
      obtain ⟨rfl, rfl, rfl⟩ := he
      exact .inr ⟨rfl, hcovers, Nat.le_refl _⟩
    next => exact .inl hp

end Pairs

section Messages

namespace Cause

/-- The causes of which guards tell. -/
def IsGuard : Cause → Prop
  | beyondEnd | unknownParser _ | stopsBeforeStart _ _ => True
  | expectedText _ | expectedPattern _ | noAlternatives | unexpectedInput | noMatches => False

/-- The letter that the wording of a cause begins with. -/
def initial : Cause → Char
  | expectedText _ | expectedPattern _ => 'E'
  | noAlternatives | noMatches => 'N'
  | beyondEnd => 'P'
  | unknownParser _ | unexpectedInput => 'U'
  | stopsBeforeStart _ _ => 'M'

theorem head?_message (cause : Cause) : cause.message.toList.head? = some cause.initial := by
  unfold message
  cases cause <;> simp [initial, String.toList_append]

/-- No pair that fails by itself tells what a guard would tell. -/
theorem IsGuard.message_ne {cause own : Cause} (h : cause.IsGuard) (hown : g.Fails d p i own) :
    own.message ≠ cause.message := by
  intro he
  have hinitial : own.initial = cause.initial := by
    rw [← Option.some_inj, ← head?_message, ← head?_message, he]
  cases hown <;> cases cause <;> first | exact h.elim | cases hinitial

end Cause

/-- In a store whose pairs lie within the grammar and their documents no guard has told anything. -/
theorem Store.Sound.message_ne (hg : g.Closed) (hs : s.Sound g)
    (hcovers : ∀ k d q j id, s.document? k = some d → s.peek? k q j = some id → g.Covers d q j)
    {id : AccumulatorId} {a : Accumulator Empty} (ha : s.accumulator? id = some a) {f : Failure}
    (hf : f ∈ a.failures) {cause : Cause} (hcause : cause.IsGuard) : f.message ≠ cause.message := by
  obtain ⟨hpeek, d, hd, hsound⟩ := hs.kept id a ha
  obtain ⟨q, j, hreach, hfailure⟩ := hsound.failures f hf
  have hown : g.Covers d q j :=
    Grammar.Covers.reach hg (hcovers _ d _ _ id hd hpeek) hreach
  obtain ⟨own, hcause?, rfl⟩ := Option.map_eq_some_iff.1 hfailure
  exact hcause.message_ne ((Grammar.cause?_eq_some_iff hown).1 hcause?)

end Messages

section Making

/-- A tree as it is put together: a leaf between two offsets, or parts in a row from an offset on. -/
inductive Tree.Making where
  | leaf (start stop : Nat)
  | join (start : Nat) (parts : List Tree)

namespace Tree.Making

def tree (p : ParserId) : Making → Tree
  | leaf start stop => .leaf p start stop
  | join start parts => .join p start parts

/-- A leaf does not stop before it starts, and the first part begins where the whole does. -/
def Proper : Making → Prop
  | leaf start stop => start ≤ stop
  | join start parts => ∀ t ∈ parts.head?, t.start = start

end Tree.Making

/-- What a job puts together, if no guard is in its way. -/
inductive Job.Makes (g : Grammar Empty) (s : Store Empty) : Job Empty → Tree.Making → Prop
  | stop {id : AccumulatorId} {stop : Nat} {a : Accumulator Empty} : s.accumulator? id = some a →
      Makes g s (.operate (.addStop id stop)) (.leaf a.position stop)
  | nothing {id : AccumulatorId} {a : Accumulator Empty} : s.accumulator? id = some a →
      g.parser? a.parser = some (.sequence []) →
      Makes g s (.start id) (.leaf a.position a.position)
  | row {n : Nat} {r : Sequel} {source : AccumulatorId} {t : Tree} : r.rest = [] →
      Makes g s (.tell ⟨n, .element r⟩ source (.found t)) (.join r.start (r.taken ++ [t]))

/-- Whether a job hands on what was found elsewhere. -/
def Job.HandsOn (t : Tree) (j : Job Empty) : Prop :=
  ∃ n target source, j = .tell ⟨n, .forward target⟩ source (.found t)

theorem Job.makes_of_start {id k : AccumulatorId} {t : Tree}
    (h : .operate (.addTree k t) ∈ ((Job.start id).perform (.standard g) s ()).2.2) :
    ∃ x, (Job.start id).Makes g s x ∧ t = x.tree t.parser := by
  simp only [perform] at h
  split at h
  · cases h
  next a ha =>
    split at h
    · cases h
    · split at h
      · simp at h
      · split at h
        · simp at h
        next code _ => exact code.elim
        next y hy hp =>
          -- of all parsers the empty sequence alone offers a tree at once
          cases y with
          | sequence es =>
            cases es with
            | nil =>
              simp only [Parser.begin, List.mem_singleton, operate.injEq,
                Operation.addTree.injEq] at h
              obtain ⟨-, rfl⟩ := h
              exact ⟨_, .nothing ha hp, rfl⟩
            | cons e rest => simp [Parser.begin] at h
          | literal text =>
            simp only [Parser.begin] at h
            split at h <;> simp at h
          | pattern r =>
            simp only [Parser.begin] at h
            split at h <;> simp at h
          | choice qs => cases qs <;> simp [Parser.begin] at h
          | optional q => simp [Parser.begin] at h
          | custom label refs code => exact code.elim

/-- A tree that a job offers was found elsewhere, or the job has put it together. -/
theorem Job.makes_of_offers {j : Job Empty} {id : AccumulatorId} {t : Tree}
    (h : .operate (.addTree id t) ∈ (j.perform (.standard g) s ()).2.2) :
    j.HandsOn t ∨ ∃ x, j.Makes g s x ∧ t = x.tree t.parser := by
  cases Job.callsFor h with
  | code code _ => exact code.elim
  | leaf ha => exact .inr ⟨_, .stop ha, rfl⟩
  | beginTree => exact .inr (Job.makes_of_start h)
  | passTree => exact .inl ⟨_, _, _, rfl⟩
  | @complete n r source t a ha =>
    refine .inr ⟨.join r.start (r.taken ++ [t]), .row ?_, rfl⟩
    -- a sequence that goes on would ask for its next element instead
    cases hrest : r.rest with
    | nil => rfl
    | cons e rest =>
      simp only [perform] at h
      split at h
      · simp only [Sequel.continue, ha, hrest] at h
        split at h <;> simp at h
      · cases h

theorem Job.Makes.proper (hs : s.Sound g) (hd : s.document? c = some d) {j : Job Empty}
    {x : Tree.Making} (h : j.Makes g s x) (hj : j.Sound g d s c) : x.Proper := by
  cases h with
  | stop ha =>
    obtain ⟨p, i, ⟨b, hb, -, -, rfl⟩, -, hle, -⟩ := hj
    cases ha.symm.trans hb
    exact hle
  | nothing ha _ => exact Nat.le_refl _
  | @row n r source t hrest =>
    obtain ⟨q, k, -, hserves, ht⟩ := hj
    cases hserves with
    | element _ _ _ hchain =>
      obtain ⟨-, hadjoin, -⟩ := hchain.parts hs hd
      obtain ⟨-, hstart, -⟩ := hs.found hd ht
      intro u hu
      cases htaken : r.taken with
      | nil =>
        rw [htaken] at hadjoin hu
        obtain rfl : t = u := Option.some.inj hu
        exact hstart.trans hadjoin.symm
      | cons v vs =>
        rw [htaken] at hadjoin hu
        obtain rfl : v = u := Option.some.inj hu
        exact hadjoin.1

end Making

/-- While a request for a pair within the grammar and the document is at work, however long, all pairs
asked for lie within the grammar and their documents, and those that it adds not further left than it
is made. No accumulator is told what only guards tell. Whatever is put together is put together
properly; trees that are offered are put together so or handed on. -/
theorem guards_are_idle {draft : Draft Empty} (hb : draft.build = .ok g)
    (hr : g.Reached g.Covers s) (hd : s.document? c = some d) (hcovers : g.Covers d p i) {n : Nat}
    (hm : Machine.run (.standard g) n (.ofRequest s () c p i) = m) :
    (∀ k d' q j id, m.store.document? k = some d' → m.store.peek? k q j = some id →
      g.Covers d' q j ∧ (s.peek? k q j = some id ∨ k = c ∧ i ≤ j)) ∧
    (∀ id a, m.store.accumulator? id = some a → ∀ f ∈ a.failures, ∀ cause : Cause,
      cause.IsGuard → f.message ≠ cause.message) ∧
    ∀ job ∈ m.agenda, (∀ x, job.Makes g m.store x → x.Proper) ∧
      ∀ id t, .operate (.addTree id t) ∈ (job.perform (.standard g) m.store ()).2.2 →
        job.HandsOn t ∨ ∃ x, job.Makes g m.store x ∧ t = x.tree t.parser := by
  have hg := Draft.closed_build hb
  have hs := hr.sound hg
  obtain ⟨hstart, hgrows, -⟩ := Machine.Sound.ofRequest hs hd p i
  obtain ⟨hend, hgrows'⟩ := hstart.run hg n
  have hahead := (Machine.Ahead.ofRequest hs hd hcovers).run hg hs hstart n
  rw [hm] at hend hgrows' hahead
  have hpairs (k : ContextNumber) (d' : Document) (q : ParserId) (j : Nat) (id : AccumulatorId)
      (hd' : m.store.document? k = some d') (hp : m.store.peek? k q j = some id) :
      g.Covers d' q j ∧ (s.peek? k q j = some id ∨ k = c ∧ i ≤ j) := by
    rcases hahead.pairs k q j id hp with hold | ⟨rfl, hnew, hle⟩
    · have hdoc := (hgrows.trans hgrows').document_of_peek hold hd'
      exact ⟨or_self_iff.1 (hr.pairs hg hdoc hold), .inl hold⟩
    · cases hend.document.symm.trans hd'
      exact ⟨hnew, .inr ⟨rfl, hle⟩⟩
  refine ⟨hpairs, fun id a ha f hf cause hcause => ?_, fun job hjob => ⟨fun x hx => ?_, ?_⟩⟩
  · have hcov := fun k d' q j id hd' hp => (hpairs k d' q j id hd' hp).1
    exact hend.store.message_ne hg hcov ha hf hcause
  · exact hx.proper hend.store hend.document (hend.jobs job hjob)
  · exact fun id t => Job.makes_of_offers

/-- When the letter that may be missing is looked for, all is asked for within the document, and no
parser is told that it is beyond the end. -/
theorem guards_are_idle_accent :
    (∀ q j id, Accent.store.peek? 1 q j = some id → q < 4 ∧ j ≤ 3) ∧
    ∀ id a, Accent.store.accumulator? id = some a → ∀ f ∈ a.failures,
      f.message ≠ Cause.beyondEnd.message := by
  have hg := Draft.closed_build Accent.built
  have hr : Accent.grammar.Reached Accent.grammar.Covers Accent.opened := by
    have hopen : (Engine.standard Accent.grammar).openContext {} Accent.document {} =
        .ok (1, Accent.opened) := rfl
    exact .opened .start hopen
  have hd : Accent.opened.document? 1 = some Accent.document := rfl
  have hcovers : Accent.grammar.Covers Accent.document 0 0 := by decide
  obtain ⟨hpairs, hmessages, -⟩ := guards_are_idle Accent.built hr hd hcovers (n := 99) rfl
  have hdoc : Accent.store.document? 1 = some Accent.document := hr.document_request hg hd 0 0 99
  exact ⟨fun q j id hp => (hpairs 1 _ q j id hdoc hp).1,
    fun id a ha f hf => hmessages id a ha f hf .beyondEnd trivial⟩

end PushParsing
