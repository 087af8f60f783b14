import Mathlib.Data.Set.Finite.Basic
import PushParsing.Proofs.Furthest
import PushParsing.Proofs.Termination
import PushParsing.Proofs.WellFormed

/-!
# Silence

An accumulator that has found nothing, and no failure either, waits for another one of which the same
is true. Positions never decrease on the way from the one to the other and there are finitely many
pairs, so in the end such accumulators wait for each other, in a circle and at one position. Only a
rule that begins with itself can bring this about.
-/
namespace PushParsing

open Relation

variable {g : Grammar Empty} {d : Document} {s : Store Empty} {c : ContextNumber}
  {x y : ParserId × Nat} {admits : Document → ParserId → Nat → Prop}

/-- The pair matches something, or some pair that it makes use of, directly or not, fails. -/
def Grammar.Vocal (g : Grammar Empty) (d : Document) (x : ParserId × Nat) : Prop :=
  (∃ j, Derives g d x.1 x.2 j) ∨
    ∃ z cause, ReflTransGen (Requests g d) x z ∧ g.Fails d z.1 z.2 cause

/-- Elements match one after another, or there is one that does not match behind those before. -/
theorem DerivesAll.or_stuck (g : Grammar Empty) (d : Document) (es : List ParserId) :
    ∀ i, (∃ j, DerivesAll g d es i j) ∨ ∃ before e after k, es = before ++ e :: after ∧
      DerivesAll g d before i k ∧ ∀ j, ¬Derives g d e k j := by
  induction es with
  | nil => exact fun i => .inl ⟨i, .nil⟩
  | cons e es ih =>
    intro i
    by_cases he : ∃ k, Derives g d e i k
    · obtain ⟨k, hk⟩ := he
      rcases ih k with ⟨j, hj⟩ | ⟨before, e', after, k', rfl, hbefore, hstuck⟩
      · exact .inl ⟨j, .cons hk hj⟩
      · exact .inr ⟨e :: before, e', after, k', rfl, .cons hk hbefore, hstuck⟩
    · exact .inr ⟨[], e, es, i, rfl, .nil, fun j hj => he ⟨j, hj⟩⟩

/-- A pair that is not vocal makes use of another one that is not, or of itself. -/
theorem Grammar.exists_not_vocal (hx : g.Covers d x.1 x.2) (h : ¬g.Vocal d x) :
    ∃ y, Requests g d x y ∧ ¬g.Vocal d y := by
  obtain ⟨p, i⟩ := x
  obtain ⟨hp, hi⟩ := hx
  have hnone (j : Nat) : ¬Derives g d p i j := fun hj => h (.inl ⟨j, hj⟩)
  have hfails (cause : Cause) : ¬g.Fails d p i cause := fun hf => h (.inr ⟨_, cause, .refl, hf⟩)
  -- it is enough that the other pair matches nothing, as its failures are those of the first
  have hbarren {y : ParserId × Nat} (hreq : Requests g d (p, i) y)
      (hy : ∀ j, ¬Derives g d y.1 y.2 j) : ∃ y, Requests g d (p, i) y ∧ ¬g.Vocal d y := by
    refine ⟨y, hreq, ?_⟩
    rintro (⟨j, hj⟩ | ⟨z, cause, hz, hf⟩)
    · exact hy j hj
    · exact h (.inr ⟨z, cause, hz.head hreq, hf⟩)
  obtain ⟨x, hx⟩ := g.exists_parser hp
  cases x with
  | literal text => exact absurd (.literal hx hnone) (hfails _)
  | pattern r => exact absurd (.pattern hx hnone) (hfails _)
  | sequence es =>
    rcases DerivesAll.or_stuck g d es i with ⟨j, hj⟩ | ⟨before, e, after, k, rfl, hbefore, hstuck⟩
    · exact absurd (.sequence hx hj) (hnone j)
    · exact hbarren (.sequence hi hx hbefore) hstuck
  | choice qs =>
    cases qs with
    | nil => exact absurd (.choice hx) (hfails _)
    | cons q qs =>
      have hpass : g.Passes p q := .choice hx List.mem_cons_self
      exact hbarren (.pass hi hpass) fun j hj => hnone j (hpass.derives hj)
  | optional q => exact absurd (.nothing hx) (hnone i)
  | custom label refs code => exact code.elim

/-- The pair was asked for, and its accumulator has neither a tree nor a failure. -/
def Store.Silent (s : Store Empty) (c : ContextNumber) (x : ParserId × Nat) : Prop :=
  ∃ id a, s.peek? c x.1 x.2 = some id ∧ s.accumulator? id = some a ∧ a.trees = [] ∧ a.best = none

/-- The first pair asked for the second one: it listens to it. -/
def Store.ListensTo (s : Store Empty) (c : ContextNumber) (x y : ParserId × Nat) : Prop :=
  ∃ id id' role, s.peek? c x.1 x.2 = some id ∧ s.peek? c y.1 y.2 = some id' ∧
    s.Linked id' role ∧ role.target = id

/-- The first pair asked for the second one, which it makes use of, and heard nothing. -/
structure Store.WaitsInVain (g : Grammar Empty) (d : Document) (s : Store Empty) (c : ContextNumber)
    (x y : ParserId × Nat) : Prop where
  listens : s.ListensTo c x y
  requests : Requests g d x y
  silent : s.Silent c y

section Rest

variable (hg : g.Closed) (hr : g.Reached admits s) (hd : s.document? c = some d)
include hg hr hd

/-- At rest a pair within the grammar and the document is silent unless it is vocal. -/
theorem Grammar.Reached.silent_iff (hx : g.Covers d x.1 x.2) {id : AccumulatorId}
    (hid : s.peek? c x.1 x.2 = some id) : s.Silent c x ↔ ¬g.Vocal d x := by
  have hs := hr.sound hg
  obtain ⟨done, hledger⟩ := hr.ledger hg
  obtain ⟨a, ha, hc, hp, hi⟩ := hs.known _ _ _ id hid
  have hbest := (hr.isFurthest hg hd hx hid ha).none_iff
  have htrees : a.trees = [] ↔ ∀ j, ¬Derives g d x.1 x.2 j := by
    constructor
    · intro hnil j hj
      obtain ⟨b, hb, t, ht, -⟩ := hledger.hasStop hs hd hj hx.2 id hid
      cases ha.symm.trans hb
      rw [hnil] at ht
      cases ht
    · intro hnone
      refine List.eq_nil_iff_forall_not_mem.2 fun t ht => ?_
      exact hnone _ (hs.found hd ⟨id, a, ha, hc, hp, hi, ht⟩).2.2.2.2
  constructor
  · rintro ⟨id', a', hid', ha', hnil, hnone⟩ hvocal
    cases hid.symm.trans hid'
    cases ha.symm.trans ha'
    rcases hvocal with ⟨j, hj⟩ | ⟨z, cause, hz, hf⟩
    · exact htrees.1 hnil j hj
    · exact hbest.1 hnone z cause hz hf
  · intro hmute
    refine ⟨id, a, hid, ha, htrees.2 fun j hj => hmute (.inl ⟨j, hj⟩), ?_⟩
    exact hbest.2 fun z cause hz hf => hmute (.inr ⟨z, cause, hz, hf⟩)

/-- A memoized pair listens to each pair that it makes use of. -/
theorem Grammar.Reached.listens {id : AccumulatorId} (hid : s.peek? c x.1 x.2 = some id)
    (hreq : Requests g d x y) :
    ∃ id' role, s.peek? c y.1 y.2 = some id' ∧ s.Linked id' role ∧ role.target = id := by
  obtain ⟨done, hledger⟩ := hr.ledger hg
  exact hledger.listens (hr.sound hg) hd hid hreq

/-- The step from a silent pair to the next one. -/
theorem Grammar.Reached.waitsInVain (hx : g.Covers d x.1 x.2) (h : s.Silent c x) :
    ∃ y, s.WaitsInVain g d c x y := by
  have hpeek : ∃ id, s.peek? c x.1 x.2 = some id := by
    obtain ⟨id, a, hid, -⟩ := h
    exact ⟨id, hid⟩
  obtain ⟨id, hid⟩ := hpeek
  obtain ⟨y, hreq, hy⟩ := Grammar.exists_not_vocal hx ((hr.silent_iff hg hd hx hid).1 h)
  obtain ⟨id', role, hid', hl, htarget⟩ := hr.listens hg hd hid hreq
  have hsilent := (hr.silent_iff hg hd (hreq.covers hg).1 hid').2 hy
  exact ⟨y, ⟨id, id', role, hid, hid', hl, htarget⟩, hreq, hsilent⟩

end Rest

section Circles

/-- Where each of finitely many things leads to another one, one comes to a circle. -/
theorem exists_circle {α : Type} {r : α → α → Prop} {P : α → Prop} (hfinite : {x | P x}.Finite)
    (hnext : ∀ x, P x → ∃ y, r x y ∧ P y) {x : α} (hx : P x) :
    ∃ z, ReflTransGen r x z ∧ TransGen r z z := by
  by_contra hno
  let S := {z // P z ∧ ReflTransGen r x z}
  have : Finite S := hfinite.subset fun z hz => hz.1
  let below (a b : S) : Prop := TransGen r b.1 a.1
  have : IsTrans S below := ⟨fun _ _ _ hab hbc => hbc.trans hab⟩
  have : Std.Irrefl below := ⟨fun a ha => hno ⟨a.1, a.2.2, ha⟩⟩
  have hwf : WellFounded below := Finite.wellFounded_of_trans_of_irrefl below
  refine hwf.induction (C := fun _ => False) ⟨x, hx, .refl⟩ fun m ih => ?_
  obtain ⟨y, hmy, hy⟩ := hnext m.1 m.2.1
  exact ih ⟨y, hy, m.2.2.tail hmy⟩ (.single hmy)

/-- If a number never decreases it is the same all round a circle. -/
theorem transGen_level {α : Type} {r : α → α → Prop} {f : α → Nat} (hle : ∀ x y, r x y → f x ≤ f y)
    {x z : α} (h : TransGen r x z) (hback : f z ≤ f x) :
    TransGen (fun x y => r x y ∧ f y = f x) x z := by
  have hmono {x y : α} (h : TransGen r x y) : f x ≤ f y := by
    induction h with
    | single h => exact hle _ _ h
    | tail _ h ih => exact Nat.le_trans ih (hle _ _ h)
  induction h with
  | single h => exact .single ⟨h, Nat.le_antisymm hback (hle _ _ h)⟩
  | @tail y z hxy hyz ih =>
    have hfy := hle y z hyz
    have hfx := hmono hxy
    exact .tail (ih (Nat.le_trans hfy hback)) ⟨hyz, by omega⟩

end Circles

section Verdicts

/-- A text that begins otherwise is another one. -/
theorem append_ne {a b c : String} (h : ¬a.toList <+: c.toList) : a ++ b ≠ c := by
  rintro rfl
  exact h (String.toList_append ▸ List.prefix_append ..)

/-- No pair that fails by itself tells of a lack of matches. -/
theorem Grammar.Fails.message_ne {p : ParserId} {i : Nat} {cause : Cause} (h : g.Fails d p i cause) :
    cause.message ≠ Cause.noMatches.message := by
  cases h with
  | @literal text _ _ =>
    have hassoc : "Expected '" ++ (text ++ "'") = (Cause.expectedText text).message :=
      (String.append_assoc ..).symm
    exact hassoc ▸ append_ne (by decide)
  | pattern _ _ => exact append_ne (by decide)
  | choice _ => decide

/-- The accumulators among which the furthest failure of a context is looked for. -/
theorem Store.Sound.mem_accumulatorsOf (hs : s.Sound g) {a : Accumulator Empty} :
    a ∈ s.accumulatorsOf c ↔
      ∃ p i id, s.peek? c p i = some id ∧ s.accumulator? id = some a := by
  rw [Store.accumulatorsOf]
  cases hz : s.context? c with
  | none => simp [Store.peek?, hz]
  | some z =>
    have hvalid : z.memo.Valid := hs.valid c z hz
    simp only [List.mem_filterMap, Store.peek?, hz, Option.bind_some, hvalid.peek?_eq_some_iff]
    constructor
    · rintro ⟨e, he, ha⟩
      exact ⟨e.parser, e.position, e.value, he, ha⟩
    · rintro ⟨p, i, id, he, ha⟩
      exact ⟨_, he, ha⟩

/-- The failure for which a whole document is refused: it is for the lack of matches only if the root
has neither a tree nor a failure, and otherwise that of some pair or for what is left unmatched. -/
theorem Store.Sound.message_of_verdict (hs : s.Sound g) (hd : s.document? c = some d)
    {root : ParserId} {id : AccumulatorId} {f : Failure} (hid : s.peek? c root 0 = some id)
    (h : s.verdict c root id = .error f) : s.Silent c (root, 0) ∨
      f.message = Cause.unexpectedInput.message ∨
      ∃ p i id' a, s.peek? c p i = some id' ∧ s.accumulator? id' = some a ∧ a.best = some f := by
  obtain ⟨x, hx, -⟩ := Option.map_eq_some_iff.1 hd
  obtain ⟨a, ha, -⟩ := hs.known c root 0 id hid
  have hbest (f : Failure) (hf : s.furthest? c = some f) : ∃ p i id' a, s.peek? c p i = some id' ∧
      s.accumulator? id' = some a ∧ a.best = some f := by
    obtain ⟨a', ha', hbest⟩ := List.mem_filterMap.1 (mem_of_foldl_furthest hf)
    obtain ⟨p, i, id', hp, hid'⟩ := hs.mem_accumulatorsOf.1 ha'
    exact ⟨p, i, id', a', hp, hid', hbest⟩
  simp only [verdict, hx, ha] at h
  split at h
  · cases h
  · cases hlongest : a.longest? with
    | none =>
      cases hfurthest : s.furthest? c with
      | none =>
        refine .inl ⟨id, a, hid, ha, Accumulator.longest?_eq_none_iff.1 hlongest, ?_⟩
        have hnil := foldl_furthest_eq_none_iff.1 hfurthest
        have hmem : a ∈ s.accumulatorsOf c := hs.mem_accumulatorsOf.2 ⟨root, 0, id, hid, ha⟩
        exact List.filterMap_eq_nil_iff.1 hnil a hmem
      | some f' =>
        rw [hlongest, hfurthest] at h
        cases h
        exact .inr (.inr (hbest f hfurthest))
    | some t =>
      cases hfurthest : s.furthest? c with
      | none =>
        rw [hlongest, hfurthest] at h
        cases h
        exact .inr (.inl rfl)
      | some f' =>
        rw [hlongest, hfurthest] at h
        simp only at h
        split at h <;> cases h
        · exact .inr (.inr (hbest f hfurthest))
        · exact .inr (.inl rfl)

end Verdicts

section Outcomes

variable (hg : g.Closed) (hr : g.Reached g.Covers s) (hd : s.document? c = some d)
include hg hr hd

/-- A silent pair leads to others that wait for each other all round, at one position. -/
theorem Grammar.Reached.circle (hx : s.Silent c x) :
    ∃ z, ReflTransGen (s.WaitsInVain g d c) x z ∧
      TransGen (fun x y => s.WaitsInVain g d c x y ∧ y.2 = x.2) z z := by
  have hcovers {x : ParserId × Nat} (hx : s.Silent c x) : g.Covers d x.1 x.2 := by
    obtain ⟨id, -, hid, -⟩ := hx
    exact (or_self_iff).1 (hr.pairs hg hd hid)
  have hfinite : {x | s.Silent c x}.Finite :=
    (allPairs g.size d.size).finite_toSet.subset fun x hx => mem_allPairs.2 (hcovers hx)
  have hnext (x : ParserId × Nat) (hx : s.Silent c x) :
      ∃ y, s.WaitsInVain g d c x y ∧ s.Silent c y := by
    obtain ⟨y, hy⟩ := hr.waitsInVain hg hd (hcovers hx) hx
    exact ⟨y, hy, hy.silent⟩
  obtain ⟨z, hz, hzz⟩ := exists_circle hfinite hnext hx
  exact ⟨z, hz, transGen_level (fun x y h => (h.requests.covers hg).2) hzz (Nat.le_refl _)⟩

theorem Grammar.Reached.not_silent
    (hstraight : ∀ z, ¬TransGen (fun x y => Requests g d x y ∧ y.2 = x.2) z z) :
    ¬s.Silent c x := by
  intro hx
  obtain ⟨z, -, hz⟩ := hr.circle hg hd hx
  exact hstraight z (TransGen.mono (fun x y h => ⟨h.1.requests, h.2⟩) z z hz)

/-- If no pair is silent then no document is refused for the lack of matches. -/
theorem Grammar.Reached.message_of_verdict {root : ParserId} {id : AccumulatorId} {f : Failure}
    (hid : s.peek? c root 0 = some id) (hloud : ¬s.Silent c (root, 0))
    (h : s.verdict c root id = .error f) : f.message ≠ Cause.noMatches.message := by
  rcases (hr.sound hg).message_of_verdict hd hid h with
    hsilent | hmessage | ⟨p, i, id', a, hp, ha, hbest⟩
  · exact absurd hsilent hloud
  · rw [hmessage]
    decide
  · have hcov : g.Covers d p i := (or_self_iff).1 (hr.pairs hg hd hp)
    have hfurthest : g.IsFurthest d (p, i) a.best := hr.isFurthest hg hd hcov hp ha
    obtain ⟨cause, -, hfails, hmessage⟩ := hfurthest.genuine f hbest
    rw [hmessage]
    exact hfails.message_ne

end Outcomes

/-- Whenever a request is done, a pair that has found nothing and no failure either asked for another
such pair, at its own position or further on, or for itself. So it leads to such pairs that ask for
each other all round, at one position. Where no pair makes use of itself by way of its own position,
every pair memoized has a tree or a failure, and no document is refused for the lack of matches. -/
theorem silence_is_circular {draft : Draft Empty} (hb : draft.build = .ok g)
    (hr : g.Reached g.Covers s) (hd : s.document? c = some d) :
    (∀ x, s.Silent c x → ∃ y, s.WaitsInVain g d c x y ∧ x.2 ≤ y.2) ∧
    (∀ x, s.Silent c x → ∃ z, ReflTransGen (s.WaitsInVain g d c) x z ∧
      TransGen (fun x y => s.WaitsInVain g d c x y ∧ y.2 = x.2) z z) ∧
    ((∀ z, ¬TransGen (fun x y => Requests g d x y ∧ y.2 = x.2) z z) → (∀ x, ¬s.Silent c x) ∧
      ∀ root, root < g.size → ∃ n result t, (∀ limit, n ≤ limit →
          Engine.parse { Engine.standard g with limit } s () c root = (result, t, ())) ∧
        ∀ f, result = .error f → f.message ≠ Cause.noMatches.message) := by
  have hg := Draft.closed_build hb
  refine ⟨fun x hx => ?_, fun x hx => hr.circle hg hd hx, fun hstraight => ⟨fun x =>
    hr.not_silent hg hd hstraight, fun root hroot => ?_⟩⟩
  · have hcov : g.Covers d x.1 x.2 := by
      obtain ⟨id, -, hid, -⟩ := hx
      exact (or_self_iff).1 (hr.pairs hg hd hid)
    obtain ⟨y, hy⟩ := hr.waitsInVain hg hd hcov hx
    exact ⟨y, hy, (hy.requests.covers hg).2⟩
  · obtain ⟨hsound, -, hid⟩ := Machine.Sound.ofRequest (hr.sound hg) hd root 0
    obtain ⟨n, hrest⟩ := Machine.Sound.rests hg _ hsound
    obtain ⟨hend, hgrows⟩ := hsound.run hg n
    have hreached := hr.requested hd ⟨hroot, Nat.zero_le _⟩ hrest
    have hpeek := hend.store.isFor_iff.1 (hgrows.isFor hid)
    let t := (Machine.run (.standard g) n (.ofRequest s () c root 0)).store
    refine ⟨n, t.verdict c root (s.request c root 0).1, t, fun limit hlimit => ?_, fun f hf => ?_⟩
    · rw [Engine.parse, Engine.request_eq, Machine.run_limit, Machine.run_of_idle hrest hlimit]
    · have hloud := hreached.not_silent (x := (root, 0)) hg hend.document hstraight
      exact hreached.message_of_verdict hg hend.document hpeek hloud hf

namespace Mute

/-- A letter and then a rule that is nothing but itself, `r ::= 'a' t`, `t ::= t`. -/
def draft : Draft Empty :=
  { slots := #[⟨some "r", some (.sequence [2, 1])⟩, ⟨some "t", some (.choice [1])⟩,
      ⟨none, some (.literal "a")⟩] }

def grammar : Grammar Empty :=
  ⟨#[⟨some "r", .sequence [2, 1]⟩, ⟨some "t", .choice [1]⟩, ⟨none, .literal "a"⟩]⟩

def document : Document := .ofString "ab"

def opened : Store Empty :=
  { contexts := #[⟨document, {}, .forInput 2 3⟩], heldContexts := [1] }

def store : Store Empty := (Machine.run (.standard grammar) 99 (.ofRequest opened () 1 0 0)).store

theorem built : draft.build = .ok grammar := rfl

theorem reached_opened : grammar.Reached grammar.Covers opened := by
  have hopen : (Engine.standard grammar).openContext {} document {} = .ok (1, opened) := rfl
  exact .opened .start hopen

theorem reached : grammar.Reached grammar.Covers store :=
  .requested (d := document) reached_opened rfl (by decide) (by decide +kernel)

theorem silent : store.Silent 1 (0, 0) := by
  have hpeek : store.peek? 1 0 0 = some 0 := by decide +kernel
  have hempty : (store.accumulator? 0).map (fun a => (a.trees, a.best)) = some ([], none) := by
    decide +kernel
  obtain ⟨a, ha, heq⟩ := Option.map_eq_some_iff.1 hempty
  obtain ⟨htrees, hbest⟩ := Prod.mk.inj heq
  exact ⟨0, a, hpeek, ha, htrees, hbest⟩

end Mute

namespace Accent

theorem reached_covers : grammar.Reached grammar.Covers store := by
  have hopen : (Engine.standard grammar).openContext {} document {} = .ok (1, opened) := rfl
  exact .requested (d := document) (.opened .start hopen) rfl (by decide) (by decide +kernel)

/-- Each rule of the grammar makes use of later ones only. -/
theorem lt_of_requests {x y : ParserId × Nat} (h : Requests grammar document x y) : x.1 < y.1 := by
  have hlater : ∀ p, p < 4 → ∀ q ∈ ((grammar.parser? p).map Parser.references).getD [], p < q := by
    decide
  have hrefers {p q : ParserId} {x : Parser Empty} (hp : grammar.parser? p = some x)
      (hq : q ∈ x.references) : p < q := hlater p (Grammar.lt_size hp) q (by rw [hp]; exact hq)
  cases h with
  | pass _ hp =>
    cases hp with
    | choice hp hq => exact hrefers hp hq
    | optional hp => exact hrefers hp List.mem_cons_self
  | sequence _ hp _ => exact hrefers hp (List.mem_append_right _ List.mem_cons_self)

theorem straight (z : ParserId × Nat) :
    ¬TransGen (fun x y => Requests grammar document x y ∧ y.2 = x.2) z z := by
  intro hz
  have hlt : TransGen (fun x y : ParserId × Nat => x.1 < y.1) z z :=
    TransGen.mono (fun x y h => lt_of_requests h.1) z z hz
  have hself {x y : ParserId × Nat} (h : TransGen (fun x y : ParserId × Nat => x.1 < y.1) x y) :
      x.1 < y.1 := by
    induction h with
    | single h => exact h
    | tail _ h ih => exact Nat.lt_trans ih h
  exact Nat.lt_irrefl _ (hself hlt)

end Accent

/-- Behind its letter the rule waits for one that waits for itself; the rule with the accent waits for
nothing in vain. -/
theorem silence_is_circular_mute :
    (∃ z, ReflTransGen (Mute.store.WaitsInVain Mute.grammar Mute.document 1) (0, 0) z ∧
      TransGen (fun x y => Mute.store.WaitsInVain Mute.grammar Mute.document 1 x y ∧ y.2 = x.2)
        z z) ∧
    ∀ x, ¬Accent.store.Silent 1 x := by
  have hd : Mute.store.document? 1 = some Mute.document :=
    Mute.reached_opened.document_request (Draft.closed_build Mute.built) rfl 0 0 99
  have hd' : Accent.store.document? 1 = some Accent.document :=
    Accent.reached_opened.document_request (Draft.closed_build Accent.built) rfl 0 0 99
  obtain ⟨-, hcircle, -⟩ := silence_is_circular Mute.built Mute.reached hd
  obtain ⟨-, -, hloud⟩ := silence_is_circular Accent.built Accent.reached_covers hd'
  exact ⟨hcircle _ Mute.silent, (hloud Accent.straight).1⟩

end PushParsing
