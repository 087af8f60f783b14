import PushParsing.Proofs.Finality
import PushParsing.Proofs.Furthest
import PushParsing.Proofs.Termination

/-!
# The failure of the root

In a context of its own a root is asked for first, and whatever else is asked for, it makes use of,
directly or not. So no failure of the context is further on than its best one, and of all that are
as far its own comes first.
-/
namespace PushParsing

open Relation

variable {g : Grammar Empty} {d : Document} {s s' : Store Empty} {c : ContextNumber}
  {admits : Document → ParserId → Nat → Prop}

/-- Use is made of others only by pairs within the grammar and the document. -/
theorem Requests.covers_source {x y : ParserId × Nat} (h : Requests g d x y) :
    g.Covers d x.1 x.2 := by
  cases h with
  | pass hi hp =>
    cases hp with
    | choice hp _ => exact ⟨Grammar.lt_size hp, hi⟩
    | optional hp => exact ⟨Grammar.lt_size hp, hi⟩
  | sequence hi hp _ => exact ⟨Grammar.lt_size hp, hi⟩

/-- No pair fails further on than one that makes use of it. -/
theorem Grammar.IsFurthest.le {x y : ParserId × Nat} {best best' : Option Failure}
    (hx : g.IsFurthest d x best) (hy : g.IsFurthest d y best')
    (h : ReflTransGen (Requests g d) x y) {f : Failure} (hf : best' = some f) :
    ∃ f', best = some f' ∧ f.position ≤ f'.position := by
  obtain ⟨cause, hreach, hfails, -⟩ := hy.genuine f hf
  cases hbest : best with
  | none => exact absurd hfails (hx.none_iff.1 hbest _ cause (h.trans hreach))
  | some f' => exact ⟨f', rfl, hx.furthest f' hbest _ cause (h.trans hreach) hfails⟩

theorem Grammar.Reached.best_le (hg : g.Closed) (hr : g.Reached admits s)
    (hd : s.document? c = some d) {x y : ParserId × Nat} {id id' : AccumulatorId}
    {a a' : Accumulator Empty} (hx : s.peek? c x.1 x.2 = some id) (ha : s.accumulator? id = some a)
    (hy : s.peek? c y.1 y.2 = some id') (ha' : s.accumulator? id' = some a')
    (h : ReflTransGen (Requests g d) x y) {f : Failure} (hf : a'.best = some f) :
    ∃ f', a.best = some f' ∧ f.position ≤ f'.position := by
  rcases h.cases_head with rfl | ⟨z, hxz, -⟩
  · -- the pair itself, which may lie outside the grammar or the document
    cases hx.symm.trans hy
    cases ha.symm.trans ha'
    exact ⟨f, hf, Nat.le_refl _⟩
  · have hcov := hxz.covers_source
    have hfurthest := hr.isFurthest hg hd hcov hx ha
    have hfurthest' := hr.isFurthest hg hd (hcov.reach hg h) hy ha'
    exact hfurthest.le hfurthest' h hf

/-- Where all pairs of a context are made use of by the first one, its best failure is the furthest
one of the context. -/
theorem Grammar.Reached.furthest?_eq (hg : g.Closed) (hr : g.Reached admits s) {z : Context}
    (hz : s.context? c = some z) {e : Memo.Entry AccumulatorId}
    {es : List (Memo.Entry AccumulatorId)} (he : z.memo.entries.toList = e :: es)
    (hreach : ∀ q k id, s.peek? c q k = some id →
      ReflTransGen (Requests g z.document) (e.parser, e.position) (q, k))
    {a : Accumulator Empty} (ha : s.accumulator? e.value = some a) :
    s.furthest? c = a.best := by
  have hd : s.document? c = some z.document := by rw [Store.document?, hz]; rfl
  have hvalid : z.memo.Valid := (hr.sound hg).valid c z hz
  have hpeek (e' : Memo.Entry AccumulatorId) (h : e' ∈ z.memo.entries.toList) :
      s.peek? c e'.parser e'.position = some e'.value :=
    Store.peek?_eq_some_iff.2 ⟨z, hz, hvalid.peek?_of_mem h⟩
  have hle (f : Failure) (hf : f ∈ (es.filterMap fun e => s.accumulator? e.value).filterMap (·.best)) :
      ∃ f', a.best = some f' ∧ f.position ≤ f'.position := by
    obtain ⟨a', ha', hbest⟩ := List.mem_filterMap.1 hf
    obtain ⟨e', he', hacc⟩ := List.mem_filterMap.1 ha'
    have hmem : e' ∈ z.memo.entries.toList := he ▸ List.mem_cons_of_mem _ he'
    have hfirst : e ∈ z.memo.entries.toList := he ▸ List.mem_cons_self
    exact hr.best_le hg hd (x := (e.parser, e.position)) (y := (e'.parser, e'.position))
      (hpeek e hfirst) ha (hpeek e' hmem) hacc (hreach _ _ _ (hpeek e' hmem)) hbest
  rw [Store.furthest?, Store.accumulatorsOf, hz]
  simp only [he, List.filterMap_cons, ha]
  cases hbest : a.best with
  | none =>
    have hnone : (es.filterMap fun e => s.accumulator? e.value).filterMap (·.best) = [] := by
      refine List.eq_nil_iff_forall_not_mem.2 fun f hf => ?_
      obtain ⟨f', hf', -⟩ := hle f hf
      rw [hbest] at hf'
      cases hf'
    simp only [hnone, List.foldl_nil]
  | some f =>
    simp only [List.foldl_cons]
    refine foldl_furthest_of_le fun x hx => ?_
    obtain ⟨f', hf', hpos⟩ := hle x hx
    rw [hbest] at hf'
    cases hf'
    exact hpos

section Fresh

variable {limits : Limits} {p : ParserId} {i : Nat}

/-- In a context that was just opened a request makes the first entry. -/
theorem Store.entries_request_opened
    (ho : (Engine.standard g).openContext s d limits = .ok (c, s')) (p : ParserId) (i : Nat) :
    ∃ y, (s'.request c p i).2.2.context? c = some y ∧ y.document = d ∧
      y.memo.entries.toList = [⟨i, p, (s'.request c p i).1⟩] := by
  obtain ⟨n, hcontext⟩ := Store.context?_opened ho
  have hc : s'.context? c = some ⟨d, limits, .ofEstimate n⟩ := by rw [hcontext, if_pos rfl]
  have hsome : (s'.context? c).isSome := by rw [hc]; rfl
  have hpeek : s'.peek? c p i = none := by
    rw [Store.peek?, hc]
    exact Memo.Table.peek?_ofEstimate n i p
  obtain ⟨hid, -, -⟩ := Store.request_new hpeek hsome
  rw [Store.context?_congr (Store.contexts_request fun _ => hsome), Store.context?_modifyMemo,
    if_pos rfl, hc, hid]
  refine ⟨_, rfl, rfl, ?_⟩
  simp only [Memo.Table.getOrInsert, Memo.Table.peek?_ofEstimate,
    Memo.Table.toList_entries_insert]
  rfl

/-- Whatever is asked for in a context of its own, a request makes use of it. -/
theorem Machine.reach_ofRequest (hg : g.Closed) (hs : s'.Sound g)
    (ho : (Engine.standard g).openContext s d limits = .ok (c, s')) (hd : s'.document? c = some d)
    (n : Nat) {q : ParserId} {k : Nat} {id : AccumulatorId}
    (h : (Machine.run (.standard g) n (.ofRequest s' () c p i)).store.peek? c q k = some id) :
    ReflTransGen (Requests g d) (p, i) (q, k) := by
  have hempty (q : ParserId) (k : Nat) : s'.peek? c q k = none := by
    rw [Store.peek?_opened ho, Store.peek?, Store.context?_of_opened ho]
    rfl
  have hfirst (q : ParserId) (k : Nat) (id : AccumulatorId)
      (hq : (Machine.ofRequest s' () c p i).store.peek? c q k = some id) :
      ReflTransGen (Requests g d) (p, i) (q, k) := by
    rw [Machine.ofRequest, hs.valid.peek?_request (Store.isSome_context hd)] at hq
    split at hq
    next he =>
      obtain ⟨-, rfl, rfl⟩ := he
      exact .refl
    next =>
      rw [hempty] at hq
      cases hq
  have hsound := (Machine.Sound.ofRequest hs hd p i).1
  rcases hsound.pairs hg (fun _ _ hreq hreach => hreach.tail hreq) n hfirst h with hold | ⟨-, hnew⟩
  · exact hfirst q k id hold
  · exact hnew

/-- A request in a context of its own comes to an end. All that is asked for by then, the request makes
use of, and the best failure of the accumulator that it asked for is the furthest one of the context. -/
theorem Grammar.Reached.settled_opened (hg : g.Closed) (hr : g.Reached (fun _ _ _ => True) s)
    (ho : (Engine.standard g).openContext s d limits = .ok (c, s')) (p : ParserId) (i : Nat) :
    ∃ n id t a, (∀ limit, n ≤ limit →
        Engine.request { Engine.standard g with limit } s' () c p i = (id, t, ())) ∧
      g.Reached (fun _ _ _ => True) t ∧ t.document? c = some d ∧ t.peek? c p i = some id ∧
      t.accumulator? id = some a ∧ t.furthest? c = a.best ∧
      ∀ q k id', t.peek? c q k = some id' → ReflTransGen (Requests g d) (p, i) (q, k) := by
  have hr' : g.Reached (fun _ _ _ => True) s' := hr.opened ho
  have hs := hr'.sound hg
  obtain ⟨y, hy, rfl, hentries⟩ := Store.entries_request_opened ho p i
  have hd : s'.document? c = some y.document := by
    obtain ⟨n, hcontext⟩ := Store.context?_opened ho
    rw [Store.document?, hcontext, if_pos rfl]
    rfl
  obtain ⟨hsound, hgrows, hid⟩ := Machine.Sound.ofRequest hs hd p i
  obtain ⟨n, hrest⟩ := Machine.Sound.rests hg _ hsound
  obtain ⟨hend, hgrows'⟩ := hsound.run hg n
  have hreached := hr'.requested hd trivial hrest
  have hpeek := hend.store.isFor_iff.1 (hgrows'.isFor hid)
  obtain ⟨a, ha, -⟩ := hend.store.known c p i _ hpeek
  obtain ⟨z, hz, hext⟩ := Machine.extends_run (.standard g) n
    (m := Machine.ofRequest s' () c p i) hy
  obtain ⟨es, hes⟩ := hext.entries
  rw [hentries] at hes
  have hreach (q : ParserId) (k : Nat) (id : AccumulatorId)
      (hq : (Machine.run (.standard g) n (.ofRequest s' () c p i)).store.peek? c q k = some id) :
      ReflTransGen (Requests g y.document) (p, i) (q, k) :=
    Machine.reach_ofRequest hg hs ho hd n hq
  have hfurthest := hreached.furthest?_eq hg hz hes.symm
    (fun q k id hq => hext.document ▸ hreach q k id hq) ha
  refine ⟨n, _, _, a, fun limit hlimit => ?_, hreached, hend.document, hpeek, ha, hfurthest, hreach⟩
  rw [Engine.request_eq, Machine.run_limit, Machine.run_of_idle hrest hlimit]

/-- A request in a context of its own comes to an end, by when the best failure of the accumulator
that was asked for is the furthest one of the context. -/
theorem Grammar.Reached.request_opened (hg : g.Closed)
    (hr : g.Reached (fun _ _ _ => True) s)
    (ho : (Engine.standard g).openContext s d limits = .ok (c, s')) (p : ParserId) (i : Nat) :
    ∃ n id t a, (∀ limit, n ≤ limit →
        Engine.request { Engine.standard g with limit } s' () c p i = (id, t, ())) ∧
      t.document? c = some d ∧ t.peek? c p i = some id ∧ t.accumulator? id = some a ∧
      t.furthest? c = a.best := by
  obtain ⟨n, id, t, a, hrun, -, hd, hpeek, ha, hf, -⟩ := hr.settled_opened hg ho p i
  exact ⟨n, id, t, a, hrun, hd, hpeek, ha, hf⟩

end Fresh

/-- The failure for which a whole document is refused, as the root's accumulator alone determines
it: the best one, unless the longest match reaches as far or there is none. -/
inductive Accumulator.Refuses (a : Accumulator Empty) (c : ContextNumber) (root : ParserId) :
    Failure → Prop
  | best {f : Failure} : a.best = some f →
      (∀ t, a.longest? = some t → t.stop < f.position) → Refuses a c root f
  | unexpected {t : Tree} : a.longest? = some t → (∀ f, a.best = some f → f.position ≤ t.stop) →
      Refuses a c root ⟨t.stop, Cause.unexpectedInput.message, root, c⟩
  | nothing : a.longest? = none → a.best = none →
      Refuses a c root ⟨0, Cause.noMatches.message, root, c⟩

theorem Store.refuses_of_verdict {root : ParserId} {id : AccumulatorId} {a : Accumulator Empty}
    (hd : s.document? c = some d) (ha : s.accumulator? id = some a) (hf : s.furthest? c = a.best)
    {f : Failure} (h : s.verdict c root id = .error f) : a.Refuses c root f := by
  obtain ⟨x, hx, -⟩ := Option.map_eq_some_iff.1 hd
  simp only [verdict, hx, ha, hf] at h
  split at h
  · cases h
  · cases hlongest : a.longest? with
    | none =>
      cases hbest : a.best with
      | none =>
        rw [hlongest, hbest] at h
        cases h
        exact .nothing hlongest hbest
      | some f' =>
        rw [hlongest, hbest] at h
        cases h
        exact .best hbest fun t ht => by rw [hlongest] at ht; cases ht
    | some t =>
      cases hbest : a.best with
      | none =>
        rw [hlongest, hbest] at h
        cases h
        exact .unexpected hlongest fun f' hf' => by rw [hbest] at hf'; cases hf'
      | some f' =>
        rw [hlongest, hbest] at h
        simp only at h
        split at h
        next hlt =>
          cases h
          refine .best hbest fun t' ht => ?_
          rw [hlongest] at ht
          cases ht
          exact hlt
        next hle =>
          cases h
          refine .unexpected hlongest fun f'' hf'' => ?_
          rw [hbest] at hf''
          cases hf''
          exact Nat.le_of_not_lt hle

/-- In a context of its own a request is answered with an accumulator whose best failure is the
furthest one of the context, the very same or none in both cases, whether or not the grammar has the
parser and the document the position. So if the whole document is not matched, no failure is told
that the root does not hold itself. -/
theorem root_failure_is_furthest {draft : Draft Empty} (hb : draft.build = .ok g)
    (hr : g.Reached (fun _ _ _ => True) s) {limits : Limits}
    (ho : (Engine.standard g).openContext s d limits = .ok (c, s')) (root : ParserId) :
    (∀ i, ∃ n id t a, (∀ limit, n ≤ limit →
        Engine.request { Engine.standard g with limit } s' () c root i = (id, t, ())) ∧
      t.peek? c root i = some id ∧ t.accumulator? id = some a ∧ t.furthest? c = a.best) ∧
    ∃ n result t id a, (∀ limit, n ≤ limit →
        Engine.parse { Engine.standard g with limit } s' () c root = (result, t, ())) ∧
      t.peek? c root 0 = some id ∧ t.accumulator? id = some a ∧ t.furthest? c = a.best ∧
      ∀ f, result = .error f → a.Refuses c root f := by
  have hg := Draft.closed_build hb
  refine ⟨fun i => ?_, ?_⟩
  · obtain ⟨n, id, t, a, hrun, -, hpeek, ha, hf⟩ := hr.request_opened hg ho root i
    exact ⟨n, id, t, a, hrun, hpeek, ha, hf⟩
  · obtain ⟨n, id, t, a, hrun, hd, hpeek, ha, hf⟩ := hr.request_opened hg ho root 0
    refine ⟨n, t.verdict c root id, t, id, a, fun limit hlimit => ?_, hpeek, ha, hf, ?_⟩
    · rw [Engine.parse, hrun limit hlimit]
    · exact fun f h => Store.refuses_of_verdict hd ha hf h

/-- Of the document that it matches the rule that begins with itself tells, asked how far the parse
came, that one more character was expected at the end. -/
theorem root_failure_is_furthest_left_recursion :
    LeftRecursion.store.furthest? 1 = some ((Cause.expectedText "a").failure 1 2 2) := by
  have hopen : (Engine.standard LeftRecursion.grammar).openContext {} LeftRecursion.document {} =
      .ok (1, LeftRecursion.opened) := rfl
  obtain ⟨n, id, t, a, hrun, hpeek, ha, hf⟩ :=
    (root_failure_is_furthest LeftRecursion.built .start hopen 0).1 0
  have hrest : (Machine.run (.standard LeftRecursion.grammar) 99 LeftRecursion.asked).agenda = [] := by
    decide +kernel
  have ht : t = LeftRecursion.store := by
    have h := hrun (max n 99) (Nat.le_max_left n 99)
    rw [Engine.request_eq, Machine.run_limit] at h
    obtain ⟨-, h⟩ := Prod.mk.inj h
    obtain ⟨h, -⟩ := Prod.mk.inj h
    rw [← h]
    exact congrArg Machine.store (Machine.run_of_idle hrest (Nat.le_max_right n 99))
  subst ht
  have hid : LeftRecursion.store.peek? 1 0 0 = some 0 := by decide +kernel
  have hbest : (LeftRecursion.store.accumulator? 0).bind (·.best) =
      some ((Cause.expectedText "a").failure 1 2 2) := by decide +kernel
  rw [hid] at hpeek
  cases hpeek
  rw [hf, ← hbest, ha, Option.bind_some]

end PushParsing
