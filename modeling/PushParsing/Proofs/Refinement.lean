import Mathlib.Tactic.IntervalCases
import PushParsing.Proofs.Calls
import PushParsing.Proofs.Targets

/-!
# Refinement

Whatever else is asked for, and however recursive the grammar is, the accumulators of pairs without
cycles hold what the evaluator finds. Jobs on behalf of other pairs do not touch them: what makes
use of a cycle is made use of by nothing but what makes use of one, too.
-/
namespace PushParsing

open Relation

section Faithfulness

variable {g : Grammar Empty} {d : Document} {s s' : Store Empty} {c : ContextNumber}
  {js : List (Job Empty)} {j j' : Job Empty} {y : ParserId × Nat} {news : List News}

/-- All pairs without cycles that were asked for are answered. -/
def Store.Faithful (g : Grammar Empty) (s : Store Empty) : Prop :=
  ∀ c d, s.document? c = some d → ∀ (y : ParserId × Nat) k, g.Acyclic d y →
    s.peek? c y.1 y.2 = some k → s.Answered g d c y

/-- The job is done on behalf of a pair that makes use of a cycle. -/
def Job.Cyclic (g : Grammar Empty) (d : Document) (c : ContextNumber) (s : Store Empty)
    (j : Job Empty) : Prop :=
  ∃ p i, s.IsFor j.target c p i ∧ ¬g.Acyclic d (p, i)

theorem Job.Cyclic.mono (h : j.Cyclic g d c s) (hgrows : s.Grows s') : j.Cyclic g d c s' := by
  obtain ⟨p, i, hid, hn⟩ := h
  exact ⟨p, i, hgrows.isFor hid, hn⟩

/-- The step lemma: a job on behalf of a pair that makes use of a cycle touches no answer, and all
it calls for is done on behalf of such pairs, unless it asks for a new pair without cycles. -/
theorem Job.Cyclic.step (hs : s.Sound g) (hd : s.document? c = some d) (hsound : j.Sound g d s c)
    (hj : j.Cyclic g d c s) (hf : s.Faithful g)
    (hask : ∀ q k next, j = .ask c q k next → s.peek? c q k = none → ¬g.Acyclic d (q, k)) :
    (j.perform (.standard g) s ()).1.Faithful g ∧
      ∀ j' ∈ (j.perform (.standard g) s ()).2.2,
        j'.Cyclic g d c (j.perform (.standard g) s ()).1 := by
  have hgrows := hs.grows_perform j ()
  obtain ⟨p, i, htarget, hn⟩ := hj
  constructor
  · intro c' d' hd' y k hy hk
    rcases Job.peek?_perform hs hk with hk | ⟨next, rfl, hnone⟩
    · have hd₀ := hgrows.document_of_peek hk hd'
      obtain ⟨k', a, z, hk', ha, hz⟩ := hf c' d' hd₀ y k hy hk
      have hspared (news : News) : j.event? s ≠ some (.recorded k' news) := by
        intro hev
        have hfor := hs.known c' _ _ k' hk'
        rw [← Job.target_of_recorded hev] at hfor
        obtain ⟨rfl, hp, hi⟩ := htarget.unique hfor
        rw [hd] at hd₀
        cases hd₀
        have hyp : y = (p, i) := Prod.ext hp hi
        exact hn (hyp ▸ hy)
      obtain ⟨ls, ha'⟩ := (j.effect (.standard g) s ()).spared ha hspared
      exact ⟨k', _, z, hgrows.peek _ _ _ _ hk', ha', hz⟩
    · obtain ⟨rfl, -⟩ := hsound
      rw [hgrows.document hd] at hd'
      cases hd'
      exact absurd hy (hask _ _ next rfl hnone)
  · intro j' hj'
    rcases Job.target_called hj' with hsame | ⟨a, l, ha, hl, hrole⟩ | ⟨c', q, k, next, rfl, hnew, rfl⟩
    · exact ⟨p, i, hgrows.isFor (hsame ▸ htarget), hn⟩
    · obtain ⟨b, hb, rfl, rfl, rfl, -, hb'⟩ := hs.accumulator hd htarget
      rw [ha] at hb
      cases hb
      obtain ⟨p', i', hfor, hreq⟩ := (hb'.listeners l hl).requests hs hd
      exact ⟨p', i', hgrows.isFor (hrole ▸ hfor), fun hy => hn (hy.request hreq)⟩
    · obtain ⟨rfl, -⟩ := hsound
      exact ⟨q, k, (hs.request hd q k).2.2, hask q k next rfl (Store.peek?_of_isNew hnew)⟩

/-- When a new pair without cycles is done, it is answered like all the others. -/
theorem Store.Faithful.ofNew (hs : s.Sound g) (hd : s.document? c = some d) (hf : s.Faithful g)
    (hy : g.Acyclic d y) (hp : s.peek? c y.1 y.2 = none)
    (hback : g.Backtracks d c y (.ofNews news)) (hgrows : (s.request c y.1 y.2).2.2.Grows s')
    (hdel : Delivered g d c y s.accumulators.size news (s.request c y.1 y.2).2.2 s') :
    s'.Faithful g := by
  have hc := Store.isSome_context hd
  have hbusy : Busy g d c y s.accumulators.size (s.request c y.1 y.2).2.2 :=
    .ofNew hs hd hy hp fun z k hz hk => hf c d hd z k (hy.below hz) hk
  have hs₁ := (hs.request hd y.1 y.2).1
  have hgrows₀ : s.Grows (s.request c y.1 y.2).2.2 := hs.valid.request_grows
  have hanswered := (hdel.ofNew hs hd hp hback hgrows).2
  intro c' d' hd' z k hz hk
  by_cases he : c' = c ∧ z = y
  · obtain ⟨rfl, rfl⟩ := he
    rw [hgrows.document (hgrows₀.document hd)] at hd'
    cases hd'
    exact hanswered
  · rcases hdel.fresh c' z k hk with hk | ⟨rfl, hans⟩
    · rw [hs.valid.peek?_request hc, if_neg fun h => he ⟨h.1, Prod.ext h.2.1 h.2.2⟩] at hk
      have hd₀ := (hgrows₀.trans hgrows).document_of_peek hk hd'
      have hold := (hf c' d' hd₀ z k hz hk).kept hgrows₀ (Quiet.request s c y.1 y.2).kept
      exact hdel.answered hs₁ hgrows hbusy.own he hold
    · rw [hgrows.document (hgrows₀.document hd)] at hd'
      cases hd'
      exact hans

/-- The parser of a new pair without cycles comes to an end, with all pairs answered. -/
theorem Store.Faithful.leap (hg : g.Closed) (hs : s.Sound g) (hd : s.document? c = some d)
    (hf : s.Faithful g) (hy : g.Acyclic d y) (hp : s.peek? c y.1 y.2 = none)
    (hm : Machine.Steady g d c
      ⟨(s.request c y.1 y.2).2.2, (), [.start s.accumulators.size] ++ js⟩) :
    ∃ s', LeadsTo g (s.request c y.1 y.2).2.2 [.start s.accumulators.size] s' [] ∧
      s'.Faithful g := by
  obtain ⟨news, hback, hperforms⟩ := hy.simulated (c := c) hg
  have hbusy : Busy g d c y s.accumulators.size (s.request c y.1 y.2).2.2 :=
    .ofNew hs hd hy hp fun z k hz hk => hf c d hd z k (hy.below hz) hk
  obtain ⟨s', hleads, hdel⟩ := hperforms _ _ _ hm hbusy
  exact ⟨s', hleads, hf.ofNew hs hd hy hp hback (hleads.steady hg hm).2 hdel⟩

/-- If jobs come to rest and the first of them lead somewhere, then they come to rest from there. -/
theorem LeadsTo.rests {n : Nat} {js' : List (Job Empty)} (h : LeadsTo g s [j] s' (j' :: js'))
    (hne : j ≠ j') (hrest : (Machine.run (.standard g) n ⟨s, (), j :: js⟩).agenda = []) :
    ∃ m < n, Machine.run (.standard g) n ⟨s, (), j :: js⟩ =
      Machine.run (.standard g) m ⟨s', (), j' :: js' ++ js⟩ := by
  obtain ⟨k, hk⟩ := h
  have hk := hk js
  rw [List.singleton_append] at hk
  by_cases hle : n ≤ k
  · rw [← Machine.run_of_idle hrest hle, hk] at hrest
    cases hrest
  · refine ⟨n - k, ?_, ?_⟩
    · have hpos : k ≠ 0 := by
        rintro rfl
        have hagenda : j :: js = j' :: (js' ++ js) := congrArg Machine.agenda hk
        exact hne (List.cons.inj hagenda).1
      omega
    · have hn : n = k + (n - k) := by omega
      rw [hn, Machine.run_add, hk, Nat.add_sub_cancel_left]

/-- The run lemma, by induction on the number of steps: what a new pair without cycles leads to is
taken in one leap. -/
theorem Machine.Steady.faithful (hg : g.Closed) (n : Nat) :
    ∀ {m : Machine Empty Unit}, m.Steady g d c → (∀ j ∈ m.agenda, j.Cyclic g d c m.store) →
      m.store.Faithful g → (Machine.run (.standard g) n m).agenda = [] →
      (Machine.run (.standard g) n m).store.Faithful g := by
  induction n using Nat.strongRecOn with
  | ind n ih =>
    intro m hm hjobs hf hrest
    obtain ⟨s, w, js⟩ := m
    cases js with
    | nil =>
      rw [Machine.run_idle]
      exact hf
    | cons j js =>
      have hs : s.Sound g := hm.sound.store
      have hd : s.document? c = some d := hm.sound.document
      have hj : j.Cyclic g d c s := hjobs j List.mem_cons_self
      by_cases hask : ∃ q k next, j = .ask c q k next ∧ s.peek? c q k = none ∧ g.Acyclic d (q, k)
      · obtain ⟨q, k, next, rfl, hp, hy⟩ := hask
        have hc := Store.isSome_context hd
        have hfirst : LeadsTo g s [.ask c q k next] _ _ := .ask_new (y := (q, k)) hp hc
        obtain ⟨hm₁, -⟩ := hfirst.steady hg hm
        rw [List.append_assoc] at hm₁
        obtain ⟨s', hleap, hf'⟩ := hf.leap hg hs hd hy hp hm₁
        have hleads := hfirst.trans (hleap.append _)
        obtain ⟨hm', hgrows⟩ := hleads.steady hg hm
        obtain ⟨n', hlt, heq⟩ := hleads.rests (by simp) hrest
        rw [heq] at hrest ⊢
        refine ih n' hlt hm' ?_ hf' hrest
        intro j hj'
        rcases List.mem_cons.1 hj' with rfl | hj'
        · exact hj.mono hgrows
        · exact (hjobs j (List.mem_cons_of_mem _ hj')).mono hgrows
      · cases n with
        | zero => cases hrest
        | succ n =>
          rw [Machine.run_succ] at hrest ⊢
          have hsound : j.Sound g d s c := hm.sound.jobs j List.mem_cons_self
          obtain ⟨hf', hcalled⟩ := hj.step hs hd hsound hf fun q k next he hp hy =>
            hask ⟨q, k, next, he, hp, hy⟩
          have hone := hm.run hg 1
          rw [Machine.run_succ, Machine.run_zero] at hone
          refine ih n (Nat.lt_succ_self n) hone.1 ?_ hf' hrest
          intro j' hj'
          rcases List.mem_append.1 hj' with hj' | hj'
          · exact hcalled j' hj'
          · exact (hjobs j' (List.mem_cons_of_mem _ hj')).mono hone.2

theorem Store.Faithful.still (hf : s.Faithful g) (hgrows : s.Grows s')
    (hkept : ∀ id a, s.accumulator? id = some a → s'.accumulator? id = some a)
    (hp : ∀ c d p i k, s'.document? c = some d → g.Acyclic d (p, i) → s'.peek? c p i = some k →
      s.peek? c p i = some k) : s'.Faithful g := by
  intro c d hd y k hy hk
  have hold := hp c d y.1 y.2 k hd hy hk
  exact (hf c d (hgrows.document_of_peek hold hd) y k hy hold).kept hgrows hkept

/-- Jobs that come to rest do so in one store. -/
theorem LeadsTo.ends {n : Nat} (h : LeadsTo g s js s' [])
    (hrest : (Machine.run (.standard g) n ⟨s, (), js⟩).agenda = []) :
    (Machine.run (.standard g) n ⟨s, (), js⟩).store = s' := by
  obtain ⟨k, hk⟩ := h
  have hk := hk []
  rw [List.append_nil, List.append_nil] at hk
  have hrest' : (Machine.run (.standard g) k ⟨s, (), js⟩).agenda = [] := by rw [hk]
  have hn := Machine.run_of_idle hrest (Nat.le_max_left n k)
  have hk' := Machine.run_of_idle hrest' (Nat.le_max_right n k)
  rw [← hn, hk', hk]

/-- A request from outside is answered with all pairs without cycles answered. -/
theorem Store.Faithful.request (hg : g.Closed) (hs : s.Sound g) (hd : s.document? c = some d)
    (hf : s.Faithful g) {done : Job Empty → Prop} (hledger : Ledger g s [] done) (p : ParserId)
    (i n : Nat) (hrest : (Machine.run (.standard g) n (.ofRequest s () c p i)).agenda = []) :
    (Machine.run (.standard g) n (.ofRequest s () c p i)).store.Faithful g := by
  obtain ⟨hsound, hgrows, hfor⟩ := Machine.Sound.ofRequest hs hd p i
  have hm : (Machine.ofRequest s () c p i).Steady g d c :=
    ⟨hsound, (hledger.ofRequest hs c p i).numbered⟩
  have hc := Store.isSome_context hd
  by_cases hnew : s.peek? c p i = none ∧ g.Acyclic d (p, i)
  · obtain ⟨hp, hy⟩ := hnew
    obtain ⟨hid, hnew, -⟩ := Store.request_new hp hc
    have hmachine : Machine.ofRequest s () c p i =
        ⟨(s.request c p i).2.2, (), [.start s.accumulators.size]⟩ := by
      simp only [Machine.ofRequest, hnew, hid, if_true]
    rw [hmachine] at hm hrest ⊢
    obtain ⟨s', hleads, hf'⟩ := hf.leap hg hs hd (y := (p, i)) hy hp hm
    rw [hleads.ends hrest]
    exact hf'
  · have hstill : (Machine.ofRequest s () c p i).store.Faithful g := by
      apply hf.still hgrows (Quiet.request s c p i).kept
      intro c' d' q k id hd' hy hk
      simp only [Machine.ofRequest] at hd' hk
      rw [Store.document?_request] at hd'
      rw [hs.valid.peek?_request hc] at hk
      split at hk
      next he =>
        obtain ⟨rfl, rfl, rfl⟩ := he
        rw [hd] at hd'
        cases hd'
        cases hp : s.peek? c' q k with
        | none => exact absurd ⟨hp, hy⟩ hnew
        | some id' => rw [← hk, (Store.request_old hp).1]
      next => exact hk
    refine hm.faithful hg n ?_ hstill hrest
    intro j hj
    simp only [Machine.ofRequest] at hj
    split at hj
    next hisNew =>
      rw [List.mem_singleton] at hj
      subst hj
      exact ⟨p, i, hfor, fun hy => hnew ⟨Store.peek?_of_isNew hisNew, hy⟩⟩
    next => cases hj

/-- Whatever is reached, pairs without cycles are answered. -/
theorem Grammar.Reached.faithful {admits : Document → ParserId → Nat → Prop} (hg : g.Closed)
    (h : g.Reached admits s) : s.Faithful g := by
  induction h with
  | start =>
    intro c d hd
    cases c <;> simp [Store.document?, Store.context?] at hd
  | opened _ hopen ih =>
    refine ih.still (.opened hopen) (fun id a ha => ?_) fun c d p i k _ _ hk => ?_
    · obtain ⟨-, n, rfl⟩ := Engine.openContext_eq hopen
      exact ha
    · rwa [Store.peek?_opened hopen] at hk
  | @looked s c p i _ ih =>
    refine ih.still (s.lookup_grows c p i) (fun id a ha => ?_) fun c' d q k id _ _ hk => ?_
    · exact (accumulator?_congr (accumulators_modifyMemo ..) id).trans ha
    · rwa [Store.peek?_lookup] at hk
  | requested hreach hd _ hrest ih =>
    obtain ⟨done, hledger⟩ := hreach.ledger hg
    exact ih.request hg (hreach.sound hg) hd hledger _ _ _ hrest

end Faithfulness

variable {g : Grammar Empty} {d : Document} {s : Store Empty} {c : ContextNumber}

/-- A request for a pair from which requests lead into no cycle, after any other requests, is
answered with what backtracking finds: the same trees in the same order, and the same best failure.
No more is needed than that neither the engine nor the evaluator gives up too early. -/
theorem request_backtracks {draft : Draft Empty} (hb : draft.build = .ok g)
    {admits : Document → ParserId → Nat → Prop} (hr : g.Reached admits s)
    (hd : s.document? c = some d) {p : ParserId} {i : Nat} (hx : g.Acyclic d (p, i)) :
    ∃ finding n, ∀ limit, n ≤ limit → g.backtrack d c limit p i = some finding ∧
      ∃ id s' a, Engine.request { Engine.standard g with limit } s () c p i = (id, s', ()) ∧
        s'.accumulator? id = some a ∧ a.trees = finding.trees ∧ a.best = finding.best := by
  have hg := Draft.closed_build hb
  have hs := hr.sound hg
  obtain ⟨done, hledger⟩ := hr.ledger hg
  obtain ⟨hsound, -, hfor⟩ := Machine.Sound.ofRequest hs hd p i
  obtain ⟨k, hrest⟩ := Machine.Sound.rests hg _ hsound
  obtain ⟨hend, hgrows⟩ := hsound.run hg k
  have hpeek := hend.store.isFor_iff.1 (hgrows.isFor hfor)
  have hfaithful := (hr.faithful hg).request hg hs hd hledger p i k hrest
  obtain ⟨id, a, finding, hid, ha, ⟨n, hn⟩, htrees, hbest⟩ :=
    hfaithful c d hend.document (p, i) _ hx hpeek
  rw [hpeek] at hid
  cases hid
  refine ⟨finding, max n k, ?_⟩
  intro limit hlimit
  have hdeep := Grammar.backtrack_mono (Nat.le_trans (Nat.le_max_left n k) hlimit) hn
  have hlong := Machine.run_of_idle hrest (Nat.le_trans (Nat.le_max_right n k) hlimit)
  refine ⟨hdeep, _, _, a, ?_, ha, htrees, hbest⟩
  rw [Engine.request_eq, Machine.run_limit, hlong]

namespace RightRecursion

/-- A rule that ends with itself, `r ::= 'a' r | 'a'`. -/
def draft : Draft Empty :=
  { slots := #[⟨some "r", some (.choice [1, 2])⟩, ⟨none, some (.sequence [2, 0])⟩,
      ⟨none, some (.literal "a")⟩] }

def grammar : Grammar Empty :=
  ⟨#[⟨some "r", .choice [1, 2]⟩, ⟨none, .sequence [2, 0]⟩, ⟨none, .literal "a"⟩]⟩

def document : Document := .ofString "aa"

def opened : Store Empty :=
  { contexts := #[⟨document, {}, .forInput 2 3⟩], heldContexts := [1] }

theorem reached : grammar.Reached (fun _ _ _ => True) opened := by
  have hopen : (Engine.standard grammar).openContext {} document {} = .ok (1, opened) := rfl
  exact .opened .start hopen

theorem stop_of_derives {i j : Nat} (h : Derives grammar document 2 i j) : j = i + 1 := by
  cases h with
  | literal hp _ _ =>
    cases hp
    rfl
  | pattern hp _ _ => cases hp
  | sequence hp _ => cases hp
  | choice hp _ _ => cases hp
  | nothing hp => cases hp
  | optional hp _ => cases hp

/-- The rule gets to itself only behind an `a`. -/
theorem acyclic (x : ParserId × Nat) : grammar.Acyclic document x := by
  refine .of_rank (fun y => 3 * (document.size + 1 - y.2) + (2 - y.1)) ?_ x
  intro y z h
  cases h with
  | @pass p q i hi hp =>
    cases hp with
    | choice hp hq =>
      have hlt : p < 3 := Grammar.lt_size hp
      interval_cases p
      · cases hp
        simp only [List.mem_cons, List.not_mem_nil, or_false] at hq
        rcases hq with rfl | rfl <;> dsimp only <;> omega
      · cases hp
      · cases hp
    | optional hp =>
      have hlt : p < 3 := Grammar.lt_size hp
      interval_cases p <;> cases hp
  | @sequence p e before after i k hi hp hb =>
    have hlt : p < 3 := Grammar.lt_size hp
    interval_cases p
    · cases hp
    · have hes : [2, 0] = before ++ e :: after := by
        injection hp with hp
        injection hp
      match before, hes with
      | [], hes =>
        obtain ⟨rfl, -⟩ := List.cons.inj hes
        cases hb
        dsimp only
        omega
      | [b], hes =>
        obtain ⟨rfl, htail⟩ := List.cons.inj hes
        obtain ⟨rfl, -⟩ := List.cons.inj htail
        cases hb with
        | cons hder hnil =>
          cases hnil
          have hk := stop_of_derives hder
          dsimp only
          omega
      | b :: b' :: before, hes =>
        have hlength := congrArg List.length hes
        simp only [List.length_cons, List.length_nil, List.length_append] at hlength
        omega
    · cases hp

end RightRecursion

/-- The long match comes first, and the furthest failure is that of the literal behind the end. -/
theorem request_backtracks_right_recursion :
    ∃ n, ∀ limit, n ≤ limit → ∃ id s' a,
      Engine.request { Engine.standard RightRecursion.grammar with limit }
        RightRecursion.opened () 1 0 0 = (id, s', ()) ∧ s'.accumulator? id = some a ∧
      a.trees.map Tree.span = [⟨0, 0, 2⟩, ⟨0, 0, 1⟩] ∧
      a.best = some ((Cause.expectedText "a").failure 1 2 2) := by
  have hb : RightRecursion.draft.build = .ok RightRecursion.grammar := rfl
  have hd : RightRecursion.opened.document? 1 = some RightRecursion.document := rfl
  have hfound : (RightRecursion.grammar.backtrack RightRecursion.document 1 9 0 0).map
      (fun x => (x.trees.map Tree.span, x.best)) =
        some ([⟨0, 0, 2⟩, ⟨0, 0, 1⟩], some ((Cause.expectedText "a").failure 1 2 2)) := by
    decide +kernel
  obtain ⟨x, hx, heq⟩ := Option.map_eq_some_iff.1 hfound
  obtain ⟨hspans, hbest⟩ := Prod.mk.inj heq
  obtain ⟨finding, n, hn⟩ := request_backtracks hb RightRecursion.reached hd
    (RightRecursion.acyclic (0, 0))
  refine ⟨max n 9, ?_⟩
  intro limit hlimit
  obtain ⟨hfinding, id, s', a, hrequest, ha, htrees, hab⟩ :=
    hn limit (Nat.le_trans (Nat.le_max_left n 9) hlimit)
  have hdeep := Grammar.backtrack_mono (Nat.le_trans (Nat.le_max_right n 9) hlimit) hx
  rw [hfinding] at hdeep
  cases hdeep
  exact ⟨id, s', a, hrequest, ha, by rw [htrees, hspans], by rw [hab, hbest]⟩

end PushParsing
