import PushParsing.Proofs.Root
import PushParsing.Proofs.Silence

/-!
# The deepest point

Where no pair is silent, each attempt leaves a trace at the root: whatever the root makes use of,
directly or not, and wherever, the root matches as far or there is a failure as far on. So a document
is refused for a failure as far on as the parse came.
-/
namespace PushParsing

open Relation

variable {g : Grammar Empty} {d : Document} {s s' : Store Empty} {c : ContextNumber}
  {x y : ParserId × Nat} {n : Nat} {admits : Document → ParserId → Nat → Prop}

theorem DerivesAll.append {es es' : List ParserId} {i k j : Nat} (h : DerivesAll g d es i k)
    (h' : DerivesAll g d es' k j) : DerivesAll g d (es ++ es') i j := by
  induction es generalizing i with
  | nil =>
    cases h
    exact h'
  | cons e es ih =>
    cases h with
    | cons he hes => exact .cons he (ih hes)

/-- Positions never decrease on the way to what is made use of. -/
theorem Requests.le_of_reach (hg : g.Closed) (h : ReflTransGen (Requests g d) x y) : x.2 ≤ y.2 := by
  induction h with
  | refl => exact Nat.le_refl _
  | tail _ hreq ih => exact Nat.le_trans ih (hreq.covers hg).2

/-- The pair matches up to the offset at least, or some pair that it makes use of, directly or not,
fails there or further on. -/
def Grammar.Attains (g : Grammar Empty) (d : Document) (x : ParserId × Nat) (n : Nat) : Prop :=
  (∃ j, Derives g d x.1 x.2 j ∧ n ≤ j) ∨
    ∃ z cause, ReflTransGen (Requests g d) x z ∧ g.Fails d z.1 z.2 cause ∧ n ≤ z.2

theorem Grammar.Vocal.attains (hg : g.Closed) (hx : x.2 ≤ d.size) (h : g.Vocal d x) :
    g.Attains d x x.2 := by
  rcases h with ⟨j, hj⟩ | ⟨z, cause, hz, hf⟩
  · exact .inl ⟨j, hj, (hj.bounds hx).1⟩
  · exact .inr ⟨z, cause, hz, hf, Requests.le_of_reach hg hz⟩

/-- What a pair attains is attained by those that make use of it, too. A sequence may get stuck behind
the element in question, but then it makes use of another one there, which is vocal and matches
nothing. -/
theorem Grammar.Attains.of_requests (hg : g.Closed) (hreq : Requests g d x y)
    (hvocal : ∀ z, Requests g d x z → g.Vocal d z) (h : g.Attains d y n) : g.Attains d x n := by
  rcases h with ⟨j, hj, hn⟩ | ⟨z, cause, hz, hf, hn⟩
  · cases hreq with
    | pass _ hp => exact .inl ⟨j, hp.derives hj, hn⟩
    | @sequence p e before after i k hi hp hbefore =>
      rcases DerivesAll.or_stuck g d after j with
        ⟨m, hm⟩ | ⟨passed, e', left, k', rfl, hpassed, hstuck⟩
      · have hm' : j ≤ m := (hm.bounds (hj.bounds (hbefore.bounds hi).2).2).1
        exact .inl ⟨m, .sequence hp (hbefore.append (.cons hj hm)), Nat.le_trans hn hm'⟩
      · have hall : DerivesAll g d (before ++ e :: passed) i k' :=
          hbefore.append (.cons hj hpassed)
        have hk' : j ≤ k' := (hpassed.bounds (hj.bounds (hbefore.bounds hi).2).2).1
        have hp' : g.parser? p = some (.sequence ((before ++ e :: passed) ++ e' :: left)) := by
          rwa [List.append_assoc, List.cons_append]
        have hreq' : Requests g d (p, i) (e', k') := .sequence hi hp' hall
        rcases hvocal _ hreq' with ⟨m, hm⟩ | ⟨z, cause, hz, hf⟩
        · exact absurd hm (hstuck m)
        · have hz' : k' ≤ z.2 := Requests.le_of_reach hg hz
          exact .inr ⟨z, cause, hz.head hreq', hf, Nat.le_trans hn (Nat.le_trans hk' hz')⟩
  · exact .inr ⟨z, cause, hz.head hreq, hf, hn⟩

/-- By induction on the way to the other pair: the first one attains its position. -/
theorem Grammar.attains_of_reach (hg : g.Closed) (hx : g.Covers d x.1 x.2)
    (hvocal : ∀ z, ReflTransGen (Requests g d) x z → g.Vocal d z)
    (h : ReflTransGen (Requests g d) x y) : g.Attains d x y.2 := by
  induction h using ReflTransGen.head_induction_on with
  | refl => exact (hvocal _ .refl).attains hg hx.2
  | @head x z hreq _ ih =>
    have hz : g.Attains d z y.2 :=
      ih (hreq.covers hg).1 fun z' hz' => hvocal z' (hz'.head hreq)
    exact hz.of_requests hg hreq fun z' hz' => hvocal z' (.single hz')

/-- Unless there is neither a tree nor a failure, a document is refused where the furthest one of
them ends or lies. -/
theorem Accumulator.Refuses.furthest {a : Accumulator Empty} {root : ParserId} {f : Failure}
    (h : a.Refuses c root f) (hloud : ¬(a.trees = [] ∧ a.best = none)) {i : Nat}
    (hbounds : ∀ t ∈ a.trees, t.start = i ∧ i ≤ t.stop) :
    (∀ t ∈ a.trees, t.stop ≤ f.position) ∧ (∀ b, a.best = some b → b.position ≤ f.position) ∧
      (a.best = some f ∨ ∃ t ∈ a.trees, t.stop = f.position) := by
  have hlongest {t : Tree} (ht : a.longest? = some t) :
      t ∈ a.trees ∧ ∀ u ∈ a.trees, u.stop ≤ t.stop := by
    rcases a.longest?_cases with ⟨-, hnone⟩ | ⟨t', hmem, hsome, hle⟩
    · cases hnone.symm.trans ht
    · cases hsome.symm.trans ht
      refine ⟨hmem, fun u hu => ?_⟩
      have hlength := hle u hu
      simp only [Tree.length] at hlength
      obtain ⟨hu, hui⟩ := hbounds u hu
      obtain ⟨ht, hti⟩ := hbounds t hmem
      omega
  cases h with
  | best hbest hlt =>
    refine ⟨fun u hu => ?_, fun b hb => ?_, .inl hbest⟩
    · cases ht : a.longest? with
      | none =>
        rw [longest?_eq_none_iff.1 ht] at hu
        cases hu
      | some t => exact Nat.le_trans ((hlongest ht).2 u hu) (Nat.le_of_lt (hlt t ht))
    · cases hbest.symm.trans hb
      exact Nat.le_refl _
  | unexpected ht hle => exact ⟨(hlongest ht).2, hle, .inr ⟨_, (hlongest ht).1, rfl⟩⟩
  | nothing ht hbest => exact absurd ⟨longest?_eq_none_iff.1 ht, hbest⟩ hloud

/-- Whatever a memoized pair makes use of, directly or not, is memoized, and so it is vocal where no
pair is silent. -/
theorem Grammar.Reached.vocal_of_reach (hg : g.Closed) (hr : g.Reached admits s)
    (hd : s.document? c = some d) (hloud : ∀ x, ¬s.Silent c x) (hx : g.Covers d x.1 x.2)
    {id : AccumulatorId} (hid : s.peek? c x.1 x.2 = some id)
    (h : ReflTransGen (Requests g d) x y) : g.Vocal d y := by
  have hmemoized : ∃ id', s.peek? c y.1 y.2 = some id' := by
    induction h with
    | refl => exact ⟨id, hid⟩
    | tail _ hreq ih =>
      obtain ⟨id₁, hid₁⟩ := ih
      obtain ⟨id', -, hid', -⟩ := hr.listens hg hd hid₁ hreq
      exact ⟨id', hid'⟩
  obtain ⟨id', hid'⟩ := hmemoized
  by_contra hmute
  exact hloud y ((hr.silent_iff hg hd (hx.reach hg h) hid').2 hmute)

/-- What a pair attains its accumulator shows: by a tree, or by its best failure. -/
theorem Grammar.Reached.le_of_attains (hg : g.Closed) (hr : g.Reached admits s)
    (hd : s.document? c = some d) (hx : g.Covers d x.1 x.2) {id : AccumulatorId}
    (hid : s.peek? c x.1 x.2 = some id) {a : Accumulator Empty} (ha : s.accumulator? id = some a)
    (h : g.Attains d x n) : (∃ t ∈ a.trees, n ≤ t.stop) ∨ ∃ f, a.best = some f ∧ n ≤ f.position := by
  rcases h with ⟨j, hj, hn⟩ | ⟨z, cause, hz, hf, hn⟩
  · obtain ⟨done, hledger⟩ := hr.ledger hg
    obtain ⟨b, hb, t, ht, rfl⟩ := hledger.hasStop (hr.sound hg) hd hj hx.2 id hid
    cases ha.symm.trans hb
    exact .inl ⟨t, ht, hn⟩
  · have hfurthest := hr.isFurthest hg hd hx hid ha
    cases hbest : a.best with
    | none => exact absurd hf (hfurthest.none_iff.1 hbest z cause hz)
    | some f => exact .inr ⟨f, rfl, Nat.le_trans hn (hfurthest.furthest f hbest z cause hz hf)⟩

/-- In a context of its own a whole document is matched against a root. If it is refused and no pair
is silent then the failure lies within the document, and as far on as any parser was evaluated, as any
failure recorded lies and as any match of the root ends. -/
theorem failure_is_deepest {draft : Draft Empty} (hb : draft.build = .ok g)
    (hr : g.Reached (fun _ _ _ => True) s) {limits : Limits}
    (ho : (Engine.standard g).openContext s d limits = .ok (c, s')) {root : ParserId}
    (hroot : root < g.size) :
    ∃ n result t, (∀ limit, n ≤ limit →
        Engine.parse { Engine.standard g with limit } s' () c root = (result, t, ())) ∧
      ∀ f, result = .error f → (∀ x, ¬t.Silent c x) → f.position ≤ d.size ∧
        (∀ q k id, t.peek? c q k = some id → k ≤ f.position) ∧
        ∀ id a, t.accumulator? id = some a → a.context = c →
          (∀ f' ∈ a.failures, f'.position ≤ f.position) ∧
          (a.parser = root → a.position = 0 → ∀ tree ∈ a.trees, tree.stop ≤ f.position) := by
  have hg := Draft.closed_build hb
  obtain ⟨n, id, t, a, hrun, hreached, hd, hpeek, ha, hf, hreach⟩ := hr.settled_opened hg ho root 0
  refine ⟨n, t.verdict c root id, t, fun limit hlimit => ?_, fun f herror hloud => ?_⟩
  · rw [Engine.parse, hrun limit hlimit]
  have hs := hreached.sound hg
  have hcov : g.Covers d root 0 := ⟨hroot, Nat.zero_le _⟩
  have hfound (u : Tree) (hu : u ∈ a.trees) : u.start = 0 ∧ 0 ≤ u.stop ∧ u.stop ≤ d.size := by
    obtain ⟨b, hb, hc, hp, hi⟩ := hs.known c root 0 id hpeek
    cases ha.symm.trans hb
    obtain ⟨-, hstart, hle, hstop, -⟩ := hs.found hd ⟨id, a, ha, hc, hp, hi, hu⟩
    exact ⟨hstart, hle, hstop⟩
  have hbest : g.IsFurthest d (root, 0) a.best := hreached.isFurthest hg hd hcov hpeek ha
  have hrefuses : a.Refuses c root f := Store.refuses_of_verdict hd ha hf herror
  obtain ⟨htrees, hle, hown⟩ := hrefuses.furthest
    (fun hnone => hloud (root, 0) ⟨id, a, hpeek, ha, hnone⟩)
    fun u hu => ⟨(hfound u hu).1, (hfound u hu).2.1⟩
  refine ⟨?_, fun q k id' hpeek' => ?_, fun id' a' ha' hc => ⟨fun f' hf' => ?_, fun hp hi => ?_⟩⟩
  · rcases hown with hown | ⟨u, hu, hstop⟩
    · obtain ⟨cause, hz, -, -⟩ := hbest.genuine f hown
      exact (hcov.reach hg hz).2
    · exact hstop ▸ (hfound u hu).2.2
  · have hvocal (z : ParserId × Nat) (hz : ReflTransGen (Requests g d) (root, 0) z) :
        g.Vocal d z := hreached.vocal_of_reach hg hd hloud hcov hpeek hz
    have hattains : g.Attains d (root, 0) k :=
      Grammar.attains_of_reach hg hcov hvocal (hreach q k id' hpeek')
    rcases hreached.le_of_attains hg hd hcov hpeek ha hattains with ⟨u, hu, hk⟩ | ⟨b, hb, hk⟩
    · exact Nat.le_trans hk (htrees u hu)
    · exact Nat.le_trans hk (hle b hb)
  · obtain ⟨hpeek', d'', hd'', hsound'⟩ := hs.kept id' a' ha'
    rw [hc] at hpeek'
    obtain ⟨b, hb, hfb⟩ := position_le_of_foldr_furthest hf'
    obtain ⟨b', hb', hbb'⟩ := hreached.best_le hg hd (x := (root, 0))
      (y := (a'.parser, a'.position)) hpeek ha hpeek' ha' (hreach _ _ id' hpeek')
      (hsound'.best.trans hb)
    exact Nat.le_trans hfb (Nat.le_trans hbb' (hle b' hb'))
  · obtain ⟨hpeek', -⟩ := hs.kept id' a' ha'
    rw [hc, hp, hi] at hpeek'
    cases hpeek.symm.trans hpeek'
    cases ha.symm.trans ha'
    exact htrees

namespace Sum

/-- Sums of ones, `r ::= r '+' '1' | '1'`. -/
def draft : Draft Empty :=
  { slots := #[⟨some "r", some (.choice [1, 2])⟩, ⟨none, some (.sequence [0, 3, 2])⟩,
      ⟨none, some (.literal "1")⟩, ⟨none, some (.literal "+")⟩] }

def grammar : Grammar Empty :=
  ⟨#[⟨some "r", .choice [1, 2]⟩, ⟨none, .sequence [0, 3, 2]⟩, ⟨none, .literal "1"⟩,
    ⟨none, .literal "+"⟩]⟩

def document : Document := .ofString "1+1+"

def opened : Store Empty :=
  { contexts := #[⟨document, {}, .forInput 4 4⟩], heldContexts := [1] }

def asked : Machine Empty Unit := .ofRequest opened () 1 0 0

def store : Store Empty := (Machine.run (.standard grammar) 199 asked).store

theorem not_silent (x : ParserId × Nat) : ¬store.Silent 1 x := by
  rintro ⟨id, a, -, ha, hnil, hnone⟩
  have hloud : store.accumulators.all fun a => !a.trees.isEmpty || a.best.isSome := by
    decide +kernel
  have hmem := Array.all_eq_true'.1 hloud a (Array.mem_of_getElem? ha)
  rw [hnil, hnone] at hmem
  cases hmem

end Sum

/-- Of a sum that ends with the sign it is told that another one was expected at its end, and no
parser was evaluated further on. -/
theorem failure_is_deepest_sum :
    Sum.store.verdict 1 0 0 = .error ((Cause.expectedText "1").failure 1 2 4) ∧
      ∀ q k id, Sum.store.peek? 1 q k = some id → k ≤ 4 := by
  have hopen : (Engine.standard Sum.grammar).openContext {} Sum.document {} =
      .ok (1, Sum.opened) := rfl
  have hbuilt : Sum.draft.build = .ok Sum.grammar := rfl
  obtain ⟨n, result, t, hrun, hdeepest⟩ :=
    failure_is_deepest hbuilt .start hopen (show 0 < Sum.grammar.size by decide)
  have hrest : (Machine.run (.standard Sum.grammar) 199 Sum.asked).agenda = [] := by
    decide +kernel
  have hresult : (Sum.store.verdict 1 0 0, Sum.store, ()) = (result, t, ()) := by
    have h := hrun (max n 199) (Nat.le_max_left n 199)
    rwa [Engine.parse, Engine.request_eq, Machine.run_limit, ← Sum.asked,
      Machine.run_of_idle hrest (Nat.le_max_right n 199)] at h
  obtain ⟨hverdict, hstore⟩ := Prod.mk.inj hresult
  obtain ⟨rfl, -⟩ := Prod.mk.inj hstore
  have hfailure : (Sum.store.verdict 1 0 0).map (fun _ => ()) =
      .error ((Cause.expectedText "1").failure 1 2 4) := by decide +kernel
  have herror : Sum.store.verdict 1 0 0 = .error ((Cause.expectedText "1").failure 1 2 4) := by
    cases h : Sum.store.verdict 1 0 0 with
    | error f =>
      rw [h] at hfailure
      cases hfailure
      rfl
    | ok t =>
      rw [h] at hfailure
      cases hfailure
  obtain ⟨-, hevaluated, -⟩ := hdeepest _ (hverdict ▸ herror) Sum.not_silent
  exact ⟨herror, hevaluated⟩

end PushParsing
