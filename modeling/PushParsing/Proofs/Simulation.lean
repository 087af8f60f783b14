import PushParsing.Proofs.Backtracking
import PushParsing.Proofs.Ledger

/-!
# Jobs done on behalf of a pair

While a parser is at work nobody listens to it yet, unless it makes use of itself. So its jobs are
done one after another like calls that return: its accumulator takes what they come upon, in this
order, other accumulators gain listeners at most, and for the pairs that are new by then there is
just what the evaluator finds.
-/
namespace PushParsing

open Relation

variable {g : Grammar Empty} {d : Document} {s s' s₁ : Store Empty} {c : ContextNumber}
  {js js' js₁ ks rest : List (Job Empty)}

section Runs

/-- With anything behind them on the agenda, the first jobs lead to the second ones. -/
def LeadsTo (g : Grammar Empty) (s : Store Empty) (js : List (Job Empty)) (s' : Store Empty)
    (js' : List (Job Empty)) : Prop :=
  ∃ n, ∀ rest, Machine.run (.standard g) n ⟨s, (), js ++ rest⟩ = ⟨s', (), js' ++ rest⟩

theorem LeadsTo.refl : LeadsTo g s js s js := ⟨0, fun _ => rfl⟩

theorem LeadsTo.trans (h : LeadsTo g s js s₁ js₁) (h' : LeadsTo g s₁ js₁ s' js') :
    LeadsTo g s js s' js' := by
  obtain ⟨m, hm⟩ := h
  obtain ⟨n, hn⟩ := h'
  refine ⟨m + n, ?_⟩
  intro rest
  rw [Machine.run_add, hm, hn]

theorem LeadsTo.append (h : LeadsTo g s js s' js') (ks : List (Job Empty)) :
    LeadsTo g s (js ++ ks) s' (js' ++ ks) := by
  obtain ⟨n, hn⟩ := h
  refine ⟨n, ?_⟩
  intro rest
  rw [List.append_assoc, List.append_assoc, hn]

theorem LeadsTo.perform {j : Job Empty} (h : j.perform (.standard g) s () = (s', (), js)) :
    LeadsTo g s [j] s' js := by
  refine ⟨1, ?_⟩
  intro rest
  rw [Machine.run_succ, Machine.run_zero, List.singleton_append, Machine.step, h]

/-- The store and the jobs are sound, and listeners have numbers of their own. -/
structure Machine.Steady (g : Grammar Empty) (d : Document) (c : ContextNumber)
    (m : Machine Empty Unit) : Prop where
  sound : m.Sound g d c
  numbered : Numbered m.store m.agenda

theorem Machine.Steady.run (hg : g.Closed) (n : Nat) :
    ∀ {m : Machine Empty Unit}, m.Steady g d c →
      (Machine.run (.standard g) n m).Steady g d c ∧
        m.store.Grows (Machine.run (.standard g) n m).store := by
  induction n with
  | zero => exact fun hm => ⟨hm, .refl _⟩
  | succ n ih =>
    intro m hm
    obtain ⟨hsound, hgrows⟩ := hm.sound.step hg
    have hstep : (m.step (.standard g)).Steady g d c := by
      refine ⟨hsound, ?_⟩
      obtain ⟨s, w, js⟩ := m
      cases js with
      | nil => exact hm.numbered
      | cons j js => exact hm.numbered.step
    obtain ⟨hrun, hgrows'⟩ := ih hstep
    rw [Machine.run_succ]
    exact ⟨hrun, hgrows.trans hgrows'⟩

theorem LeadsTo.steady (hg : g.Closed) (h : LeadsTo g s js s' js')
    (hm : Machine.Steady g d c ⟨s, (), js ++ rest⟩) :
    Machine.Steady g d c ⟨s', (), js' ++ rest⟩ ∧ s.Grows s' := by
  obtain ⟨n, hn⟩ := h
  have hrun := hm.run hg n
  rw [hn rest] at hrun
  exact hrun

end Runs

section Taking

/-- The accumulator once all of it was offered, one after another. -/
def Accumulator.takeAll (a : Accumulator Empty) (news : List News) : Accumulator Empty :=
  news.foldl take a

theorem Failure.furthest_self (best : Option Failure) (f : Failure) :
    furthest (furthest best f) f = furthest best f := by
  cases best with
  | none => exact if_neg (Nat.lt_irrefl _)
  | some b =>
    by_cases h : b.position < f.position
    · rw [furthest, if_pos h]
      exact if_neg (Nat.lt_irrefl _)
    · rw [furthest, if_neg h]
      exact if_neg h

theorem Failure.furthest_stable {best : Option Failure} {f' : Failure}
    (h : furthest best f' = best) (f : Failure) :
    furthest (furthest best f) f' = furthest best f := by
  cases best with
  | none => cases h
  | some b =>
    have hle : ¬b.position < f'.position := by
      intro hlt
      rw [furthest, if_pos hlt] at h
      cases h
      exact Nat.lt_irrefl _ hlt
    by_cases hf : b.position < f.position
    · rw [furthest, if_pos hf]
      exact if_neg (by omega)
    · rw [furthest, if_neg hf]
      exact h

namespace Accumulator

@[simp] theorem takeAll_nil (a : Accumulator Empty) : a.takeAll [] = a := rfl

theorem takeAll_append (a : Accumulator Empty) (as bs : List News) :
    a.takeAll (as ++ bs) = (a.takeAll as).takeAll bs := List.foldl_append

theorem listeners_take (a : Accumulator Empty) (news : News) :
    (a.take news).listeners = a.listeners := by
  unfold take
  split
  · cases news <;> rfl
  · rfl

theorem listeners_takeAll (news : List News) :
    ∀ a : Accumulator Empty, (a.takeAll news).listeners = a.listeners := by
  induction news with
  | nil => exact fun _ => rfl
  | cons m news ih =>
    intro a
    exact (ih (a.take m)).trans (a.listeners_take m)

/-- The first tree of each length is kept. -/
theorem trees_takeAll (news : List News) :
    ∀ a : Accumulator Empty, (a.takeAll news).trees = (treesOf news).foldl
      (fun kept t => if kept.any (·.length == t.length) then kept else kept ++ [t]) a.trees := by
  induction news with
  | nil => exact fun _ => rfl
  | cons m news ih =>
    intro a
    have htail := ih (a.take m)
    cases m with
    | found t =>
      have hhead : (a.take (.found t)).trees =
          if a.trees.any (·.length == t.length) then a.trees else a.trees ++ [t] := by
        by_cases hlen : a.hasLength t.length = true
        · have hold : ¬a.IsNew (.found t) := by rw [IsNew, hlen]; decide
          rw [take, if_neg hold]
          exact (if_pos hlen).symm
        · have hnew : a.IsNew (.found t) := by simpa [IsNew] using hlen
          rw [take, if_pos hnew]
          exact (if_neg hlen).symm
      rw [hhead] at htail
      exact htail
    | failed f =>
      have hhead : (a.take (.failed f)).trees = a.trees := by
        unfold take
        split <;> rfl
      rw [hhead] at htail
      exact htail

/-- A failure that was recorded before is not further than the best one. -/
theorem best_takeAll (news : List News) :
    ∀ a : Accumulator Empty, (∀ f ∈ a.failures, Failure.furthest a.best f = a.best) →
      (a.takeAll news).best = (failuresOf news).foldl Failure.furthest a.best := by
  induction news with
  | nil => exact fun _ _ => rfl
  | cons m news ih =>
    intro a ha
    cases m with
    | found t =>
      have hhead : (a.take (.found t)).best = a.best ∧
          (a.take (.found t)).failures = a.failures := by
        unfold take
        split <;> exact ⟨rfl, rfl⟩
      have htail := ih (a.take (.found t))
      rw [hhead.1, hhead.2] at htail
      exact htail ha
    | failed f =>
      by_cases hf : f ∈ a.failures
      · have hhead : a.take (.failed f) = a := if_neg fun hn => hn hf
        have htail := ih a ha
        have hcons : failuresOf (.failed f :: news) = f :: failuresOf news := rfl
        rw [hcons, List.foldl_cons, ha f hf, ← htail, takeAll, List.foldl_cons, hhead, takeAll]
      · have hhead : a.take (.failed f) = a.record (.failed f) := if_pos hf
        have hall : ∀ f' ∈ (a.record (.failed f)).failures,
            Failure.furthest (a.record (.failed f)).best f' = (a.record (.failed f)).best := by
          intro f' hf'
          rcases List.mem_cons.1 hf' with rfl | hf'
          · exact Failure.furthest_self a.best f'
          · exact Failure.furthest_stable (ha f' hf') f
        rw [takeAll, List.foldl_cons, hhead]
        exact ih (a.record (.failed f)) hall

/-- An empty accumulator takes what a finding keeps. -/
theorem takeAll_empty (c : ContextNumber) (p : ParserId) (i : Nat) (news : List News) :
    (({ context := c, parser := p, position := i } : Accumulator Empty).takeAll news).trees =
        (Finding.ofNews news).trees ∧
      (({ context := c, parser := p, position := i } : Accumulator Empty).takeAll news).best =
        (Finding.ofNews news).best :=
  ⟨trees_takeAll news _, best_takeAll news _ (by simp)⟩

end Accumulator

end Taking

section Delivering

variable (g : Grammar Empty) (d : Document) (c : ContextNumber)

/-- The pair has an accumulator with what the evaluator finds for it. -/
def Store.Answered (s : Store Empty) (y : ParserId × Nat) : Prop :=
  ∃ id a x, s.peek? c y.1 y.2 = some id ∧ s.accumulator? id = some a ∧
    g.Backtracks d c y x ∧ a.trees = x.trees ∧ a.best = x.best

/-- What became of a store by jobs on behalf of a pair. -/
structure Delivered (x : ParserId × Nat) (id : AccumulatorId) (news : List News)
    (s s' : Store Empty) : Prop where
  /-- The pair's accumulator has taken the news. -/
  target : ∀ a, s.accumulator? id = some a → s'.accumulator? id = some (a.takeAll news)
  /-- Others at most have listeners more, if the pair makes use of theirs. -/
  others : ∀ k a, k ≠ id → s.accumulator? k = some a →
    ∃ ls, s'.accumulator? k = some { a with listeners := ls } ∧
      (¬TransGen (Requests g d) x (a.parser, a.position) → ls = a.listeners)
  /-- New pairs are answered. -/
  fresh : ∀ c' y k, s'.peek? c' y.1 y.2 = some k →
    s.peek? c' y.1 y.2 = some k ∨ c' = c ∧ s'.Answered g d c y

/-- The pair's parser is at work on its accumulator: nobody listens to it, and of the pairs that it
makes use of those that were asked for are answered. -/
structure Busy (x : ParserId × Nat) (id : AccumulatorId) (s : Store Empty) : Prop where
  acyclic : g.Acyclic d x
  own : s.peek? c x.1 x.2 = some id
  silent : ∀ a, s.accumulator? id = some a → a.listeners = []
  below : ∀ y k, TransGen (Requests g d) x y → s.peek? c y.1 y.2 = some k → s.Answered g d c y

/-- Whenever the pair's parser is at work, the jobs come to an end and the accumulator has taken the
news. -/
def Performs (x : ParserId × Nat) (id : AccumulatorId) (js : List (Job Empty)) (news : List News) :
    Prop :=
  ∀ s rest, Machine.Steady g d c ⟨s, (), js ++ rest⟩ → Busy g d c x id s →
    ∃ s', LeadsTo g s js s' [] ∧ Delivered g d c x id news s s'

variable {g d c} {x : ParserId × Nat} {id : AccumulatorId} {as bs news : List News}

/-- Accumulators stay as they are, and no pair is added. -/
theorem Delivered.still (ha : s'.accumulators = s.accumulators)
    (hp : ∀ c' p i k, s'.peek? c' p i = some k → s.peek? c' p i = some k) :
    Delivered g d c x id [] s s' where
  target a h := by rwa [accumulator?_congr ha]
  others k a _ h := ⟨a.listeners, by rwa [accumulator?_congr ha], fun _ => rfl⟩
  fresh c' y k h := .inl (hp c' y.1 y.2 k h)

theorem Delivered.refl : Delivered g d c x id [] s s := .still rfl fun _ _ _ _ h => h

/-- What was answered stays so. -/
theorem Delivered.answered (h : Delivered g d c x id news s s') (hs : s.Sound g)
    (hgrows : s.Grows s') (hown : s.peek? c x.1 x.2 = some id) {d' : Document}
    {c' : ContextNumber} {y : ParserId × Nat} (hy : ¬(c' = c ∧ y = x))
    (hans : s.Answered g d' c' y) : s'.Answered g d' c' y := by
  obtain ⟨k, a, z, hk, ha, hz, htrees, hbest⟩ := hans
  have hne : k ≠ id := by
    rintro rfl
    obtain ⟨hc, h₁, h₂⟩ := (hs.known c _ _ k hown).unique (hs.known c' _ _ k hk)
    exact hy ⟨hc, Prod.ext h₁ h₂⟩
  obtain ⟨ls, ha', -⟩ := h.others k a hne ha
  exact ⟨k, _, z, hgrows.peek _ _ _ _ hk, ha', hz, htrees, hbest⟩

theorem Delivered.trans (h : Delivered g d c x id as s s₁) (h' : Delivered g d c x id bs s₁ s')
    (hs : s₁.Sound g) (hgrows : s₁.Grows s') (hown : s₁.peek? c x.1 x.2 = some id)
    (hown₀ : s.peek? c x.1 x.2 = some id) : Delivered g d c x id (as ++ bs) s s' where
  target a ha := by
    rw [Accumulator.takeAll_append]
    exact h'.target _ (h.target a ha)
  others k a hk ha := by
    obtain ⟨ls, ha₁, hls⟩ := h.others k a hk ha
    obtain ⟨ls', ha', hls'⟩ := h'.others k _ hk ha₁
    refine ⟨ls', ha', ?_⟩
    intro hn
    exact (hls' hn).trans (hls hn)
  fresh c' y k hk := by
    rcases h'.fresh c' y k hk with hk | hans
    · rcases h.fresh c' y k hk with hold | ⟨rfl, hans⟩
      · exact .inl hold
      · by_cases hy : y = x
        · subst hy
          rw [hown] at hk
          exact .inl (hown₀.trans hk)
        · exact .inr ⟨rfl, h'.answered hs hgrows hown (fun he => hy he.2) hans⟩
    · exact .inr hans

theorem Busy.delivered (hb : Busy g d c x id s) (h : Delivered g d c x id news s s')
    (hs : s.Sound g) (hgrows : s.Grows s') : Busy g d c x id s' where
  acyclic := hb.acyclic
  own := hgrows.peek _ _ _ _ hb.own
  silent b hb' := by
    obtain ⟨a, ha, -⟩ := hs.known c _ _ id hb.own
    rw [h.target a ha] at hb'
    cases hb'
    rw [Accumulator.listeners_takeAll, hb.silent a ha]
  below y k hy hk := by
    have hne : y ≠ x := by
      rintro rfl
      exact hb.acyclic.irrefl hy
    rcases h.fresh c y k hk with hk | ⟨-, hans⟩
    · exact h.answered hs hgrows hb.own (fun he => hne he.2) (hb.below y k hy hk)
    · exact hans

/-- The accumulator of a pair at work. -/
theorem Busy.accumulator (hb : Busy g d c x id s) (hs : s.Sound g) : ∃ a,
    s.accumulator? id = some a ∧ a.context = c ∧ a.parser = x.1 ∧ a.position = x.2 ∧
      a.listeners = [] := by
  obtain ⟨a, ha, hc, hp, hi⟩ := hs.known c _ _ id hb.own
  exact ⟨a, ha, hc, hp, hi, hb.silent a ha⟩

theorem Busy.isFor (hb : Busy g d c x id s) (hs : s.Sound g) : s.IsFor id c x.1 x.2 :=
  hs.known c _ _ id hb.own

/-- Whoever listens for the pair at work listens to what it makes use of. -/
theorem Busy.requests (hb : Busy g d c x id s) (hs : s.Sound g) (hd : s.document? c = some d)
    {role : Role Empty} {q : ParserId} {k : Nat} (hr : role.Serves g d s c q k)
    (ht : role.target = id) : Requests g d x (q, k) := by
  obtain ⟨p, i, hid, hreq⟩ := hr.requests hs hd
  obtain ⟨-, rfl, rfl⟩ := (hb.isFor hs).unique (ht ▸ hid)
  exact hreq

end Delivering

section Performing

variable (g d c) in
/-- How far some jobs on behalf of a pair at work have got: what is left of them, and what the
pair's accumulator has taken by now. -/
structure Stage (x : ParserId × Nat) (id : AccumulatorId) (s : Store Empty)
    (js rest : List (Job Empty)) (news : List News) (s' : Store Empty) (js' : List (Job Empty)) :
    Prop where
  leads : LeadsTo g s js s' js'
  delivered : Delivered g d c x id news s s'
  steady : Machine.Steady g d c ⟨s', (), js' ++ rest⟩
  busy : Busy g d c x id s'
  own : s.peek? c x.1 x.2 = some id

variable {x : ParserId × Nat} {id : AccumulatorId} {as bs news : List News} (hg : g.Closed)

theorem Stage.start (hm : Machine.Steady g d c ⟨s, (), js ++ rest⟩) (hb : Busy g d c x id s) :
    Stage g d c x id s js rest [] s js := ⟨.refl, .refl, hm, hb, hb.own⟩

theorem Performs.nil : Performs g d c x id [] [] := fun s _ _ _ => ⟨s, .refl, .refl⟩

include hg

theorem Stage.next {s₂ : Store Empty} {js₂ : List (Job Empty)}
    (h : Stage g d c x id s js rest as s₁ js₁) (hleads : LeadsTo g s₁ js₁ s₂ js₂)
    (hdel : Delivered g d c x id bs s₁ s₂) : Stage g d c x id s js rest (as ++ bs) s₂ js₂ := by
  have hs := h.steady.sound.store
  obtain ⟨hm, hgrows⟩ := hleads.steady hg h.steady
  exact ⟨h.leads.trans hleads, h.delivered.trans hdel hs hgrows h.busy.own h.own, hm,
    h.busy.delivered hdel hs hgrows, h.own⟩

theorem Stage.performs (h : Stage g d c x id s js rest as s₁ (js₁ ++ ks))
    (hjs : Performs g d c x id js₁ bs) :
    ∃ s₂, Stage g d c x id s js rest (as ++ bs) s₂ ks ∧ s₁.Grows s₂ := by
  have hm : Machine.Steady g d c ⟨s₁, (), js₁ ++ (ks ++ rest)⟩ := by
    rw [← List.append_assoc]
    exact h.steady
  obtain ⟨s₂, hleads, hdel⟩ := hjs s₁ (ks ++ rest) hm h.busy
  exact ⟨s₂, h.next hg (hleads.append ks) hdel, (hleads.steady hg hm).2⟩

theorem Stage.finish (h : Stage g d c x id s js rest as s₁ js₁)
    (hjs : Performs g d c x id js₁ bs) :
    ∃ s', LeadsTo g s js s' [] ∧ Delivered g d c x id (as ++ bs) s s' := by
  rw [← List.append_nil js₁] at h
  obtain ⟨s', hend, -⟩ := h.performs hg hjs
  exact ⟨s', hend.leads, hend.delivered⟩

theorem Performs.append (h : Performs g d c x id js as) (h' : Performs g d c x id ks bs) :
    Performs g d c x id (js ++ ks) (as ++ bs) := by
  intro s rest hm hb
  obtain ⟨s₁, hfirst, -⟩ := (Stage.start hm hb).performs hg h
  exact hfirst.finish hg h'

/-- A job without news of its own, which changes nothing. -/
theorem Performs.of_perform {j : Job Empty}
    (h : ∀ s rest, Machine.Steady g d c ⟨s, (), j :: rest⟩ → Busy g d c x id s →
      ∃ js₁, j.perform (.standard g) s () = (s, (), js₁) ∧ Performs g d c x id js₁ news) :
    Performs g d c x id [j] news := by
  intro s rest hm hb
  obtain ⟨js₁, hperform, hjs⟩ := h s rest hm hb
  exact ((Stage.start hm hb).next hg (.perform hperform) .refl).finish hg hjs

theorem Performs.collect {α : Type} {f : α → Option (List News)} {job : α → Job Empty}
    {xs : List α}
    (h : ∀ y ∈ xs, ∀ news, f y = some news → Performs g d c x id [job y] news) :
    ∀ {news : List News}, PushParsing.collect f xs = some news →
      Performs g d c x id (xs.map job) news := by
  induction xs with
  | nil =>
    intro news hn
    cases hn
    exact .nil
  | cons y ys ih =>
    intro news hn
    obtain ⟨as, bs, has, hbs, rfl⟩ := collect_cons.1 hn
    have hhead := h y List.mem_cons_self as has
    have htail := ih (fun z hz => h z (List.mem_cons_of_mem _ hz)) hbs
    exact hhead.append hg htail

omit hg

theorem Delivered.offer {a : Accumulator Empty} {m : News} (ha : s.accumulator? id = some a)
    (hc : s'.contexts = s.contexts)
    (hk : ∀ k, s'.accumulator? k = if k = id then some (a.take m) else s.accumulator? k) :
    Delivered g d c x id [m] s s' where
  target b hb := by
    rw [ha] at hb
    cases hb
    rw [hk, if_pos rfl]
    rfl
  others k b hne hb := ⟨b.listeners, by rw [hk, if_neg hne, hb], fun _ => rfl⟩
  fresh c' y k h := .inl (by rwa [Store.peek?_congr hc] at h)

/-- Something is offered to the accumulator, and there is nobody to be told. -/
theorem Performs.offer (news m : News)
    (h : ∀ a : Accumulator Empty, a.parser = x.1 → a.keep news = m) :
    Performs g d c x id [.operate (news.offerTo id)] [m] := by
  intro s rest hm hb
  obtain ⟨a, ha, -, hp, -, hl⟩ := hb.accumulator hm.sound.store
  have hperform := Job.perform_offerTo (.standard g) () news ha
  have htake := Job.accumulator?_offerTo (.standard g) () news ha
  rw [h a hp] at hperform htake
  have hnobody : a.broadcast id m = [] := by rw [Accumulator.broadcast, hl, List.map_nil]
  by_cases hn : a.IsNew m
  · rw [if_pos hn, hnobody] at hperform
    rw [hperform] at htake
    exact ⟨_, .perform hperform, .offer ha rfl htake⟩
  · rw [if_neg hn] at hperform
    rw [hperform] at htake
    exact ⟨_, .perform hperform, .offer ha rfl htake⟩

/-- A tree is taken as the accumulator keeps it. -/
theorem Performs.addTree {t t' : Tree}
    (ht : ∀ a : Accumulator Empty, a.parser = x.1 → a.adopt t = t') :
    Performs g d c x id [.operate (.addTree id t)] [.found t'] :=
  .offer (.found t) (.found t') fun a hp => congrArg News.found (ht a hp)

theorem Performs.addFailure (f : Failure) :
    Performs g d c x id [.operate (.addFailure id f)] [.failed f] :=
  .offer (.failed f) (.failed f) fun _ _ => rfl

include hg

theorem Performs.addStop {j : Nat} (hj : x.2 ≤ j) :
    Performs g d c x id [.operate (.addStop id j)] [.found (.leaf x.1 x.2 j)] := by
  refine .of_perform hg fun s rest hm hb => ⟨[.operate (.addTree id (.leaf x.1 x.2 j))], ?_, ?_⟩
  · obtain ⟨a, ha, -, hp, hi, -⟩ := hb.accumulator hm.sound.store
    simp only [Job.perform, Operation.perform, ha, hp, hi, if_neg (Nat.not_lt.2 hj)]
  · apply Performs.addTree
    intro a hp
    rw [Accumulator.adopt, hp, Tree.parser_leaf, if_pos rfl]

theorem Performs.failAt (cause : Cause) :
    Performs g d c x id [.operate (.failAt id cause.message x.2)]
      [.failed (cause.failure c x.1 x.2)] := by
  refine .of_perform hg fun s rest hm hb =>
    ⟨[.operate (.addFailure id (cause.failure c x.1 x.2))], ?_, .addFailure _⟩
  obtain ⟨a, ha, hc, hp, hi, -⟩ := hb.accumulator hm.sound.store
  simp only [Job.perform, Operation.perform, ha, Accumulator.failure, hc, hp, Cause.failure]

end Performing

end PushParsing
