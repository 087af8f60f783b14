import PushParsing.Proofs.Completeness
import PushParsing.Proofs.Simulation

/-!
# Calls

To ask for a pair that makes no use of itself is like to call the evaluator. By the time a listener
is registered on the pair's accumulator all is there, so the listener is told of the trees in their
order, and then the best failure is carried over.
-/
namespace PushParsing

open Relation

variable {g : Grammar Empty} {d : Document} {s s' s₁ : Store Empty} {c : ContextNumber}
  {x y : ParserId × Nat} {id k : AccumulatorId} {rest : List (Job Empty)} {news : List News}

/-- What the parser of a pair does with its accumulator is what the evaluator does. -/
def Simulated (g : Grammar Empty) (d : Document) (c : ContextNumber) (y : ParserId × Nat) : Prop :=
  ∃ news, g.Backtracks d c y (.ofNews news) ∧ ∀ id, Performs g d c y id [.start id] news

section Asking

theorem Store.Answered.kept (h : s.Answered g d c y) (hgrows : s.Grows s')
    (hkept : ∀ id a, s.accumulator? id = some a → s'.accumulator? id = some a) :
    s'.Answered g d c y := by
  obtain ⟨k, a, z, hk, ha, hz⟩ := h
  exact ⟨k, a, z, hgrows.peek _ _ _ _ hk, hkept k a ha, hz⟩

variable (hs : s.Sound g) (hd : s.document? c = some d)
include hs hd

/-- A parser that is asked for the first time is at work from then on. -/
theorem Busy.ofNew (hy : g.Acyclic d y) (hp : s.peek? c y.1 y.2 = none)
    (hbelow : ∀ z k, TransGen (Requests g d) y z → s.peek? c z.1 z.2 = some k →
      s.Answered g d c z) :
    Busy g d c y s.accumulators.size (s.request c y.1 y.2).2.2 := by
  have hc := Store.isSome_context hd
  obtain ⟨hid, -, hacc⟩ := Store.request_new hp hc
  refine ⟨hy, ?_, ?_, ?_⟩
  · rw [hs.valid.peek?_request hc, if_pos ⟨rfl, rfl, rfl⟩, hid]
  · intro a ha
    rw [accumulator?_push hacc, if_pos rfl] at ha
    cases ha
    rfl
  · intro z k hz hk
    have hne : ¬(c = c ∧ z.1 = y.1 ∧ z.2 = y.2) := by
      rintro ⟨-, h₁, h₂⟩
      exact hy.irrefl (Prod.ext h₁ h₂ ▸ hz)
    rw [hs.valid.peek?_request hc, if_neg hne] at hk
    exact (hbelow z k hz hk).kept hs.valid.request_grows (Quiet.request s c y.1 y.2).kept

/-- When the parser is done the pair is answered. -/
theorem Delivered.ofNew (hp : s.peek? c y.1 y.2 = none)
    (hback : g.Backtracks d c y (.ofNews news))
    (hgrows : (s.request c y.1 y.2).2.2.Grows s')
    (hdel : Delivered g d c y s.accumulators.size news (s.request c y.1 y.2).2.2 s') :
    s'.peek? c y.1 y.2 = some s.accumulators.size ∧ s'.Answered g d c y := by
  have hc := Store.isSome_context hd
  obtain ⟨hid, -, hacc⟩ := Store.request_new hp hc
  have hpeek : s'.peek? c y.1 y.2 = some s.accumulators.size := by
    apply hgrows.peek
    rw [hs.valid.peek?_request hc, if_pos ⟨rfl, rfl, rfl⟩, hid]
  have htarget := hdel.target { context := c, parser := y.1, position := y.2 } (by
    rw [accumulator?_push hacc, if_pos rfl])
  obtain ⟨htrees, hbest⟩ := Accumulator.takeAll_empty c y.1 y.2 news
  exact ⟨hpeek, _, _, _, hpeek, htarget, hback, htrees, hbest⟩

/-- What was done on behalf of a new pair was done on behalf of the pair that asked for it. -/
theorem Delivered.ofCall (hreq : Requests g d x y) (hx : g.Acyclic d x)
    (hown : s.peek? c x.1 x.2 = some id) (hp : s.peek? c y.1 y.2 = none)
    (hback : g.Backtracks d c y (.ofNews news))
    (hgrows : (s.request c y.1 y.2).2.2.Grows s')
    (hdel : Delivered g d c y s.accumulators.size news (s.request c y.1 y.2).2.2 s') :
    Delivered g d c x id [] s s' := by
  have hc := Store.isSome_context hd
  obtain ⟨-, -, hacc⟩ := Store.request_new hp hc
  have hquiet := Quiet.request s c y.1 y.2
  have hold (k : AccumulatorId) (a : Accumulator Empty) (ha : s.accumulator? k = some a) :
      k ≠ s.accumulators.size := by
    rintro rfl
    simp [Store.accumulator?] at ha
  refine ⟨?_, ?_, ?_⟩
  · intro a ha
    obtain ⟨ls, ha', hls⟩ := hdel.others id a (hold id a ha) (hquiet.kept id a ha)
    obtain ⟨b, hb, -, hbp, hbi⟩ := hs.known c _ _ id hown
    rw [ha] at hb
    cases hb
    have hnot : ¬TransGen (Requests g d) y (a.parser, a.position) := by
      rw [hbp, hbi]
      intro hcycle
      exact hx.irrefl (.head hreq hcycle)
    rw [ha', hls hnot, Accumulator.takeAll_nil]
  · intro k a _ ha
    obtain ⟨ls, ha', hls⟩ := hdel.others k a (hold k a ha) (hquiet.kept k a ha)
    refine ⟨ls, ha', ?_⟩
    intro hn
    exact hls fun h => hn (.head hreq h)
  · intro c' z k hk
    rcases hdel.fresh c' z k hk with hk | hans
    · rw [hs.valid.peek?_request hc] at hk
      split at hk
      next he =>
        have hz : z = y := Prod.ext he.2.1 he.2.2
        exact .inr ⟨he.1, hz ▸ (Delivered.ofNew hs hd hp hback hgrows hdel).2⟩
      next => exact .inl hk
    · exact .inr hans

end Asking

section Listening

/-- A new listener listens to an accumulator. -/
def Store.subscribe (s : Store Empty) (k : AccumulatorId) (a : Accumulator Empty)
    (role : Role Empty) : Store Empty :=
  { s with listenerCount := s.listenerCount + 1 }.modifyAccumulator k fun _ =>
    a.register ⟨s.listenerCount, role⟩

theorem LeadsTo.watch {role : Role Empty} {a : Accumulator Empty} {js : List (Job Empty)}
    (hn : Numbered s js) (ha : s.accumulator? k = some a) :
    LeadsTo g s [.operate (.watch k role)] (s.subscribe k a role)
      (a.trees.map fun t => .tell ⟨s.listenerCount, role⟩ k (.found t)) := by
  have hfree : ¬(a.listeners.any (·.id == s.listenerCount)) = true := by
    intro hany
    obtain ⟨l, hl, he⟩ := List.any_eq_true.1 hany
    have hlt := hn.bound l (.inl ⟨k, a, ha, hl⟩)
    rw [beq_iff_eq.1 he] at hlt
    exact Nat.lt_irrefl _ hlt
  have hlisten : LeadsTo g { s with listenerCount := s.listenerCount + 1 }
      [.operate (.listen k ⟨s.listenerCount, role⟩)] (s.subscribe k a role)
      (a.trees.map fun t => .tell ⟨s.listenerCount, role⟩ k (.found t)) := by
    apply LeadsTo.perform
    have ha' : { s with listenerCount := s.listenerCount + 1 }.accumulator? k = some a := ha
    simp only [Job.perform, Operation.perform, ha', Accumulator.addListener?_eq, if_neg hfree]
    rfl
  have hwatch : LeadsTo g s [.operate (.watch k role)] { s with listenerCount := s.listenerCount + 1 }
      [.operate (.listen k ⟨s.listenerCount, role⟩)] := .perform rfl
  exact hwatch.trans hlisten

/-- Whatever is to be done next with an accumulator, a listener is told of all its trees, and then
its best failure is carried over. -/
theorem LeadsTo.proceed {next : Next Empty} {a : Accumulator Empty} {js : List (Job Empty)}
    (hn : Numbered s js) (ha : s.accumulator? k = some a) :
    LeadsTo g s [.proceed next k] (s.subscribe k a next.role)
      ((a.trees.map fun t => .tell ⟨s.listenerCount, next.role⟩ k (.found t)) ++
        [.carry k next.role.target]) := by
  have hwatch : LeadsTo g s [.operate (.watch k next.role)] (s.subscribe k a next.role) _ :=
    .watch hn ha
  refine LeadsTo.trans ?_ (hwatch.append [.carry k next.role.target])
  cases next with
  | forwardTo target =>
    have hforward : LeadsTo g s [.proceed (.forwardTo target) k] s
        [.operate (.forward k target)] := .perform rfl
    exact hforward.trans (.perform rfl)
  | await r => exact .perform rfl
  | custom code => exact code.elim

theorem Delivered.subscribe {a : Accumulator Empty} {role : Role Empty}
    (ha : s.accumulator? k = some a) (hk : k ≠ id)
    (hreq : TransGen (Requests g d) x (a.parser, a.position)) :
    Delivered g d c x id [] s (s.subscribe k a role) where
  target b hb := by
    rw [Store.subscribe, accumulator?_modify (s := { s with listenerCount := _ }) ha rfl,
      if_neg (Ne.symm hk)]
    exact hb
  others j b _ hb := by
    rw [Store.subscribe, accumulator?_modify (s := { s with listenerCount := _ }) ha rfl]
    by_cases hj : j = k
    · subst hj
      rw [ha] at hb
      cases hb
      exact ⟨_, if_pos rfl, fun hn => absurd hreq hn⟩
    · rw [if_neg hj]
      exact ⟨b.listeners, hb, fun _ => rfl⟩
  fresh c' z j h := .inl h

end Listening

theorem LeadsTo.ask_new {next : Next Empty} (hp : s.peek? c y.1 y.2 = none)
    (hc : (s.context? c).isSome) : LeadsTo g s [.ask c y.1 y.2 next] (s.request c y.1 y.2).2.2
      ([.start s.accumulators.size] ++ [.proceed next s.accumulators.size]) := by
  obtain ⟨hid, hnew, -⟩ := Store.request_new hp hc
  apply LeadsTo.perform
  rw [Job.perform_ask, hnew, hid]
  rfl

section Calling

variable {next : Next Empty} {finding : Finding} (hg : g.Closed)
include hg

/-- The accumulator of the pair that is asked for is there, and all is in it. -/
theorem Stage.ask {js : List (Job Empty)}
    (h : Stage g d c x id s js rest news s₁ [.ask c y.1 y.2 next]) (hreq : Requests g d x y)
    (hy : Simulated g d c y) : ∃ s₂ k, Stage g d c x id s js rest news s₂ [.proceed next k] ∧
      s₂.peek? c y.1 y.2 = some k := by
  have hs := h.steady.sound.store
  have hd := h.steady.sound.document
  have hc := Store.isSome_context hd
  cases hp : s₁.peek? c y.1 y.2 with
  | some k =>
    obtain ⟨hid, hold, hacc⟩ := Store.request_old hp
    have hask : LeadsTo g s₁ [.ask c y.1 y.2 next] (s₁.request c y.1 y.2).2.2
        [.proceed next k] := by
      apply LeadsTo.perform
      rw [Job.perform_ask, hold, hid]
      rfl
    have hstill : Delivered g d c x id [] s₁ (s₁.request c y.1 y.2).2.2 := by
      apply Delivered.still hacc
      intro c' p i j hj
      rw [hs.valid.peek?_request hc] at hj
      split at hj
      next he =>
        obtain ⟨rfl, rfl, rfl⟩ := he
        rw [hp, ← hid, hj]
      next => exact hj
    have hstage := h.next hg hask hstill
    rw [List.append_nil] at hstage
    exact ⟨_, k, hstage, hs.valid.request_grows.peek _ _ _ _ hp⟩
  | none =>
    obtain ⟨found, hback, hperforms⟩ := hy
    have hask : LeadsTo g s₁ [.ask c y.1 y.2 next] _ _ := .ask_new hp hc
    obtain ⟨hm, -⟩ := hask.steady hg h.steady
    have hbusy : Busy g d c y s₁.accumulators.size (s₁.request c y.1 y.2).2.2 := by
      apply Busy.ofNew hs hd (h.busy.acyclic.request hreq) hp
      intro z k hz hk
      exact h.busy.below z k (.head hreq hz) hk
    rw [List.append_assoc] at hm
    obtain ⟨s₂, hstart, hdel⟩ := hperforms _ _ _ hm hbusy
    have hgrows := (hstart.steady hg hm).2
    have hcall := hdel.ofCall hs hd hreq h.busy.acyclic h.busy.own hp hback hgrows
    have hstage := h.next hg (hask.trans (hstart.append _)) hcall
    rw [List.append_nil] at hstage
    exact ⟨s₂, _, hstage, (hdel.ofNew hs hd hp hback hgrows).1⟩

/-- The best failure of an answered pair is carried over. -/
theorem Busy.carry (hm : Machine.Steady g d c ⟨s, (), .carry k id :: rest⟩)
    (hb : Busy g d c x id s) (hreq : Requests g d x y) (hk : s.peek? c y.1 y.2 = some k)
    (hback : g.Backtracks d c y finding) : ∃ s', LeadsTo g s [.carry k id] s' [] ∧
      Delivered g d c x id (finding.best.toList.map .failed) s s' := by
  obtain ⟨k', a, z, hk', ha, hz, -, hbest⟩ := hb.below y k (.single hreq) hk
  rw [hk] at hk'
  cases hk'
  obtain rfl := hz.unique hback
  cases hf : z.best with
  | none =>
    refine ⟨s, .perform ?_, .refl⟩
    simp only [Job.perform, ha, Option.bind_some, hbest, hf]
  | some f =>
    have hcarry : LeadsTo g s [.carry k id] s [.operate (.addFailure id f)] := by
      apply LeadsTo.perform
      simp only [Job.perform, ha, Option.bind_some, hbest, hf]
    exact ((Stage.start hm hb).next hg hcarry .refl).finish hg (.addFailure f)

/-- To ask for a pair: the news are what a listener makes of each tree found for it, and then its
best failure. -/
theorem Performs.ask {f : Tree → Option (List News)} {further : List News}
    (hnext : next.role.target = id) (hy : Requests g d x y → Simulated g d c y)
    (hback : g.Backtracks d c y finding)
    (htell : ∀ n k, ∀ t ∈ finding.trees, ∀ news, f t = some news →
      Performs g d c x id [.tell ⟨n, next.role⟩ k (.found t)] news)
    (hfurther : PushParsing.collect f finding.trees = some further) :
    Performs g d c x id [.ask c y.1 y.2 next] (further ++ finding.best.toList.map .failed) := by
  intro s rest hm hb
  obtain ⟨-, -, hserves⟩ := hm.sound.jobs _ List.mem_cons_self
  have hreq : Requests g d x y := hb.requests hm.sound.store hm.sound.document hserves hnext
  obtain ⟨s₁, k, hasked, hk⟩ := (Stage.start hm hb).ask hg hreq (hy hreq)
  -- the accumulator has all the trees before anybody listens
  obtain ⟨k', a, z, hk', ha, hz, htrees, -⟩ := hasked.busy.below y k (.single hreq) hk
  rw [hk] at hk'
  cases hk'
  obtain rfl := hz.unique hback
  have hs₁ := hasked.steady.sound.store
  have hfor : s₁.IsFor k c y.1 y.2 := hs₁.known c _ _ k hk
  have hne : k ≠ id := by
    rintro rfl
    obtain ⟨-, h₁, h₂⟩ := (hasked.busy.isFor hs₁).unique hfor
    have hyx : y = x := Prod.ext h₁ h₂
    exact hb.acyclic.irrefl (.single (hyx ▸ hreq))
  have hbelow : TransGen (Requests g d) x (a.parser, a.position) := by
    obtain ⟨b, hb', -, hp, hi⟩ := hfor
    rw [ha] at hb'
    cases hb'
    rw [hp, hi]
    exact .single hreq
  have hproceed : LeadsTo g s₁ [.proceed next k] (s₁.subscribe k a next.role) _ :=
    .proceed hasked.steady.numbered ha
  have hgrows := (hproceed.steady hg hasked.steady).2
  have hlistening := hasked.next hg hproceed (.subscribe ha hne hbelow)
  rw [hnext, htrees] at hlistening
  obtain ⟨s₂, htold, hgrows'⟩ := hlistening.performs hg
    (.collect hg (fun t ht => htell _ k t ht) hfurther)
  have hk₂ : s₂.peek? c y.1 y.2 = some k := (hgrows.trans hgrows').peek _ _ _ _ hk
  obtain ⟨s', hcarry, hdel⟩ := htold.busy.carry hg htold.steady hreq hk₂ hback
  have hend := htold.next hg hcarry hdel
  exact ⟨s', hend.leads, hend.delivered⟩

end Calling

section Telling

theorem Busy.isLive (hb : Busy g d c x id s) (hs : s.Sound g) : s.isLive id = true :=
  hs.isLive (hb.isFor hs)

variable {n : Nat} {t : Tree} {taken : List Tree} (hg : g.Closed)
include hg

/-- What comes from another pair is kept under the parser's own number. -/
theorem Performs.tell_forward :
    Performs g d c x id [.tell ⟨n, .forward id⟩ k (.found t)] [.found (.wrap x.1 t)] := by
  refine .of_perform hg fun s rest hm hb => ⟨[.operate (.addTree id t)], ?_, ?_⟩
  · have hlive := hb.isLive hm.sound.store
    simp only [Job.perform, if_pos hlive]
  · have hs := hm.sound.store
    have hd := hm.sound.document
    obtain ⟨q, m, -, hserves, hfound⟩ := hm.sound.jobs _ List.mem_cons_self
    have hreq : Requests g d x (q, m) := hb.requests hs hd hserves rfl
    have hparser : t.parser = q := (hs.found hd hfound).1
    have hposition : m = x.2 := by
      cases hserves with
      | forward ht _ _ => exact ((hb.isFor hs).unique ht).2.2
    have hne : q ≠ x.1 := by
      rintro rfl
      subst hposition
      exact hb.acyclic.irrefl (.single hreq)
    apply Performs.addTree
    intro a hp
    rw [Accumulator.adopt, hp, hparser, if_neg hne]

/-- With a match of its last element a sequence is complete. -/
theorem Performs.tell_last :
    Performs g d c x id [.tell ⟨n, .element ⟨id, x.2, taken, []⟩⟩ k (.found t)]
      [.found (.join x.1 x.2 (taken ++ [t]))] := by
  refine .of_perform hg fun s rest hm hb =>
    ⟨[.operate (.addTree id (.join x.1 x.2 (taken ++ [t])))], ?_, ?_⟩
  · have hlive := hb.isLive hm.sound.store
    obtain ⟨a, ha, -, hp, -, -⟩ := hb.accumulator hm.sound.store
    simp only [Job.perform, if_pos hlive, Sequel.continue, ha, hp]
  · apply Performs.addTree
    intro a hp
    rw [Accumulator.adopt, hp, Tree.parser_join, if_pos rfl]

/-- With a match of any other element a sequence asks for the next one. -/
theorem Performs.tell_element {e : ParserId} {es : List ParserId}
    (h : Performs g d c x id [.ask c e t.stop (.await ⟨id, x.2, taken ++ [t], es⟩)] news) :
    Performs g d c x id [.tell ⟨n, .element ⟨id, x.2, taken, e :: es⟩⟩ k (.found t)] news := by
  refine .of_perform hg fun s rest hm hb => ⟨_, ?_, h⟩
  have hlive := hb.isLive hm.sound.store
  obtain ⟨a, ha, hc, -⟩ := hb.accumulator hm.sound.store
  have hheld := hm.sound.store.held _ _ hm.sound.document
  simp only [Job.perform, if_pos hlive, Sequel.continue, ha, hc, if_pos hheld]

variable (hy : ∀ y, Requests g d x y → Simulated g d c y) {depth : Nat}
include hy

/-- By induction on the elements after it: to ask for an element leads to all chains from there on.
-/
theorem Performs.sequence (es : List ParserId) :
    ∀ {e : ParserId} {i : Nat} {taken : List Tree} {news : List News},
      chains (g.backtrack d c depth) x.1 x.2 (e :: es) i taken = some news →
        Performs g d c x id [.ask c e i (.await ⟨id, x.2, taken, es⟩)] news := by
  induction es with
  | nil =>
    intro e i taken news h
    obtain ⟨a, further, ha, hfurther, rfl⟩ := chains_cons.1 h
    refine Performs.ask (y := (e, i)) hg rfl (hy _) ⟨depth, ha⟩ ?_ hfurther
    intro n k t _ news hn
    cases hn
    exact .tell_last hg
  | cons e' es ih =>
    intro e i taken news h
    obtain ⟨a, further, ha, hfurther, rfl⟩ := chains_cons.1 h
    refine Performs.ask (y := (e, i)) hg rfl (hy _) ⟨depth, ha⟩ ?_ hfurther
    intro n k t _ news hn
    exact .tell_element hg (ih hn)

omit hg hy in
theorem collect_single {α : Type} (f : α → News) (xs : List α) :
    collect (fun y => some [f y]) xs = some (xs.map f) := by
  induction xs with
  | nil => rfl
  | cons y ys ih => exact collect_cons.2 ⟨_, _, rfl, ih, rfl⟩

/-- To ask for a pair whose matches are passed on. -/
theorem Performs.pass {q : ParserId} {a : Finding} (ha : g.backtrack d c depth q x.2 = some a) :
    Performs g d c x id [.ask c q x.2 (.forwardTo id)] (a.passed x.1) := by
  have hcollect := collect_single (fun t => News.found (.wrap x.1 t)) a.trees
  refine Performs.ask (y := (q, x.2)) hg rfl (hy _) ⟨depth, ha⟩ ?_ hcollect
  intro n k t _ news hn
  cases hn
  exact .tell_forward hg

/-- A parser that begins does what the evaluator does. -/
theorem Performs.begin {a : Accumulator Empty} (hc : a.context = c) (hp : a.parser = x.1)
    (hi : a.position = x.2) {z : Parser Empty}
    (h : z.backtrack (g.backtrack d c depth) d c x.1 x.2 = some news) :
    Performs g d c x id (z.begin d id a) news := by
  cases z with
  | literal text =>
    simp only [Parser.begin, Parser.backtrack, hi] at h ⊢
    split at h
    next hmatch =>
      cases h
      rw [if_pos hmatch]
      exact .addStop hg (Nat.le_add_right ..)
    next hmatch =>
      cases h
      rw [if_neg hmatch]
      exact .failAt hg _
  | pattern r =>
    simp only [Parser.begin, Parser.backtrack, hi] at h ⊢
    cases hfind : (d.rest? x.2).bind r.find? with
    | some e =>
      rw [hfind] at h
      cases h
      exact .addStop hg (Nat.le_add_right ..)
    | none =>
      rw [hfind] at h
      cases h
      exact .failAt hg _
  | sequence es =>
    cases es with
    | nil =>
      cases h
      simp only [Parser.begin, hp, hi]
      apply Performs.addTree
      intro b hb
      rw [Tree.join_nil, Accumulator.adopt, hb, Tree.nothing, Tree.parser_leaf, if_pos rfl]
    | cons e es =>
      simp only [Parser.begin, hc, hi]
      exact .sequence hg hy es h
  | choice qs =>
    cases qs with
    | nil =>
      cases h
      simp only [Parser.begin, hi]
      exact .failAt hg _
    | cons q qs =>
      simp only [Parser.begin, hc, hi]
      have hcollect : PushParsing.collect
          (fun q => (g.backtrack d c depth q x.2).map (·.passed x.1)) (q :: qs) = some news := h
      refine Performs.collect hg (fun q' _ news hn => ?_) hcollect
      obtain ⟨b, hb, rfl⟩ := Option.map_eq_some_iff.1 hn
      exact .pass hg hy hb
  | optional q =>
    obtain ⟨b, hb, rfl⟩ := Option.map_eq_some_iff.1 h
    simp only [Parser.begin, hc, hi]
    exact (Performs.addStop hg (Nat.le_refl _)).append hg (.pass hg hy hb)
  | custom label refs code => exact code.elim

end Telling

section Starting

/-- The jobs of a pair whose accumulator is new. -/
def Grammar.begin (g : Grammar Empty) (d : Document) (id : AccumulatorId)
    (a : Accumulator Empty) : List (Job Empty) :=
  if d.size < a.position then [.operate (.failAt id Cause.beyondEnd.message a.position)]
  else
    match g.parser? a.parser with
    | none => [.operate (.failAt id (Cause.unknownParser a.parser).message a.position)]
    | some z => z.begin d id a

theorem Job.perform_start {a : Accumulator Empty} (ha : s.accumulator? id = some a)
    (hd : s.document? a.context = some d) :
    (Job.start id).perform (.standard g) s () = (s, (), g.begin d id a) := by
  obtain ⟨y, hy, rfl⟩ := Option.map_eq_some_iff.1 hd
  have hparser : (Engine.standard g).grammar.parser? a.parser = g.parser? a.parser := rfl
  simp only [Job.perform, ha, hy, hparser, Grammar.begin]
  by_cases hi : y.document.size < a.position
  · rw [if_pos hi, if_pos hi]
  · rw [if_neg hi, if_neg hi]
    cases g.parser? a.parser with
    | none => rfl
    | some z =>
      cases z with
      | custom label refs code => exact code.elim
      | _ => rfl

variable (hg : g.Closed)
include hg

theorem Performs.start (h : ∀ a : Accumulator Empty, a.context = c → a.parser = x.1 →
    a.position = x.2 → Performs g d c x id (g.begin d id a) news) :
    Performs g d c x id [.start id] news := by
  apply Performs.of_perform hg
  intro s rest hm hb
  obtain ⟨a, ha, hc, hp, hi, -⟩ := hb.accumulator hm.sound.store
  have hd : s.document? a.context = some d := hc ▸ hm.sound.document
  exact ⟨_, Job.perform_start ha hd, h a hc hp hi⟩

/-- Pairs without cycles are simulated, by induction on what they make use of. -/
theorem Grammar.Acyclic.simulated (hx : g.Acyclic d x) : Simulated g d c x := by
  refine Acyclic.induction hg (fun x hx ih => ?_) hx
  obtain ⟨finding, ⟨n, hn⟩, -⟩ := hx.backtracks (c := c) hg
  cases n with
  | zero => cases hn
  | succ n =>
    have hback := hn
    rw [backtrack] at hn
    by_cases hend : d.size < x.2
    · rw [if_pos hend] at hn
      cases hn
      refine ⟨_, ⟨n + 1, hback⟩, fun id => .start hg fun a hc hp hi => ?_⟩
      rw [begin, hi, if_pos hend]
      exact .failAt hg _
    · rw [if_neg hend] at hn
      cases hz : g.parser? x.1 with
      | none =>
        rw [hz] at hn
        cases hn
        refine ⟨_, ⟨n + 1, hback⟩, fun id => .start hg fun a hc hp hi => ?_⟩
        rw [begin, hi, if_neg hend, hp, hz]
        exact .failAt hg _
      | some z =>
        rw [hz] at hn
        obtain ⟨news, hnews, rfl⟩ := Option.map_eq_some_iff.1 hn
        refine ⟨news, ⟨n + 1, hback⟩, fun id => .start hg fun a hc hp hi => ?_⟩
        rw [begin, hi, if_neg hend, hp, hz]
        exact .begin hg ih hc hp hi hnews

end Starting

end PushParsing
