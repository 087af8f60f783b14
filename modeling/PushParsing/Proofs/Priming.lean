import PushParsing.Proofs.Completeness
import PushParsing.Proofs.Targets

/-!
# The match of nothing comes first

An optional parser records its own match of nothing before it asks for its inner parser. So when
anything is passed on to its accumulator an empty match is there already, and of what the inner
parser finds only matches of something are kept.
-/
namespace PushParsing

variable {g : Grammar Empty} {d : Document} {s s' : Store Empty} {c : ContextNumber}
  {js : List (Job Empty)} {j k : Job Empty} {id : AccumulatorId} {p : ParserId} {i : Nat}
  {a : Accumulator Empty}

/-- The job passes on to an accumulator, now or later, what another parser than its own finds. -/
def Job.Brings (id : AccumulatorId) (p : ParserId) : Job Empty → Prop
  | .operate (.addTree target t) => target = id ∧ t.parser ≠ p
  | .operate (.listen _ l) => l.role = .forward id
  | .operate (.watch _ role) => role = .forward id
  | .operate (.forward _ target) => target = id
  | .ask _ _ _ next | .proceed next _ => next = .forwardTo id
  | .tell l _ _ => l.role = .forward id
  | _ => False

/-- The job records the match of nothing that is a pair's own. -/
inductive Job.Primes (id : AccumulatorId) (p : ParserId) (i : Nat) : Job Empty → Prop
  | stop : Primes id p i (.operate (.addStop id i))
  | tree : Primes id p i (.operate (.addTree id (.nothing p i)))

theorem Job.Brings.target (h : j.Brings id p) : j.target = id := by
  cases j with
  | operate o =>
    cases o with
    | addTree target t => exact h.1
    | listen source l => exact congrArg Role.target h
    | watch source role => exact congrArg Role.target h
    | forward source target => exact h
    | _ => exact h.elim
  | ask c q k next => exact congrArg (fun next => Role.target (Next.role next)) h
  | proceed next k => exact congrArg (fun next => Role.target (Next.role next)) h
  | tell l source news => exact congrArg Role.target h
  | _ => exact h.elim

theorem Job.Primes.not_brings (h : j.Primes id p i) : ¬j.Brings id p := by
  cases h with
  | stop => exact False.elim
  | tree => exact fun hb => hb.2 rfl

section Calls

/-- Something is brought only on behalf of what brings it, by listeners, or when the parser starts.
-/
theorem Job.brings_called (ha : s.accumulator? id = some a)
    (h : k ∈ (j.perform (.standard g) s ()).2.2) (hk : k.Brings id a.parser) :
    j.Brings id a.parser ∨ j = .start id ∨ ∃ source, s.Linked source (.forward id) := by
  -- trees that a parser makes itself are its own
  have hown {b : Accumulator Empty} {target : AccumulatorId} {t : Tree}
      (hb : s.accumulator? target = some b) (ht : t.parser = b.parser) :
      ¬(Job.operate (.addTree target t)).Brings id a.parser := by
    rintro ⟨rfl, hne⟩
    rw [ha] at hb
    cases hb
    exact hne ht
  cases Job.callsFor h with
  | code code _ => exact code.elim
  | @request _ _ _ next => exact next.elim
  | tellTree hb hl | tellFailure hb hl => exact .inr (.inr ⟨_, _, hb, _, hl, hk⟩)
  | leaf hb | complete hb => exact absurd hk (hown hb rfl)
  | replay | listen | proceed => exact .inl hk
  | forwardWatch => exact .inl (Role.forward.inj hk)
  | forwardTo => exact .inl (congrArg Next.forwardTo hk)
  | passTree => exact .inl (congrArg Role.forward hk.1)
  | beginTree => exact .inr (.inl (congrArg Job.start hk.1))
  | beginPass => exact .inr (.inl (congrArg Job.start (Next.forwardTo.inj hk)))
  | beginElement | awaitWatch | «continue» => cases hk
  | _ => exact hk.elim

end Calls

/-- Nothing is passed on to an accumulator, neither by a job nor by a listener. -/
structure Store.Unfed (s : Store Empty) (js : List (Job Empty)) (id : AccumulatorId)
    (p : ParserId) : Prop where
  jobs : ∀ j ∈ js, ¬j.Brings id p
  listeners : ∀ source, ¬s.Linked source (.forward id)

/-- The accumulator of a pair holds an empty match, or it will before anything is passed on to it,
or nothing is passed on to it. -/
inductive Store.Primed (s : Store Empty) (js : List (Job Empty)) (id : AccumulatorId)
    (p : ParserId) (i : Nat) : Prop
  | done {a : Accumulator Empty} {t : Tree} : s.accumulator? id = some a → t ∈ a.trees →
      t.length = 0 → Primed s js id p i
  | due {before after : List (Job Empty)} {j : Job Empty} : js = before ++ j :: after →
      j.Primes id p i → s.Unfed before id p → Primed s js id p i
  | idle : s.Unfed js id p → Primed s js id p i

section Steps

theorem Store.Primed.of_brings (h : s.Primed (j :: js) id p i) (hj : j.Brings id p) :
    ∃ a, s.accumulator? id = some a ∧ ∃ t ∈ a.trees, t.length = 0 := by
  cases h with
  | done ha ht h0 => exact ⟨_, ha, _, ht, h0⟩
  | @due before after k hjs hk hu =>
    cases before with
    | nil =>
      obtain ⟨rfl, -⟩ := List.cons.inj hjs
      exact absurd hj hk.not_brings
    | cons x before =>
      obtain ⟨rfl, -⟩ := List.cons.inj hjs
      exact absurd hj (hu.jobs _ List.mem_cons_self)
  | idle hu => exact absurd hj (hu.jobs _ List.mem_cons_self)

/-- A listener that passes on is registered by a job that brings something. -/
theorem Job.linked_forward {source : AccumulatorId}
    (h : (j.perform (.standard g) s ()).1.Linked source (.forward id)) :
    s.Linked source (.forward id) ∨ ∀ p, j.Brings id p := by
  obtain ⟨b, hb, l, hl, hrole⟩ := h
  rcases (j.effect (.standard g) s ()).listening hb hl with ⟨b', hb', hl'⟩ | hev
  · exact .inl ⟨b', hb', l, hl', hrole⟩
  · obtain rfl := Job.eq_listen_of_event hev
    exact .inr fun _ => hrole

theorem Store.Unfed.of_subset {js' : List (Job Empty)} (h : s.Unfed js id p) (hsub : js' ⊆ js) :
    s.Unfed js' id p := ⟨fun j hj => h.jobs j (hsub hj), h.listeners⟩

theorem Store.Unfed.step (h : s.Unfed (j :: js) id p)
    (hfirst : ∀ k ∈ (j.perform (.standard g) s ()).2.2, ¬k.Brings id p) :
    (j.perform (.standard g) s ()).1.Unfed ((j.perform (.standard g) s ()).2.2 ++ js) id p where
  jobs k hk := by
    rcases List.mem_append.1 hk with hk | hk
    · exact hfirst k hk
    · exact h.jobs k (List.mem_cons_of_mem _ hk)
  listeners source hl := by
    rcases Job.linked_forward hl with hl | hb
    · exact h.listeners source hl
    · exact h.jobs j List.mem_cons_self (hb p)

variable {q : ParserId} (hq : g.parser? a.parser = some (.optional q))
  (ha : s.accumulator? id = some a)
include hq ha

/-- What an optional parser does first is to record its match of nothing, unless it fails. -/
theorem Store.Unfed.start (h : s.Unfed [] id a.parser) (js : List (Job Empty)) :
    ((Job.start id).perform (.standard g) s ()).1.Primed
      (((Job.start id).perform (.standard g) s ()).2.2 ++ js) id a.parser a.position ∨
      ∀ k ∈ ((Job.start id).perform (.standard g) s ()).2.2, ¬k.Brings id a.parser := by
  have hparser : (Engine.standard g).grammar.parser? a.parser = some (.optional q) := hq
  simp only [Job.perform, ha]
  split
  · exact .inr (by simp)
  · split
    · refine .inr fun k hk => ?_
      obtain rfl := List.mem_singleton.1 hk
      exact False.elim
    · simp only [hparser, Parser.begin]
      exact .inl (.due (List.nil_append _).symm .stop h)

/-- As long as nothing is passed on to it, it is primed, or nothing that is called for passes on to
it. -/
theorem Store.Unfed.called (h : s.Unfed (j :: js) id a.parser) (ks : List (Job Empty)) :
    (j.perform (.standard g) s ()).1.Primed ((j.perform (.standard g) s ()).2.2 ++ ks) id
      a.parser a.position ∨ ∀ k ∈ (j.perform (.standard g) s ()).2.2, ¬k.Brings id a.parser := by
  by_cases hj : j = .start id
  · subst hj
    exact (h.of_subset (List.nil_subset _)).start hq ha ks
  · refine .inr fun k hk hb => ?_
    rcases Job.brings_called ha hk hb with hb | hstart | ⟨source, hl⟩
    · exact h.jobs j List.mem_cons_self hb
    · exact hj hstart
    · exact h.listeners source hl

omit hq in
/-- Once the match of nothing is recorded, the accumulator holds an empty match. -/
theorem Job.Primes.step (hj : j.Primes id a.parser a.position) (hu : s.Unfed [] id a.parser)
    (js : List (Job Empty)) : (j.perform (.standard g) s ()).1.Primed
      ((j.perform (.standard g) s ()).2.2 ++ js) id a.parser a.position := by
  cases hj with
  | stop =>
    simp only [Job.perform, Operation.perform, ha, if_neg (Nat.lt_irrefl _)]
    exact .due (List.nil_append _).symm .tree hu
  | tree =>
    have hadopt : a.adopt (.nothing a.parser a.position) = .nothing a.parser a.position := if_pos rfl
    have hlength : (Tree.nothing a.parser a.position).length = 0 := by
      simp [Tree.length, Tree.nothing]
    simp only [Job.perform, Operation.perform, ha, Accumulator.addTree?_eq, hadopt]
    by_cases hn : a.IsNew (.found (.nothing a.parser a.position))
    · have hrec : (s.modifyAccumulator id fun _ => a.record
          (.found (.nothing a.parser a.position))).accumulator? id =
            some (a.record (.found (.nothing a.parser a.position))) := by
        rw [accumulator?_modify ha rfl, if_pos rfl]
      simp only [if_pos hn]
      exact .done hrec (List.mem_append_right _ (List.mem_singleton.2 rfl)) hlength
    · simp only [if_neg hn]
      simp only [Accumulator.IsNew, Bool.not_eq_false] at hn
      obtain ⟨t, ht, he⟩ := List.any_eq_true.1 hn
      exact .done ha ht ((beq_iff_eq.1 he).trans hlength)

/-- The step lemma for an optional parser's accumulator. -/
theorem Store.Primed.step (hs : s.Sound g) (h : s.Primed (j :: js) id a.parser a.position) :
    (j.perform (.standard g) s ()).1.Primed ((j.perform (.standard g) s ()).2.2 ++ js) id
      a.parser a.position := by
  cases h with
  | done hb ht h0 =>
    obtain ⟨b, hb', he⟩ := (hs.grows_perform j ()).accumulator id _ hb
    exact .done hb' (he.trees.subset ht) h0
  | @due before after k hjs hk hu =>
    cases before with
    | nil =>
      obtain ⟨rfl, rfl⟩ := List.cons.inj hjs
      exact hk.step ha hu _
    | cons x before =>
      obtain ⟨rfl, rfl⟩ := List.cons.inj hjs
      rcases hu.called hq ha (before ++ k :: after) with hprimed | hfirst
      · exact hprimed
      · exact .due (List.append_assoc ..).symm hk (hu.step hfirst)
  | idle hu =>
    rcases hu.called hq ha js with hprimed | hfirst
    · exact hprimed
    · exact .idle (hu.step hfirst)

end Steps

/-- The accumulators of optional parsers are primed, and the empty matches that they hold are their
own. -/
def Machine.Primed (g : Grammar Empty) (m : Machine Empty Unit) : Prop :=
  ∀ id a q, m.store.accumulator? id = some a → g.parser? a.parser = some (.optional q) →
    m.store.Primed m.agenda id a.parser a.position ∧ ∀ t ∈ a.trees, t.length = 0 → t.children = []

section Runs

/-- Whatever a listener records in is there. -/
theorem Store.Sound.target_ne_none (hs : s.Sound g) {source : AccumulatorId} {l : Listener Empty}
    (ha : s.accumulator? source = some a) (hl : l ∈ a.listeners) :
    s.accumulator? l.role.target ≠ none := by
  obtain ⟨-, d, hd, hsound⟩ := hs.kept source a ha
  obtain ⟨p, i, ⟨b, hb, -⟩, -⟩ := (hsound.listeners l hl).requests hs hd
  rw [hb]
  exact Option.some_ne_none b

/-- To an accumulator that is yet to be made nothing is passed on. -/
theorem Machine.Sound.unfed {m : Machine Empty Unit} (hm : m.Sound g d c)
    (ha : m.store.accumulator? id = none) (p : ParserId) : m.store.Unfed m.agenda id p where
  jobs j hj hb := by
    obtain ⟨p', i, b, hb', -⟩ := (hm.jobs j hj).isFor_target hm.store hm.document
    rw [hb.target, ha] at hb'
    cases hb'
  listeners source hl := by
    obtain ⟨b, hb, l, hl, hrole⟩ := hl
    have hne := hm.store.target_ne_none hb hl
    rw [hrole] at hne
    exact hne ha

/-- What an optional parser comes upon as its own and keeps is its match of nothing. -/
theorem Offered.bare (hs : s.Sound g) (hd : s.document? c = some d)
    (ha : s.accumulator? id = some a) (hc : a.context = c) {q : ParserId}
    (hq : g.parser? a.parser = some (.optional q)) {t : Tree}
    (h : Offered g d (s.Found c) a.parser a.position t) (hp : t.parser = a.parser)
    (hn : a.IsNew (.found t)) : t.children = [] := by
  cases h with
  | made hmade =>
    cases hmade with
    | nothing _ => rfl
    | literal hp' _ _ | pattern hp' _ _ | sequence hp' _ =>
      rw [hq] at hp'
      cases hp'
  | passed _ ht =>
    -- it is held already
    obtain ⟨htp, -⟩ := hs.found hd ht
    obtain rfl := htp.symm.trans hp
    have hmem := hs.mem_trees ha (hc ▸ ht)
    exact absurd rfl (hn.length_ne hmem)

/-- The step lemma for the matches held: an empty match that is passed on is not kept. -/
theorem Machine.Primed.bare {w : Unit} (hm : Machine.Sound g d c ⟨s, w, j :: js⟩)
    (h : Machine.Primed g ⟨s, w, j :: js⟩) {b : Accumulator Empty} {q : ParserId}
    (hb : (j.perform (.standard g) s w).1.accumulator? id = some b)
    (hq : g.parser? b.parser = some (.optional q)) {t : Tree} (ht : t ∈ b.trees)
    (h0 : t.length = 0) : t.children = [] := by
  have hs : s.Sound g := hm.store
  have hd : s.document? c = some d := hm.document
  have hgrows := hs.grows_perform j w
  have hholds : b.Holds (.found t) := ht
  rcases (j.effect (.standard g) s w).held hb hholds with ⟨a, ha, hold⟩ | hev
  · rw [(hgrows.extends ha hb).parser] at hq
    exact (h id a q ha hq).2 t hold h0
  · obtain ⟨a, ha, hn, ⟨x, rfl, hx⟩ | ⟨f, -, hx⟩⟩ := Job.eq_of_recorded hev
    · rw [(hgrows.extends ha hb).parser] at hq
      cases hx
      obtain ⟨p, i, hfor, -, ho⟩ := hm.jobs _ List.mem_cons_self
      obtain ⟨a', ha', hc, rfl, rfl⟩ := hfor
      rw [ha] at ha'
      cases ha'
      by_cases hp : x.parser = a.parser
      · rw [Accumulator.adopt, if_pos hp] at hn ⊢
        exact ho.bare hs hd ha hc hq hp hn
      · have hbrings : (Job.operate (.addTree id x)).Brings id a.parser := ⟨rfl, hp⟩
        obtain ⟨a', ha', y, hy, hy0⟩ := (h id a q ha hq).1.of_brings hbrings
        rw [ha] at ha'
        cases ha'
        exact absurd (hy0.trans h0.symm) (hn.length_ne hy)
    · cases hx

theorem Machine.Primed.step {m : Machine Empty Unit} (hm : m.Sound g d c) (h : m.Primed g) :
    (m.step (.standard g)).Primed g := by
  obtain ⟨s, w, js⟩ := m
  cases js with
  | nil => exact h
  | cons j js =>
    have hgrows := hm.store.grows_perform j w
    intro id b q hb hq
    refine ⟨?_, fun t ht h0 => Machine.Primed.bare hm h hb hq ht h0⟩
    cases ha : s.accumulator? id with
    | some a =>
      have he : a.Extends b := hgrows.extends ha hb
      rw [he.parser] at hq
      rw [he.parser, he.position]
      exact (h id a q ha hq).1.step hq ha hm.store
    | none =>
      refine .idle ((hm.unfed ha b.parser).step ?_)
      intro k hk hbrings
      have htarget := hbrings.target
      rcases Job.target_called hk with hsame | ⟨a, l, ha', hl, hrole⟩ | ⟨c', q', k', next, -, -, rfl⟩
      · obtain ⟨p, i, a, ha', -⟩ :=
          (hm.jobs j List.mem_cons_self).isFor_target hm.store hm.document
        rw [← hsame, htarget, ha] at ha'
        cases ha'
      · exact hm.store.target_ne_none ha' hl (hrole ▸ htarget ▸ ha)
      · exact hbrings

/-- While nothing is to be done, new accumulators change nothing, nor do jobs that bring nothing. -/
theorem Machine.Primed.quiet (h : Machine.Primed g ⟨s, (), []⟩) (hs : s.Sound g)
    (hquiet : Quiet s s') (hjs : ∀ j ∈ js, ∀ id p, ¬j.Brings id p) :
    Machine.Primed g ⟨s', (), js⟩ := by
  have hlinked {source : AccumulatorId} {role : Role Empty} (hl : s'.Linked source role) :
      s.Linked source role := by
    obtain ⟨b, hb, l, hl, hrole⟩ := hl
    rcases hquiet.cases hb with hb | ⟨-, -, -, hnil⟩
    · exact ⟨b, hb, l, hl, hrole⟩
    · rw [hnil] at hl
      cases hl
  intro id a q ha hq
  rcases hquiet.cases ha with hold | ⟨hnone, htrees, -⟩
  · obtain ⟨hprimed, hbare⟩ := h id a q hold hq
    refine ⟨?_, hbare⟩
    cases hprimed with
    | done hb ht h0 => exact .done (hquiet.kept _ _ hb) ht h0
    | due hjs _ _ => exact absurd hjs (by simp)
    | idle hu =>
      exact .idle ⟨fun j hj => hjs j hj id a.parser, fun source hl => hu.listeners source (hlinked hl)⟩
  · refine ⟨.idle ⟨fun j hj => hjs j hj id a.parser, fun source hl => ?_⟩, ?_⟩
    · obtain ⟨b, hb, l, hl, hrole⟩ := hlinked hl
      have hne := hs.target_ne_none hb hl
      rw [hrole] at hne
      exact hne hnone
    · rw [htrees]
      exact fun _ ht => absurd ht List.not_mem_nil

/-- Whatever is reached, the accumulators of optional parsers are primed. -/
theorem Grammar.Reached.primed {admits : Document → ParserId → Nat → Prop} (hg : g.Closed)
    (h : g.Reached admits s) : Machine.Primed g ⟨s, (), []⟩ := by
  refine h.invariant hg (P := Machine.Primed g) ?_ ?_ fun _ _ _ hm hprimed => hprimed.step hm
  · intro id a q ha
    simp [Store.accumulator?] at ha
  · intro s s' js hs hprimed _ hquiet hjs
    refine hprimed.quiet hs hquiet fun j hj _ _ => ?_
    obtain ⟨id, rfl⟩ := hjs j hj
    exact False.elim

end Runs

end PushParsing
