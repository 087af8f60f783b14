import PushParsing.Proofs.Best
import PushParsing.Proofs.Invariant

/-!
# Soundness

A step of a standard engine keeps the invariant, and so does a run.
-/
namespace PushParsing

variable {g : Grammar Empty} {d : Document} {s s' : Store Empty} {c : ContextNumber}

theorem Tree.join_nil (p : ParserId) (i : Nat) : Tree.join p i [] = .nothing p i := by
  simp [join, nothing, leaf]

section Storing

/-- No pair is added, and accumulators change only into sound ones of the same pair. -/
theorem Store.Sound.of_accumulators (hs : s.Sound g) (h : s.Grows s') (hv : s'.Valid)
    (hh : ∀ c d, s'.document? c = some d → s'.holds c)
    (hp : ∀ c p i id, s'.peek? c p i = some id → s.peek? c p i = some id)
    (ha : ∀ id b, s'.accumulator? id = some b → ∃ a, s.accumulator? id = some a ∧
      a.Extends b ∧ ∀ d, s.document? a.context = some d → a.Sound g d s → b.Sound g d s') :
    s'.Sound g where
  valid := hv
  held := hh
  kept id b hb := by
    obtain ⟨a, hid, he, hsound⟩ := ha id b hb
    obtain ⟨hm, d, hd, hadd⟩ := hs.kept id a hid
    rw [he.context, he.parser, he.position]
    exact ⟨h.peek _ _ _ _ hm, d, h.document hd, hsound d hd hadd⟩
  known c p i id hid := h.isFor (hs.known c p i id (hp c p i id hid))

/-- The same if contexts stay as they are. -/
theorem Store.Sound.of_contexts (hs : s.Sound g) (h : s.Grows s')
    (hc : s'.contexts = s.contexts) (hh : s'.heldContexts = s.heldContexts)
    (ha : ∀ id b, s'.accumulator? id = some b → ∃ a, s.accumulator? id = some a ∧
      a.Extends b ∧ ∀ d, s.document? a.context = some d → a.Sound g d s → b.Sound g d s') :
    s'.Sound g := by
  refine hs.of_accumulators h ?_ ?_ ?_ ha
  · intro c x hx
    exact hs.valid c x (by rwa [Store.context?_congr hc] at hx)
  · intro c d hd
    rw [Store.document?_congr hc] at hd
    rw [Store.holds, hh]
    exact hs.held c d hd
  · intro c p i id hp
    rwa [Store.peek?_congr hc] at hp

/-- One accumulator becomes another one of the same pair. -/
theorem Store.Sound.modify (hs : s.Sound g) {id : AccumulatorId} {a b : Accumulator Empty}
    (ha : s.accumulator? id = some a) (he : a.Extends b)
    (hb : ∀ d, s.document? a.context = some d → a.Sound g d s →
      s.Grows (s.modifyAccumulator id fun _ => b) →
        b.Sound g d (s.modifyAccumulator id fun _ => b)) :
    (s.modifyAccumulator id fun _ => b).Sound g ∧ s.Grows (s.modifyAccumulator id fun _ => b) := by
  have hgrows : s.Grows (s.modifyAccumulator id fun _ => b) := .modify ha he rfl rfl rfl
  refine ⟨hs.of_contexts hgrows rfl rfl ?_, hgrows⟩
  intro k b' hk
  obtain ⟨rfl, rfl⟩ | ⟨-, hk⟩ := accumulator?_modify_cases ha rfl hk
  · exact ⟨a, ha, he, fun d hd hsound => hb d hd hsound hgrows⟩
  · exact ⟨b', hk, .refl b', fun d _ hsound => hsound.mono hgrows⟩

theorem Accumulator.Sound.recordTree {a : Accumulator Empty} (ha : a.Sound g d s)
    (h : s.Grows s') {t : Tree} (hn : a.IsNew (.found t)) (hi : a.position ≤ d.size)
    (hp : t.parser = a.parser) (ht : t.start = a.position)
    (hc : Composed g d (s.Found a.context) a.parser a.position t) :
    (a.record (.found t)).Sound g d s' where
  trees x hx := by
    rcases List.mem_append.1 hx with hx | hx
    · exact (ha.mono h).trees x hx
    · rw [List.mem_singleton] at hx
      subst hx
      exact ⟨hi, hp, ht, hc.mono fun _ _ _ => h.found⟩
  lengths := by
    rw [record, List.map_append, List.nodup_append]
    refine ⟨ha.lengths, List.nodup_singleton _, ?_⟩
    intro n hn' m hm
    obtain ⟨x, hx, rfl⟩ := List.mem_map.1 hn'
    simp only [List.map_cons, List.map_nil, List.mem_singleton] at hm
    exact hm ▸ hn.length_ne hx
  failures := ha.failures
  distinct := ha.distinct
  best := ha.best
  listeners l hl := (ha.listeners l hl).mono h

theorem Accumulator.Sound.recordFailure {a : Accumulator Empty} (ha : a.Sound g d s)
    (h : s.Grows s') {f : Failure} (hn : a.IsNew (.failed f))
    (hf : Genuine g d a.context a.parser a.position f) :
    (a.record (.failed f)).Sound g d s' where
  trees := (ha.mono h).trees
  lengths := ha.lengths
  failures x hx := by
    rcases List.mem_cons.1 hx with rfl | hx
    · exact hf
    · exact ha.failures x hx
  distinct := List.nodup_cons.2 ⟨hn, ha.distinct⟩
  best := by rw [record, List.foldr_cons, ← ha.best]
  listeners l hl := (ha.listeners l hl).mono h

theorem Accumulator.Sound.register {a : Accumulator Empty} (ha : a.Sound g d s)
    (h : s.Grows s') {l : Listener Empty}
    (hl : l.role.Serves g d s a.context a.parser a.position) : (a.register l).Sound g d s' where
  trees := (ha.mono h).trees
  lengths := ha.lengths
  failures := ha.failures
  distinct := ha.distinct
  best := ha.best
  listeners x hx := by
    rcases List.mem_append.1 hx with hx | hx
    · exact (ha.listeners x hx).mono h
    · rw [List.mem_singleton] at hx
      subst hx
      exact hl.mono h

/-- What is new to an accumulator and offered to it is composed as it keeps it. -/
theorem Offered.composed (hs : s.Sound g) (hd : s.document? c = some d) {id : AccumulatorId}
    {a : Accumulator Empty} {t : Tree} (ha : s.accumulator? id = some a) (hc : a.context = c)
    (ho : Offered g d (s.Found c) a.parser a.position t) (hn : a.IsNew (.found (a.adopt t))) :
    (a.adopt t).parser = a.parser ∧ (a.adopt t).start = a.position ∧
      Composed g d (s.Found c) a.parser a.position (a.adopt t) := by
  subst hc
  cases ho with
  | made hm =>
    obtain ⟨hp, hi⟩ := hm.parser_start
    rw [Accumulator.adopt, if_pos hp]
    exact ⟨hp, hi, .made hm⟩
  | @passed q hp hq =>
    obtain ⟨htp, hti, -⟩ := hs.found hd hq
    by_cases hne : q = a.parser
    · subst hne
      rw [Accumulator.adopt, if_pos htp] at hn
      have hm := hs.mem_trees ha hq
      exact absurd rfl (hn.length_ne hm)
    · rw [Accumulator.adopt, if_neg (htp ▸ hne)]
      exact ⟨rfl, hti, .passed hp hne hq⟩

end Storing

section Asking

theorem Accumulator.Sound.empty (c : ContextNumber) (p : ParserId) (i : Nat) :
    ({ context := c, parser := p, position := i } : Accumulator Empty).Sound g d s where
  trees := by simp
  lengths := List.nodup_nil
  failures := by simp
  distinct := List.nodup_nil
  best := rfl
  listeners := by simp

/-- After a request the store is sound, and the answer is the accumulator of the pair. -/
theorem Store.Sound.request (hs : s.Sound g) (hd : s.document? c = some d) (p : ParserId)
    (i : Nat) : (s.request c p i).2.2.Sound g ∧ s.Grows (s.request c p i).2.2 ∧
      (s.request c p i).2.2.IsFor (s.request c p i).1 c p i := by
  have hc := Store.isSome_context hd
  have hgrows : s.Grows (s.request c p i).2.2 := hs.valid.request_grows
  have hid : (s.request c p i).2.2.IsFor (s.request c p i).1 c p i := by
    cases hp : s.peek? c p i with
    | some id =>
      rw [(Store.request_old hp).1]
      exact hgrows.isFor (hs.known c p i id hp)
    | none =>
      obtain ⟨he, -, ha⟩ := Store.request_new hp hc
      refine ⟨{ context := c, parser := p, position := i }, ?_, rfl, rfl, rfl⟩
      rw [he, accumulator?_push ha, if_pos rfl]
  refine ⟨⟨hs.valid.request, ?_, ?_, ?_⟩, hgrows, hid⟩
  · intro k d' hd'
    rw [Store.document?_request] at hd'
    exact hgrows.holds k (hs.held k d' hd')
  · intro id a ha
    cases hp : s.peek? c p i with
    | some k =>
      rw [accumulator?_congr (Store.request_old hp).2.2] at ha
      obtain ⟨hm, d', hd', hsound⟩ := hs.kept id a ha
      exact ⟨hgrows.peek _ _ _ _ hm, d', hgrows.document hd', hsound.mono hgrows⟩
    | none =>
      obtain ⟨he, -, hacc⟩ := Store.request_new hp hc
      rw [accumulator?_push hacc] at ha
      split at ha
      next hlast =>
        cases ha
        rw [hs.valid.peek?_request hc, if_pos ⟨rfl, rfl, rfl⟩, he, hlast]
        exact ⟨rfl, d, hgrows.document hd, .empty c p i⟩
      next =>
        obtain ⟨hm, d', hd', hsound⟩ := hs.kept id a ha
        exact ⟨hgrows.peek _ _ _ _ hm, d', hgrows.document hd', hsound.mono hgrows⟩
  · intro k q m id hq
    rw [hs.valid.peek?_request hc] at hq
    split at hq
    next heq =>
      obtain ⟨rfl, rfl, rfl⟩ := heq
      cases hq
      exact hid
    next => exact hgrows.isFor (hs.known k q m id hq)

end Asking

/-- The outcome of doing a job: the store stays sound and so is what is called for. -/
structure Good (g : Grammar Empty) (d : Document) (c : ContextNumber)
    (r : Store Empty × Unit × List (Job Empty)) : Prop where
  store : r.1.Sound g
  jobs : ∀ j ∈ r.2.2, j.Sound g d r.1 c

section Steps

variable {w : Unit} (hs : s.Sound g) (hd : s.document? c = some d)
include hs

theorem Good.none : Good g d c (s, w, []) := ⟨hs, by simp⟩

theorem Good.single {j : Job Empty} (hj : j.Sound g d s c) : Good g d c (s, w, [j]) :=
  ⟨hs, by simpa using hj⟩

include hd

theorem Operation.Sound.addTree {target : AccumulatorId} {t : Tree}
    (ho : (Operation.addTree target t).Sound g d s c) :
    Good g d c ((Operation.addTree target t).perform (.standard g) s w) := by
  obtain ⟨p, i, ht, hi, ho⟩ := ho
  obtain ⟨a, ha, hc, rfl, rfl, -, -⟩ := hs.accumulator hd ht
  simp only [Operation.perform, ha, Accumulator.addTree?_eq]
  by_cases hn : a.IsNew (.found (a.adopt t))
  · simp only [if_pos hn]
    obtain ⟨hp, hst, hcomp⟩ := ho.composed hs hd ha hc hn
    obtain ⟨hs', hgrows⟩ := hs.modify ha (.record a (.found (a.adopt t))) fun d' hd' hsound h => by
      rw [hc, hd] at hd'
      cases hd'
      exact hsound.recordTree h hn hi hp hst (hc ▸ hcomp)
    refine ⟨hs', ?_⟩
    intro j hj
    obtain ⟨l, hl, rfl⟩ := List.mem_map.1 hj
    obtain ⟨-, d', hd', hsound⟩ := hs.kept _ a ha
    rw [hc, hd] at hd'
    cases hd'
    have hmem : a.adopt t ∈ (a.record (.found (a.adopt t))).trees :=
      List.mem_append_right _ (List.mem_singleton.2 rfl)
    refine ⟨_, _, hgrows.isFor ht, (hc ▸ hsound.listeners l hl).mono hgrows, target,
      a.record (.found (a.adopt t)), ?_, hc, rfl, rfl, hmem⟩
    rw [accumulator?_modify ha rfl, if_pos rfl]
  · simp only [if_neg hn]
    exact .none hs

theorem Operation.Sound.addFailure {target : AccumulatorId} {f : Failure}
    (ho : (Operation.addFailure target f).Sound g d s c) :
    Good g d c ((Operation.addFailure target f).perform (.standard g) s w) := by
  obtain ⟨p, i, ht, hf⟩ := ho
  obtain ⟨a, ha, hc, rfl, rfl, -, -⟩ := hs.accumulator hd ht
  simp only [Operation.perform, ha, Accumulator.addFailure?_eq]
  by_cases hn : a.IsNew (.failed f)
  · simp only [if_pos hn]
    obtain ⟨hs', hgrows⟩ := hs.modify ha (.record a (.failed f)) fun d' hd' hsound h => by
      rw [hc, hd] at hd'
      cases hd'
      exact hsound.recordFailure h hn (hc ▸ hf)
    refine ⟨hs', ?_⟩
    intro j hj
    obtain ⟨l, hl, rfl⟩ := List.mem_map.1 hj
    obtain ⟨-, d', hd', hsound⟩ := hs.kept _ a ha
    rw [hc, hd] at hd'
    cases hd'
    exact ⟨_, _, hgrows.isFor ht, (hc ▸ hsound.listeners l hl).mono hgrows, hf⟩
  · simp only [if_neg hn]
    exact .none hs

theorem Operation.Sound.listen {source : AccumulatorId} {l : Listener Empty}
    (ho : (Operation.listen source l).Sound g d s c) :
    Good g d c ((Operation.listen source l).perform (.standard g) s w) := by
  obtain ⟨q, k, hq, hr⟩ := ho
  obtain ⟨a, ha, rfl, rfl, rfl, -, -⟩ := hs.accumulator hd hq
  simp only [Operation.perform, ha, Accumulator.addListener?_eq]
  by_cases hn : a.listeners.any (·.id == l.id)
  · simp only [if_pos hn]
    exact .none hs
  · simp only [if_neg hn]
    obtain ⟨hs', hgrows⟩ := hs.modify ha (.register a l) fun d' hd' hsound h => by
      rw [hd] at hd'
      cases hd'
      exact hsound.register h hr
    refine ⟨hs', ?_⟩
    intro j hj
    obtain ⟨t, ht, rfl⟩ := List.mem_map.1 hj
    exact ⟨_, _, hgrows.isFor hq, hr.mono hgrows, hgrows.found ⟨_, a, ha, rfl, rfl, rfl, ht⟩⟩

omit hd in
theorem Store.Sound.grows_perform (j : Job Empty) (w : Unit) :
    s.Grows (j.perform (.standard g) s w).1 :=
  (j.perform_grows (.standard g) w hs.valid).2

theorem Operation.Sound.perform {o : Operation Empty} (ho : o.Sound g d s c) :
    Good g d c (o.perform (.standard g) s w) := by
  cases o with
  | addTree target t => exact ho.addTree hs hd
  | addFailure target f => exact ho.addFailure hs hd
  | listen source l => exact ho.listen hs hd
  | addStop target j =>
    obtain ⟨p, i, ht, hi, hj, hm⟩ := ho
    obtain ⟨a, ha, hc, rfl, rfl, -, -⟩ := hs.accumulator hd ht
    simp only [Operation.perform, ha, if_neg (Nat.not_lt.2 hj)]
    exact .single hs ⟨_, _, ht, hi, .made hm⟩
  | failAt target message position =>
    obtain ⟨p, i, ht, hf⟩ := ho
    obtain ⟨a, ha, rfl, rfl, rfl, -, -⟩ := hs.accumulator hd ht
    simp only [Operation.perform, ha]
    exact .single hs ⟨_, _, ht, .own hf⟩
  | watch source role =>
    obtain ⟨q, k, hq, hr⟩ := ho
    have hgrows := hs.grows_perform (.operate (.watch source role)) w
    refine ⟨hs.of_contexts hgrows rfl rfl fun id b hb => ⟨b, hb, .refl b, ?_⟩, ?_⟩
    · intro d' _ hsound
      exact hsound.mono hgrows
    · intro j hj
      rw [Operation.perform, List.mem_singleton] at hj
      subst hj
      exact ⟨q, k, hgrows.isFor hq, hr.mono hgrows⟩
  | forward source target =>
    obtain ⟨q, k, hq, hr⟩ := ho
    obtain ⟨p, i, ht, hreq⟩ := hr.requests hs hd
    refine ⟨hs, ?_⟩
    intro j hj
    simp only [Operation.perform, List.mem_cons, List.not_mem_nil, or_false] at hj
    rcases hj with rfl | rfl
    · exact ⟨q, k, hq, hr⟩
    · exact ⟨p, i, q, k, ht, hq, hreq⟩
  | request c p i next => exact next.elim
  | lookup c p i next => exact next.elim
  | resume next => exact next.elim

omit hs hd in
/-- A parser that begins within the grammar and the document calls for sound jobs. -/
theorem Parser.sound_begin (hg : g.Closed) {id : AccumulatorId} {a : Accumulator Empty}
    {x : Parser Empty} (ha : s.accumulator? id = some a) (hc : a.context = c)
    (hi : a.position ≤ d.size) (hx : g.parser? a.parser = some x) :
    ∀ j ∈ x.begin d id a, j.Sound g d s c := by
  have hid : s.IsFor id c a.parser a.position := ⟨a, ha, hc, rfl, rfl⟩
  have hfail {cause : Cause} (h : x.cause? d a.position = some cause) :
      (Job.operate (.failAt id cause.message a.position)).Sound g d s c :=
    ⟨_, _, hid, by rw [Grammar.failure?, Grammar.cause?_eq hi hx, h]; rfl⟩
  cases x with
  | literal text =>
    simp only [begin]
    split
    next h =>
      obtain ⟨rest, hr, hp⟩ := (Option.any_eq_true _ _).1 h
      intro j hj
      rw [List.mem_singleton] at hj
      subst hj
      exact ⟨_, _, hid, hi, Nat.le_add_right .., .literal hx hr (List.isPrefixOf_iff_prefix.1 hp)⟩
    next h => simpa using hfail (by rw [cause?, if_neg h])
  | pattern r =>
    simp only [begin]
    split
    next e h =>
      obtain ⟨rest, hr, he⟩ := Option.bind_eq_some_iff.1 h
      intro j hj
      rw [List.mem_singleton] at hj
      subst hj
      exact ⟨_, _, hid, hi, Nat.le_add_right .., .pattern hx hr he⟩
    next h => simpa using hfail (by rw [cause?, h])
  | sequence es =>
    cases es with
    | nil =>
      have hm : Made g d (s.Found c) a.parser a.position (.join a.parser a.position []) :=
        .sequence hx .nil
      intro j hj
      rw [begin, List.mem_singleton] at hj
      subst hj
      rw [Tree.join_nil] at hm
      exact ⟨_, _, hid, hi, .made hm⟩
    | cons e rest =>
      intro j hj
      rw [begin, List.mem_singleton] at hj
      subst hj
      have he : e < g.size := hg _ _ hx _ List.mem_cons_self
      have hr : g.parser? a.parser = some (.sequence ([] ++ e :: rest)) := hx
      exact ⟨hc, ⟨he, hi⟩, .element hid hi hr .nil⟩
  | choice qs =>
    cases qs with
    | nil => simpa [begin] using hfail rfl
    | cons q qs =>
      intro j hj
      obtain ⟨e, he, rfl⟩ := List.mem_map.1 hj
      have hp : g.Passes a.parser e := .choice hx he
      exact ⟨hc, ⟨hp.lt_size hg, hi⟩, .forward hid hi hp⟩
  | optional q =>
    intro j hj
    simp only [begin, List.mem_cons, List.not_mem_nil, or_false] at hj
    have hp : g.Passes a.parser q := .optional hx
    rcases hj with rfl | rfl
    · exact ⟨_, _, hid, hi, Nat.le_refl _, .nothing hx⟩
    · exact ⟨hc, ⟨hp.lt_size hg, hi⟩, .forward hid hi hp⟩
  | custom label refs code => exact code.elim

theorem Job.Sound.start (hg : g.Closed) {id : AccumulatorId} (hj : (Job.start id).Sound g d s c) :
    Good g d c ((Job.start id).perform (.standard g) s w) := by
  obtain ⟨p, i, hid⟩ := hj
  obtain ⟨a, ha, hc, rfl, rfl, -, -⟩ := hs.accumulator hd hid
  obtain ⟨x, hx, rfl⟩ := Option.map_eq_some_iff.1 hd
  simp only [Job.perform, ha, hc, hx]
  split
  next hlt =>
    refine .single hs ⟨_, _, hid, ?_⟩
    rw [Grammar.failure?, Grammar.cause?, if_pos hlt]
    rfl
  next hle =>
    split
    next hn =>
      refine .single hs ⟨_, _, hid, ?_⟩
      have hn : g.parser? a.parser = none := hn
      rw [Grammar.failure?, Grammar.cause?, if_neg hle, hn]
      rfl
    next label refs code _ => exact code.elim
    next y _ hy => exact ⟨hs, Parser.sound_begin hg ha hc (Nat.not_lt.1 hle) hy⟩

/-- A sequence goes on within the grammar and the document. -/
theorem Sequel.sound_continue (hg : g.Closed) {r : Sequel} {e : ParserId} {k : Nat} {t : Tree}
    (hr : (Role.element r).Serves g d s c e k) (ht : s.Found c e k t) :
    ∀ j ∈ r.continue s t, j.Sound g d s c := by
  cases hr with
  | @element _ before p _ _ htar hi hp hch =>
    obtain ⟨a, ha, hc, rfl, hpos, -, -⟩ := hs.accumulator hd htar
    have hch' := hch.snoc ht
    have hp' : g.parser? a.parser = some (.sequence (before ++ [e] ++ r.rest)) := by simpa using hp
    obtain ⟨-, -, -, hle, -⟩ := hs.found hd ht
    simp only [Sequel.continue, ha]
    cases hrest : r.rest with
    | nil =>
      rw [hrest, List.append_nil] at hp'
      intro j hj
      rw [List.mem_singleton] at hj
      subst hj
      exact ⟨_, _, htar, hi, .made (.sequence hp' hch')⟩
    | cons e' rest =>
      rw [hrest] at hp'
      dsimp only
      split
      · intro j hj
        rw [List.mem_singleton] at hj
        subst hj
        have he' : e' < g.size := hg _ _ hp' _ (by simp [Parser.references])
        exact ⟨hc, ⟨he', hle⟩, .element htar hi hp' hch'⟩
      · simp

theorem Job.Sound.tell (hg : g.Closed) {l : Listener Empty} {source : AccumulatorId} {news : News}
    (hj : (Job.tell l source news).Sound g d s c) :
    Good g d c ((Job.tell l source news).perform (.standard g) s w) := by
  obtain ⟨q, k, hq, hr, hn⟩ := hj
  obtain ⟨p, i, ht, hreq⟩ := hr.requests hs hd
  obtain ⟨n, role⟩ := l
  cases role with
  | forward target =>
    simp only [Job.perform]
    split
    · cases news with
      | found t =>
        cases hr with
        | forward htar hi hp => exact .single hs ⟨_, _, htar, hi, .passed hp hn⟩
      | failed f => exact .single hs ⟨p, i, ht, hn.request hreq⟩
    · exact .none hs
  | element r =>
    simp only [Job.perform]
    split
    · cases news with
      | found t => exact ⟨hs, Sequel.sound_continue hs hd hg hr hn⟩
      | failed f => exact .single hs ⟨p, i, ht, hn.request hreq⟩
    · exact .none hs
  | custom code => exact code.elim

theorem Job.Sound.carry {source target : AccumulatorId} (hj : (Job.carry source target).Sound g d s c) :
    Good g d c ((Job.carry source target).perform (.standard g) s w) := by
  obtain ⟨p, i, q, k, ht, hq, hreq⟩ := hj
  obtain ⟨a, ha, rfl, rfl, rfl, -, hsound⟩ := hs.accumulator hd hq
  simp only [Job.perform, ha, Option.bind_some]
  cases hb : a.best with
  | none => exact .none hs
  | some f =>
    have hf := hsound.failures f (mem_of_foldr_furthest (hsound.best ▸ hb))
    exact .single hs ⟨p, i, ht, hf.request hreq⟩

theorem Job.Sound.proceed {next : Next Empty} {id : AccumulatorId}
    (hj : (Job.proceed next id).Sound g d s c) :
    Good g d c ((Job.proceed next id).perform (.standard g) s w) := by
  obtain ⟨q, k, hq, hr⟩ := hj
  cases next with
  | forwardTo target => exact .single hs ⟨q, k, hq, hr⟩
  | await r =>
    obtain ⟨p, i, ht, hreq⟩ := hr.requests hs hd
    refine ⟨hs, ?_⟩
    intro j hj
    simp only [Job.perform, List.mem_cons, List.not_mem_nil, or_false] at hj
    rcases hj with rfl | rfl
    · exact ⟨q, k, hq, hr⟩
    · exact ⟨p, i, q, k, ht, hq, hreq⟩
  | custom code => exact code.elim

omit hs hd in
theorem Job.perform_ask (c : ContextNumber) (q : ParserId) (k : Nat) (next : Next Empty) :
    (Job.ask c q k next).perform (.standard g) s w =
      ((s.request c q k).2.2, w,
        if (s.request c q k).2.1 then [.start (s.request c q k).1, .proceed next (s.request c q k).1]
        else [.proceed next (s.request c q k).1]) := rfl

theorem Job.Sound.ask {c' : ContextNumber} {q : ParserId} {k : Nat} {next : Next Empty}
    (hj : (Job.ask c' q k next).Sound g d s c) :
    Good g d c ((Job.ask c' q k next).perform (.standard g) s w) := by
  obtain ⟨rfl, hq, hr⟩ := hj
  obtain ⟨hs', hgrows, hid⟩ := hs.request hd q k
  rw [Job.perform_ask]
  refine ⟨hs', ?_⟩
  have hproceed : (Job.proceed next (s.request c' q k).1).Sound g d (s.request c' q k).2.2 c' :=
    ⟨q, k, hid, hr.mono hgrows⟩
  intro j hj
  dsimp only at hj
  split at hj
  · simp only [List.mem_cons, List.not_mem_nil, or_false] at hj
    rcases hj with rfl | rfl
    · exact ⟨q, k, hid⟩
    · exact hproceed
  · rw [List.mem_singleton] at hj
    subst hj
    exact hproceed

/-- The step lemma: a sound job done in a sound store leaves a sound store and calls for sound jobs.
-/
theorem Job.Sound.perform (hg : g.Closed) {j : Job Empty} (hj : j.Sound g d s c) :
    Good g d c (j.perform (.standard g) s w) := by
  cases j with
  | operate o => exact Operation.Sound.perform hs hd hj
  | ask c' q k next => exact hj.ask hs hd
  | start id => exact hj.start hs hd hg
  | proceed next id => exact hj.proceed hs hd
  | tell l source news => exact hj.tell hs hd hg
  | carry source target => exact hj.carry hs hd

end Steps

/-- The machine's store and all jobs of its agenda are sound. -/
structure Machine.Sound (g : Grammar Empty) (d : Document) (c : ContextNumber)
    (m : Machine Empty Unit) : Prop where
  document : m.store.document? c = some d
  store : m.store.Sound g
  jobs : ∀ j ∈ m.agenda, j.Sound g d m.store c

namespace Machine

theorem Sound.step (hg : g.Closed) {m : Machine Empty Unit} (hm : m.Sound g d c) :
    (m.step (.standard g)).Sound g d c ∧ m.store.Grows (m.step (.standard g)).store := by
  obtain ⟨s, w, js⟩ := m
  cases js with
  | nil => exact ⟨hm, .refl s⟩
  | cons j js =>
    have hgood : Good g d c (j.perform (.standard g) s w) :=
      Job.Sound.perform hm.store hm.document hg (hm.jobs j List.mem_cons_self)
    have hgrows := hm.store.grows_perform j w
    refine ⟨⟨hgrows.document hm.document, hgood.store, ?_⟩, hgrows⟩
    intro j' hj'
    rcases List.mem_append.1 hj' with hj' | hj'
    · exact hgood.jobs j' hj'
    · exact (hm.jobs j' (List.mem_cons_of_mem _ hj')).mono hgrows

/-- The run lemma. -/
theorem Sound.run (hg : g.Closed) (n : Nat) :
    ∀ {m : Machine Empty Unit}, m.Sound g d c →
      (run (.standard g) n m).Sound g d c ∧ m.store.Grows (run (.standard g) n m).store := by
  induction n with
  | zero => exact fun hm => ⟨hm, .refl _⟩
  | succ n ih =>
    intro m hm
    obtain ⟨hstep, hgrows⟩ := hm.step hg
    obtain ⟨hrun, hgrows'⟩ := ih hstep
    rw [run_succ]
    exact ⟨hrun, hgrows.trans hgrows'⟩

/-- A request from outside begins soundly, whatever the pair. -/
theorem Sound.ofRequest (hs : s.Sound g) (hd : s.document? c = some d) (p : ParserId) (i : Nat) :
    (ofRequest s () c p i).Sound g d c ∧ s.Grows (ofRequest s () c p i).store ∧
      (ofRequest s () c p i).store.IsFor (s.request c p i).1 c p i := by
  obtain ⟨hs', hgrows, hid⟩ := hs.request hd p i
  refine ⟨⟨hgrows.document hd, hs', ?_⟩, hgrows, hid⟩
  intro j hj
  simp only [Machine.ofRequest] at hj
  split at hj
  · rw [List.mem_singleton] at hj
    subst hj
    exact ⟨p, i, hid⟩
  · cases hj

end Machine

end PushParsing
