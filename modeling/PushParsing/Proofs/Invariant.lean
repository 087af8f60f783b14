import Mathlib.Logic.Relation
import PushParsing.Proofs.Derivation
import PushParsing.Proofs.Growth

/-!
# The invariant of standard engines

Every tree that is stored is put together from stored trees in a way that the grammar allows, every
failure stored is that of a pair which the accumulator's own pair makes use of, directly or not, and
every listener listens to a pair that its target makes use of. A job on the agenda is sound if doing
it keeps this so.
-/
namespace PushParsing

section Composition

/-- Trees of parsers one after another, from one offset to another. -/
inductive Chain (stored : ParserId → Nat → Tree → Prop) :
    List ParserId → Nat → List Tree → Nat → Prop
  | nil {i : Nat} : Chain stored [] i [] i
  | snoc {es : List ParserId} {e : ParserId} {ts : List Tree} {t : Tree} {i k : Nat} :
      Chain stored es i ts k → stored e k t → Chain stored (es ++ [e]) i (ts ++ [t]) t.stop

/-- A tree that a parser makes itself, if need be from trees that are stored. -/
inductive Made (g : Grammar Empty) (d : Document) (stored : ParserId → Nat → Tree → Prop)
    (p : ParserId) (i : Nat) : Tree → Prop
  | literal {text : String} {rest : List Char} : g.parser? p = some (.literal text) →
      d.rest? i = some rest → text.toList <+: rest →
      Made g d stored p i (.leaf p i (i + byteLength text.toList))
  | pattern {r : Pattern} {rest : List Char} {e : Nat} : g.parser? p = some (.pattern r) →
      d.rest? i = some rest → r.find? rest = some e → Made g d stored p i (.leaf p i (i + e))
  | sequence {es : List ParserId} {ts : List Tree} {j : Nat} :
      g.parser? p = some (.sequence es) → Chain stored es i ts j →
      Made g d stored p i (.join p i ts)
  | nothing {q : ParserId} : g.parser? p = some (.optional q) → Made g d stored p i (.leaf p i i)

/-- A tree that a parser comes upon: one of its own making, or one that it passes on. -/
inductive Offered (g : Grammar Empty) (d : Document) (stored : ParserId → Nat → Tree → Prop)
    (p : ParserId) (i : Nat) (t : Tree) : Prop
  | made : Made g d stored p i t → Offered g d stored p i t
  | passed {q : ParserId} : g.Passes p q → stored q i t → Offered g d stored p i t

/-- A tree as a parser's accumulator keeps it. What comes from the parser itself is not kept again.
-/
inductive Composed (g : Grammar Empty) (d : Document) (stored : ParserId → Nat → Tree → Prop)
    (p : ParserId) (i : Nat) : Tree → Prop
  | made {t : Tree} : Made g d stored p i t → Composed g d stored p i t
  | passed {q : ParserId} {t : Tree} : g.Passes p q → q ≠ p → stored q i t →
      Composed g d stored p i (.wrap p t)

/-- A failure of one of the pairs that a pair makes use of, directly or not. -/
def Genuine (g : Grammar Empty) (d : Document) (c : ContextNumber) (p : ParserId) (i : Nat)
    (f : Failure) : Prop :=
  ∃ q k, Relation.ReflTransGen (Requests g d) (p, i) (q, k) ∧ g.failure? d c q k = some f

variable {g : Grammar Empty} {d : Document} {stored stored' : ParserId → Nat → Tree → Prop}
  {p : ParserId} {i j : Nat} {es : List ParserId} {ts : List Tree}

theorem Chain.mono (h : Chain stored es i ts j) (hs : ∀ q k t, stored q k t → stored' q k t) :
    Chain stored' es i ts j := by
  induction h with
  | nil => exact .nil
  | snoc _ ht ih => exact ih.snoc (hs _ _ _ ht)

theorem Made.mono {t : Tree} (h : Made g d stored p i t)
    (hs : ∀ q k t, stored q k t → stored' q k t) : Made g d stored' p i t := by
  cases h with
  | literal hp hr ht => exact .literal hp hr ht
  | pattern hp hr he => exact .pattern hp hr he
  | sequence hp hc => exact .sequence hp (hc.mono hs)
  | nothing hp => exact .nothing hp

theorem Offered.mono {t : Tree} (h : Offered g d stored p i t)
    (hs : ∀ q k t, stored q k t → stored' q k t) : Offered g d stored' p i t := by
  cases h with
  | made hm => exact .made (hm.mono hs)
  | passed hp ht => exact .passed hp (hs _ _ _ ht)

theorem Composed.mono {t : Tree} (h : Composed g d stored p i t)
    (hs : ∀ q k t, stored q k t → stored' q k t) : Composed g d stored' p i t := by
  cases h with
  | made hm => exact .made (hm.mono hs)
  | passed hp hne ht => exact .passed hp hne (hs _ _ _ ht)

theorem Made.parser_start {t : Tree} (h : Made g d stored p i t) : t.parser = p ∧ t.start = i := by
  cases h <;> exact ⟨rfl, rfl⟩

theorem Chain.stop_join (h : Chain stored es i ts j) (p : ParserId) : (Tree.join p i ts).stop = j := by
  cases h with
  | nil => rfl
  | snoc _ _ => exact Tree.stop_join_append ..

theorem Chain.derivesAll (h : Chain stored es i ts j)
    (hs : ∀ t ∈ ts, ∀ q k, stored q k t → Derives g d q k t.stop) : DerivesAll g d es i j := by
  induction h with
  | nil => exact .nil
  | snoc _ ht ih =>
    exact (ih fun t hm => hs t (List.mem_append_left _ hm)).snoc (hs _ (by simp) _ _ ht)

theorem Tree.size_le_sizeAll {t : Tree} (h : t ∈ ts) : t.size ≤ Tree.sizeAll ts := by
  induction ts with
  | nil => cases h
  | cons x xs ih =>
    simp only [Tree.sizeAll]
    rcases List.mem_cons.1 h with rfl | h
    · omega
    · have := ih h
      omega

/-- What is composed of derivations is one. -/
theorem Composed.derives {t : Tree} (h : Composed g d stored p i t)
    (hs : ∀ t', t'.size < t.size → ∀ q k, stored q k t' → Derives g d q k t'.stop) :
    Derives g d p i t.stop := by
  cases h with
  | made hm =>
    cases hm with
    | literal hp hr ht =>
      rw [Tree.stop_leaf, Nat.max_eq_left (by omega)]
      exact .literal hp hr ht
    | pattern hp hr he =>
      rw [Tree.stop_leaf, Nat.max_eq_left (by omega)]
      exact .pattern hp hr he
    | sequence hp hc =>
      rw [hc.stop_join]
      refine .sequence hp (hc.derivesAll fun t ht q k hq => hs t ?_ q k hq)
      have := Tree.size_le_sizeAll ht
      simp only [Tree.join, Tree.size]
      omega
    | nothing hp =>
      rw [Tree.stop_leaf, Nat.max_self]
      exact .nothing hp
  | @passed q t hp _ ht =>
    exact hp.derives (hs t (by simp [Tree.wrap, Tree.size, Tree.sizeAll]) q i ht)

theorem Genuine.own {c : ContextNumber} {f : Failure} (h : g.failure? d c p i = some f) :
    Genuine g d c p i f := ⟨p, i, .refl, h⟩

theorem Genuine.request {c : ContextNumber} {q : ParserId} {k : Nat} {f : Failure}
    (h : Genuine g d c q k f) (hr : Requests g d (p, i) (q, k)) : Genuine g d c p i f := by
  obtain ⟨q', k', hq, hf⟩ := h
  exact ⟨q', k', hq.head hr, hf⟩

end Composition

namespace Store

variable {κ : Type}

def document? (s : Store κ) (c : ContextNumber) : Option Document :=
  (s.context? c).map (·.document)

/-- The accumulator is that of the pair. -/
def IsFor (s : Store κ) (id : AccumulatorId) (c : ContextNumber) (p : ParserId) (i : Nat) : Prop :=
  ∃ a, s.accumulator? id = some a ∧ a.context = c ∧ a.parser = p ∧ a.position = i

/-- The tree is stored in an accumulator of the pair. -/
def Found (s : Store κ) (c : ContextNumber) (p : ParserId) (i : Nat) (t : Tree) : Prop :=
  ∃ id a, s.accumulator? id = some a ∧ a.context = c ∧ a.parser = p ∧ a.position = i ∧ t ∈ a.trees

theorem IsFor.unique {s : Store κ} {id : AccumulatorId} {c c' : ContextNumber} {p p' : ParserId}
    {i i' : Nat} (h : s.IsFor id c p i) (h' : s.IsFor id c' p' i') : c' = c ∧ p' = p ∧ i' = i := by
  obtain ⟨a, ha, rfl, rfl, rfl⟩ := h
  obtain ⟨b, hb, rfl, rfl, rfl⟩ := h'
  rw [ha] at hb
  cases hb
  exact ⟨rfl, rfl, rfl⟩

variable {s s' : Store κ}

theorem document?_congr (h : s'.contexts = s.contexts) (c : ContextNumber) :
    s'.document? c = s.document? c := by
  rw [document?, context?_congr h, document?]

theorem isSome_context {c : ContextNumber} {d : Document} (hd : s.document? c = some d) :
    (s.context? c).isSome := by
  obtain ⟨x, hx, -⟩ := Option.map_eq_some_iff.1 hd
  rw [hx]
  rfl

theorem document?_modifyMemo (s : Store κ) (c : ContextNumber)
    (f : Memo.Table AccumulatorId → Memo.Table AccumulatorId) (k : ContextNumber) :
    (s.modifyMemo c f).document? k = s.document? k := by
  rw [document?, context?_modifyMemo, document?]
  split
  · rw [Option.map_map]
    rfl
  · rfl

theorem document?_request (s : Store κ) (c : ContextNumber) (p : ParserId) (i : Nat)
    (k : ContextNumber) : (s.request c p i).2.2.document? k = s.document? k := by
  cases hc : s.context? c with
  | none => rw [request_astray hc]
  | some x =>
    have hsome : s.peek? c p i = none → (s.context? c).isSome := fun _ => by simp [hc]
    rw [document?_congr (contexts_request hsome), document?_modifyMemo]

theorem Grows.document (h : s.Grows s') {c : ContextNumber} {d : Document}
    (hd : s.document? c = some d) : s'.document? c = some d := by
  obtain ⟨x, hx, rfl⟩ := Option.map_eq_some_iff.1 hd
  obtain ⟨y, hy, he⟩ := h.context c x hx
  simp [document?, hy, he]

theorem Grows.isFor (h : s.Grows s') {id : AccumulatorId} {c : ContextNumber} {p : ParserId}
    {i : Nat} (hi : s.IsFor id c p i) : s'.IsFor id c p i := by
  obtain ⟨a, ha, rfl, rfl, rfl⟩ := hi
  obtain ⟨b, hb, he⟩ := h.accumulator id a ha
  exact ⟨b, hb, he.context, he.parser, he.position⟩

theorem Grows.found (h : s.Grows s') {c : ContextNumber} {p : ParserId} {i : Nat} {t : Tree}
    (ht : s.Found c p i t) : s'.Found c p i t := by
  obtain ⟨id, a, ha, rfl, rfl, rfl, hm⟩ := ht
  obtain ⟨b, hb, he⟩ := h.accumulator id a ha
  exact ⟨id, b, hb, he.context, he.parser, he.position, he.trees.subset hm⟩

end Store

section Invariant

variable (g : Grammar Empty) (d : Document) (s : Store Empty) (c : ContextNumber)

/-- What a listener does suits the pair whose accumulator tells it. -/
inductive Role.Serves : Role Empty → ParserId → Nat → Prop
  | forward {target : AccumulatorId} {p q : ParserId} {i : Nat} :
      s.IsFor target c p i → i ≤ d.size → g.Passes p q → Serves (.forward target) q i
  | element {r : Sequel} {before : List ParserId} {p e : ParserId} {k : Nat} :
      s.IsFor r.target c p r.start → r.start ≤ d.size →
      g.parser? p = some (.sequence (before ++ e :: r.rest)) →
      Chain (s.Found c) before r.start r.taken k → Serves (.element r) e k

/-- The accumulator that a listener records in. -/
def Role.target : Role Empty → AccumulatorId
  | .forward target => target
  | .element r => r.target
  | .custom code => code.elim

/-- The listener that will be made for what is done next. -/
def Next.role {κ : Type} : Next κ → Role κ
  | .forwardTo target => .forward target
  | .await q => .element q
  | .custom code => .custom code

def News.Sound (p : ParserId) (i : Nat) : News → Prop
  | .found t => s.Found c p i t
  | .failed f => Genuine g d c p i f

def Operation.Sound : Operation Empty → Prop
  | .addTree target t => ∃ p i, s.IsFor target c p i ∧ i ≤ d.size ∧ Offered g d (s.Found c) p i t
  | .addStop target j => ∃ p i, s.IsFor target c p i ∧ i ≤ d.size ∧ i ≤ j ∧
      Made g d (s.Found c) p i (.leaf p i j)
  | .addFailure target f => ∃ p i, s.IsFor target c p i ∧ Genuine g d c p i f
  | .failAt target message position => ∃ p i, s.IsFor target c p i ∧
      g.failure? d c p i = some { position, message, parser := p, context := c }
  | .listen source l => ∃ q k, s.IsFor source c q k ∧ l.role.Serves g d s c q k
  | .watch source role => ∃ q k, s.IsFor source c q k ∧ role.Serves g d s c q k
  | .forward source target =>
    ∃ q k, s.IsFor source c q k ∧ (Role.forward target).Serves g d s c q k
  | .request _ _ _ next | .lookup _ _ _ next | .resume next => next.elim

/-- A job fits the context, the grammar and what is stored. -/
def Job.Sound : Job Empty → Prop
  | .operate o => o.Sound g d s c
  | .ask c' q k next => c' = c ∧ g.Covers d q k ∧ next.role.Serves g d s c q k
  | .start id => ∃ p i, s.IsFor id c p i
  | .proceed next id => ∃ q k, s.IsFor id c q k ∧ next.role.Serves g d s c q k
  | .tell l source news =>
    ∃ q k, s.IsFor source c q k ∧ l.role.Serves g d s c q k ∧ news.Sound g d s c q k
  | .carry source target => ∃ p i q k, s.IsFor target c p i ∧ s.IsFor source c q k ∧
      Requests g d (p, i) (q, k)

structure Accumulator.Sound (a : Accumulator Empty) : Prop where
  trees : ∀ t ∈ a.trees, a.position ≤ d.size ∧ t.parser = a.parser ∧ t.start = a.position ∧
    Composed g d (s.Found a.context) a.parser a.position t
  lengths : (a.trees.map Tree.length).Nodup
  failures : ∀ f ∈ a.failures, Genuine g d a.context a.parser a.position f
  distinct : a.failures.Nodup
  best : a.best = a.failures.foldr (fun f best => Failure.furthest best f) none
  listeners : ∀ l ∈ a.listeners, l.role.Serves g d s a.context a.parser a.position

/-- The invariant: memo tables and accumulators agree, and what is stored is sound. -/
structure Store.Sound : Prop where
  valid : s.Valid
  held : ∀ c d, s.document? c = some d → s.holds c
  kept : ∀ id a, s.accumulator? id = some a →
    s.peek? a.context a.parser a.position = some id ∧
      ∃ d, s.document? a.context = some d ∧ a.Sound g d s
  known : ∀ c p i id, s.peek? c p i = some id → s.IsFor id c p i

end Invariant

section Growth

variable {g : Grammar Empty} {d : Document} {s s' : Store Empty} {c : ContextNumber}

theorem Role.Serves.mono (h : s.Grows s') {role : Role Empty} {p : ParserId} {i : Nat}
    (hr : role.Serves g d s c p i) : role.Serves g d s' c p i := by
  cases hr with
  | forward ht hi hp => exact .forward (h.isFor ht) hi hp
  | element ht hi hp hc => exact .element (h.isFor ht) hi hp (hc.mono fun _ _ _ => h.found)

theorem News.Sound.mono (h : s.Grows s') {news : News} {p : ParserId} {i : Nat}
    (hn : news.Sound g d s c p i) : news.Sound g d s' c p i := by
  cases news with
  | found t => exact h.found hn
  | failed f => exact hn

theorem Operation.Sound.mono (h : s.Grows s') {o : Operation Empty} (ho : o.Sound g d s c) :
    o.Sound g d s' c := by
  cases o with
  | addTree target t =>
    obtain ⟨p, i, ht, hi, hm⟩ := ho
    exact ⟨p, i, h.isFor ht, hi, hm.mono fun _ _ _ => h.found⟩
  | addStop target j =>
    obtain ⟨p, i, ht, hi, hj, hm⟩ := ho
    exact ⟨p, i, h.isFor ht, hi, hj, hm.mono fun _ _ _ => h.found⟩
  | addFailure target f =>
    obtain ⟨p, i, ht, hf⟩ := ho
    exact ⟨p, i, h.isFor ht, hf⟩
  | failAt target message position =>
    obtain ⟨p, i, ht, hf⟩ := ho
    exact ⟨p, i, h.isFor ht, hf⟩
  | listen source l =>
    obtain ⟨q, k, hq, hr⟩ := ho
    exact ⟨q, k, h.isFor hq, hr.mono h⟩
  | watch source role =>
    obtain ⟨q, k, hq, hr⟩ := ho
    exact ⟨q, k, h.isFor hq, hr.mono h⟩
  | forward source target =>
    obtain ⟨q, k, hq, hr⟩ := ho
    exact ⟨q, k, h.isFor hq, hr.mono h⟩
  | request c p i next => exact next.elim
  | lookup c p i next => exact next.elim
  | resume next => exact next.elim

theorem Job.Sound.mono (h : s.Grows s') {j : Job Empty} (hj : j.Sound g d s c) :
    j.Sound g d s' c := by
  cases j with
  | operate o => exact Operation.Sound.mono h hj
  | ask c' q k next =>
    obtain ⟨hc, hq, hr⟩ := hj
    exact ⟨hc, hq, hr.mono h⟩
  | start id =>
    obtain ⟨p, i, hi⟩ := hj
    exact ⟨p, i, h.isFor hi⟩
  | proceed next id =>
    obtain ⟨q, k, hq, hr⟩ := hj
    exact ⟨q, k, h.isFor hq, hr.mono h⟩
  | tell l source news =>
    obtain ⟨q, k, hq, hr, hn⟩ := hj
    exact ⟨q, k, h.isFor hq, hr.mono h, hn.mono h⟩
  | carry source target =>
    obtain ⟨p, i, q, k, hp, hq, hr⟩ := hj
    exact ⟨p, i, q, k, h.isFor hp, h.isFor hq, hr⟩

theorem Accumulator.Sound.mono (h : s.Grows s') {a : Accumulator Empty} (ha : a.Sound g d s) :
    a.Sound g d s' where
  trees t ht := by
    obtain ⟨hi, hp, hs, hc⟩ := ha.trees t ht
    exact ⟨hi, hp, hs, hc.mono fun _ _ _ => h.found⟩
  lengths := ha.lengths
  failures := ha.failures
  distinct := ha.distinct
  best := ha.best
  listeners l hl := (ha.listeners l hl).mono h

end Growth

section Consequences

variable {g : Grammar Empty} {d : Document} {s : Store Empty} {c : ContextNumber}

theorem Store.Sound.accumulator (hs : s.Sound g) (hd : s.document? c = some d)
    {id : AccumulatorId} {p : ParserId} {i : Nat} (h : s.IsFor id c p i) :
    ∃ a, s.accumulator? id = some a ∧ a.context = c ∧ a.parser = p ∧ a.position = i ∧
      s.peek? c p i = some id ∧ a.Sound g d s := by
  obtain ⟨a, ha, rfl, rfl, rfl⟩ := h
  obtain ⟨hm, d', hd', hsound⟩ := hs.kept id a ha
  rw [hd] at hd'
  cases hd'
  exact ⟨a, ha, rfl, rfl, rfl, hm, hsound⟩

/-- Each pair has one accumulator. -/
theorem Store.Sound.isFor_iff (hs : s.Sound g) {id : AccumulatorId} {p : ParserId} {i : Nat} :
    s.IsFor id c p i ↔ s.peek? c p i = some id := by
  constructor
  · rintro ⟨a, ha, rfl, rfl, rfl⟩
    exact (hs.kept id a ha).1
  · exact hs.known c p i id

theorem Store.Sound.mem_trees (hs : s.Sound g) {id : AccumulatorId} {a : Accumulator Empty}
    (ha : s.accumulator? id = some a) {t : Tree}
    (ht : s.Found a.context a.parser a.position t) : t ∈ a.trees := by
  obtain ⟨id', a', ha', hc, hp, hi, ht⟩ := ht
  have hm := (hs.kept id a ha).1
  have hm' := (hs.kept id' a' ha').1
  rw [hc, hp, hi, hm] at hm'
  cases hm'
  rw [ha] at ha'
  cases ha'
  exact ht

/-- A stored tree stands for a derivation. -/
theorem Store.Sound.derives (hs : s.Sound g) (hd : s.document? c = some d) :
    ∀ (n : Nat) {p : ParserId} {i : Nat} {t : Tree}, t.size ≤ n → s.Found c p i t →
      Derives g d p i t.stop := by
  intro n
  induction n with
  | zero =>
    intro p i t hn
    cases t
    simp only [Tree.size] at hn
    omega
  | succ n ih =>
    rintro p i t hn ⟨id, a, ha, rfl, rfl, rfl, ht⟩
    obtain ⟨-, d', hd', hsound⟩ := hs.kept id a ha
    rw [hd] at hd'
    cases hd'
    apply (hsound.trees t ht).2.2.2.derives
    intro t' hlt q k hq
    exact ih (by omega) hq

theorem Store.Sound.found (hs : s.Sound g) (hd : s.document? c = some d) {p : ParserId} {i : Nat}
    {t : Tree} (ht : s.Found c p i t) :
    t.parser = p ∧ t.start = i ∧ i ≤ t.stop ∧ t.stop ≤ d.size ∧ Derives g d p i t.stop := by
  have hder := hs.derives hd t.size (Nat.le_refl _) ht
  obtain ⟨id, a, ha, rfl, rfl, rfl, hm⟩ := ht
  obtain ⟨-, d', hd', hsound⟩ := hs.kept id a ha
  rw [hd] at hd'
  cases hd'
  obtain ⟨hi, hp, hstart, -⟩ := hsound.trees t hm
  have hb := hder.bounds hi
  exact ⟨hp, hstart, hb.1, hb.2, hder⟩

theorem Store.Sound.chain (hs : s.Sound g) (hd : s.document? c = some d) {es : List ParserId}
    {ts : List Tree} {i j : Nat} (h : Chain (s.Found c) es i ts j) : DerivesAll g d es i j :=
  h.derivesAll fun _ _ _ _ ht => (hs.found hd ht).2.2.2.2

/-- A listener tells a pair that makes use of the one it listens to. -/
theorem Role.Serves.requests (hs : s.Sound g) (hd : s.document? c = some d) {role : Role Empty}
    {q : ParserId} {k : Nat} (h : role.Serves g d s c q k) :
    ∃ p i, s.IsFor role.target c p i ∧ Requests g d (p, i) (q, k) := by
  cases h with
  | forward ht hi hp => exact ⟨_, _, ht, .pass hi hp⟩
  | element ht hi hp hc => exact ⟨_, _, ht, .sequence hi hp (hs.chain hd hc)⟩

end Consequences

end PushParsing
