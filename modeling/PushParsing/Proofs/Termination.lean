import Mathlib.Algebra.GroupWithZero.Nat
import Mathlib.Data.List.Perm.Subperm
import PushParsing.Engine.Report
import PushParsing.Proofs.Reach
import PushParsing.Proofs.Steps

/-!
# Termination

A run ends on every grammar. Only so many pairs can be memoized, and only so many trees and failures
can be recorded in the accumulator of each; while nothing of that happens and no parser starts, what
is left to do gets less, because sequences get shorter.
-/
namespace PushParsing

variable {g : Grammar Empty} {d : Document} {s s' : Store Empty} {c : ContextNumber}

section Bounds

theorem mem_allPairs {parsers last p i : Nat} :
    (p, i) ∈ allPairs parsers last ↔ p < parsers ∧ i ≤ last := by
  simp only [allPairs, List.mem_flatMap, List.mem_range, List.mem_map, Prod.mk.injEq]
  constructor
  · rintro ⟨q, hq, k, hk, rfl, rfl⟩
    exact ⟨hq, Nat.le_of_lt_succ hk⟩
  · rintro ⟨hp, hi⟩
    exact ⟨p, hp, i, Nat.lt_succ_of_le hi, rfl, rfl⟩

theorem length_allPairs (parsers last : Nat) :
    (allPairs parsers last).length = parsers * (last + 1) := by
  simp [allPairs, List.length_flatMap]

theorem length_le_of_subset {α : Type} {as bs : List α} (h : as.Nodup) (hs : as ⊆ bs) :
    as.length ≤ bs.length :=
  (List.subperm_of_subset h hs).length_le

/-- An accumulator has at most one tree for each offset from its position on. -/
theorem Accumulator.Sound.length_trees (hs : s.Sound g) {id : AccumulatorId}
    {a : Accumulator Empty} (ha : s.accumulator? id = some a)
    (hd : s.document? a.context = some d) : a.trees.length ≤ d.size - a.position + 1 := by
  obtain ⟨-, d', hd', hsound⟩ := hs.kept id a ha
  rw [hd] at hd'
  cases hd'
  have hsub : a.trees.map Tree.length ⊆ List.range (d.size - a.position + 1) := by
    intro n hn
    obtain ⟨t, ht, rfl⟩ := List.mem_map.1 hn
    have hstart := (hsound.trees t ht).2.2.1
    obtain ⟨-, -, -, hstop, -⟩ := hs.found hd ⟨id, a, ha, rfl, rfl, rfl, ht⟩
    rw [List.mem_range, Tree.length]
    omega
  have hle := length_le_of_subset hsound.lengths hsub
  rwa [List.length_map, List.length_range] at hle

/-- The failures that an accumulator may hold: its own and those of pairs within the grammar and
the document. -/
def Grammar.failures (g : Grammar Empty) (d : Document) (c : ContextNumber) (p : ParserId)
    (i : Nat) : List Failure :=
  ((p, i) :: allPairs g.size d.size).filterMap fun (q, k) => g.failure? d c q k

theorem Genuine.mem_failures (hg : g.Closed) {p : ParserId} {i : Nat} {f : Failure}
    (h : Genuine g d c p i f) : f ∈ g.failures d c p i := by
  obtain ⟨q, k, hreach, hf⟩ := h
  refine List.mem_filterMap.2 ⟨(q, k), ?_, hf⟩
  rcases hreach.cases_tail with heq | ⟨x, -, hx⟩
  · rw [heq]
    exact List.mem_cons_self
  · obtain ⟨hcov, -⟩ := hx.covers hg
    exact List.mem_cons_of_mem _ (mem_allPairs.2 hcov)

/-- How much can be recorded in one accumulator. -/
def Grammar.capacity (g : Grammar Empty) (d : Document) : Nat :=
  (d.size + 1) + (g.size * (d.size + 1) + 1)

theorem Accumulator.Sound.length_failures (hg : g.Closed) {a : Accumulator Empty}
    (h : a.Sound g d s) : a.failures.length ≤ g.size * (d.size + 1) + 1 := by
  have hsub : a.failures ⊆ g.failures d a.context a.parser a.position :=
    fun f hf => (h.failures f hf).mem_failures hg
  have hle := length_le_of_subset h.distinct hsub
  have hbound := List.length_filterMap_le (fun (q, k) => g.failure? d a.context q k)
    ((a.parser, a.position) :: allPairs g.size d.size)
  rw [List.length_cons, length_allPairs] at hbound
  exact Nat.le_trans hle hbound

end Bounds

section Room

/-- How much may still be recorded in an accumulator, if it belongs to the context. -/
def Accumulator.room (g : Grammar Empty) (d : Document) (c : ContextNumber)
    (a : Accumulator Empty) : Nat :=
  if a.context = c then g.capacity d - (a.trees.length + a.failures.length) else 0

/-- How many pairs within the grammar and the document are not memoized. -/
def Store.missing (g : Grammar Empty) (d : Document) (c : ContextNumber) (s : Store Empty) : Nat :=
  (allPairs g.size d.size).countP fun x => (s.peek? c x.1 x.2).isNone

/-- How much may still be recorded and memoized in a context. -/
def Store.room (g : Grammar Empty) (d : Document) (c : ContextNumber) (s : Store Empty) : Nat :=
  (s.accumulators.toList.map (Accumulator.room g d c)).sum +
    s.missing g d c * (g.capacity d + 1)

theorem sum_modify {α : Type} (f : α → Nat) (b : α) (as : List α) :
    ∀ {n : Nat} {a : α}, as[n]? = some a →
      ((as.modify n fun _ => b).map f).sum + f a = (as.map f).sum + f b := by
  induction as with
  | nil => intro n a h; simp at h
  | cons x xs ih =>
    intro n a h
    cases n with
    | zero =>
      cases h
      simp only [List.modify_zero_cons, List.map_cons, List.sum_cons]
      omega
    | succ n =>
      have hrest := ih h
      simp only [List.modify_succ_cons, List.map_cons, List.sum_cons]
      omega

/-- The room changes as that of the one accumulator that changes. -/
theorem Store.room_modify {id : AccumulatorId} {a : Accumulator Empty}
    (ha : s.accumulator? id = some a) (b : Accumulator Empty) :
    (s.modifyAccumulator id fun _ => b).room g d c + a.room g d c =
      s.room g d c + b.room g d c := by
  have hid : s.accumulators.toList[id]? = some a := by rwa [Array.getElem?_toList]
  have hsum := sum_modify (Accumulator.room g d c) b s.accumulators.toList hid
  have hmissing : (s.modifyAccumulator id fun _ => b).missing g d c = s.missing g d c := rfl
  rw [room, room, hmissing, modifyAccumulator, Array.toList_modify]
  omega

theorem Store.room_congr (hs : s'.accumulators = s.accumulators)
    (hp : ∀ q k, s'.peek? c q k = s.peek? c q k) : s'.room g d c = s.room g d c := by
  simp only [room, missing, hs, hp]

theorem countP_lt {α : Type} {p q : α → Bool} {x : α} (as : List α) (hx : x ∈ as)
    (hp : p x = false) (hq : q x = true) (h : ∀ y, p y = true → q y = true) :
    as.countP p < as.countP q := by
  induction as with
  | nil => cases hx
  | cons y ys ih =>
    have hle : ys.countP p ≤ ys.countP q := List.countP_mono_left fun z _ => h z
    rw [List.countP_cons, List.countP_cons]
    rcases List.mem_cons.1 hx with rfl | hx
    · simp only [hp, hq]
      simp
      omega
    · have hlt := ih hx
      by_cases hy : p y
      · rw [if_pos hy, if_pos (h y hy)]
        omega
      · rw [if_neg hy]
        omega

/-- What is recorded takes room. -/
theorem Store.room_record (hg : g.Closed) {id : AccumulatorId} {a : Accumulator Empty}
    (ha : s.accumulator? id = some a) (hc : a.context = c) (hd : s.document? c = some d)
    (news : News) (hs : (s.modifyAccumulator id fun _ => a.record news).Sound g) :
    (s.modifyAccumulator id fun _ => a.record news).room g d c < s.room g d c := by
  have hnew : (s.modifyAccumulator id fun _ => a.record news).accumulator? id =
      some (a.record news) := by rw [accumulator?_modify ha rfl, if_pos rfl]
  have hcontext : (a.record news).context = c := by cases news <;> exact hc
  have hcount : (a.record news).trees.length + (a.record news).failures.length =
      a.trees.length + a.failures.length + 1 := by
    cases news with
    | found t => simp only [Accumulator.record, List.length_append, List.length_singleton]; omega
    | failed f => simp only [Accumulator.record, List.length_cons]; omega
  obtain ⟨-, d', hd', hsound⟩ := hs.kept id _ hnew
  have hd' : s.document? (a.record news).context = some d' := hd'
  rw [hcontext, hd] at hd'
  cases hd'
  have htrees := Accumulator.Sound.length_trees hs hnew (hcontext ▸ hd)
  have hfailures := hsound.length_failures hg
  have hroom : (a.record news).room g d c < a.room g d c := by
    rw [Accumulator.room, Accumulator.room, if_pos hc, if_pos hcontext, hcount]
    simp only [Grammar.capacity]
    omega
  have hsum := room_modify (g := g) (d := d) (c := c) ha (a.record news)
  omega

/-- To memoize a new pair takes room, although a new accumulator has some. -/
theorem Store.room_request (hs : s.Sound g) (hd : s.document? c = some d) {p : ParserId} {i : Nat}
    (hcov : g.Covers d p i) (hp : s.peek? c p i = none) :
    (s.request c p i).2.2.room g d c < s.room g d c := by
  obtain ⟨x, hx, -⟩ := Option.map_eq_some_iff.1 hd
  have hc : (s.context? c).isSome := by rw [hx]; rfl
  obtain ⟨-, -, hacc⟩ := request_new hp hc
  have hmissing : (s.request c p i).2.2.missing g d c < s.missing g d c := by
    refine countP_lt (x := (p, i)) _ (mem_allPairs.2 hcov) ?_ ?_ ?_
    · simp [hs.valid.peek?_request hc]
    · simp [hp]
    · intro y hnone
      rw [hs.valid.peek?_request hc] at hnone
      split at hnone
      · cases hnone
      · exact hnone
  have hsum : (((s.request c p i).2.2.accumulators.toList).map (Accumulator.room g d c)).sum =
      (s.accumulators.toList.map (Accumulator.room g d c)).sum + g.capacity d := by
    rw [hacc, Array.toList_push, List.map_append, List.sum_append_nat]
    simp [Accumulator.room]
  have hmul := Nat.mul_le_mul_right (g.capacity d + 1) hmissing
  rw [Nat.succ_mul] at hmul
  rw [room, room, hsum]
  omega

end Room

section Weights

def Role.depth : Role Empty → Nat
  | .forward _ => 0
  | .element r => r.rest.length
  | .custom code => code.elim

/-- What it takes at most to tell of a tree, if as many elements follow and accumulators have no
more than the given number of trees. -/
def effort (trees : Nat) : Nat → Nat
  | 0 => 2
  | n + 1 => trees * effort trees n + 9

/-- What it takes at most to do a job and all it calls for, apart from what is recorded, memoized
and begun. -/
def Job.weight (trees : Nat) : Job Empty → Nat
  | .operate (.addTree _ _) => 1
  | .operate (.addFailure _ _) => 1
  | .operate (.failAt _ _ _) => 2
  | .operate (.addStop _ _) => 3
  | .operate (.listen _ l) => trees * effort trees l.role.depth + 1
  | .operate (.watch _ role) => trees * effort trees role.depth + 2
  | .operate (.forward _ _) => trees * effort trees 0 + 5
  | .operate _ => 0
  | .proceed next _ => trees * effort trees next.role.depth + 7
  | .ask _ _ _ next => trees * effort trees next.role.depth + 8
  | .start _ => 0
  | .tell l _ (.found _) => effort trees l.role.depth
  | .tell _ _ (.failed _) => 2
  | .carry _ _ => 2

def weights (trees : Nat) (js : List (Job Empty)) : Nat := (js.map (Job.weight trees)).sum

theorem two_le_effort (trees n : Nat) : 2 ≤ effort trees n := by
  cases n with
  | zero => exact Nat.le_refl _
  | succ n => simp only [effort]; omega

/-- Doing a job takes room, or begins a parser, or leaves less to do. -/
inductive Progress (g : Grammar Empty) (d : Document) (c : ContextNumber) (s : Store Empty)
    (j : Job Empty) (r : Store Empty × Unit × List (Job Empty)) : Prop
  | taken : r.1.room g d c < s.room g d c → Progress g d c s j r
  | begun : r.1.room g d c = s.room g d c → j.isStart = true →
      (∀ k ∈ r.2.2, k.isStart = false) → Progress g d c s j r
  | spent : r.1.room g d c = s.room g d c → (∀ k ∈ r.2.2, k.isStart = false) →
      weights (d.size + 1) r.2.2 < j.weight (d.size + 1) → Progress g d c s j r

theorem Progress.nothing {j : Job Empty} {w : Unit} (h : 0 < j.weight (d.size + 1)) :
    Progress g d c s j (s, w, []) := .spent rfl (by simp) (by simpa [weights] using h)

theorem Progress.single {j k : Job Empty} {w : Unit} (hk : k.isStart = false)
    (h : k.weight (d.size + 1) < j.weight (d.size + 1)) : Progress g d c s j (s, w, [k]) :=
  .spent rfl (by simpa using hk) (by simpa [weights] using h)

end Weights

section Steps

variable {w : Unit} (hg : g.Closed) (hs : s.Sound g) (hd : s.document? c = some d)
include hg hs hd

theorem Operation.Sound.progress {o : Operation Empty} (ho : o.Sound g d s c) :
    Progress g d c s (.operate o) (o.perform (.standard g) s w) := by
  have hgood := ho.perform (w := w) hs hd
  cases o with
  | addTree target t =>
    obtain ⟨p, i, ⟨a, ha, hc, -⟩, -⟩ := ho
    simp only [Operation.perform, ha, Accumulator.addTree?_eq] at hgood ⊢
    by_cases hn : a.IsNew (.found (a.adopt t))
    · simp only [if_pos hn] at hgood ⊢
      exact .taken (Store.room_record hg ha hc hd _ hgood.store)
    · simp only [if_neg hn]
      exact .nothing (by simp [Job.weight])
  | addFailure target f =>
    obtain ⟨p, i, ⟨a, ha, hc, -⟩, -⟩ := ho
    simp only [Operation.perform, ha, Accumulator.addFailure?_eq] at hgood ⊢
    by_cases hn : a.IsNew (.failed f)
    · simp only [if_pos hn] at hgood ⊢
      exact .taken (Store.room_record hg ha hc hd _ hgood.store)
    · simp only [if_neg hn]
      exact .nothing (by simp [Job.weight])
  | listen source l =>
    obtain ⟨q, k, ⟨a, ha, rfl, rfl, rfl⟩, -⟩ := ho
    simp only [Operation.perform, ha, Accumulator.addListener?_eq]
    by_cases hn : a.listeners.any (·.id == l.id)
    · simp only [if_pos hn]
      exact .nothing (by simp [Job.weight])
    · simp only [if_neg hn]
      have htrees := Accumulator.Sound.length_trees hs ha hd
      have hroom := Store.room_modify (g := g) (d := d) (c := a.context) ha (a.register l)
      have hsame : (a.register l).room g d a.context = a.room g d a.context := rfl
      refine .spent (by dsimp only; omega) ?_ ?_
      · intro j hj
        obtain ⟨t, -, rfl⟩ := List.mem_map.1 hj
        rfl
      · have hsum : weights (d.size + 1) (a.trees.map fun t => .tell l source (.found t)) =
            a.trees.length * effort (d.size + 1) l.role.depth := by
          simp [weights, List.map_map, Function.comp_def, Job.weight]
        have hmul := Nat.mul_le_mul_right (effort (d.size + 1) l.role.depth)
          (show a.trees.length ≤ d.size + 1 by omega)
        simp only [hsum, Job.weight]
        omega
  | addStop target j =>
    obtain ⟨p, i, ⟨a, ha, -, -, rfl⟩, -, hle, -⟩ := ho
    simp only [Operation.perform, ha, if_neg (Nat.not_lt.2 hle)]
    exact .single rfl (by simp [Job.weight])
  | failAt target message position =>
    obtain ⟨p, i, ⟨a, ha, -⟩, -⟩ := ho
    simp only [Operation.perform, ha]
    exact .single rfl (by simp [Job.weight])
  | watch source role =>
    refine .spent (Store.room_congr rfl fun _ _ => rfl) (by simp [Operation.perform, Job.isStart]) ?_
    simp [Operation.perform, Store.newListener, weights, Job.weight]
  | forward source target =>
    refine .spent rfl (by simp [Operation.perform, Job.isStart]) ?_
    simp [Operation.perform, weights, Job.weight, Role.depth]
  | request c p i next => exact next.elim
  | lookup c p i next => exact next.elim
  | resume next => exact next.elim

omit hg hs hd in
theorem Job.progress_start (id : AccumulatorId) :
    Progress g d c s (.start id) ((Job.start id).perform (.standard g) s w) := by
  refine .begun (congrArg (Store.room g d c) Job.store_start) rfl fun k hk => ?_
  exact (Job.callsFor hk).isStart (by simp)

omit hg in
theorem Job.Sound.progress_ask {c' : ContextNumber} {q : ParserId} {k : Nat} {next : Next Empty}
    (hj : (Job.ask c' q k next).Sound g d s c) :
    Progress g d c s (.ask c' q k next) ((Job.ask c' q k next).perform (.standard g) s w) := by
  obtain ⟨rfl, hcov, -⟩ := hj
  rw [Job.perform_ask]
  cases hp : s.peek? c' q k with
  | none => exact .taken (Store.room_request hs hd hcov hp)
  | some id =>
    obtain ⟨hid, hnew, hacc⟩ := Store.request_old hp
    have hpeek (q' : ParserId) (k' : Nat) :
        (s.request c' q k).2.2.peek? c' q' k' = s.peek? c' q' k' := by
      obtain ⟨x, hx, -⟩ := Option.map_eq_some_iff.1 hd
      rw [hs.valid.peek?_request (by rw [hx]; rfl)]
      split
      next he =>
        obtain ⟨-, rfl, rfl⟩ := he
        rw [hid, hp]
      next => rfl
    have hroom := Store.room_congr (g := g) (d := d) hacc hpeek
    rw [hnew]
    refine .spent hroom (by simp [Job.isStart]) ?_
    simp [weights, Job.weight]

omit hg hs hd in
theorem Sequel.weights_continue (r : Sequel) (t : Tree) (trees : Nat) :
    weights trees (r.continue s t) < effort trees r.rest.length := by
  have hpos := two_le_effort trees r.rest.length
  unfold Sequel.continue
  split
  · simp only [weights, List.map_nil, List.sum_nil]
    omega
  · split
    · simp only [weights, List.map_cons, List.map_nil, List.sum_cons, List.sum_nil, Job.weight]
      omega
    next e rest hrest =>
      split
      · simp only [weights, List.map_cons, List.map_nil, List.sum_cons, List.sum_nil, Job.weight,
          Next.role, Role.depth, hrest, List.length_cons, effort]
        omega
      · simp only [weights, List.map_nil, List.sum_nil]
        omega

omit hg hs hd in
theorem Job.progress_tell (l : Listener Empty) (source : AccumulatorId) (news : News) :
    Progress g d c s (.tell l source news) ((Job.tell l source news).perform (.standard g) s w) := by
  obtain ⟨n, role⟩ := l
  have hpos : 0 < (Job.tell ⟨n, role⟩ source news).weight (d.size + 1) := by
    have htwo := two_le_effort (d.size + 1) role.depth
    cases news <;> simp only [Job.weight] <;> omega
  cases role with
  | forward target =>
    simp only [Job.perform]
    split
    · cases news <;> exact .single rfl (by simp [Job.weight, effort, Role.depth])
    · exact .nothing hpos
  | element r =>
    simp only [Job.perform]
    split
    · cases news with
      | found t =>
        refine .spent rfl (fun k hk => ?_) (r.weights_continue t _)
        have hcalls : (Job.tell ⟨n, .element r⟩ source (.found t)).CallsFor (.standard g) s w k :=
          Sequel.callsFor_continue hk
        exact hcalls.isStart (by simp)
      | failed f => exact .single rfl (by simp [Job.weight])
    · exact .nothing hpos
  | custom code => exact code.elim

omit hg hs hd in
theorem Job.progress_proceed (next : Next Empty) (id : AccumulatorId) :
    Progress g d c s (.proceed next id) ((Job.proceed next id).perform (.standard g) s w) := by
  cases next with
  | forwardTo target => exact .single rfl (by simp [Job.weight, Next.role, Role.depth])
  | await r =>
    refine .spent rfl (by simp [Job.perform, Job.isStart]) ?_
    simp [Job.perform, weights, Job.weight, Next.role]
  | custom code => exact code.elim

omit hg hs hd in
theorem Job.progress_carry (source target : AccumulatorId) :
    Progress g d c s (.carry source target) ((Job.carry source target).perform (.standard g) s w) := by
  simp only [Job.perform]
  split
  · exact .single rfl (by simp [Job.weight])
  · exact .nothing (by simp [Job.weight])

/-- The step lemma: whatever job is done, there is progress. -/
theorem Job.Sound.progress {j : Job Empty} (hj : j.Sound g d s c) :
    Progress g d c s j (j.perform (.standard g) s w) := by
  cases j with
  | operate o => exact Operation.Sound.progress hg hs hd hj
  | ask c' q k next => exact hj.progress_ask hs hd
  | start id => exact Job.progress_start id
  | proceed next id => exact Job.progress_proceed next id
  | tell l source news => exact Job.progress_tell l source news
  | carry source target => exact Job.progress_carry source target

end Steps

section Runs

/-- What gets less with each step: the room, then the parsers to begin, then what else there is to
do. -/
def Machine.measure (g : Grammar Empty) (d : Document) (c : ContextNumber)
    (m : Machine Empty Unit) : Nat × Nat × Nat :=
  (m.store.room g d c, m.agenda.countP Job.isStart, weights (d.size + 1) m.agenda)

theorem weights_append (trees : Nat) (js ks : List (Job Empty)) :
    weights trees (js ++ ks) = weights trees js + weights trees ks := by
  rw [weights, List.map_append, List.sum_append_nat, weights, weights]

theorem countP_isStart_append {js : List (Job Empty)} (ks : List (Job Empty))
    (h : ∀ j ∈ js, j.isStart = false) :
    (js ++ ks).countP Job.isStart = ks.countP Job.isStart := by
  have hzero : js.countP Job.isStart = 0 := by
    rw [List.countP_eq_zero]
    intro j hj
    rw [h j hj]
    exact Bool.false_ne_true
  rw [List.countP_append, hzero, Nat.zero_add]

theorem Machine.Sound.descends (hg : g.Closed) {m : Machine Empty Unit} (hm : m.Sound g d c)
    (h : m.agenda ≠ []) : Prod.Lex (· < ·) (Prod.Lex (· < ·) (· < ·))
      ((m.step (.standard g)).measure g d c) (m.measure g d c) := by
  obtain ⟨s, w, js⟩ := m
  cases js with
  | nil => exact absurd rfl h
  | cons j js =>
    have hprogress : Progress g d c s j (j.perform (.standard g) s w) :=
      (hm.jobs j List.mem_cons_self).progress hg hm.store hm.document
    simp only [Machine.step, Machine.measure]
    cases hprogress with
    | taken hroom => exact .left _ _ hroom
    | begun hroom hstart hnone =>
      rw [hroom, countP_isStart_append js hnone, List.countP_cons_of_pos hstart]
      exact .right _ (.left _ _ (Nat.lt_succ_self _))
    | spent hroom hnone hless =>
      rw [hroom, countP_isStart_append js hnone]
      refine .right _ ?_
      by_cases hstart : j.isStart
      · rw [List.countP_cons_of_pos hstart]
        exact .left _ _ (Nat.lt_succ_self _)
      · rw [List.countP_cons_of_neg hstart, weights_append]
        refine .right _ ?_
        have hcons : weights (d.size + 1) (j :: js) =
            j.weight (d.size + 1) + weights (d.size + 1) js := rfl
        rw [hcons]
        exact Nat.add_lt_add_right hless _

/-- The run lemma: a sound machine comes to rest. -/
theorem Machine.Sound.rests (hg : g.Closed) (m : Machine Empty Unit) (hm : m.Sound g d c) :
    ∃ n, (Machine.run (.standard g) n m).agenda = [] := by
  by_cases h : m.agenda = []
  · exact ⟨0, h⟩
  · have hdescends := hm.descends hg h
    obtain ⟨n, hn⟩ := Machine.Sound.rests hg (m.step (.standard g)) (hm.step hg).1
    refine ⟨n + 1, ?_⟩
    rw [Machine.run_succ]
    exact hn
termination_by m.measure g d c
decreasing_by exact hdescends

/-- Memoized are at most all pairs of a parser of the grammar and a position of the document. -/
theorem Memo.Table.Valid.length_filter_le {t : Memo.Table AccumulatorId} (h : t.Valid)
    (parsers last : Nat) :
    (t.entries.toList.filter fun e => e.parser < parsers ∧ e.position ≤ last).length ≤
      parsers * (last + 1) := by
  have hnodup : ((t.entries.toList.filter fun e =>
      e.parser < parsers ∧ e.position ≤ last).map fun e => (e.parser, e.position)).Nodup := by
    rw [List.Nodup, List.pairwise_map]
    refine (h.distinct.filter _).imp ?_
    intro e f hne heq
    obtain ⟨hp, hi⟩ := Prod.mk.inj heq
    exact hne ⟨hi, hp⟩
  have hsub : ((t.entries.toList.filter fun e =>
      e.parser < parsers ∧ e.position ≤ last).map fun e => (e.parser, e.position)) ⊆
        allPairs parsers last := by
    intro x hx
    obtain ⟨e, he, rfl⟩ := List.mem_map.1 hx
    have hmem := (List.mem_filter.1 he).2
    exact mem_allPairs.2 (by simpa using hmem)
  have hle := length_le_of_subset hnodup hsub
  rwa [List.length_map, length_allPairs] at hle

end Runs

/-- A request for any pair, after any requests, is answered in finitely many steps. By then the
context has memoized at most all pairs of a parser of the grammar and a position of the document,
and an accumulator has at most one tree for each offset from its position on. -/
theorem request_returns {draft : Draft Empty} (hb : draft.build = .ok g)
    {admits : Document → ParserId → Nat → Prop} (hr : g.Reached admits s)
    (hd : s.document? c = some d) (p : ParserId) (i : Nat) :
    ∃ n, ∃ m, Machine.run (.standard g) n (.ofRequest s () c p i) = m ∧ m.agenda = [] ∧
      m.store.peek? c p i = some (s.request c p i).1 ∧
      (∃ x, m.store.context? c = some x ∧ x.document = d ∧
        (x.memo.entries.toList.filter fun e => e.parser < g.size ∧ e.position ≤ d.size).length ≤
          g.size * (d.size + 1)) ∧
      ∀ id a, m.store.accumulator? id = some a → a.context = c → a.position ≤ d.size →
        a.trees.length ≤ d.size - a.position + 1 := by
  have hg := Draft.closed_build hb
  obtain ⟨hstart, -, hid⟩ := Machine.Sound.ofRequest (hr.sound hg) hd p i
  obtain ⟨n, hrest⟩ := Machine.Sound.rests hg _ hstart
  obtain ⟨hend, hgrows⟩ := hstart.run hg n
  refine ⟨n, _, rfl, hrest, hend.store.isFor_iff.1 (hgrows.isFor hid), ?_, ?_⟩
  · obtain ⟨x, hx, hxd⟩ := Option.map_eq_some_iff.1 hend.document
    exact ⟨x, hx, hxd, (hend.store.valid c x hx).length_filter_le g.size d.size⟩
  · intro id a ha hc _
    exact Accumulator.Sound.length_trees hend.store ha (hc ▸ hend.document)

namespace Ambiguity

/-- A rule that matches nothing in infinitely many ways, `r ::= r r | ''`. -/
def draft : Draft Empty :=
  { slots := #[⟨some "r", some (.choice [1, 2])⟩, ⟨none, some (.sequence [0, 0])⟩,
      ⟨none, some (.literal "")⟩] }

def grammar : Grammar Empty :=
  ⟨#[⟨some "r", .choice [1, 2]⟩, ⟨none, .sequence [0, 0]⟩, ⟨none, .literal ""⟩]⟩

def document : Document := .ofString "ab"

def opened : Store Empty :=
  { contexts := #[⟨document, {}, .forInput 2 3⟩], heldContexts := [1] }

theorem reached : grammar.Reached (fun _ _ _ => True) opened := by
  have hopen : (Engine.standard grammar).openContext {} document {} = .ok (1, opened) := rfl
  exact .opened .start hopen

end Ambiguity

theorem request_returns_ambiguity :
    ∃ n m, Machine.run (.standard Ambiguity.grammar) n (.ofRequest Ambiguity.opened () 1 0 0) = m ∧
      m.agenda = [] ∧ ∀ a, m.store.accumulator? 0 = some a → a.context = 1 →
        a.position ≤ 2 → a.trees.length ≤ 2 - a.position + 1 := by
  have hb : Ambiguity.draft.build = .ok Ambiguity.grammar := rfl
  have hd : Ambiguity.opened.document? 1 = some Ambiguity.document := rfl
  obtain ⟨n, m, hm, hrest, -, -, htrees⟩ := request_returns hb Ambiguity.reached hd 0 0
  exact ⟨n, m, hm, hrest, htrees 0⟩

end PushParsing
