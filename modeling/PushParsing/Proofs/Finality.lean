import PushParsing.Proofs.Completeness
import PushParsing.Proofs.Targets

/-!
# Results are final

Whatever is done for a request from outside is done on behalf of accumulators that are new. Earlier
ones may be listened to, but nothing more is recorded in them, as all that they listen to is at rest.
-/
namespace PushParsing

section Contexts

variable {κ σ : Type} {s s' : Store κ}

/-- A later state of a context: its memo table may have gained pairs, and may have counted. -/
structure Context.Extends (x y : Context) : Prop where
  document : y.document = x.document
  limits : y.limits = x.limits
  entries : x.memo.entries.toList <+: y.memo.entries.toList

theorem Context.Extends.refl (x : Context) : x.Extends x := ⟨rfl, rfl, List.prefix_refl _⟩

theorem Context.Extends.trans {x y z : Context} (h : x.Extends y) (h' : y.Extends z) :
    x.Extends z :=
  ⟨h'.document.trans h.document, h'.limits.trans h.limits, h.entries.trans h'.entries⟩

theorem Memo.Table.entries_getOrInsert (t : Memo.Table AccumulatorId) (i : Nat) (p : ParserId)
    (id : AccumulatorId) : t.entries.toList <+: (t.getOrInsert i p id).2.2.entries.toList := by
  simp only [getOrInsert]
  split
  · exact List.prefix_refl _
  · rw [toList_entries_insert]
    exact List.prefix_append ..

theorem Store.extends_modifyMemo {c : ContextNumber}
    {f : Memo.Table AccumulatorId → Memo.Table AccumulatorId}
    (hs : s'.contexts = (s.modifyMemo c f).contexts)
    (hf : ∀ t, t.entries.toList <+: (f t).entries.toList) {k : ContextNumber} {x : Context}
    (hx : s.context? k = some x) : ∃ y, s'.context? k = some y ∧ x.Extends y := by
  rw [context?_congr hs, context?_modifyMemo, hx]
  split
  · exact ⟨_, rfl, rfl, rfl, hf x.memo⟩
  · exact ⟨x, rfl, .refl x⟩

theorem Store.extends_lookup (c : ContextNumber) (p : ParserId) (i : Nat) {k : ContextNumber}
    {x : Context} (hx : s.context? k = some x) :
    ∃ y, (s.lookup c p i).2.context? k = some y ∧ x.Extends y := by
  refine extends_modifyMemo rfl (fun t => ?_) hx
  simp only [Memo.Table.get?]
  split <;> exact List.prefix_refl _

theorem Store.extends_request (c : ContextNumber) (p : ParserId) (i : Nat) {k : ContextNumber}
    {x : Context} (hx : s.context? k = some x) :
    ∃ y, (s.request c p i).2.2.context? k = some y ∧ x.Extends y := by
  cases hc : s.context? c with
  | none =>
    rw [request_astray hc]
    exact ⟨x, hx, .refl x⟩
  | some z =>
    have hsome : s.peek? c p i = none → (s.context? c).isSome := fun _ => by rw [hc]; rfl
    exact extends_modifyMemo (contexts_request hsome)
      (fun t => t.entries_getOrInsert i p s.accumulators.size) hx

/-- The step lemma for contexts. -/
theorem Job.extends_perform (e : Engine κ σ) (w : σ) (j : Job κ) {k : ContextNumber} {x : Context}
    (hx : s.context? k = some x) :
    ∃ y, (j.perform e s w).1.context? k = some y ∧ x.Extends y := by
  rcases j.perform_store e s w with ⟨hc, -⟩ | ⟨c, p, i, next, -, hs⟩ | ⟨c, p, i, next, -, hs⟩
  · rw [Store.context?_congr hc]
    exact ⟨x, hx, .refl x⟩
  · rw [hs]
    exact Store.extends_lookup c p i hx
  · rw [hs]
    exact Store.extends_request c p i hx

/-- The run lemma for contexts. -/
theorem Machine.extends_run (e : Engine κ σ) (n : Nat) :
    ∀ {m : Machine κ σ} {k : ContextNumber} {x : Context}, m.store.context? k = some x →
      ∃ y, (Machine.run e n m).store.context? k = some y ∧ x.Extends y := by
  induction n with
  | zero => exact fun hx => ⟨_, hx, .refl _⟩
  | succ n ih =>
    intro m k x hx
    rw [run_succ]
    obtain ⟨s, w, js⟩ := m
    cases js with
    | nil => exact ih hx
    | cons j js =>
      obtain ⟨y, hy, hxy⟩ := j.extends_perform e w hx
      obtain ⟨z, hz, hyz⟩ := ih (m := Machine.step e ⟨s, w, j :: js⟩) hy
      exact ⟨z, hz, hxy.trans hyz⟩

end Contexts

variable {g : Grammar Empty} {d : Document} {s s' s'' : Store Empty} {c : ContextNumber}

/-- A later store in which accumulators are as they were but for listeners, and contexts as they
were but for pairs and what is counted. -/
structure Store.Keeps (s s' : Store Empty) : Prop where
  accumulator : ∀ id a, s.accumulator? id = some a →
    ∃ ls, s'.accumulator? id = some { a with listeners := a.listeners ++ ls }
  context : ∀ c x, s.context? c = some x → ∃ y, s'.context? c = some y ∧ x.Extends y
  peek : ∀ c p i id, s.peek? c p i = some id → s'.peek? c p i = some id

theorem Store.Keeps.refl (s : Store Empty) : s.Keeps s where
  accumulator id a ha := ⟨[], by rwa [List.append_nil]⟩
  context c x hx := ⟨x, hx, .refl x⟩
  peek c p i id hp := hp

theorem Store.Keeps.trans (h : s.Keeps s') (h' : s'.Keeps s'') : s.Keeps s'' where
  accumulator id a ha := by
    obtain ⟨ls, hb⟩ := h.accumulator id a ha
    obtain ⟨ls', hb'⟩ := h'.accumulator id _ hb
    exact ⟨ls ++ ls', by rw [hb', List.append_assoc]⟩
  context c x hx := by
    obtain ⟨y, hy, hxy⟩ := h.context c x hx
    obtain ⟨z, hz, hyz⟩ := h'.context c y hy
    exact ⟨z, hz, hxy.trans hyz⟩
  peek c p i id hp := h'.peek c p i id (h.peek c p i id hp)

section Frame

/-- From a number on accumulators are left to themselves: only on their behalf something is done,
and they are listened to on behalf of one another alone. -/
structure Machine.Apart (n : Nat) (m : Machine Empty Unit) : Prop where
  size : n ≤ m.store.accumulators.size
  jobs : ∀ j ∈ m.agenda, n ≤ j.target
  listeners : ∀ id a, n ≤ id → m.store.accumulator? id = some a →
    ∀ l ∈ a.listeners, n ≤ l.role.target

variable {n : Nat}

/-- The step lemma: what is done for new accumulators is done on behalf of new ones. -/
theorem Machine.Apart.step {m : Machine Empty Unit} (h : m.Apart n) :
    (m.step (.standard g)).Apart n := by
  obtain ⟨s, w, js⟩ := m
  cases js with
  | nil => exact h
  | cons j js =>
    have heffect := j.effect (.standard g) s w
    have hj : n ≤ j.target := h.jobs j List.mem_cons_self
    refine ⟨Nat.le_trans h.size heffect.size_le, ?_, ?_⟩
    · intro k hk
      rcases List.mem_append.1 hk with hk | hk
      · rcases Job.target_called hk with hsame | ⟨a, l, ha, hl, hrole⟩ | ⟨c, q, i, next, -, hnew, rfl⟩
        · rwa [hsame]
        · rw [hrole]
          exact h.listeners _ a hj ha l hl
        · have hid : n ≤ (s.request c q i).1 := by
            rw [(Store.request_of_isNew hnew).1]
            exact h.size
          exact hid
      · exact h.jobs k (List.mem_cons_of_mem _ hk)
    · intro id b hid hb l hl
      rcases heffect.listening hb hl with ⟨a, ha, hl⟩ | hev
      · exact h.listeners id a hid ha l hl
      · obtain rfl := Job.eq_listen_of_event hev
        exact hj

/-- The step lemma for accumulators before the number: they are left as they are, but for
listeners. -/
theorem Machine.Apart.spares {m : Machine Empty Unit} (hm : m.Sound g d c) (h : m.Apart n)
    {id : AccumulatorId} (hid : id < n) {a : Accumulator Empty}
    (ha : m.store.accumulator? id = some a) :
    ∃ ls, (m.step (.standard g)).store.accumulator? id =
      some { a with listeners := a.listeners ++ ls } := by
  obtain ⟨s, w, js⟩ := m
  cases js with
  | nil => exact ⟨[], by rw [List.append_nil]; exact ha⟩
  | cons j js =>
    have hspared (news : News) : j.event? s ≠ some (.recorded id news) := by
      intro hev
      have hj := h.jobs j List.mem_cons_self
      rw [Job.target_of_recorded hev] at hj
      exact Nat.not_le.2 hid hj
    obtain ⟨ls, hb⟩ := (j.effect (.standard g) s w).spared ha hspared
    obtain ⟨rest, rfl⟩ := ((hm.store.grows_perform j w).extends ha hb).listeners
    exact ⟨rest, hb⟩

/-- The run lemma. -/
theorem Machine.Apart.run (hg : g.Closed) (k : Nat) {m : Machine Empty Unit} (hm : m.Sound g d c)
    (h : m.Apart n) {id : AccumulatorId} (hid : id < n) {a : Accumulator Empty}
    (ha : m.store.accumulator? id = some a) :
    ∃ ls, (m.run (.standard g) k).store.accumulator? id =
      some { a with listeners := a.listeners ++ ls } := by
  have hstep (m : Machine Empty Unit) (hm : m.Sound g d c) (h : m.Apart n ∧
      ∃ ls, m.store.accumulator? id = some { a with listeners := a.listeners ++ ls }) :
      (m.step (.standard g)).Apart n ∧ ∃ ls, (m.step (.standard g)).store.accumulator? id =
        some { a with listeners := a.listeners ++ ls } := by
    obtain ⟨h, ls, hls⟩ := h
    obtain ⟨ls', hls'⟩ := h.spares hm hid hls
    exact ⟨h.step, ls ++ ls', by rw [hls', List.append_assoc]⟩
  exact (hm.preserves hg hstep k ⟨h, [], by rw [List.append_nil]; exact ha⟩).2

/-- A request from outside is for an accumulator that is there, or for a new one. -/
theorem Machine.Apart.ofRequest (s : Store Empty) (c : ContextNumber) (p : ParserId) (i : Nat) :
    (Machine.ofRequest s () c p i).Apart s.accumulators.size where
  size := by
    cases hc : s.context? c with
    | none => simp only [Machine.ofRequest, Store.request_astray hc, Nat.le_refl]
    | some x =>
      cases hp : s.peek? c p i with
      | some id => simp only [Machine.ofRequest, (Store.request_old hp).2.2, Nat.le_refl]
      | none =>
        have hacc := (Store.request_new hp (by rw [hc]; rfl)).2.2
        simp only [Machine.ofRequest, hacc, Array.size_push, Nat.le_succ]
  jobs := by
    intro j hj
    simp only [Machine.ofRequest] at hj
    split at hj
    next hnew =>
      obtain rfl := List.mem_singleton.1 hj
      exact Nat.le_of_eq (Store.request_of_isNew hnew).1.symm
    next => cases hj
  listeners := by
    intro id a hid ha l hl
    rcases (Quiet.request s c p i).cases ha with ha | ⟨-, -, -, hnil⟩
    · rw [Store.accumulator?, Array.getElem?_eq_none hid] at ha
      cases ha
    · rw [hnil] at hl
      cases hl

end Frame

section Calls

/-- A request from outside that has come to rest keeps all that was there. -/
theorem Store.Keeps.request (hg : g.Closed) (hs : s.Sound g) (hd : s.document? c = some d)
    (p : ParserId) (i n : Nat) :
    s.Keeps (Machine.run (.standard g) n (.ofRequest s () c p i)).store where
  accumulator id a ha := by
    have hid : id < s.accumulators.size := (Array.getElem?_eq_some_iff.1 ha).1
    obtain ⟨hsound, -⟩ := Machine.Sound.ofRequest hs hd p i
    exact (Machine.Apart.ofRequest s c p i).run hg n hsound hid ((Quiet.request s c p i).kept id a ha)
  context k x hx := by
    obtain ⟨y, hy, hxy⟩ := Store.extends_request c p i hx
    obtain ⟨z, hz, hyz⟩ :=
      Machine.extends_run (.standard g) n (m := Machine.ofRequest s () c p i) hy
    exact ⟨z, hz, hxy.trans hyz⟩
  peek k q m id hp := by
    obtain ⟨hsound, hgrows, -⟩ := Machine.Sound.ofRequest hs hd p i
    exact (hsound.run hg n).2.peek k q m id (hgrows.peek k q m id hp)

theorem Store.Keeps.looked (s : Store Empty) (c : ContextNumber) (p : ParserId) (i : Nat) :
    s.Keeps (s.lookup c p i).2 where
  accumulator id a ha := by
    refine ⟨[], ?_⟩
    rw [List.append_nil]
    exact (accumulator?_congr (accumulators_modifyMemo ..) id).trans ha
  context k x hx := Store.extends_lookup c p i hx
  peek := (s.lookup_grows c p i).peek

theorem Store.Keeps.opened {limits : Limits}
    (h : (Engine.standard g).openContext s d limits = .ok (c, s')) : s.Keeps s' where
  accumulator id a ha := by
    obtain ⟨-, n, rfl⟩ := Engine.openContext_eq h
    exact ⟨[], by rw [List.append_nil]; exact ha⟩
  context k x hx := by
    obtain ⟨n, hk⟩ := Store.context?_opened h
    have hne : k ≠ c := by
      rintro rfl
      rw [Store.context?_of_opened h] at hx
      cases hx
    exact ⟨x, by rw [hk, if_neg hne, hx], .refl x⟩
  peek := (Store.Grows.opened h).peek

/-- The stores to which further calls from outside lead, each of which returns: contexts are opened
or asked for accumulators, with or without evaluation, or for the match of the whole document. To
ask for the furthest failure of a context only reads. -/
inductive Grammar.Later (g : Grammar Empty) (s : Store Empty) : Store Empty → Prop
  | refl : Later g s s
  | opened {s' s'' : Store Empty} {d : Document} {limits : Limits} {c : ContextNumber} :
      Later g s s' → (Engine.standard g).openContext s' d limits = .ok (c, s'') → Later g s s''
  | looked {s' : Store Empty} (c : ContextNumber) (p : ParserId) (i : Nat) :
      Later g s s' → Later g s (s'.lookup c p i).2
  | requested {s' : Store Empty} {d : Document} {c : ContextNumber} {p : ParserId} {i n : Nat} :
      Later g s s' → s'.document? c = some d →
      (Machine.run (.standard g) n (.ofRequest s' () c p i)).agenda = [] →
      Later g s (Engine.request { Engine.standard g with limit := n } s' () c p i).2.1
  | parsed {s' : Store Empty} {d : Document} {c : ContextNumber} {root : ParserId} {n : Nat} :
      Later g s s' → s'.document? c = some d →
      (Machine.run (.standard g) n (.ofRequest s' () c root 0)).agenda = [] →
      Later g s (Engine.parse { Engine.standard g with limit := n } s' () c root).2.1

theorem Engine.request_store (n : Nat) (s : Store Empty) (c : ContextNumber) (p : ParserId)
    (i : Nat) : (Engine.request { Engine.standard g with limit := n } s () c p i).2.1 =
      (Machine.run (.standard g) n (.ofRequest s () c p i)).store := by
  rw [Engine.request_eq, Machine.run_limit]

/-- What is later than something reached is reached, too. -/
theorem Grammar.Later.reached (hl : g.Later s s') (h : g.Reached (fun _ _ _ => True) s) :
    g.Reached (fun _ _ _ => True) s' := by
  induction hl with
  | refl => exact h
  | opened _ hopen ih => exact ih.opened hopen
  | looked c p i _ ih => exact ih.looked c p i
  | requested _ hd hrest ih =>
    rw [Engine.request_store]
    exact ih.requested hd trivial hrest
  | parsed _ hd hrest ih =>
    rw [Engine.parse, Engine.request_store]
    exact ih.requested hd trivial hrest

end Calls

/-- What was found when a call from outside returns is final: under all further calls each
accumulator keeps its trees in their order, its best failure and all failures that were recorded, and
no more is added to it than listeners. Memo tables only gain pairs, behind those that they have, and
count. -/
theorem results_are_final {draft : Draft Empty} (hb : draft.build = .ok g) (hs : g.Later {} s)
    (hl : g.Later s s') : s.Keeps s' := by
  have hg := Draft.closed_build hb
  induction hl with
  | refl => exact .refl s
  | opened _ hopen ih => exact ih.trans (.opened hopen)
  | looked c p i _ ih => exact ih.trans (.looked _ c p i)
  | requested hlater hd _ ih =>
    have hsound := (hlater.reached (hs.reached .start)).sound hg
    rw [Engine.request_store]
    exact ih.trans (.request hg hsound hd _ _ _)
  | parsed hlater hd _ ih =>
    have hsound := (hlater.reached (hs.reached .start)).sound hg
    rw [Engine.parse, Engine.request_store]
    exact ih.trans (.request hg hsound hd _ _ _)

namespace LeftRecursion

/-- The rule asked for once more, at the second character. -/
def again : Store Empty :=
  (Engine.request { Engine.standard grammar with limit := 99 } store () 1 0 1).2.1

theorem later_store : grammar.Later {} store := by
  have hopen : (Engine.standard grammar).openContext {} document {} = .ok (1, opened) := rfl
  have hrest : (Machine.run (.standard grammar) 99 asked).agenda = [] := by decide +kernel
  have hlater : grammar.Later {} _ := .requested (.opened .refl hopen) (d := document) rfl hrest
  rwa [Engine.request_store] at hlater

theorem later_again : grammar.Later store again :=
  .requested .refl document?_store (by decide +kernel)

end LeftRecursion

/-- The literal behind the first character has a second listener, and the tree that it had. -/
theorem results_are_final_left_recursion :
    (LeftRecursion.store.accumulator? 3).map (·.listeners.length) = some 1 ∧
      (LeftRecursion.again.accumulator? 3).map (·.listeners.length) = some 2 ∧
      (LeftRecursion.again.accumulator? 3).map (·.trees) =
        (LeftRecursion.store.accumulator? 3).map (·.trees) := by
  have hone : (LeftRecursion.store.accumulator? 3).map (·.listeners.length) = some 1 := by
    decide +kernel
  refine ⟨hone, by decide +kernel, ?_⟩
  obtain ⟨a, ha, -⟩ := Option.map_eq_some_iff.1 hone
  have hkeeps : LeftRecursion.store.Keeps LeftRecursion.again :=
    results_are_final LeftRecursion.built LeftRecursion.later_store LeftRecursion.later_again
  obtain ⟨ls, hb⟩ := hkeeps.accumulator 3 a ha
  rw [ha, hb]
  rfl

end PushParsing
