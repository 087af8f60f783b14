import Mathlib.Data.List.Dedup
import PushParsing.Proofs.Diary
import PushParsing.Script

/-!
# One accumulator and one evaluation

A pair is memoized before its parser starts, so whoever asks for it in the meantime gets the same
accumulator, and the parser is not started again. What a diary tells agrees with the store at any
time, also while parsers are at work.
-/
namespace PushParsing

variable {κ σ : Type}

section Pairs

/-- A diary and a store agree: the pairs that were asked for are memoized, each with an accumulator
of its own, and those that were looked up were found if they had been asked for. -/
structure Store.Agrees (s : Store κ) (h : List Call) : Prop where
  valid : s.Valid
  pairs : ∀ c p i id, s.peek? c p i = some id ↔ s.IsFor id c p i
  requested : ∀ c p i id, .requested c p i id ∈ h ↔ s.peek? c p i = some id
  looked : ∀ c p i found before after, h = before ++ .looked c p i found :: after →
    ∀ id, found = some id ↔ .requested c p i id ∈ before

variable {s s' : Store κ} {h : List Call} {x : Call} {c : ContextNumber} {p : ParserId} {i : Nat}
  {id : AccumulatorId}

/-- An entry that is added to a diary stands behind the others. -/
theorem split_snoc {y : Call} {before after : List Call} (heq : h ++ [x] = before ++ y :: after) :
    h = before ∧ x = y ∨ ∃ rest, h = before ++ y :: rest := by
  rcases List.eq_nil_or_concat after with rfl | ⟨rest, z, rfl⟩
  · obtain ⟨rfl, hxy⟩ := List.append_inj' heq rfl
    exact .inl ⟨rfl, (List.cons.inj hxy).1⟩
  · rw [List.concat_eq_append, ← List.cons_append, ← List.append_assoc] at heq
    exact .inr ⟨rest, (List.append_inj' heq rfl).1⟩

theorem Store.peek?_empty (c : ContextNumber) (p : ParserId) (i : Nat) :
    ({} : Store κ).peek? c p i = none := by
  cases c <;> rfl

namespace Store.Agrees

theorem start : ({} : Store κ).Agrees [] where
  valid c x hx := by cases c <;> simp [context?] at hx
  pairs c p i id := by simp [peek?_empty, IsFor, accumulator?]
  requested c p i id := by simp [peek?_empty]
  looked c p i found before after heq := by simp at heq

theorem aside (hs : s.Agrees h) (ha : s.Aside s') : s'.Agrees h where
  valid := ha.valid
  pairs c p i id := by rw [ha.peek, ha.isFor, hs.pairs]
  requested c p i id := by rw [ha.peek, hs.requested]
  looked := hs.looked

/-- An entry that tells what the store answers. -/
theorem note (hs : s.Agrees h)
    (hreq : ∀ c p i id, x = .requested c p i id → s.peek? c p i = some id)
    (hlook : ∀ c p i found, x = .looked c p i found → found = s.peek? c p i) :
    s.Agrees (h ++ [x]) where
  valid := hs.valid
  pairs := hs.pairs
  requested c p i id := by
    rw [List.mem_append, List.mem_singleton, hs.requested]
    exact ⟨fun hor => hor.elim (fun hold => hold) fun heq => hreq c p i id heq.symm, .inl⟩
  looked c p i found before after heq id := by
    rcases split_snoc heq with ⟨rfl, rfl⟩ | ⟨rest, hrest⟩
    · rw [hlook c p i found rfl, hs.requested]
    · exact hs.looked c p i found before rest hrest id

/-- A pair that is asked for the first time gets the next accumulator. -/
theorem request (hs : s.Agrees h) (hc : (s.context? c).isSome) (hp : s.peek? c p i = none) :
    (s.request c p i).2.2.Agrees (h ++ [.requested c p i s.accumulators.size]) := by
  obtain ⟨hid, -, hacc⟩ := Store.request_new hp hc
  have hpeek (k : ContextNumber) (q : ParserId) (n : Nat) : (s.request c p i).2.2.peek? k q n =
      if k = c ∧ q = p ∧ n = i then some s.accumulators.size else s.peek? k q n := by
    rw [hs.valid.peek?_request hc, hid]
  refine ⟨hs.valid.request, ?_, ?_, ?_⟩
  · intro k q n id
    have hpairs := hs.pairs k q n id
    rw [Store.isFor_push hacc, hpeek]
    by_cases hsame : k = c ∧ q = p ∧ n = i
    · obtain ⟨rfl, rfl, rfl⟩ := hsame
      rw [hp] at hpairs
      by_cases he : id = s.accumulators.size
      · simp [he]
      · simp [he, ← hpairs, Ne.symm he]
    · by_cases he : id = s.accumulators.size
      · have hnone : s.accumulator? id = none := Array.getElem?_eq_none (Nat.le_of_eq he.symm)
        rw [if_neg hsame, if_pos he, hpairs]
        simp [Store.IsFor, hnone, hsame]
      · rw [if_neg hsame, if_neg he, hpairs]
  · intro k q n id
    rw [List.mem_append, List.mem_singleton, hs.requested, hpeek]
    by_cases hsame : k = c ∧ q = p ∧ n = i
    · obtain ⟨rfl, rfl, rfl⟩ := hsame
      simp [hp, eq_comm]
    · rw [if_neg hsame]
      refine ⟨fun hor => hor.elim (fun hold => hold) fun heq => ?_, .inl⟩
      cases heq
      exact absurd ⟨rfl, rfl, rfl⟩ hsame
  · intro k q n found before after heq
    rcases split_snoc heq with ⟨-, hcall⟩ | ⟨rest, hrest⟩
    · cases hcall
    · exact hs.looked k q n found before rest hrest

theorem id_lt (hs : s.Agrees h) (hp : s.peek? c p i = some id) : id < s.accumulators.size := by
  obtain ⟨a, ha, -⟩ := (hs.pairs c p i id).1 hp
  exact (Array.getElem?_eq_some_iff.1 ha).1

end Store.Agrees

end Pairs

section Turns

variable {e : Engine κ σ} {s s' : Store κ} {w w' : σ} {js js' : List (Job κ)} {m : Machine κ σ}
  {h : List Call} {c : ContextNumber} {p : ParserId} {i : Nat} {id : AccumulatorId}

/-- Whether the parser of a pair was started. -/
def Machine.hasStarted (g : Grammar κ) (m : Machine κ σ) (c : ContextNumber) (p : ParserId)
    (i : Nat) : Bool :=
  m.store.admits g c p i && (m.store.peek? c p i).any fun id => !m.isStarting id

/-- Moreover, the parser of each pair that can be started was started once, or is to be started
next. -/
structure Machine.Agrees (e : Engine κ σ) (m : Machine κ σ) (h : List Call) : Prop where
  store : m.store.Agrees h
  starts : ∀ j ∈ m.agenda.tail, j.isStart = false
  started : ∀ c p i, h.count (.started c p i) = (m.hasStarted e.grammar c p i).toNat

theorem Store.admits_eq {d : Document} (hd : s.document? c = some d) (g : Grammar κ)
    (p : ParserId) (i : Nat) : s.admits g c p i = decide (g.Covers d p i) := by
  rw [admits, hd, Option.any_some]

namespace Machine

theorem isStarting_eq_false (hm : ∀ j ∈ m.agenda, j.isStart = false) (id : AccumulatorId) :
    m.isStarting id = false := by
  unfold isStarting
  split
  next hagenda => cases hm _ (hagenda ▸ List.mem_cons_self)
  next => rfl

theorem hasStarted_of_peek {d : Document} (hd : m.store.document? c = some d)
    (hp : m.store.peek? c p i = some id) (g : Grammar κ) :
    m.hasStarted g c p i = (decide (g.Covers d p i) && !m.isStarting id) := by
  rw [hasStarted, hp, Option.any_some, Store.admits_eq hd]

theorem hasStarted_of_none (hp : m.store.peek? c p i = none) (g : Grammar κ) :
    m.hasStarted g c p i = false := by
  rw [hasStarted, hp, Option.any_none, Bool.and_false]

/-- A pair that is found with the same accumulator in a later store was started if it was before,
provided that it is not its turn just now. -/
theorem hasStarted_congr (m m' : Machine κ σ) (hp : m'.store.peek? c p i = m.store.peek? c p i)
    (hd : ∀ d, m.store.document? c = some d → m'.store.document? c = some d)
    (hturn : ∀ id, m.store.peek? c p i = some id → m'.isStarting id = m.isStarting id)
    (g : Grammar κ) : m'.hasStarted g c p i = m.hasStarted g c p i := by
  cases hk : m.store.peek? c p i with
  | none => rw [hasStarted_of_none hk, hasStarted_of_none (hp.trans hk)]
  | some id =>
    obtain ⟨d, hdoc⟩ := Store.document_of_peek hk
    rw [hasStarted_of_peek hdoc hk, hasStarted_of_peek (hd d hdoc) (hp.trans hk), hturn id hk]

namespace Agrees

/-- A step that adds no pair and starts no parser. -/
theorem aside (hm : Agrees e ⟨s, w, js⟩ h)
    (hidle : ∀ id, (⟨s, w, js⟩ : Machine κ σ).isStarting id = false) (hs : s.Aside s')
    (hjs : ∀ j ∈ js', j.isStart = false) : Agrees e ⟨s', w', js'⟩ h where
  store := hm.store.aside hs
  starts j hj := hjs j (List.mem_of_mem_tail hj)
  started c p i := by
    refine (hm.started c p i).trans (congrArg Bool.toNat ?_)
    refine (hasStarted_congr _ _ (hs.peek c p i) (hs.document c) ?_ _).symm
    intro id _
    rw [hidle, isStarting_eq_false hjs]

/-- An entry that tells what the store answers. -/
theorem note (hm : m.Agrees e h) {x : Call} (hstarted : ∀ c p i, x ≠ .started c p i)
    (hreq : ∀ c p i id, x = .requested c p i id → m.store.peek? c p i = some id)
    (hlook : ∀ c p i found, x = .looked c p i found → found = m.store.peek? c p i) :
    m.Agrees e (h ++ [x]) where
  store := hm.store.note hreq hlook
  starts := hm.starts
  started c p i := by
    rw [List.count_append, List.count_singleton, if_neg, Nat.add_zero, hm.started]
    simpa using hstarted c p i

theorem looked (hm : m.Agrees e h) (c : ContextNumber) (p : ParserId) (i : Nat) :
    m.Agrees e (h ++ [.looked c p i (m.store.peek? c p i)]) := by
  refine hm.note (by simp) (by simp) ?_
  intro k q n found heq
  cases heq
  rfl

/-- A pair that is asked for, by whatever is done or from outside: its parser is to be started next
if the pair is new. -/
theorem request (hm : Agrees e ⟨s, w, js⟩ h)
    (hidle : ∀ id, (⟨s, w, js⟩ : Machine κ σ).isStarting id = false)
    (hc : (s.context? c).isSome) (hjs : ∀ j ∈ js', j.isStart = false) :
    Agrees e ⟨(s.request c p i).2.2, w',
        (if (s.request c p i).2.1 then [.start (s.request c p i).1] else []) ++ js'⟩
      (h ++ [.requested c p i (s.request c p i).1]) := by
  cases hp : s.peek? c p i with
  | some id =>
    obtain ⟨hid, hnew, -⟩ := Store.request_old hp
    rw [hid, hnew]
    refine (hm.note (by simp) ?_ (by simp)).aside hidle (.request hm.store.valid hp) hjs
    intro k q n id' heq
    cases heq
    exact hp
  | none =>
    obtain ⟨hid, hnew, -⟩ := Store.request_new hp hc
    have hpeek (k : ContextNumber) (q : ParserId) (n : Nat) : (s.request c p i).2.2.peek? k q n =
        if k = c ∧ q = p ∧ n = i then some (s.request c p i).1 else s.peek? k q n :=
      hm.store.valid.peek?_request hc k q n
    rw [hid, hnew]
    refine ⟨hm.store.request hc hp, hjs, ?_⟩
    intro k q n
    rw [List.count_append, List.count_singleton, if_neg (by simp), Nat.add_zero, hm.started]
    refine congrArg Bool.toNat ?_
    by_cases hsame : k = c ∧ q = p ∧ n = i
    · obtain ⟨rfl, rfl, rfl⟩ := hsame
      have hnew : (s.request k q n).2.2.peek? k q n = some s.accumulators.size := by
        rw [hpeek, if_pos ⟨rfl, rfl, rfl⟩, hid]
      obtain ⟨d, hd⟩ := Store.document_of_peek hnew
      rw [hasStarted_of_none hp, hasStarted_of_peek hd hnew]
      simp [isStarting]
    · refine (hasStarted_congr _ _ ((hpeek k q n).trans (if_neg hsame)) (fun d hd => ?_) ?_ _).symm
      · rwa [Store.document?_request]
      · intro id' hid'
        have hne : s.accumulators.size ≠ id' := fun he =>
          Nat.lt_irrefl _ (he ▸ hm.store.id_lt hid')
        rw [hidle]
        exact beq_false_of_ne hne

/-- The parser of an accumulator takes its turn. -/
theorem start (hm : Agrees e ⟨s, w, .start id :: js⟩ h) (hjs : ∀ j ∈ js', j.isStart = false) :
    Agrees e ⟨s, w', js'⟩ (h ++ ((Job.start id).call? e s).toList) where
  store := by
    cases hcall : (Job.start id).call? e s with
    | none =>
      rw [Option.toList_none, List.append_nil]
      exact hm.store
    | some x =>
      obtain ⟨c, p, i, rfl, -⟩ := Job.started_of_call hcall
      exact hm.store.note (by simp) (by simp)
  starts j hj := hjs j (List.mem_of_mem_tail hj)
  started c p i := by
    have hidle (k : AccumulatorId) : (⟨s, w', js'⟩ : Machine κ σ).isStarting k = false :=
      isStarting_eq_false hjs k
    rw [List.count_append, hm.started]
    by_cases hfor : s.IsFor id c p i
    · have hp : s.peek? c p i = some id := (hm.store.pairs c p i id).2 hfor
      obtain ⟨d, hd⟩ := Store.document_of_peek hp
      rw [hasStarted_of_peek hd hp, hasStarted_of_peek hd hp, hidle, Job.call?_start hfor,
        Store.admits_eq hd]
      by_cases hcov : e.grammar.Covers d p i <;> simp [isStarting, hcov]
    · have hnot : ((Job.start id).call? e s).toList.count (.started c p i) = 0 := by
        refine List.count_eq_zero.2 fun hmem => hfor ?_
        obtain ⟨c', p', i', heq, hfor'⟩ := Job.started_of_call (Option.mem_toList.1 hmem)
        cases heq
        exact hfor'
      have hsame : hasStarted e.grammar ⟨s, w', js'⟩ c p i =
          hasStarted e.grammar ⟨s, w, .start id :: js⟩ c p i := by
        refine hasStarted_congr ⟨s, w, .start id :: js⟩ ⟨s, w', js'⟩ rfl (fun _ hd => hd) ?_ _
        intro k hk
        have hne : id ≠ k := by
          rintro rfl
          exact hfor ((hm.store.pairs c p i id).1 hk)
        rw [hidle]
        exact (beq_false_of_ne hne).symm
      rw [hnot, Nat.add_zero, hsame]

/-- Whoever asks is answered next, after the parser if the pair is new. -/
theorem ask {next : Next κ} (hm : Agrees e ⟨s, w, .ask c p i next :: js⟩ h)
    (hidle : ∀ id, (⟨s, w, .ask c p i next :: js⟩ : Machine κ σ).isStarting id = false)
    (hjs : ∀ j ∈ js, j.isStart = false) :
    (Machine.step e ⟨s, w, .ask c p i next :: js⟩).Agrees e
      (h ++ (Machine.call? e ⟨s, w, .ask c p i next :: js⟩).toList) := by
  have hproceed : ∀ k ∈ Job.proceed next (s.request c p i).1 :: js, k.isStart = false := by
    intro k hk
    rcases List.mem_cons.1 hk with rfl | hk
    · rfl
    · exact hjs k hk
  by_cases hc : (s.context? c).isSome
  · have hstep : Machine.step e ⟨s, w, .ask c p i next :: js⟩ =
        ⟨(s.request c p i).2.2, w, (if (s.request c p i).2.1 then
          [.start (s.request c p i).1] else []) ++ .proceed next (s.request c p i).1 :: js⟩ := by
      simp only [Machine.step, Job.perform]
      split <;> rfl
    rw [hstep, call?, Job.call?, if_pos hc]
    exact hm.request hidle hc hproceed
  · have hstray : s.request c p i = (s.accumulators.size, false, s) :=
      Store.request_astray (Option.not_isSome_iff_eq_none.1 hc)
    rw [hstray] at hproceed
    have hstep : Machine.step e ⟨s, w, .ask c p i next :: js⟩ =
        ⟨s, w, .proceed next s.accumulators.size :: js⟩ := by
      simp only [Machine.step, Job.perform, hstray]
      rfl
    have hs : s.Aside s := .of_contexts hm.store.valid rfl fun _ _ _ _ => Iff.rfl
    rw [hstep, call?, Job.call?, if_neg hc, Option.toList_none, List.append_nil]
    exact hm.aside hidle hs hproceed

/-- The step lemma. -/
theorem step (hm : m.Agrees e h) : (m.step e).Agrees e (h ++ (m.call? e).toList) := by
  obtain ⟨s, w, js⟩ := m
  cases js with
  | nil =>
    rw [call?, Option.toList_none, List.append_nil]
    exact hm
  | cons j js =>
    have hv : s.Valid := hm.store.valid
    have hjs : ∀ k ∈ js, k.isStart = false := hm.starts
    have hidle (hj : j.isStart = false) (id : AccumulatorId) :
        (⟨s, w, j :: js⟩ : Machine κ σ).isStarting id = false := by
      apply isStarting_eq_false
      intro k hk
      rcases List.mem_cons.1 hk with rfl | hk
      · exact hj
      · exact hjs k hk
    have hrest (hj : ∀ c p i next, j ≠ .ask c p i next) (k : Job κ)
        (hk : k ∈ (j.perform e s w).2.2 ++ js) : k.isStart = false := by
      rcases List.mem_append.1 hk with hk | hk
      · exact (Job.callsFor hk).isStart hj
      · exact hjs k hk
    have haside (hj : ∀ c p i next, j ≠ .ask c p i next) (hstart : j.isStart = false)
        (hcall : j.call? e s = none) : (Machine.step e ⟨s, w, j :: js⟩).Agrees e
          (h ++ (Machine.call? e ⟨s, w, j :: js⟩).toList) := by
      rw [call?, hcall, Option.toList_none, List.append_nil]
      exact hm.aside (hidle hstart) (Job.aside hv hj) (hrest hj)
    cases j with
    | ask c p i next => exact hm.ask (hidle rfl) hjs
    | start id =>
      have hstep : Machine.step e ⟨s, w, .start id :: js⟩ =
          ⟨s, ((Job.start id).perform e s w).2.1, ((Job.start id).perform e s w).2.2 ++ js⟩ :=
        congrArg (Machine.mk · _ _) Job.store_start
      rw [hstep]
      exact hm.start (hrest (by simp))
    | operate o =>
      cases o with
      | lookup c p i next =>
        exact (hm.looked c p i).aside (hidle rfl) (.lookup hv c p i) (hrest (by simp))
      | _ => exact haside (by simp) rfl rfl
    | proceed next id => exact haside (by simp) rfl rfl
    | tell l source news => exact haside (by simp) rfl rfl
    | carry source target => exact haside (by simp) rfl rfl

end Agrees

end Machine

/-- Whatever is in a diary agrees with the machine. -/
theorem Engine.Diary.agrees (hd : e.Diary m h) : m.Agrees e h := by
  induction hd with
  | start w =>
    refine ⟨.start, by simp, fun c p i => ?_⟩
    rw [Machine.hasStarted_of_none (Store.peek?_empty c p i)]
    rfl
  | aside w' _ hc ha ih =>
    have hs := Store.Aside.of_contexts ih.store.valid hc fun _ _ _ _ => Store.isFor_congr ha
    exact ih.aside (fun _ => rfl) hs (by simp)
  | opened _ hopen ih => exact ih.aside (fun _ => rfl) (.opened ih.store.valid hopen) (by simp)
  | looked c p i _ ih =>
    exact (ih.looked c p i).aside (fun _ => rfl) (.lookup ih.store.valid c p i) (by simp)
  | @requested s w h c p i _ hc ih =>
    have hrequest : Machine.Agrees e ⟨(s.request c p i).2.2, w, _ ++ []⟩ _ :=
      ih.request (fun _ => rfl) hc (by simp)
    rw [List.append_nil] at hrequest
    exact hrequest
  | operation o _ ih =>
    have hs := Store.Aside.of_contexts ih.store.valid rfl fun _ _ _ _ => Iff.rfl
    exact ih.aside (fun _ => rfl) hs (by simp [Job.isStart])
  | step _ ih => exact ih.step

end Turns

section Results

variable {h : List Call} {c : ContextNumber}

/-- The pairs of a context whose accumulators were asked for, each of them once. -/
def requestedPairs (h : List Call) (c : ContextNumber) : List (ParserId × Nat) :=
  (h.filterMap (Call.pair? c)).dedup

theorem nodup_requestedPairs : (requestedPairs h c).Nodup := List.nodup_dedup _

theorem mem_requestedPairs {p : ParserId} {i : Nat} :
    (p, i) ∈ requestedPairs h c ↔ ∃ id, .requested c p i id ∈ h := by
  rw [requestedPairs, List.mem_dedup, List.mem_filterMap]
  constructor
  · rintro ⟨x, hx, hpair⟩
    cases x with
    | requested c' p' i' id =>
      rw [Call.pair?] at hpair
      split at hpair
      next hc =>
        cases hpair
        exact ⟨id, hc ▸ hx⟩
      next => cases hpair
    | looked c' p' i' found => cases hpair
    | started c' p' i' => cases hpair
  · rintro ⟨id, hx⟩
    exact ⟨_, hx, if_pos rfl⟩

/-- A memo table has as many entries as pairs were asked for. -/
theorem Store.Agrees.size_memo {s : Store κ} (hs : s.Agrees h) {x : Context}
    (hx : s.context? c = some x) : x.memo.size = (requestedPairs h c).length := by
  have hv : x.memo.Valid := hs.valid c x hx
  have hnodup : (x.memo.entries.toList.map fun e => (e.parser, e.position)).Nodup := by
    refine List.pairwise_map.2 (hv.distinct.imp ?_)
    intro a b hab heq
    exact hab ⟨congrArg Prod.snd heq, congrArg Prod.fst heq⟩
  have hmem (y : ParserId × Nat) :
      y ∈ x.memo.entries.toList.map (fun e => (e.parser, e.position)) ↔ y ∈ requestedPairs h c := by
    obtain ⟨p, i⟩ := y
    have hpeek (id : AccumulatorId) : .requested c p i id ∈ h ↔
        ⟨i, p, id⟩ ∈ x.memo.entries.toList := by
      rw [hs.requested, Store.peek?, hx, Option.bind_some, hv.peek?_eq_some_iff]
    rw [mem_requestedPairs, List.mem_map]
    constructor
    · rintro ⟨⟨i', p', id⟩, he, heq⟩
      cases heq
      exact ⟨id, (hpeek id).2 he⟩
    · rintro ⟨id, hid⟩
      exact ⟨⟨i, p, id⟩, (hpeek id).1 hid, rfl⟩
  have hlength := ((List.perm_ext_iff_of_nodup hnodup nodup_requestedPairs).2 hmem).length_eq
  rwa [List.length_map, Array.length_toList] at hlength

/-- What a diary tells of a context, at any time: accumulators and pairs correspond to one another,
and so do starts of parsers and pairs that can be started. -/
structure OncePerPair (e : Engine κ σ) (m : Machine κ σ) (h : List Call) (c : ContextNumber)
    (x : Context) : Prop where
  /-- The answer is an accumulator of the pair. -/
  own : ∀ p i id, .requested c p i id ∈ h → ∃ a, m.store.accumulator? id = some a ∧
    a.context = c ∧ a.parser = p ∧ a.position = i
  /-- For one pair it is always the same, and for another pair another one. -/
  same : ∀ p i id q k id', .requested c p i id ∈ h → .requested c q k id' ∈ h →
    (id' = id ↔ q = p ∧ k = i)
  /-- A pair that is looked up is found, with that accumulator, if it was asked for before. -/
  looked : ∀ p i found before after, h = before ++ .looked c p i found :: after →
    ∀ id, found = some id ↔ .requested c p i id ∈ before
  /-- Once a pair was asked for its parser is started, if the grammar and the document have the pair:
  it is to be started next, or it was started once. -/
  started : ∀ p i id, .requested c p i id ∈ h → e.grammar.Covers x.document p i →
    h.count (.started c p i) = if m.isStarting id then 0 else 1
  /-- No other parser is started. -/
  only : ∀ p i, .started c p i ∈ h →
    e.grammar.Covers x.document p i ∧ ∃ id, .requested c p i id ∈ h
  size : x.memo.size = (requestedPairs h c).length

end Results

/-- On any grammar, with parsers and listeners of any kind that ask for anything at any time, each
pair that is asked for has one accumulator, and its parser is started once. -/
theorem one_evaluation_per_pair {e : Engine κ σ} {m : Machine κ σ} {h : List Call}
    (hd : e.Diary m h) {c : ContextNumber} {x : Context} (hx : m.store.context? c = some x) :
    OncePerPair e m h c x := by
  have hm := hd.agrees
  have hdoc : m.store.document? c = some x.document := by rw [Store.document?, hx]; rfl
  refine ⟨?_, ?_, hm.store.looked c, ?_, ?_, hm.store.size_memo hx⟩
  · intro p i id hreq
    exact (hm.store.pairs c p i id).1 ((hm.store.requested c p i id).1 hreq)
  · intro p i id q k id' hreq hreq'
    rw [hm.store.requested] at hreq hreq'
    constructor
    · rintro rfl
      obtain ⟨-, hq, hk⟩ :=
        ((hm.store.pairs _ _ _ _).1 hreq).unique ((hm.store.pairs _ _ _ _).1 hreq')
      exact ⟨hq, hk⟩
    · rintro ⟨rfl, rfl⟩
      rw [hreq] at hreq'
      exact (Option.some.inj hreq').symm
  · intro p i id hreq hcov
    rw [hm.store.requested] at hreq
    rw [hm.started, Machine.hasStarted_of_peek hdoc hreq]
    cases m.isStarting id <;> simp [hcov]
  · intro p i hstarted
    have hpos : 0 < h.count (.started c p i) := List.count_pos_iff.2 hstarted
    rw [hm.started] at hpos
    cases hp : m.store.peek? c p i with
    | none =>
      rw [Machine.hasStarted_of_none hp] at hpos
      cases hpos
    | some id =>
      refine ⟨?_, id, (hm.store.requested c p i id).2 hp⟩
      rw [Machine.hasStarted_of_peek hdoc hp] at hpos
      by_contra hcov
      simp [hcov] at hpos

namespace Nested

open Script (Code World)

/-- A parser that asks for itself, for another one and for one that there is not. -/
def engine : Engine Code World :=
  Script.engine ⟨#[⟨none, .custom "x" [] (.parser "x" [.inspect 0 0, .forward 1 0, .forward 7 0])⟩,
    ⟨none, .literal "a"⟩]⟩

def opened : Store Code :=
  { contexts := #[⟨.ofString "ab", {}, .forInput 2 2⟩], heldContexts := [1] }

def asked : Machine Code World := .ofRequest opened {} 1 0 0

def diary : List Call := [.requested 1 0 0 0] ++ Machine.calls engine 30 asked

theorem diary_asked : engine.Diary (Machine.run engine 30 asked) diary := by
  have hopen : engine.openContext {} (.ofString "ab") {} = .ok (1, opened) := rfl
  have hasked : engine.Diary asked ([] ++ [.requested 1 0 0 0]) :=
    .requested 0 0 (.opened (.start ({} : World)) hopen) rfl
  exact hasked.run 30

end Nested

/-- The parser that asks for itself gets the accumulator it is at work for, and is not started
again; of the three pairs that are asked for, the third one has no parser to start. -/
theorem one_evaluation_per_pair_nested :
    ∃ x, (Machine.run Nested.engine 30 Nested.asked).store.context? 1 = some x ∧
      x.memo.size = 3 ∧ Nested.diary.count (.requested 1 0 0 0) = 2 ∧
      Nested.diary.count (.started 1 0 0) = 1 ∧ .requested 1 7 0 2 ∈ Nested.diary ∧
      .started 1 7 0 ∉ Nested.diary := by
  have hsome : ((Machine.run Nested.engine 30 Nested.asked).store.context? 1).any
      (fun x => x.document.size == 2) := by decide +kernel
  have hstarting : (Machine.run Nested.engine 30 Nested.asked).isStarting 0 = false := by
    decide +kernel
  have htwice : Nested.diary.count (.requested 1 0 0 0) = 2 := by decide +kernel
  have hpairs : (requestedPairs Nested.diary 1).length = 3 := by decide +kernel
  obtain ⟨x, hx, hsize⟩ := (Option.any_eq_true _ _).1 hsome
  have honce := one_evaluation_per_pair Nested.diary_asked hx
  refine ⟨x, hx, honce.size.trans hpairs, htwice, ?_, by decide +kernel, ?_⟩
  · have hreq : .requested 1 0 0 0 ∈ Nested.diary := by decide +kernel
    rw [honce.started 0 0 0 hreq ⟨by decide, Nat.zero_le _⟩, hstarting]
    rfl
  · intro hstarted
    obtain ⟨⟨hlt, -⟩, -⟩ := honce.only 7 0 hstarted
    exact absurd hlt (by decide)

end PushParsing
