import PushParsing.Proofs.History

/-!
# What effects say of accumulators

An accumulator that is there after a job was there before, or it is new and empty. It is as it was,
unless the job's event is that something is recorded in it or a listener registered.
-/
namespace PushParsing

variable {κ : Type} {s s' : Store κ} {ev : Option (Event κ)} {js : List (Job κ)}
  {id : AccumulatorId} {a : Accumulator κ} {l : Listener κ} {j : Job κ}

/-- The accumulator of a number after a job, in terms of what was there before. -/
inductive Effect.Leaves (s : Store κ) (id : AccumulatorId) :
    Option (Event κ) → List (Job κ) → Accumulator κ → Prop
  | kept {a : Accumulator κ} {ev : Option (Event κ)} {js : List (Job κ)} :
      s.accumulator? id = some a → Leaves s id ev js a
  | made {js : List (Job κ)} (c : ContextNumber) (p : ParserId) (position : Nat) :
      s.accumulator? id = none → .start id ∈ js →
      Leaves s id none js { context := c, parser := p, position }
  | recorded {a : Accumulator κ} {news : News} : s.accumulator? id = some a → a.IsNew news →
      Leaves s id (some (.recorded id news)) (a.broadcast id news) (a.record news)
  | registered {a : Accumulator κ} {l : Listener κ} : s.accumulator? id = some a →
      (∀ l' ∈ a.listeners, l'.id ≠ l.id) →
      Leaves s id (some (.registered id l)) (a.trees.map fun t => .tell l id (.found t))
        (a.register l)

theorem Effect.leaves (he : Effect s ev s' js) (ha : s'.accumulator? id = some a) :
    Leaves s id ev js a := by
  cases he with
  | silent hs _ => exact .kept (by rwa [accumulator?_congr hs] at ha)
  | told _ _ _ hs _ => exact .kept (by rwa [accumulator?_congr hs] at ha)
  | created c p i hs hstart _ =>
    rw [accumulator?_push hs] at ha
    split at ha
    next he =>
      cases ha
      subst he
      exact .made c p i (by simp [Store.accumulator?]) hstart
    next => exact .kept ha
  | recorded hb hn hs =>
    obtain ⟨rfl, rfl⟩ | ⟨-, ha⟩ := accumulator?_modify_cases hb hs ha
    · exact .recorded hb hn
    · exact .kept ha
  | registered hb hn hs =>
    obtain ⟨rfl, rfl⟩ | ⟨-, ha⟩ := accumulator?_modify_cases hb hs ha
    · exact .registered hb hn
    · exact .kept ha

theorem Effect.size_le (he : Effect s ev s' js) : s.accumulators.size ≤ s'.accumulators.size := by
  cases he with
  | silent hs _ | told _ _ _ hs _ => exact Nat.le_of_eq (congrArg Array.size hs.symm)
  | created c p i hs _ _ =>
    rw [hs, Array.size_push]
    exact Nat.le_succ _
  | recorded _ _ hs | registered _ _ hs => exact Nat.le_of_eq (by rw [hs, Array.size_modify])

/-- No accumulator is removed. -/
theorem Effect.stays (he : Effect s ev s' js) (ha : s.accumulator? id = some a) :
    ∃ b, s'.accumulator? id = some b := by
  have hid := (Array.getElem?_eq_some_iff.1 ha).1
  exact ⟨_, Array.getElem?_eq_getElem (Nat.lt_of_lt_of_le hid he.size_le)⟩

theorem Effect.begun (he : Effect s ev s' js) (ha : s'.accumulator? id = some a) :
    (∃ b, s.accumulator? id = some b) ∨ .start id ∈ js := by
  cases he.leaves ha with
  | kept hb | recorded hb _ | registered hb _ => exact .inl ⟨_, hb⟩
  | made _ _ _ _ hstart => exact .inr hstart

/-- A listener and a tree of one accumulator came together before, or the listener will be told. -/
theorem Effect.heard (he : Effect s ev s' js) (ha : s'.accumulator? id = some a)
    (hl : l ∈ a.listeners) {t : Tree} (ht : t ∈ a.trees) :
    (∃ b, s.accumulator? id = some b ∧ l ∈ b.listeners ∧ t ∈ b.trees) ∨
      .tell l id (.found t) ∈ js := by
  cases he.leaves ha with
  | kept ha => exact .inl ⟨a, ha, hl, ht⟩
  | made => cases hl
  | @recorded b news hb _ =>
    cases news with
    | failed f => exact .inl ⟨b, hb, hl, ht⟩
    | found x =>
      rcases List.mem_append.1 ht with ht | ht
      · exact .inl ⟨b, hb, hl, ht⟩
      · rw [List.mem_singleton] at ht
        subst ht
        exact .inr (List.mem_map.2 ⟨l, hl, rfl⟩)
  | @registered b x hb _ =>
    rcases List.mem_append.1 hl with hl | hl
    · exact .inl ⟨b, hb, hl, ht⟩
    · rw [List.mem_singleton] at hl
      subst hl
      exact .inr (List.mem_map.2 ⟨t, ht, rfl⟩)

theorem Accumulator.listeners_record (a : Accumulator κ) (news : News) :
    (a.record news).listeners = a.listeners := by
  cases news <;> rfl

theorem Effect.listening (he : Effect s ev s' js) (ha : s'.accumulator? id = some a)
    (hl : l ∈ a.listeners) :
    (∃ b, s.accumulator? id = some b ∧ l ∈ b.listeners) ∨ ev = some (.registered id l) := by
  cases he.leaves ha with
  | kept ha => exact .inl ⟨a, ha, hl⟩
  | made => cases hl
  | @recorded b news hb _ => exact .inl ⟨b, hb, by rwa [Accumulator.listeners_record] at hl⟩
  | @registered b x hb _ =>
    rcases List.mem_append.1 hl with hl | hl
    · exact .inl ⟨b, hb, hl⟩
    · rw [List.mem_singleton] at hl
      exact .inr (hl ▸ rfl)

/-- Where nothing is recorded at most a listener is added. -/
theorem Effect.spared (he : Effect s ev s' js) (ha : s.accumulator? id = some a)
    (hn : ∀ news, ev ≠ some (.recorded id news)) :
    ∃ ls, s'.accumulator? id = some { a with listeners := ls } := by
  obtain ⟨b, hb⟩ := he.stays ha
  rw [hb]
  cases he.leaves hb with
  | kept hold =>
    cases ha.symm.trans hold
    exact ⟨_, rfl⟩
  | made _ _ _ hnone => cases ha.symm.trans hnone
  | recorded => exact absurd rfl (hn _)
  | registered hold _ =>
    cases ha.symm.trans hold
    exact ⟨_, rfl⟩

/-- The accumulator once something was offered to it. -/
def Accumulator.take (a : Accumulator κ) (news : News) : Accumulator κ :=
  if a.IsNew news then a.record news else a

/-- What an accumulator makes of what it is offered. -/
def Accumulator.keep (a : Accumulator κ) : News → News
  | .found t => .found (a.adopt t)
  | .failed f => .failed f

theorem Accumulator.length_adopt (a : Accumulator κ) (t : Tree) :
    (a.adopt t).length = t.length := by
  rw [adopt]
  split <;> rfl

/-- The operation by which something is offered to an accumulator. -/
def News.offerTo (target : AccumulatorId) : News → Operation κ
  | .found t => .addTree target t
  | .failed f => .addFailure target f

theorem Job.perform_offerTo {σ : Type} (e : Engine κ σ) (w : σ) (news : News)
    (ha : s.accumulator? id = some a) :
    (Job.operate (news.offerTo id)).perform e s w =
      if a.IsNew (a.keep news) then
        (s.modifyAccumulator id fun _ => a.record (a.keep news), w,
          a.broadcast id (a.keep news))
      else (s, w, []) := by
  by_cases hn : a.IsNew (a.keep news)
  · rw [if_pos hn]
    cases news <;>
      simp only [News.offerTo, perform, Operation.perform, ha, Accumulator.addTree?_eq,
        Accumulator.addFailure?_eq, Accumulator.keep] at hn ⊢ <;>
      rw [if_pos hn]
  · rw [if_neg hn]
    cases news <;>
      simp only [News.offerTo, perform, Operation.perform, ha, Accumulator.addTree?_eq,
        Accumulator.addFailure?_eq, Accumulator.keep] at hn ⊢ <;>
      rw [if_neg hn]

theorem Job.accumulator?_offerTo {σ : Type} (e : Engine κ σ) (w : σ) (news : News)
    (ha : s.accumulator? id = some a) (k : AccumulatorId) :
    ((Job.operate (news.offerTo id)).perform e s w).1.accumulator? k =
      if k = id then some (a.take (a.keep news)) else s.accumulator? k := by
  rw [perform_offerTo e w news ha, Accumulator.take]
  by_cases hn : a.IsNew (a.keep news)
  · rw [if_pos hn, if_pos hn]
    exact accumulator?_modify ha rfl k
  · rw [if_neg hn, if_neg hn]
    split
    next he => rw [he, ha]
    next => rfl

/-- Whether something is recorded. -/
def Accumulator.Holds (a : Accumulator κ) : News → Prop
  | .found t => t ∈ a.trees
  | .failed f => f ∈ a.failures

theorem Accumulator.holds_record {news x : News} (h : (a.record news).Holds x) :
    a.Holds x ∨ x = news := by
  cases news with
  | found t =>
    cases x with
    | found u =>
      rcases List.mem_append.1 h with h | h
      · exact .inl h
      · exact .inr (congrArg News.found (List.mem_singleton.1 h))
    | failed f => exact .inl h
  | failed f =>
    cases x with
    | found u => exact .inl h
    | failed e =>
      rcases List.mem_cons.1 h with rfl | h
      · exact .inr rfl
      · exact .inl h

/-- What an accumulator holds it held before, or it is recorded now. -/
theorem Effect.held {news : News} (he : Effect s ev s' js) (ha : s'.accumulator? id = some a)
    (h : a.Holds news) :
    (∃ b, s.accumulator? id = some b ∧ b.Holds news) ∨ ev = some (.recorded id news) := by
  cases he.leaves ha with
  | kept ha => exact .inl ⟨a, ha, h⟩
  | made => cases news <;> cases h
  | recorded hb _ =>
    rcases Accumulator.holds_record h with h | rfl
    · exact .inl ⟨_, hb, h⟩
    · exact .inr rfl
  | registered hb _ => exact .inl ⟨_, hb, by cases news <;> exact h⟩

theorem Job.eq_listen_of_event (h : j.event? s = some (.registered id l)) :
    j = .operate (.listen id l) := by
  cases j with
  | operate o =>
    cases o with
    | addTree target t =>
      obtain ⟨a, -, h⟩ := Option.bind_eq_some_iff.1 h
      split at h <;> cases h
    | addFailure target f =>
      obtain ⟨a, -, h⟩ := Option.bind_eq_some_iff.1 h
      split at h <;> cases h
    | listen source x =>
      obtain ⟨a, -, h⟩ := Option.bind_eq_some_iff.1 h
      split at h <;> cases h
      rfl
    | _ => cases h
  | _ => cases h

/-- An accumulator has something recorded only by a job that records it there. -/
theorem Job.eq_of_recorded {news : News} (h : j.event? s = some (.recorded id news)) :
    ∃ a, s.accumulator? id = some a ∧ a.IsNew news ∧
      ((∃ t, j = .operate (.addTree id t) ∧ news = .found (a.adopt t)) ∨
        ∃ f, j = .operate (.addFailure id f) ∧ news = .failed f) := by
  cases j with
  | operate o =>
    cases o with
    | addTree target t =>
      obtain ⟨a, ha, h⟩ := Option.bind_eq_some_iff.1 h
      split at h
      next hn =>
        cases h
        exact ⟨a, ha, hn, .inl ⟨t, rfl, rfl⟩⟩
      next => cases h
    | addFailure target f =>
      obtain ⟨a, ha, h⟩ := Option.bind_eq_some_iff.1 h
      split at h
      next hn =>
        cases h
        exact ⟨a, ha, hn, .inr ⟨f, rfl, rfl⟩⟩
      next => cases h
    | listen source x =>
      obtain ⟨a, -, h⟩ := Option.bind_eq_some_iff.1 h
      split at h <;> cases h
    | _ => cases h
  | _ => cases h

end PushParsing
