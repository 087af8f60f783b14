import PushParsing.Proofs.Effects
import PushParsing.Script

/-!
# Deliveries

Each listener of an accumulator is told everything exactly once: the trees stored when it was
registered, and whatever is recorded from then on. While jobs are left to do, part of this is still
on the agenda; what was heard and what is pending together make up the account of a listener.
-/
namespace PushParsing

variable {κ σ : Type}

section Accounts

/-- What was recorded in an accumulator. -/
def recordings (h : List (Event κ)) (id : AccumulatorId) : List News :=
  h.filterMap fun
    | .recorded source news => if source = id then some news else none
    | _ => none

/-- What a listener was told by an accumulator. -/
def hearings (h : List (Event κ)) (id : AccumulatorId) (n : Nat) : List News :=
  h.filterMap fun
    | .told source l news => if source = id ∧ l.id = n then some news else none
    | _ => none

/-- What an accumulator is still to tell a listener. -/
def pending (js : List (Job κ)) (id : AccumulatorId) (n : Nat) : List News :=
  js.filterMap fun
    | .tell l source news => if source = id ∧ l.id = n then some news else none
    | _ => none

variable (h h' : List (Event κ)) (js js' : List (Job κ)) (id k : AccumulatorId) (n : Nat)

@[simp] theorem recordings_nil : recordings ([] : List (Event κ)) id = [] := rfl
@[simp] theorem hearings_nil : hearings ([] : List (Event κ)) id n = [] := rfl
@[simp] theorem pending_nil : pending ([] : List (Job κ)) id n = [] := rfl

@[simp] theorem recordings_append :
    recordings (h ++ h') id = recordings h id ++ recordings h' id := List.filterMap_append
@[simp] theorem hearings_append :
    hearings (h ++ h') id n = hearings h id n ++ hearings h' id n := List.filterMap_append
@[simp] theorem pending_append :
    pending (js ++ js') id n = pending js id n ++ pending js' id n := List.filterMap_append

@[simp] theorem recordings_recorded (news : News) :
    recordings (.recorded k news :: h) id =
      if k = id then news :: recordings h id else recordings h id := by
  simp only [recordings, List.filterMap_cons]
  split <;> rename_i hk <;> split at hk <;> simp_all

@[simp] theorem recordings_registered (l : Listener κ) :
    recordings (.registered k l :: h) id = recordings h id := rfl
@[simp] theorem recordings_told (l : Listener κ) (news : News) :
    recordings (.told k l news :: h) id = recordings h id := rfl
@[simp] theorem hearings_recorded (news : News) :
    hearings (.recorded k news :: h) id n = hearings h id n := rfl
@[simp] theorem hearings_registered (l : Listener κ) :
    hearings (.registered k l :: h) id n = hearings h id n := rfl

/-- A job that is done counts as heard if it counted as pending. -/
theorem pending_cons (s : Store κ) (j : Job κ) :
    pending (j :: js) id n = hearings (j.event? s).toList id n ++ pending js id n := by
  cases j with
  | tell l source news =>
    simp only [pending, hearings, Job.event?, Option.toList_some, List.filterMap_cons,
      List.filterMap_nil]
    split <;> simp
  | operate o =>
    cases o with
    | addTree target t =>
      simp only [Job.event?]
      cases s.accumulator? target with
      | none => rfl
      | some a => rw [Option.bind_some]; split <;> rfl
    | addFailure target f =>
      simp only [Job.event?]
      cases s.accumulator? target with
      | none => rfl
      | some a => rw [Option.bind_some]; split <;> rfl
    | listen source l =>
      simp only [Job.event?]
      cases s.accumulator? source with
      | none => rfl
      | some a => rw [Option.bind_some]; split <;> rfl
    | _ => rfl
  | _ => rfl

theorem pending_of_silent (hjs : ∀ j ∈ js, j.isTell = false) : pending js id n = [] := by
  rw [pending, List.filterMap_eq_nil_iff]
  intro j hj
  cases j with
  | tell l source news => exact absurd (hjs _ hj) (by simp [Job.isTell])
  | _ => rfl

/-- Each of the listeners of an accumulator is told once. -/
theorem pending_broadcast (a : Accumulator κ) (news : News) {l : Listener κ}
    (hd : (a.listeners.map (·.id)).Nodup) (hl : l ∈ a.listeners) :
    pending (a.broadcast id news) id l.id = [news] := by
  rw [Accumulator.broadcast]
  generalize a.listeners = ls at hd hl
  induction ls with
  | nil => cases hl
  | cons l' ls ih =>
    rw [List.map_cons, List.nodup_cons] at hd
    rw [List.map_cons, ← List.singleton_append, pending_append]
    have hrest (hne : ∀ x ∈ ls, x.id ≠ l.id) :
        pending (ls.map fun x => Job.tell x id news) id l.id = [] := by
      rw [pending, List.filterMap_map, List.filterMap_eq_nil_iff]
      intro x hx
      simp [hne x hx]
    rcases List.mem_cons.1 hl with rfl | hl
    · rw [hrest fun x hx he => hd.1 (List.mem_map.2 ⟨x, hx, he⟩)]
      simp [pending]
    · have hne : l'.id ≠ l.id := fun he => hd.1 (List.mem_map.2 ⟨l, hl, he.symm⟩)
      rw [ih hd.2 hl]
      simp [pending, hne]

theorem pending_broadcast_stranger (a : Accumulator κ) (news : News)
    (hs : id = k → ∀ l ∈ a.listeners, l.id ≠ n) : pending (a.broadcast id news) k n = [] := by
  rw [Accumulator.broadcast, pending, List.filterMap_map, List.filterMap_eq_nil_iff]
  intro l hl
  simp only [Function.comp_apply, ite_eq_right_iff, reduceCtorEq, imp_false, not_and]
  exact fun he => hs he l hl

theorem pending_replay (l : Listener κ) (ts : List Tree) :
    pending (ts.map fun t => Job.tell l id (.found t)) k n =
      if id = k ∧ l.id = n then ts.map .found else [] := by
  rw [pending, List.filterMap_map]
  split
  next hc =>
    induction ts with
    | nil => rfl
    | cons t ts ih => simp [hc] at ih ⊢
  next hc => simp [hc]

end Accounts

/-- The account of a listener: since its registration, all recorded news and before them the trees
recorded until then, these in their order. -/
def Account (h : List (Event κ)) (js : List (Job κ)) (id : AccumulatorId) (l : Listener κ) : Prop :=
  ∃ before after, h = before ++ .registered id l :: after ∧
    (∀ l', .registered id l' ∈ before ++ after → l'.id ≠ l.id) ∧
    (hearings h id l.id ++ pending js id l.id).Perm
      ((treesOf (recordings before id)).map .found ++ recordings after id) ∧
    (treesOf (hearings h id l.id ++ pending js id l.id)).filter (· ∈ treesOf (recordings before id)) =
      treesOf (recordings before id)

/-- What accumulators store, what a history tells and what is on the agenda agree. -/
structure Balance (s : Store κ) (js : List (Job κ)) (h : List (Event κ)) : Prop where
  trees : ∀ id a, s.accumulator? id = some a → treesOf (recordings h id) = a.trees
  failures : ∀ id a, s.accumulator? id = some a → failuresOf (recordings h id) = a.failures.reverse
  unmade : ∀ id, s.accumulator? id = none → recordings h id = []
  nodup : ∀ id, (recordings h id).Nodup
  identity : ∀ id a, s.accumulator? id = some a → (a.listeners.map (·.id)).Nodup
  known : ∀ id l, .registered id l ∈ h → ∃ a, s.accumulator? id = some a ∧ l ∈ a.listeners
  strangers : ∀ id n, (∀ a, s.accumulator? id = some a → ∀ l ∈ a.listeners, l.id ≠ n) →
    hearings h id n ++ pending js id n = []
  account : ∀ id a l, s.accumulator? id = some a → l ∈ a.listeners → Account h js id l

theorem Balance.start : Balance ({} : Store κ) [] [] := by
  constructor <;> simp [Store.accumulator?]

/-- Neither a silent step nor the act of telling changes what is to be told. -/
theorem Account.extend {h ev : List (Event κ)} {js js' : List (Job κ)} {id : AccumulatorId}
    {l : Listener κ} (ha : Account h js id l)
    (hsame : hearings (h ++ ev) id l.id ++ pending js' id l.id =
      hearings h id l.id ++ pending js id l.id)
    (hrec : recordings ev id = []) (hreg : ∀ l', .registered id l' ∈ ev → l'.id ≠ l.id) :
    Account (h ++ ev) js' id l := by
  obtain ⟨before, after, rfl, hone, hperm, hord⟩ := ha
  refine ⟨before, after ++ ev, by simp, ?_, ?_, ?_⟩
  · intro l' hl'
    rw [← List.append_assoc, List.mem_append] at hl'
    exact hl'.elim (hone l') (hreg l')
  · rw [hsame, recordings_append, hrec, List.append_nil]
    exact hperm
  · rw [hsame]
    exact hord

theorem Balance.quiet {s s' : Store κ} {h ev : List (Event κ)} {js js' : List (Job κ)}
    (hb : Balance s js h) (hq : Quiet s s')
    (hsame : ∀ id n, hearings (h ++ ev) id n ++ pending js' id n =
      hearings h id n ++ pending js id n)
    (hrec : ∀ id, recordings ev id = []) (hreg : ∀ id l, .registered id l ∉ ev) :
    Balance s' js' (h ++ ev) where
  trees id a ha := by
    rw [recordings_append, hrec, List.append_nil]
    rcases hq.cases ha with ha | ⟨hn, ht, -, -⟩
    · exact hb.trees id a ha
    · rw [hb.unmade id hn, ht, treesOf_nil]
  failures id a ha := by
    rw [recordings_append, hrec, List.append_nil]
    rcases hq.cases ha with ha | ⟨hn, -, hf, -⟩
    · exact hb.failures id a ha
    · rw [hb.unmade id hn, hf, failuresOf_nil, List.reverse_nil]
  unmade id hn := by
    rw [recordings_append, hrec, List.append_nil]
    apply hb.unmade id
    cases hs : s.accumulator? id with
    | none => rfl
    | some a => rw [hq.kept id a hs] at hn; cases hn
  nodup id := by
    rw [recordings_append, hrec, List.append_nil]
    exact hb.nodup id
  identity id a ha := by
    rcases hq.cases ha with ha | ⟨-, -, -, hl⟩
    · exact hb.identity _ a ha
    · simp [hl]
  known id l hl := by
    rcases List.mem_append.1 hl with hl | hl
    · obtain ⟨a, ha, hm⟩ := hb.known id l hl
      exact ⟨a, hq.kept id a ha, hm⟩
    · exact absurd hl (hreg id l)
  strangers id n hs := by
    rw [hsame]
    exact hb.strangers id n fun a ha => hs a (hq.kept id a ha)
  account id a l ha hl := by
    rcases hq.cases ha with ha | ⟨-, -, -, hn⟩
    · exact (hb.account id a l ha hl).extend (hsame id l.id) (hrec id) fun l' hl' =>
        absurd hl' (hreg id l')
    · rw [hn] at hl
      cases hl

/-- What is new is not among the recordings. -/
theorem Balance.not_mem {s : Store κ} {h : List (Event κ)} {js : List (Job κ)}
    (hb : Balance s js h) {id : AccumulatorId} {a : Accumulator κ} {news : News}
    (ha : s.accumulator? id = some a) (hn : a.IsNew news) : news ∉ recordings h id := by
  intro hm
  cases news with
  | found t =>
    have ht : t ∈ a.trees := by
      rw [← hb.trees id a ha]
      exact List.mem_filterMap.2 ⟨_, hm, rfl⟩
    exact hn.length_ne ht rfl
  | failed f =>
    have hf : f ∈ a.failures.reverse := by
      rw [← hb.failures id a ha]
      exact List.mem_filterMap.2 ⟨_, hm, rfl⟩
    exact hn (List.mem_reverse.1 hf)

theorem trees_record (a : Accumulator κ) (news : News) :
    (a.record news).trees = a.trees ++ treesOf [news] := by
  cases news <;> simp [Accumulator.record, treesOf, News.tree?]

theorem failures_record (a : Accumulator κ) (news : News) :
    (a.record news).failures.reverse = a.failures.reverse ++ failuresOf [news] := by
  cases news <;> simp [Accumulator.record, failuresOf, News.failure?]

theorem treesOf_map_found (ts : List Tree) : treesOf (ts.map .found) = ts := by
  simp [treesOf, List.filterMap_map, Function.comp_def, News.tree?]

/-- Whoever is registered has the news pending, behind what was pending before it in the account. -/
theorem Account.recorded {h : List (Event κ)} {js js' : List (Job κ)} {id : AccumulatorId}
    {l : Listener κ} {news : News} (ha : Account h js id l) (hn : news ∉ recordings h id)
    {told : List (Job κ)} (htold : pending told id l.id = [news])
    (hsame : hearings (h ++ [.recorded id news]) id l.id ++ pending js' id l.id =
      hearings h id l.id ++ pending js id l.id) :
    Account (h ++ [.recorded id news]) (told ++ js') id l := by
  obtain ⟨before, after, rfl, hone, hperm, hord⟩ := ha
  rw [← hsame] at hperm hord
  have hbefore : treesOf [news] = (treesOf [news]).filter (· ∉ treesOf (recordings before id)) := by
    refine (List.filter_eq_self.2 ?_).symm
    intro t ht
    rw [decide_eq_true_eq]
    intro hm
    obtain ⟨m, hm, hmt⟩ := List.mem_filterMap.1 hm
    obtain ⟨x, hx, hxt⟩ := List.mem_filterMap.1 ht
    rw [List.mem_singleton] at hx
    subst hx
    have he : m = x := by cases m <;> cases x <;> simp_all [News.tree?]
    exact hn (by rw [recordings_append]; exact List.mem_append_left _ (he ▸ hm))
  refine ⟨before, after ++ [.recorded id news], by simp, ?_, ?_, ?_⟩
  · intro l' hl'
    rw [← List.append_assoc, List.mem_append] at hl'
    exact hl'.elim (hone l') (by simp)
  · have hmove (as bs : List News) : (as ++ ([news] ++ bs)).Perm (as ++ bs ++ [news]) := by
      rw [List.append_assoc]
      exact List.perm_append_comm.append_left as
    rw [pending_append, htold, recordings_append, recordings_recorded, if_pos rfl, recordings_nil,
      ← List.append_assoc (List.map _ _)]
    exact (hmove _ _).trans (hperm.append_right _)
  · rw [pending_append, htold]
    simp only [treesOf_append, List.filter_append] at hord ⊢
    rw [hbefore, List.filter_filter]
    simpa using hord

theorem Balance.recorded {s s' : Store κ} {h : List (Event κ)} {js js' : List (Job κ)}
    {id : AccumulatorId} {a : Accumulator κ} {news : News} (hb : Balance s js h)
    (ha : s.accumulator? id = some a) (hn : a.IsNew news)
    (hs : s'.accumulators = s.accumulators.modify id fun _ => a.record news)
    (hsame : ∀ k n, hearings (h ++ [.recorded id news]) k n ++ pending js' k n =
      hearings h k n ++ pending js k n) :
    Balance s' (a.broadcast id news ++ js') (h ++ [.recorded id news]) where
  trees k b hk := by
    rw [recordings_append, recordings_recorded, treesOf_append]
    obtain ⟨rfl, rfl⟩ | ⟨he, hk⟩ := accumulator?_modify_cases ha hs hk
    · rw [if_pos rfl, recordings_nil, trees_record, hb.trees _ a ha]
    · rw [if_neg (Ne.symm he), recordings_nil, treesOf_nil, List.append_nil, hb.trees k b hk]
  failures k b hk := by
    rw [recordings_append, recordings_recorded, failuresOf_append]
    obtain ⟨rfl, rfl⟩ | ⟨he, hk⟩ := accumulator?_modify_cases ha hs hk
    · rw [if_pos rfl, recordings_nil, failures_record, hb.failures _ a ha]
    · rw [if_neg (Ne.symm he), recordings_nil, failuresOf_nil, List.append_nil, hb.failures k b hk]
  unmade k hk := by
    rw [accumulator?_modify ha hs] at hk
    split at hk
    next he => cases hk
    next he => rw [recordings_append, recordings_recorded, if_neg (Ne.symm he), recordings_nil,
        List.append_nil, hb.unmade k hk]
  nodup k := by
    rw [recordings_append, recordings_recorded, recordings_nil]
    split
    next he =>
      subst he
      refine List.nodup_append.2 ⟨hb.nodup _, List.nodup_singleton _, ?_⟩
      rintro x hx y hy rfl
      rw [List.mem_singleton] at hy
      exact hb.not_mem ha hn (hy ▸ hx)
    next he =>
      rw [List.append_nil]
      exact hb.nodup k
  identity k b hk := by
    obtain ⟨rfl, rfl⟩ | ⟨-, hk⟩ := accumulator?_modify_cases ha hs hk
    · rw [Accumulator.listeners_record]
      exact hb.identity _ a ha
    · exact hb.identity k b hk
  known k l hl := by
    simp only [List.mem_append, List.mem_singleton, reduceCtorEq, or_false] at hl
    obtain ⟨b, hk, hm⟩ := hb.known k l hl
    rw [accumulator?_modify ha hs]
    split
    next he =>
      subst he
      rw [ha] at hk
      cases hk
      exact ⟨_, rfl, by rwa [Accumulator.listeners_record]⟩
    next he => exact ⟨b, hk, hm⟩
  strangers k n hf := by
    have hold : ∀ b, s.accumulator? k = some b → ∀ l ∈ b.listeners, l.id ≠ n := by
      intro b hk
      by_cases he : k = id
      · subst he
        rw [ha] at hk
        cases hk
        have := hf (a.record news) (by rw [accumulator?_modify ha hs, if_pos rfl])
        rwa [Accumulator.listeners_record] at this
      · exact hf b (by rw [accumulator?_modify ha hs, if_neg he, hk])
    rw [pending_append, pending_broadcast_stranger id k n a news (by
      rintro rfl
      exact hold a ha), List.nil_append, hsame]
    exact hb.strangers k n hold
  account k b l hk hl := by
    obtain ⟨rfl, rfl⟩ | ⟨he, hk⟩ := accumulator?_modify_cases ha hs hk
    · rw [Accumulator.listeners_record] at hl
      exact (hb.account _ a l ha hl).recorded (hb.not_mem ha hn)
        (pending_broadcast _ a news (hb.identity _ a ha) hl) (hsame _ _)
    · refine (hb.account k b l hk hl).extend ?_ ?_ (by simp)
      · rw [pending_append, pending_broadcast_stranger id k _ a news (fun h => absurd h.symm he),
          List.nil_append, hsame]
      · rw [recordings_recorded, if_neg (Ne.symm he), recordings_nil]

/-- A listener that is registered has the stored trees pending and nothing else. -/
theorem Balance.registered {s s' : Store κ} {h : List (Event κ)} {js js' : List (Job κ)}
    {id : AccumulatorId} {a : Accumulator κ} {l : Listener κ} (hb : Balance s js h)
    (ha : s.accumulator? id = some a) (hn : ∀ l' ∈ a.listeners, l'.id ≠ l.id)
    (hs : s'.accumulators = s.accumulators.modify id fun _ => a.register l)
    (hsame : ∀ k n, hearings (h ++ [.registered id l]) k n ++ pending js' k n =
      hearings h k n ++ pending js k n) :
    Balance s' ((a.trees.map fun t => .tell l id (.found t)) ++ js') (h ++ [.registered id l]) where
  trees k b hk := by
    rw [recordings_append, recordings_registered, recordings_nil, List.append_nil]
    obtain ⟨rfl, rfl⟩ | ⟨-, hk⟩ := accumulator?_modify_cases ha hs hk
    · exact hb.trees _ a ha
    · exact hb.trees k b hk
  failures k b hk := by
    rw [recordings_append, recordings_registered, recordings_nil, List.append_nil]
    obtain ⟨rfl, rfl⟩ | ⟨-, hk⟩ := accumulator?_modify_cases ha hs hk
    · exact hb.failures _ a ha
    · exact hb.failures k b hk
  unmade k hk := by
    rw [accumulator?_modify ha hs] at hk
    rw [recordings_append, recordings_registered, recordings_nil, List.append_nil]
    split at hk
    next he => cases hk
    next he => exact hb.unmade k hk
  nodup k := by
    rw [recordings_append, recordings_registered, recordings_nil, List.append_nil]
    exact hb.nodup k
  identity k b hk := by
    obtain ⟨rfl, rfl⟩ | ⟨-, hk⟩ := accumulator?_modify_cases ha hs hk
    · rw [Accumulator.register, List.map_append, List.nodup_append]
      refine ⟨hb.identity _ a ha, List.nodup_singleton _, ?_⟩
      rintro x hx y hy rfl
      obtain ⟨l', hl', rfl⟩ := List.mem_map.1 hx
      exact hn l' hl' (by simpa using hy)
    · exact hb.identity k b hk
  known k l' hl' := by
    rw [accumulator?_modify ha hs]
    simp only [List.mem_append, List.mem_singleton, Event.registered.injEq] at hl'
    rcases hl' with hl' | ⟨rfl, rfl⟩
    · obtain ⟨b, hk, hm⟩ := hb.known k l' hl'
      split
      next he =>
        subst he
        rw [ha] at hk
        cases hk
        exact ⟨_, rfl, List.mem_append_left _ hm⟩
      next he => exact ⟨b, hk, hm⟩
    · rw [if_pos rfl]
      exact ⟨_, rfl, List.mem_append_right _ (List.mem_singleton_self _)⟩
  strangers k n hf := by
    have hne : ¬(id = k ∧ l.id = n) := by
      rintro ⟨rfl, rfl⟩
      exact hf (a.register l) (by rw [accumulator?_modify ha hs, if_pos rfl]) l
        (List.mem_append_right _ (List.mem_singleton_self _)) rfl
    rw [pending_append, pending_replay id k n, if_neg hne, List.nil_append, hsame]
    refine hb.strangers k n fun b hk l' hl' => ?_
    by_cases he : k = id
    · subst he
      rw [ha] at hk
      cases hk
      exact hf (a.register l) (by rw [accumulator?_modify ha hs, if_pos rfl]) l'
        (List.mem_append_left _ hl')
    · exact hf b (by rw [accumulator?_modify ha hs, if_neg he, hk]) l' hl'
  account k b l' hk hl' := by
    have hold (c : Accumulator κ) (hk : s.accumulator? k = some c) (hl' : l' ∈ c.listeners)
        (hne : id = k → l.id ≠ l'.id) :
        Account (h ++ [.registered id l])
          ((a.trees.map fun t => .tell l id (.found t)) ++ js') k l' := by
      refine (hb.account k c l' hk hl').extend ?_ (by simp) ?_
      · rw [pending_append, pending_replay id k l'.id, if_neg (fun hc => hne hc.1 hc.2),
          List.nil_append, hsame]
      · intro l'' hl''
        simp only [List.mem_singleton, Event.registered.injEq] at hl''
        obtain ⟨rfl, rfl⟩ := hl''
        exact hne rfl
    obtain ⟨rfl, rfl⟩ | ⟨he, hk⟩ := accumulator?_modify_cases ha hs hk
    · simp only [Accumulator.register, List.mem_append, List.mem_singleton] at hl'
      rcases hl' with hl' | rfl
      · exact hold a ha hl' fun _ => (hn l' hl').symm
      · have hnone := hb.strangers k l'.id fun b hk l hl => by
          rw [ha] at hk
          cases hk
          exact hn l hl
        rw [← hsame, List.append_eq_nil_iff] at hnone
        refine ⟨h, [], rfl, ?_, ?_, ?_⟩
        · intro l hl
          rw [List.append_nil] at hl
          obtain ⟨b, hk, hm⟩ := hb.known k l hl
          rw [ha] at hk
          cases hk
          exact hn l hm
        · rw [pending_append, pending_replay, if_pos ⟨rfl, rfl⟩, hnone.1, hnone.2,
            hb.trees k a ha]
          simp
        · rw [pending_append, pending_replay, if_pos ⟨rfl, rfl⟩, hnone.1, hnone.2,
            hb.trees k a ha, List.nil_append, List.append_nil, treesOf_map_found]
          exact List.filter_eq_self.2 fun t ht => by simpa using ht
    · exact hold b hk hl' fun h => absurd h.symm he

/-- The step lemma: whatever job is done, all that is owed stays on the agenda. -/
theorem Balance.step {e : Engine κ σ} {s : Store κ} {w : σ} {j : Job κ} {js : List (Job κ)}
    {h : List (Event κ)} (hb : Balance s (j :: js) h) :
    Balance (j.perform e s w).1 ((j.perform e s w).2.2 ++ js) (h ++ (j.event? s).toList) := by
  have hmove (k : AccumulatorId) (n : Nat) :
      hearings (h ++ (j.event? s).toList) k n ++ pending js k n =
        hearings h k n ++ pending (j :: js) k n := by
    rw [hearings_append, pending_cons js k n s, List.append_assoc]
  have he := j.effect e s w
  generalize j.event? s = ev at hmove he ⊢
  generalize (j.perform e s w).1 = s' at he ⊢
  generalize (j.perform e s w).2.2 = js' at he ⊢
  have hsame (hjs : ∀ j ∈ js', j.isTell = false) (k : AccumulatorId) (n : Nat) :
      hearings (h ++ ev.toList) k n ++ pending (js' ++ js) k n =
        hearings h k n ++ pending (j :: js) k n := by
    rw [pending_append, pending_of_silent js' k n hjs, List.nil_append, hmove]
  cases he with
  | silent hs hjs => exact hb.quiet (.of_eq hs) (hsame hjs) (by simp) (by simp)
  | created c p position hs _ hjs => exact hb.quiet (.of_push hs) (hsame hjs) (by simp) (by simp)
  | told id l news hs hjs => exact hb.quiet (.of_eq hs) (hsame hjs) (by simp) (by simp)
  | recorded ha hn hs => exact hb.recorded ha hn hs hmove
  | registered ha hn hs => exact hb.registered ha hn hs hmove

theorem Balance.run {e : Engine κ σ} (n : Nat) {m : Machine κ σ} {h : List (Event κ)}
    (hb : Balance m.store m.agenda h) :
    Balance (Machine.run e n m).store (Machine.run e n m).agenda (h ++ Machine.history e n m) := by
  induction n generalizing m h with
  | zero => simpa [Machine.history] using hb
  | succ n ih =>
    obtain ⟨s, w, js⟩ := m
    cases js with
    | nil => simpa [Machine.history, Machine.run] using hb
    | cons j js =>
      rw [Machine.history, ← List.append_assoc]
      exact ih hb.step

theorem Balance.still {s s' : Store κ} {h : List (Event κ)} {js js' : List (Job κ)}
    (hb : Balance s js h) (hq : Quiet s s') (hp : ∀ id n, pending js' id n = pending js id n) :
    Balance s' js' h := by
  have hb' : Balance s' js' (h ++ []) :=
    hb.quiet hq (fun id n => by rw [List.append_nil, hp]) (by simp) (by simp)
  rwa [List.append_nil] at hb'

/-- Jobs that tell nobody anything may be put on an empty agenda. -/
theorem Balance.begin {s : Store κ} {h : List (Event κ)} {js : List (Job κ)} (hb : Balance s [] h)
    (hjs : ∀ j ∈ js, j.isTell = false) : Balance s js h := by
  apply hb.still (.of_eq rfl)
  intro id n
  rw [pending_of_silent js id n hjs, pending_nil]

theorem Balance.ofRequest {s : Store κ} {h : List (Event κ)} (hb : Balance s [] h) (w : σ)
    (c : ContextNumber) (p : ParserId) (position : Nat) :
    Balance (Machine.ofRequest s w c p position).store (Machine.ofRequest s w c p position).agenda
      h := by
  have hjs : ∀ j ∈ (Machine.ofRequest s w c p position).agenda, j.isTell = false := by
    simp only [Machine.ofRequest]
    split <;> simp [Job.isTell]
  exact (hb.still (.request s c p position) fun _ _ => rfl).begin hjs

/-- At rest nothing is owed. -/
theorem Engine.Chronicle.balance {e : Engine κ σ} {s : Store κ} {h : List (Event κ)}
    (hc : e.Chronicle s h) : Balance s [] h := by
  induction hc with
  | start => exact Balance.start
  | aside _ hs ih => exact ih.still (.of_eq hs) fun _ _ => rfl
  | @operation s h w o n _ hrun ih =>
    have hstart : Balance s [.operate o] h := ih.begin (by simp [Job.isTell])
    have hb := hstart.run (e := e) n (m := ⟨s, w, [.operate o]⟩)
    rwa [hrun] at hb
  | request w c p position n _ hrun ih =>
    have hb := (ih.ofRequest w c p position).run (e := e) n
    rwa [hrun] at hb

theorem nodup_treesOf {news : List News} (h : news.Nodup) : (treesOf news).Nodup := by
  apply h.filterMap
  intro a b t ha hb
  cases a <;> cases b <;> simp_all [News.tree?]

theorem nodup_failuresOf {news : List News} (h : news.Nodup) : (failuresOf news).Nodup := by
  apply h.filterMap
  intro a b t ha hb
  cases a <;> cases b <;> simp_all [News.failure?]

theorem failuresOf_map_found (ts : List Tree) : failuresOf (ts.map .found) = [] := by
  simp [failuresOf, List.filterMap_map, Function.comp_def, News.failure?]

/-- Whenever an operation from outside is done, each listener was told of every stored tree exactly
once and of nothing else, of the trees stored before its registration in their order; and exactly
once of each failure recorded after its registration, but of none recorded before. -/
theorem heard_exactly_once {e : Engine κ σ} {s : Store κ} {h : List (Event κ)}
    (hc : e.Chronicle s h) {id : AccumulatorId} {a : Accumulator κ}
    (ha : s.accumulator? id = some a) {l : Listener κ} (hl : l ∈ a.listeners) :
    ∃ before after, h = before ++ .registered id l :: after ∧
      (∀ l', .registered id l' ∈ before ++ after → l'.id ≠ l.id) ∧
      treesOf (recordings before id) ++ treesOf (recordings after id) = a.trees ∧
      (∀ t, (treesOf (hearings h id l.id)).count t = if t ∈ a.trees then 1 else 0) ∧
      (treesOf (hearings h id l.id)).filter (· ∈ treesOf (recordings before id)) =
        treesOf (recordings before id) ∧
      failuresOf (recordings before id) ++ failuresOf (recordings after id) = a.failures.reverse ∧
      (∀ f, (failuresOf (hearings h id l.id)).count f =
        if f ∈ failuresOf (recordings after id) then 1 else 0) ∧
      ∀ f ∈ failuresOf (recordings before id), f ∉ failuresOf (hearings h id l.id) := by
  have hb := hc.balance
  obtain ⟨before, after, hh, hone, hperm, hord⟩ := hb.account id a l ha hl
  have hrec : recordings h id = recordings before id ++ recordings after id := by
    rw [hh, recordings_append, recordings_registered]
  rw [pending_nil, List.append_nil] at hperm hord
  have htrees : treesOf (recordings before id) ++ treesOf (recordings after id) = a.trees := by
    rw [← treesOf_append, ← hrec, hb.trees id a ha]
  have hfailures : failuresOf (recordings before id) ++ failuresOf (recordings after id) =
      a.failures.reverse := by
    rw [← failuresOf_append, ← hrec, hb.failures id a ha]
  have ht : (treesOf (hearings h id l.id)).Perm a.trees := by
    have := hperm.filterMap News.tree?
    rwa [List.filterMap_append, ← treesOf, ← treesOf, ← treesOf, treesOf_map_found, htrees] at this
  have hf : (failuresOf (hearings h id l.id)).Perm (failuresOf (recordings after id)) := by
    have := hperm.filterMap News.failure?
    rwa [List.filterMap_append, ← failuresOf, ← failuresOf, ← failuresOf, failuresOf_map_found,
      List.nil_append] at this
  have hnt : a.trees.Nodup := hb.trees id a ha ▸ nodup_treesOf (hb.nodup id)
  have hnf : (failuresOf (recordings before id) ++ failuresOf (recordings after id)).Nodup := by
    rw [← failuresOf_append, ← hrec]
    exact nodup_failuresOf (hb.nodup id)
  refine ⟨before, after, hh, hone, htrees, ?_, hord, hfailures, ?_, ?_⟩
  · intro t
    rw [ht.count_eq, hnt.count]
  · intro f
    rw [hf.count_eq, (List.nodup_append.1 hnf).2.1.count]
  · intro f hm hh
    exact (List.nodup_append.1 hnf).2.2 f hm f (hf.mem_iff.1 hh) rfl

namespace Duet

open Script (Code World)

/-- One parser that finds nothing by itself. -/
def engine : Engine Code World := Script.engine ⟨#[⟨none, .custom "x" [] (.parser "x" [])⟩]⟩

/-- The second recorder, which asks for longer trees and for a failure further on. -/
def second : Listener Code := ⟨1, .custom (.recorder "second" [.grow 4, .failNext 2] [])⟩

/-- The first recorder, which registers the second one as soon as it hears of a tree. -/
def first : Listener Code := ⟨0, .custom (.recorder "first" [.attach "second", .grow 3] [.fail "oops"])⟩

def world : World := { listeners := [("second", second)] }

def opened : Store Code :=
  { contexts := #[⟨.ofString "abcd", {}, .ofEstimate 1⟩], listenerCount := 2, heldContexts := [1] }

/-- The runs of what is done from outside: ask for an accumulator, fail early, register the first
recorder, add a tree. -/
def asked : Machine Code World := .ofRequest opened world 1 0 0

def failing : Machine Code World := ⟨(Machine.run engine 9 asked).store, world, [.operate (.failAt 0 "early" 0)]⟩

def listening : Machine Code World :=
  ⟨(Machine.run engine 9 failing).store, world, [.operate (.listen 0 first)]⟩

def adding : Machine Code World :=
  ⟨(Machine.run engine 9 listening).store, world, [.operate (.addStop 0 1)]⟩

def history : List (Event Code) :=
  [] ++ Machine.history engine 9 asked ++ Machine.history engine 9 failing ++
    Machine.history engine 9 listening ++ Machine.history engine 99 adding

theorem chronicle : engine.Chronicle (Machine.run engine 99 adding).store history :=
  .operation world (.addStop 0 1) 99 (.operation world (.listen 0 first) 9 (.operation world
    (.failAt 0 "early" 0) 9 (.request world 1 0 0 9 (.aside .start rfl) (by decide +kernel))
    (by decide +kernel)) (by decide +kernel)) (by decide +kernel)

end Duet

/-- The second recorder, registered amid a broadcast and told of the longest tree first, heard of
all four trees. -/
theorem heard_exactly_once_duet :
    ∃ a l, (Machine.run Duet.engine 99 Duet.adding).store.accumulator? 0 = some a ∧
      l ∈ a.listeners ∧ l.id = 1 ∧ a.trees.length = 4 ∧
      ∀ t ∈ a.trees, (treesOf (hearings Duet.history 0 l.id)).count t = 1 := by
  have hs : ((Machine.run Duet.engine 99 Duet.adding).store.accumulator? 0).any (fun a =>
      a.trees.length == 4 && a.listeners.any (·.id == 1)) := by decide +kernel
  cases ha : (Machine.run Duet.engine 99 Duet.adding).store.accumulator? 0 with
  | none => simp [ha] at hs
  | some a =>
    simp only [ha, Option.any_some, Bool.and_eq_true, beq_iff_eq, List.any_eq_true] at hs
    obtain ⟨hlen, l, hl, hid⟩ := hs
    obtain ⟨_, _, -, -, -, hcount, -⟩ := heard_exactly_once Duet.chronicle ha hl
    refine ⟨a, l, rfl, hl, hid, hlen, fun t ht => ?_⟩
    rw [hcount t, if_pos ht]

end PushParsing
