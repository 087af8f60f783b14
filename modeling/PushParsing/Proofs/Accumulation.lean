import PushParsing.Proofs.Best
import PushParsing.Proofs.Delivery
import PushParsing.Proofs.Growth

/-!
# What accumulators gather

An accumulator is offered trees and failures, by parsers, listeners and callers alike. What it holds
is determined by these offers at every step of every run, also while listeners that act themselves
are being told, and it only ever gains.
-/
namespace PushParsing

variable {κ σ : Type}

/-- Something that an accumulator is to record, whether it is new or not. -/
structure Offer where
  target : AccumulatorId
  news : News

/-- What is offered by doing a job. -/
def Job.offer? (s : Store κ) : Job κ → Option Offer
  | .operate (.addTree target t) => (s.accumulator? target).map fun _ => ⟨target, .found t⟩
  | .operate (.addFailure target f) => (s.accumulator? target).map fun _ => ⟨target, .failed f⟩
  | _ => none

/-- What is offered by the next step. -/
def Machine.offer? (m : Machine κ σ) : Option Offer := m.agenda.head?.bind (Job.offer? m.store)

/-- What was offered to one accumulator, in order. -/
def offersTo (h : List Offer) (id : AccumulatorId) : List News :=
  h.filterMap fun o => if o.target = id then some o.news else none

/-- What happens to a machine, and what is offered by it. From outside a request is made or an
operation done when nothing is left to do; custom codes do either as part of the steps. All else
that is done from outside leaves accumulators alone, and a run may be given up. -/
inductive Engine.Moves (e : Engine κ σ) : Machine κ σ → Option Offer → Machine κ σ → Prop
  | aside {s s' : Store κ} {w : σ} {js : List (Job κ)} (w' : σ) :
      s'.accumulators = s.accumulators → Moves e ⟨s, w, js⟩ none ⟨s', w', []⟩
  | operation {s : Store κ} {w : σ} (o : Operation κ) :
      Moves e ⟨s, w, []⟩ none ⟨s, w, [.operate o]⟩
  | request {s : Store κ} {w : σ} (c : ContextNumber) (p : ParserId) (position : Nat) :
      Moves e ⟨s, w, []⟩ none (.ofRequest s w c p position)
  | step (m : Machine κ σ) : Moves e m m.offer? (m.step e)

/-- From one machine to another, with all that is offered on the way. -/
inductive Engine.Course (e : Engine κ σ) (m : Machine κ σ) : List Offer → Machine κ σ → Prop
  | refl : Course e m [] m
  | move {h : List Offer} {m₁ m₂ : Machine κ σ} {o : Option Offer} :
      Course e m h m₁ → e.Moves m₁ o m₂ → Course e m (h ++ o.toList) m₂

/-- What an accumulator holds, in terms of what it was offered. -/
structure Accumulator.Gathers (a : Accumulator κ) (offers : List News) : Prop where
  lengths : (a.trees.map Tree.length).Nodup
  own : ∀ t ∈ a.trees, t.parser = a.parser
  /-- A tree is the first of its length that was offered, or it has that one for its only part. -/
  first : ∀ t ∈ a.trees, ∃ u, (treesOf offers).find? (·.length == t.length) = some u ∧
    (u.parser = a.parser ∧ t = u ∨
      u.parser ≠ a.parser ∧ t = .node a.parser u.start u.stop [u])
  every : ∀ u ∈ treesOf offers, ∃ t ∈ a.trees, t.length = u.length
  /-- Failures are recorded when they are offered first. -/
  failures : a.failures.reverse = (failuresOf offers).eraseDups
  none : a.best = none ↔ a.failures = []
  /-- The best failure is the first of the furthest ones. -/
  best : ∀ f, a.best = some f → ∃ earlier later, a.failures.reverse = earlier ++ f :: later ∧
    (∀ x ∈ earlier, x.position < f.position) ∧ ∀ x ∈ later, x.position ≤ f.position
  listeners : (a.listeners.map Listener.id).Nodup

namespace Accumulator

variable {a : Accumulator κ} {offers : List News}

/-- The invariant behind it all. -/
structure Gathered (a : Accumulator κ) (offers : List News) : Prop where
  lengths : (a.trees.map Tree.length).Nodup
  first : ∀ t ∈ a.trees, ∃ u, (treesOf offers).find? (·.length == t.length) = some u ∧
    t = a.adopt u
  every : ∀ u ∈ treesOf offers, ∃ t ∈ a.trees, t.length = u.length
  failures : a.failures.reverse = (failuresOf offers).eraseDups
  best : a.best = a.failures.foldr (fun f best => Failure.furthest best f) none
  listeners : (a.listeners.map Listener.id).Nodup

theorem Gathered.gathers (h : a.Gathered offers) : a.Gathers offers where
  lengths := h.lengths
  own t ht := by
    obtain ⟨u, -, rfl⟩ := h.first t ht
    rw [adopt]
    split
    · assumption
    · rfl
  first t ht := by
    obtain ⟨u, hu, hadopt⟩ := h.first t ht
    refine ⟨u, hu, ?_⟩
    rw [adopt] at hadopt
    split at hadopt
    next he => exact .inl ⟨he, hadopt⟩
    next hne => exact .inr ⟨hne, hadopt⟩
  every := h.every
  failures := h.failures
  none := by rw [h.best, foldr_furthest_eq_none_iff]
  best f hf := by
    obtain ⟨later, earlier, hsplit, hlater, hearlier⟩ := split_of_foldr_furthest (h.best ▸ hf)
    refine ⟨earlier.reverse, later.reverse, by simp [hsplit], ?_, ?_⟩
    · simpa using hearlier
    · simpa using hlater
  listeners := h.listeners

theorem Gathered.empty (c : ContextNumber) (p : ParserId) (i : Nat) :
    ({ context := c, parser := p, position := i } : Accumulator κ).Gathered [] where
  lengths := List.nodup_nil
  first t ht := by cases ht
  every u hu := by cases hu
  failures := rfl
  best := rfl
  listeners := List.nodup_nil

theorem Gathered.register (h : a.Gathered offers) {l : Listener κ}
    (hl : ∀ l' ∈ a.listeners, l'.id ≠ l.id) : (a.register l).Gathered offers where
  lengths := h.lengths
  first := h.first
  every := h.every
  failures := h.failures
  best := h.best
  listeners := by
    rw [Accumulator.register, List.map_append, List.map_singleton, ← List.concat_eq_append]
    refine h.listeners.concat fun hmem => ?_
    obtain ⟨l', hl', he⟩ := List.mem_map.1 hmem
    exact hl l' hl' he

/-- A tree is offered, and recorded if none of its length was offered before. -/
theorem Gathered.found (h : a.Gathered offers) (t : Tree) :
    (a.take (.found (a.adopt t))).Gathered (offers ++ [.found t]) := by
  have hoffers : treesOf (offers ++ [.found t]) = treesOf offers ++ [t] := treesOf_append ..
  have hfailures : failuresOf (offers ++ [.found t]) = failuresOf offers := by
    simp [failuresOf, News.failure?]
  have hfirst : ∀ u ∈ a.trees,
      ∃ v, (treesOf (offers ++ [.found t])).find? (·.length == u.length) = some v ∧ u = a.adopt v := by
    intro u hu
    obtain ⟨v, hv, he⟩ := h.first u hu
    exact ⟨v, by rw [hoffers, List.find?_append, hv, Option.some_or], he⟩
  by_cases hn : a.IsNew (.found (a.adopt t))
  · rw [take, if_pos hn]
    have hlength (u : Tree) (hu : u ∈ a.trees) : u.length ≠ t.length :=
      a.length_adopt t ▸ hn.length_ne hu
    refine ⟨?_, ?_, ?_, hfailures ▸ h.failures, h.best, h.listeners⟩
    · rw [record, List.map_append, List.map_singleton, ← List.concat_eq_append]
      refine h.lengths.concat fun hmem => ?_
      obtain ⟨u, hu, he⟩ := List.mem_map.1 hmem
      exact hn.length_ne hu he
    · intro u hu
      rcases List.mem_append.1 hu with hu | hu
      · exact hfirst u hu
      · rw [List.mem_singleton.1 hu]
        refine ⟨t, ?_, rfl⟩
        -- a tree of this length that was offered before would have been recorded
        have hbefore : (treesOf offers).find? (·.length == (a.adopt t).length) = Option.none := by
          refine List.find?_eq_none.2 fun v hv he => ?_
          obtain ⟨u, hu, hlen⟩ := h.every v hv
          rw [length_adopt, beq_iff_eq] at he
          exact hlength u hu (hlen.trans he)
        rw [hoffers, List.find?_append, hbefore, Option.none_or]
        simp [length_adopt]
    · intro v hv
      rw [hoffers] at hv
      rcases List.mem_append.1 hv with hv | hv
      · obtain ⟨u, hu, hlen⟩ := h.every v hv
        exact ⟨u, List.mem_append_left _ hu, hlen⟩
      · rw [List.mem_singleton.1 hv]
        exact ⟨_, List.mem_append_right _ (List.mem_singleton.2 rfl), a.length_adopt t⟩
  · rw [take, if_neg hn]
    refine ⟨h.lengths, hfirst, ?_, hfailures ▸ h.failures, h.best, h.listeners⟩
    intro v hv
    rw [hoffers] at hv
    rcases List.mem_append.1 hv with hv | hv
    · exact h.every v hv
    · rw [List.mem_singleton.1 hv]
      rw [IsNew, Bool.not_eq_false, hasLength, List.any_eq_true] at hn
      obtain ⟨u, hu, he⟩ := hn
      rw [beq_iff_eq, length_adopt] at he
      exact ⟨u, hu, he⟩

/-- A failure is offered, and recorded if it was not offered before. -/
theorem Gathered.failed (h : a.Gathered offers) (f : Failure) :
    (a.take (.failed f)).Gathered (offers ++ [.failed f]) := by
  have htrees : treesOf (offers ++ [.failed f]) = treesOf offers := by
    simp [treesOf, News.tree?]
  have hoffers : failuresOf (offers ++ [.failed f]) = failuresOf offers ++ [f] :=
    failuresOf_append ..
  have hmem : f ∈ a.failures ↔ f ∈ failuresOf offers := by
    rw [← List.mem_reverse, h.failures, List.mem_eraseDups]
  by_cases hn : a.IsNew (.failed f)
  · rw [take, if_pos hn]
    refine ⟨h.lengths, htrees ▸ h.first, htrees ▸ h.every, ?_, ?_, h.listeners⟩
    · have hnot : f ∉ failuresOf offers := fun hf => hn (hmem.2 hf)
      rw [hoffers, record, List.reverse_cons, h.failures, List.eraseDups_append]
      simp [List.removeAll, hnot, List.eraseDups_cons]
    · rw [record, List.foldr_cons, ← h.best]
  · rw [take, if_neg hn]
    refine ⟨h.lengths, htrees ▸ h.first, htrees ▸ h.every, ?_, h.best, h.listeners⟩
    have hold : f ∈ failuresOf offers := hmem.1 (Decidable.not_not.1 hn)
    rw [hoffers, h.failures, List.eraseDups_append]
    simp [List.removeAll, hold]

theorem Gathered.offered (h : a.Gathered offers) (news : News) :
    (a.take (a.keep news)).Gathered (offers ++ [news]) := by
  cases news with
  | found t => exact h.found t
  | failed f => exact h.failed f

/-- Of two later states one of which is the later, the best failure is further on in that one. -/
theorem Gathered.best_le {b : Accumulator κ} {offers' : List News} (h : a.Gathered offers)
    (h' : b.Gathered offers') (he : a.Extends b) {f : Failure} (hf : a.best = some f) :
    ∃ f', b.best = some f' ∧ f.position ≤ f'.position := by
  have hmem : f ∈ b.failures := he.failures.subset (mem_of_foldr_furthest (h.best ▸ hf))
  obtain ⟨f', hf', hle⟩ := position_le_of_foldr_furthest hmem
  exact ⟨f', h'.best.trans hf', hle⟩

end Accumulator

section Jobs

variable {e : Engine κ σ} {s s' : Store κ} {w : σ} {j : Job κ} {h : List Offer}

theorem offersTo_append (h h' : List Offer) (id : AccumulatorId) :
    offersTo (h ++ h') id = offersTo h id ++ offersTo h' id := List.filterMap_append

theorem Job.eq_of_offer {o : Offer} (ho : j.offer? s = some o) :
    j = .operate (o.news.offerTo o.target) ∧ ∃ a, s.accumulator? o.target = some a := by
  cases j with
  | operate op =>
    cases op with
    | addTree target t =>
      obtain ⟨a, ha, rfl⟩ := Option.map_eq_some_iff.1 ho
      exact ⟨rfl, a, ha⟩
    | addFailure target f =>
      obtain ⟨a, ha, rfl⟩ := Option.map_eq_some_iff.1 ho
      exact ⟨rfl, a, ha⟩
    | _ => cases ho
  | _ => cases ho

/-- Without an offer nothing is recorded. -/
theorem Job.not_recorded (ho : j.offer? s = none) (id : AccumulatorId) (news : News) :
    j.event? s ≠ some (.recorded id news) := by
  intro hev
  obtain ⟨a, ha, -, ⟨t, rfl, -⟩ | ⟨f, rfl, -⟩⟩ := Job.eq_of_recorded hev
  · simp [Job.offer?, ha] at ho
  · simp [Job.offer?, ha] at ho

/-- Accumulators have gathered what was offered to them, and where there is none nothing was. -/
structure Store.Gathered (s : Store κ) (h : List Offer) : Prop where
  made : ∀ id a, s.accumulator? id = some a → a.Gathered (offersTo h id)
  none : ∀ id, s.accumulator? id = none → offersTo h id = []

/-- The step lemma: what a job offers is taken, and where nothing is offered an accumulator is as it
was, it is new, or it has a new listener. -/
theorem Store.Gathered.perform (hs : s.Gathered h) :
    (j.perform e s w).1.Gathered (h ++ (j.offer? s).toList) := by
  have heffect := j.effect e s w
  cases ho : j.offer? s with
  | none =>
    rw [Option.toList_none, List.append_nil]
    have hrecorded := Job.not_recorded ho
    generalize j.event? s = ev at heffect hrecorded
    generalize (j.perform e s w).2.2 = js at heffect
    refine ⟨fun id a ha => ?_, fun id ha => ?_⟩
    · cases heffect.leaves ha with
      | kept ha => exact hs.made id a ha
      | made c p i hnone =>
        rw [hs.none id hnone]
        exact .empty c p i
      | recorded => exact absurd rfl (hrecorded id _)
      | registered hold hl => exact (hs.made id _ hold).register hl
    · cases hold : s.accumulator? id with
      | none => exact hs.none id hold
      | some a =>
        obtain ⟨b, hb⟩ := heffect.stays hold
        cases hb.symm.trans ha
  | some o =>
    obtain ⟨rfl, a, ha⟩ := Job.eq_of_offer ho
    have htake := Job.accumulator?_offerTo e w o.news ha
    have hoffers (id : AccumulatorId) : offersTo (h ++ [o]) id =
        if id = o.target then offersTo h id ++ [o.news] else offersTo h id := by
      rw [offersTo_append]
      split
      next he => simp [offersTo, he]
      next hne => simp [offersTo, Ne.symm hne]
    rw [Option.toList_some]
    refine ⟨fun id b hb => ?_, fun id hb => ?_⟩
    · rw [htake] at hb
      rw [hoffers]
      split at hb
      next he =>
        cases hb
        rw [if_pos he, he]
        exact (hs.made _ a ha).offered o.news
      next hne =>
        rw [if_neg hne]
        exact hs.made id b hb
    · rw [htake] at hb
      split at hb
      next => cases hb
      next hne =>
        rw [hoffers, if_neg hne]
        exact hs.none id hb

/-- A request from outside leaves the store as one from within does, before the parser starts. -/
theorem Machine.store_ofRequest (e : Engine κ σ) (s : Store κ) (w : σ) (c : ContextNumber)
    (p : ParserId) (i : Nat) (next : Next κ) :
    (Machine.ofRequest s w c p i).store = ((Job.ask c p i next).perform e s w).1 := rfl

end Jobs

section Courses

variable {e : Engine κ σ} {m m' m₁ m₂ : Machine κ σ} {o : Option Offer} {h h' : List Offer}

/-- What is offered by the first `n` steps. -/
def Machine.offers (e : Engine κ σ) : Nat → Machine κ σ → List Offer
  | 0, _ => []
  | n + 1, m => m.offer?.toList ++ offers e n (m.step e)

/-- A run is a course, wherever it is stopped. -/
theorem Engine.Course.run (hm : e.Course m h m') (n : Nat) :
    e.Course m (h ++ m'.offers e n) (Machine.run e n m') := by
  induction n generalizing h m' with
  | zero => rwa [Machine.offers, List.append_nil]
  | succ n ih =>
    rw [Machine.run_succ, Machine.offers, ← List.append_assoc]
    exact ih (hm.move (.step m'))

/-- An operation from outside, after whatever was done before. -/
theorem Engine.Course.call (hm : e.Course m h m') (w : σ) (o : Operation κ) :
    e.Course m h ⟨m'.store, w, [.operate o]⟩ := by
  have haside := hm.move (.aside w (rfl : m'.store.accumulators = m'.store.accumulators))
  have hcall := haside.move (.operation o)
  simpa only [Option.toList_none, List.append_nil] using hcall

theorem Engine.Moves.gathered (hm : e.Moves m o m') (hs : m.store.Gathered h) :
    m'.store.Gathered (h ++ o.toList) := by
  cases hm with
  | aside w' hacc =>
    rw [Option.toList_none, List.append_nil]
    exact ⟨fun id a ha => hs.made id a (by rwa [accumulator?_congr hacc] at ha),
      fun id ha => hs.none id (by rwa [accumulator?_congr hacc] at ha)⟩
  | operation o =>
    rw [Option.toList_none, List.append_nil]
    exact hs
  | request c p i =>
    rw [Machine.store_ofRequest e _ _ c p i (.forwardTo 0)]
    exact hs.perform
  | step =>
    obtain ⟨s, w, js⟩ := m
    cases js with
    | nil => exact (List.append_nil h).symm ▸ hs
    | cons j js => exact hs.perform

theorem Engine.Moves.gains (hm : e.Moves m o m') : m.store.Gains m'.store := by
  cases hm with
  | aside w' hacc =>
    intro id a ha
    exact ⟨a, by rwa [accumulator?_congr hacc], .refl a⟩
  | operation o => exact .refl _
  | request c p i =>
    rw [Machine.store_ofRequest e _ _ c p i (.forwardTo 0)]
    exact (Job.effect e _ _ _).gains
  | step =>
    obtain ⟨s, w, js⟩ := m
    cases js with
    | nil => exact .refl s
    | cons j js => exact (j.effect e s w).gains

theorem Engine.Course.gathered (hm : e.Course m h' m') (hs : m.store.Gathered h) :
    m'.store.Gathered (h ++ h') := by
  induction hm with
  | refl => rwa [List.append_nil]
  | move _ hmove ih =>
    rw [← List.append_assoc]
    exact hmove.gathered ih

theorem Engine.Course.gains (hm : e.Course m h m') : m.store.Gains m'.store := by
  induction hm with
  | refl => exact .refl _
  | move _ hmove ih => exact ih.trans hmove.gains

theorem Store.Gathered.start : ({} : Store κ).Gathered [] where
  made id a ha := by simp [Store.accumulator?] at ha
  none _ _ := rfl

end Courses

/-- At every step of every run from the start each accumulator holds what it is to hold of all that
was offered to it: of each length the first tree, and each failure once, with the first of the
furthest ones for the best. From any such step on, it only gains: its trees and its listeners come
first in the later ones, and its best failure is followed by none that is less far. -/
theorem accumulators_gather {e : Engine κ σ} {w : σ} {m : Machine κ σ} {h : List Offer}
    (hm : e.Course ⟨{}, w, []⟩ h m) :
    (∀ id a, m.store.accumulator? id = some a → a.Gathers (offersTo h id)) ∧
      ∀ h' m', e.Course m h' m' → ∀ id a, m.store.accumulator? id = some a →
        ∃ b, m'.store.accumulator? id = some b ∧ b.Gathers (offersTo (h ++ h') id) ∧
          a.Extends b ∧
          ∀ f, a.best = some f → ∃ f', b.best = some f' ∧ f.position ≤ f'.position := by
  have hs : m.store.Gathered h := hm.gathered .start
  refine ⟨fun id a ha => (hs.made id a ha).gathers, ?_⟩
  intro h' m' hm' id a ha
  obtain ⟨b, hb, he⟩ := hm'.gains id a ha
  have hb' := (hm'.gathered hs).made id b hb
  exact ⟨b, hb, hb'.gathers, he, fun f hf => (hs.made id a ha).best_le hb' he hf⟩

namespace Duet

/-- Another parser's match of nothing, offered when four trees are recorded. -/
def lending : Machine Script.Code Script.World :=
  ⟨(Machine.run engine 99 adding).store, world, [.operate (.addTree 0 (.nothing 7 0))]⟩

theorem course : ∃ h, engine.Course ⟨{}, world, []⟩ h lending := by
  have hopened : engine.Moves ⟨{}, world, []⟩ none ⟨opened, world, []⟩ := .aside world rfl
  have hasked := ((Engine.Course.refl.move hopened).move (.request 1 0 0)).run 9
  have hfailed := (hasked.call world (.failAt 0 "early" 0)).run 9
  have hlistened := (hfailed.call world (.listen 0 first)).run 9
  have hadded := (hlistened.call world (.addStop 0 1)).run 99
  exact ⟨_, hadded.call world (.addTree 0 (.nothing 7 0))⟩

end Duet

/-- Amid the broadcast of it a match by another parser is stored as the only part of a tree, as it
is when all is done. -/
theorem accumulators_gather_duet :
    ∃ h a, (Machine.run Duet.engine 2 Duet.lending).agenda ≠ [] ∧
      (Machine.run Duet.engine 2 Duet.lending).store.accumulator? 0 = some a ∧
      .node 0 0 0 [.nothing 7 0] ∈ a.trees ∧ a.Gathers (offersTo h 0) ∧
      ∃ h' b, (Machine.run Duet.engine 99 Duet.lending).store.accumulator? 0 = some b ∧
        b.Gathers (offersTo h' 0) ∧ a.Extends b := by
  obtain ⟨h, hcourse⟩ := Duet.course
  obtain ⟨hgather, hlater⟩ := accumulators_gather (hcourse.run 2)
  have hs : ((Machine.run Duet.engine 2 Duet.lending).store.accumulator? 0).any
      (·.trees.contains (.node 0 0 0 [.nothing 7 0])) := by decide +kernel
  have hbusy : (Machine.run Duet.engine 2 Duet.lending).agenda.isEmpty = false := by decide +kernel
  cases ha : (Machine.run Duet.engine 2 Duet.lending).store.accumulator? 0 with
  | none => simp [ha] at hs
  | some a =>
    rw [ha, Option.any_some, List.contains_iff_mem] at hs
    obtain ⟨b, hb, hgather', hextends, -⟩ := hlater _ _ (Engine.Course.refl.run 97) 0 a ha
    rw [← Machine.run_add] at hb
    refine ⟨_, a, ?_, rfl, hs, hgather 0 a ha, _, b, hb, hgather', hextends⟩
    intro hnone
    rw [hnone] at hbusy
    cases hbusy

end PushParsing
