import PushParsing.Proofs.Best
import PushParsing.Proofs.Termination

/-!
# Forwarding

Accumulators may be linked in any way, so that whatever is recorded in one is recorded in another,
too. Nothing is passed on twice by one accumulator, therefore what goes around comes to an end, by
when it is recorded along all links. Of the failures that were recorded before a link was made only
the best one is passed on, as nothing else is asked for than how far the failures go.
-/
namespace PushParsing

open Relation

variable {κ σ : Type}

/-- One accumulator forwards to another one. -/
def Store.Links (s : Store κ) (source target : AccumulatorId) : Prop :=
  ∃ a l, s.accumulator? source = some a ∧ l ∈ a.listeners ∧ l.role = .forward target

/-- The operations by which accumulators are offered something and linked. -/
def Operation.Relays (s : Store κ) : Operation κ → Prop
  | .addTree target _ | .addFailure target _ => ∃ a, s.accumulator? target = some a
  | .forward source target =>
    (∃ a, s.accumulator? source = some a) ∧ ∃ b, s.accumulator? target = some b
  | _ => False

/-- Any accumulators that are alive, after any such operations, each done with everything it calls
for. -/
inductive Engine.Network (e : Engine κ σ) : Store κ → Prop
  | start {s : Store κ} : (∀ id a, s.accumulator? id = some a → s.isLive id = true ∧
      a = { context := a.context, parser := a.parser, position := a.position }) → Network e s
  | call {s s' : Store κ} {o : Operation κ} {w w' : σ} {n : Nat} : Network e s → o.Relays s →
      Machine.run e n ⟨s, w, [.operate o]⟩ = ⟨s', w', []⟩ → Network e s'

section Kinds

/-- What an accumulator records once: a tree of some length, or some failure. -/
inductive Kind where
  | length (n : Nat)
  | failure (f : Failure)
  deriving DecidableEq

def News.kind : News → Kind
  | found t => .length t.length
  | failed f => .failure f

/-- Whether something is as good as something else: a tree of the same length, or a failure that is
not less far. -/
def News.Covers : News → News → Prop
  | found t, found u => t.length = u.length
  | failed f, failed f' => f'.position ≤ f.position
  | _, _ => False

theorem News.Covers.refl (x : News) : x.Covers x := by
  cases x with
  | found t => exact rfl
  | failed f => exact Nat.le_refl _

theorem News.Covers.trans {x y z : News} (h : x.Covers y) (h' : y.Covers z) : x.Covers z := by
  cases x <;> cases y <;> cases z <;> first | exact h.elim | exact h'.elim | skip
  · exact Eq.trans h h'
  · exact Nat.le_trans h' h

namespace Accumulator

variable {a b : Accumulator κ} {news x : News}

def has (a : Accumulator κ) : Kind → Bool
  | .length n => a.hasLength n
  | .failure f => a.failures.contains f

theorem isNew_iff : a.IsNew news ↔ a.has news.kind = false := by
  cases news with
  | found t => exact Iff.rfl
  | failed f => simp [IsNew, has, News.kind]

theorem has_record (a : Accumulator κ) (news : News) (k : Kind) :
    (a.record news).has k = true ↔ a.has k = true ∨ news.kind = k := by
  cases news with
  | found t => cases k <;> simp [record, has, hasLength, News.kind]
  | failed f =>
    cases k with
    | length n => simp [record, has, hasLength, News.kind]
    | failure f' =>
      simp only [record, has, News.kind, List.contains_cons, Bool.or_eq_true, beq_iff_eq,
        Kind.failure.injEq]
      rw [eq_comm, or_comm]

theorem kind_keep (a : Accumulator κ) (news : News) : (a.keep news).kind = news.kind := by
  cases news with
  | found t => exact congrArg Kind.length (a.length_adopt t)
  | failed f => rfl

theorem keep_covers (a : Accumulator κ) (news : News) : (a.keep news).Covers news := by
  cases news with
  | found t => exact a.length_adopt t
  | failed f => exact Nat.le_refl _

/-- Whether something as good is recorded. -/
def Covers (a : Accumulator κ) (x : News) : Prop := ∃ y, a.Holds y ∧ y.Covers x

theorem covers_of_has (h : a.has news.kind = true) : a.Covers news := by
  cases news with
  | found t =>
    obtain ⟨u, hu, he⟩ := List.any_eq_true.1 h
    exact ⟨.found u, hu, beq_iff_eq.1 he⟩
  | failed f => exact ⟨.failed f, List.contains_iff_mem.1 h, Nat.le_refl _⟩

theorem holds_record_self (a : Accumulator κ) (news : News) : (a.record news).Holds news := by
  cases news with
  | found t => exact List.mem_append_right _ (List.mem_singleton.2 rfl)
  | failed f => exact List.mem_cons_self

theorem Extends.holds (he : a.Extends b) (h : a.Holds x) : b.Holds x := by
  cases x with
  | found t => exact he.trees.subset h
  | failed f => exact he.failures.subset h

theorem Extends.covers (he : a.Extends b) (h : a.Covers x) : b.Covers x := by
  obtain ⟨y, hy, hx⟩ := h
  exact ⟨y, he.holds hy, hx⟩

end Accumulator

end Kinds

section Webs

variable {s s' : Store κ} {id source target : AccumulatorId} {a b : Accumulator κ}

/-- An accumulator that forwards at most, by listeners whose numbers were handed out. -/
structure Accumulator.Wired (s : Store κ) (a : Accumulator κ) : Prop where
  forwards : ∀ l ∈ a.listeners, ∃ target b, l.role = .forward target ∧
    s.accumulator? target = some b
  numbered : ∀ l ∈ a.listeners, l.id < s.listenerCount
  best : a.best = a.failures.foldr (fun f best => Failure.furthest best f) none

/-- Accumulators that are alive and forward at most. -/
structure Store.Web (s : Store κ) : Prop where
  live : ∀ id a, s.accumulator? id = some a → s.isLive id = true
  wired : ∀ id a, s.accumulator? id = some a → a.Wired s

theorem Accumulator.Wired.mono (h : a.Wired s) (hs : s.Gains s')
    (hn : s.listenerCount ≤ s'.listenerCount) : a.Wired s' where
  forwards l hl := by
    obtain ⟨target, b, hrole, hb⟩ := h.forwards l hl
    obtain ⟨b', hb', -⟩ := hs target b hb
    exact ⟨target, b', hrole, hb'⟩
  numbered l hl := Nat.lt_of_lt_of_le (h.numbered l hl) hn
  best := h.best

theorem Accumulator.Wired.record (h : a.Wired s) (news : News) : (a.record news).Wired s where
  forwards l hl := h.forwards l (by rwa [listeners_record] at hl)
  numbered l hl := h.numbered l (by rwa [listeners_record] at hl)
  best := by
    cases news with
    | found t => exact h.best
    | failed f => rw [Accumulator.record, List.foldr_cons, ← h.best]

theorem Store.isLive_modify (ha : s.accumulator? id = some a) (hc : b.context = a.context)
    (k : AccumulatorId) : (s.modifyAccumulator id fun _ => b).isLive k = s.isLive k := by
  rw [isLive, isLive, accumulator?_modify ha rfl]
  by_cases hk : k = id
  · rw [if_pos hk, hk, ha]
    simp only [hc]
    rfl
  · rw [if_neg hk]
    rfl

theorem Store.Web.modify (hs : s.Web) (ha : s.accumulator? id = some a) (he : a.Extends b)
    (hb : b.Wired s) : (s.modifyAccumulator id fun _ => b).Web := by
  have hgains : s.Gains (s.modifyAccumulator id fun _ => b) := .modify ha he rfl
  refine ⟨fun k c hk => ?_, fun k c hk => ?_⟩
  · rw [isLive_modify ha he.context]
    rcases accumulator?_modify_cases ha rfl hk with ⟨rfl, -⟩ | ⟨-, hk⟩
    · exact hs.live k a ha
    · exact hs.live k c hk
  · rcases accumulator?_modify_cases ha rfl hk with ⟨rfl, rfl⟩ | ⟨-, hk⟩
    · exact hb.mono hgains (Nat.le_refl _)
    · exact (hs.wired k c hk).mono hgains (Nat.le_refl _)

end Webs

section Relays

variable {e : Engine κ σ} {s s' : Store κ} {w : σ} {j : Job κ} {js : List (Job κ)}
  {id source target : AccumulatorId} {a b : Accumulator κ} {news x : News} {kinds : List Kind}

/-- A job that passes on something of the given kinds, between accumulators that are there. -/
def Job.Relays (s : Store κ) (kinds : List Kind) : Job κ → Prop
  | .operate (.addTree target t) =>
    (∃ b, s.accumulator? target = some b) ∧ .length t.length ∈ kinds
  | .operate (.addFailure target f) => (∃ b, s.accumulator? target = some b) ∧ .failure f ∈ kinds
  | .tell l _ news =>
    (∃ target b, l.role = .forward target ∧ s.accumulator? target = some b) ∧ news.kind ∈ kinds
  | .carry source target =>
    (∃ a, s.accumulator? source = some a ∧ ∀ f ∈ a.failures, .failure f ∈ kinds) ∧
      ∃ b, s.accumulator? target = some b
  | _ => False

theorem Job.relays_offerTo : (Job.operate (news.offerTo target)).Relays s kinds ↔
    (∃ b, s.accumulator? target = some b) ∧ news.kind ∈ kinds := by
  cases news <;> exact Iff.rfl

/-- All that such a job can do. -/
inductive Job.Relayed (s : Store κ) (kinds : List Kind) : Job κ → Store κ → List (Job κ) → Prop
  | recorded {target : AccumulatorId} {a : Accumulator κ} {news : News} :
      s.accumulator? target = some a → news.kind ∈ kinds → a.IsNew (a.keep news) →
      Relayed s kinds (.operate (news.offerTo target))
        (s.modifyAccumulator target fun _ => a.record (a.keep news))
        (a.broadcast target (a.keep news))
  | known {target : AccumulatorId} {a : Accumulator κ} {news : News} :
      s.accumulator? target = some a → ¬a.IsNew (a.keep news) →
      Relayed s kinds (.operate (news.offerTo target)) s []
  | told {n : Nat} {source target : AccumulatorId} {b : Accumulator κ} {news : News} :
      s.accumulator? target = some b → news.kind ∈ kinds →
      Relayed s kinds (.tell ⟨n, .forward target⟩ source news) s
        [.operate (news.offerTo target)]
  | carried {source target : AccumulatorId} {a b : Accumulator κ} {f : Failure} :
      s.accumulator? source = some a → a.best = some f → s.accumulator? target = some b →
      .failure f ∈ kinds →
      Relayed s kinds (.carry source target) s [.operate ((News.failed f).offerTo target)]
  | nothing {source target : AccumulatorId} {a : Accumulator κ} :
      s.accumulator? source = some a → a.best = none → Relayed s kinds (.carry source target) s []

theorem Job.Relays.relayed (hs : s.Web) (hj : j.Relays s kinds) :
    (j.perform e s w).2.1 = w ∧ j.Relayed s kinds (j.perform e s w).1 (j.perform e s w).2.2 := by
  have hoffer {target : AccumulatorId} {b : Accumulator κ} (news : News)
      (hb : s.accumulator? target = some b) (hk : news.kind ∈ kinds) :
      ((Job.operate (news.offerTo target)).perform e s w).2.1 = w ∧
        (Job.operate (news.offerTo target)).Relayed s kinds
          ((Job.operate (news.offerTo target)).perform e s w).1
          ((Job.operate (news.offerTo target)).perform e s w).2.2 := by
    rw [Job.perform_offerTo e w news hb]
    by_cases hn : b.IsNew (b.keep news)
    · rw [if_pos hn]
      exact ⟨rfl, .recorded hb hk hn⟩
    · rw [if_neg hn]
      exact ⟨rfl, .known hb hn⟩
  cases j with
  | operate o =>
    cases o with
    | addTree target t =>
      obtain ⟨⟨b, hb⟩, hk⟩ := hj
      exact hoffer (.found t) hb hk
    | addFailure target f =>
      obtain ⟨⟨b, hb⟩, hk⟩ := hj
      exact hoffer (.failed f) hb hk
    | _ => exact hj.elim
  | tell l source news =>
    obtain ⟨n, role⟩ := l
    obtain ⟨⟨target, b, hrole, hb⟩, hk⟩ := hj
    cases hrole
    simp only [perform, if_pos (hs.live target b hb)]
    cases news with
    | found t => exact ⟨rfl, .told hb hk⟩
    | failed f => exact ⟨rfl, .told hb hk⟩
  | carry source target =>
    obtain ⟨⟨a, ha, hfailures⟩, b, hb⟩ := hj
    simp only [perform, ha, Option.bind_some]
    cases hbest : a.best with
    | none => exact ⟨rfl, .nothing ha hbest⟩
    | some f =>
      have hf : f ∈ a.failures := mem_of_foldr_furthest ((hs.wired source a ha).best ▸ hbest)
      exact ⟨rfl, .carried ha hbest hb (hfailures f hf)⟩
  | _ => exact hj.elim

/-- An accumulator after such a job: what is new in it was told to all to whom it forwards. -/
theorem Job.Relayed.before (hr : j.Relayed s kinds s' js) (hb : s'.accumulator? id = some b) :
    ∃ a, s.accumulator? id = some a ∧ b.listeners = a.listeners ∧
      ∀ x, b.Holds x → a.Holds x ∨ x.kind ∈ kinds ∧ ∀ l ∈ a.listeners, .tell l id x ∈ js := by
  cases hr with
  | @recorded target a news ha hk _ =>
    rcases accumulator?_modify_cases ha rfl hb with ⟨rfl, rfl⟩ | ⟨-, hb⟩
    · refine ⟨a, ha, a.listeners_record _, fun x hx => ?_⟩
      rcases Accumulator.holds_record hx with hx | rfl
      · exact .inl hx
      · exact .inr ⟨a.kind_keep news ▸ hk, fun l hl => List.mem_map.2 ⟨l, hl, rfl⟩⟩
    · exact ⟨b, hb, rfl, fun x hx => .inl hx⟩
  | known | told | carried | nothing => exact ⟨b, hb, rfl, fun x hx => .inl hx⟩

theorem Job.Relayed.gains (hr : j.Relayed s kinds s' js) : s.Gains s' := by
  cases hr with
  | recorded ha _ _ => exact .modify ha (.record _ _) rfl
  | known | told | carried | nothing => exact .refl s

theorem Job.Relayed.web (hr : j.Relayed s kinds s' js) (hs : s.Web) : s'.Web := by
  cases hr with
  | recorded ha _ _ => exact hs.modify ha (.record _ _) ((hs.wired _ _ ha).record _)
  | known | told | carried | nothing => exact hs

theorem Job.Relayed.links_iff (hr : j.Relayed s kinds s' js) (source target : AccumulatorId) :
    s'.Links source target ↔ s.Links source target := by
  constructor
  · rintro ⟨b, l, hb, hl, hrole⟩
    obtain ⟨a, ha, hsame, -⟩ := hr.before hb
    exact ⟨a, l, ha, hsame ▸ hl, hrole⟩
  · rintro ⟨a, l, ha, hl, hrole⟩
    obtain ⟨b, hb, he⟩ := hr.gains source a ha
    exact ⟨b, l, hb, he.listeners.subset hl, hrole⟩

theorem Job.Relays.mono (hj : j.Relays s kinds) {k : Job κ} (hr : k.Relayed s kinds s' js) :
    j.Relays s' kinds := by
  have hthere {target : AccumulatorId} (h : ∃ b, s.accumulator? target = some b) :
      ∃ b, s'.accumulator? target = some b := by
    obtain ⟨b, hb⟩ := h
    obtain ⟨b', hb', -⟩ := hr.gains target b hb
    exact ⟨b', hb'⟩
  cases j with
  | operate o =>
    cases o with
    | addTree target t => exact ⟨hthere hj.1, hj.2⟩
    | addFailure target f => exact ⟨hthere hj.1, hj.2⟩
    | _ => exact hj.elim
  | tell l source news =>
    obtain ⟨⟨target, b, hrole, hb⟩, hk⟩ := hj
    obtain ⟨b', hb'⟩ := hthere ⟨b, hb⟩
    exact ⟨⟨target, b', hrole, hb'⟩, hk⟩
  | carry source target =>
    obtain ⟨⟨a, ha, hfailures⟩, htarget⟩ := hj
    obtain ⟨a', ha', -⟩ := hr.gains source a ha
    obtain ⟨a'', ha'', -, hholds⟩ := hr.before ha'
    cases ha.symm.trans ha''
    refine ⟨⟨a', ha', fun f hf => ?_⟩, hthere htarget⟩
    rcases hholds (.failed f) hf with hold | ⟨hk, -⟩
    · exact hfailures f hold
    · exact hk
  | _ => exact hj.elim

/-- What such a job calls for is of its sort. -/
theorem Job.Relayed.relays (hr : j.Relayed s kinds s' js) (hs : s.Web) :
    ∀ k ∈ js, k.Relays s' kinds := by
  intro k hk
  cases hr with
  | @recorded target a news ha hkind hn =>
    obtain ⟨l, hl, rfl⟩ := List.mem_map.1 hk
    obtain ⟨target', b, hrole, hb⟩ := (hs.wired target a ha).forwards l hl
    have hgains : s.Gains (s.modifyAccumulator target fun _ => a.record (a.keep news)) :=
      .modify ha (.record _ _) rfl
    obtain ⟨b', hb', -⟩ := hgains target' b hb
    exact ⟨⟨target', b', hrole, hb'⟩, a.kind_keep news ▸ hkind⟩
  | told hb hkind =>
    rw [List.mem_singleton.1 hk]
    exact Job.relays_offerTo.2 ⟨⟨_, hb⟩, hkind⟩
  | carried _ _ hb hkind =>
    rw [List.mem_singleton.1 hk]
    exact Job.relays_offerTo.2 ⟨⟨_, hb⟩, hkind⟩
  | known | nothing => cases hk

/-- A job that leads to the record of something as good in an accumulator. -/
def Job.Delivers (s : Store κ) (id : AccumulatorId) (x : News) : Job κ → Prop
  | .operate (.addTree target t) => target = id ∧ (News.found t).Covers x
  | .operate (.addFailure target f) => target = id ∧ (News.failed f).Covers x
  | .tell l _ news => l.role = .forward id ∧ news.Covers x
  | .carry source target => target = id ∧
    ∃ a f, s.accumulator? source = some a ∧ f ∈ a.failures ∧ (News.failed f).Covers x
  | _ => False

theorem Job.delivers_offerTo : (Job.operate (news.offerTo target)).Delivers s id x ↔
    target = id ∧ news.Covers x := by
  cases news <;> exact Iff.rfl

theorem Job.Delivers.mono (hj : j.Delivers s id x) (hs : s.Gains s') : j.Delivers s' id x := by
  cases j with
  | carry source target =>
    obtain ⟨htarget, a, f, ha, hf, hx⟩ := hj
    obtain ⟨a', ha', he⟩ := hs source a ha
    exact ⟨htarget, a', f, ha', he.failures.subset hf, hx⟩
  | operate o => cases o <;> exact hj
  | tell => exact hj
  | _ => exact hj.elim

/-- Such a job delivers at once, or a job that it calls for does. -/
theorem Job.Relayed.delivers (hr : j.Relayed s kinds s' js) (hs : s.Web)
    (hj : j.Delivers s id x) :
    (∃ b, s'.accumulator? id = some b ∧ b.Covers x) ∨ ∃ k ∈ js, k.Delivers s' id x := by
  cases hr with
  | @recorded target a news ha _ _ =>
    obtain ⟨rfl, hx⟩ := Job.delivers_offerTo.1 hj
    refine .inl ⟨_, ?_, _, a.holds_record_self _, (a.keep_covers news).trans hx⟩
    rw [accumulator?_modify ha rfl, if_pos rfl]
  | @known target a news ha hn =>
    obtain ⟨rfl, hx⟩ := Job.delivers_offerTo.1 hj
    rw [Accumulator.isNew_iff, Bool.not_eq_false] at hn
    obtain ⟨y, hy, hcovers⟩ := Accumulator.covers_of_has hn
    exact .inl ⟨a, ha, y, hy, (hcovers.trans (a.keep_covers news)).trans hx⟩
  | told =>
    obtain ⟨hrole, hx⟩ := hj
    cases hrole
    exact .inr ⟨_, List.mem_singleton.2 rfl, Job.delivers_offerTo.2 ⟨rfl, hx⟩⟩
  | carried ha hbest _ _ =>
    obtain ⟨rfl, a', f', ha', hf', hx⟩ := hj
    cases ha.symm.trans ha'
    obtain ⟨best, hfold, hle⟩ := position_le_of_foldr_furthest hf'
    rw [← (hs.wired _ _ ha).best, hbest] at hfold
    cases hfold
    have hcovers : (News.failed _).Covers (.failed f') := hle
    exact .inr ⟨_, List.mem_singleton.2 rfl, Job.delivers_offerTo.2 ⟨rfl, hcovers.trans hx⟩⟩
  | nothing ha hnone =>
    obtain ⟨rfl, a', f', ha', hf', -⟩ := hj
    cases ha.symm.trans ha'
    obtain ⟨best, hfold, -⟩ := position_le_of_foldr_furthest hf'
    rw [← (hs.wired _ _ ha).best, hnone] at hfold
    cases hfold

end Relays

section Counting

variable {s s' : Store κ} {id : AccumulatorId} {a : Accumulator κ} {news : News}
  {kinds : List Kind} {j : Job κ} {js : List (Job κ)}

/-- How many of the given kinds are not recorded in an accumulator. -/
def Accumulator.lacks (kinds : List Kind) (a : Accumulator κ) : Nat :=
  kinds.countP fun k => !a.has k

def Store.lacks (kinds : List Kind) (s : Store κ) : Nat :=
  (s.accumulators.toList.map (Accumulator.lacks kinds)).sum

/-- How often a job can be handed on while nothing is recorded. -/
def Job.passes : Job κ → Nat
  | .operate _ => 1
  | _ => 2

/-- Less and less is left to do: what is recorded is lacking no more, and otherwise a job that tells
or carries leads to one that offers at most, and that one to none. -/
def Machine.toPass (kinds : List Kind) (m : Machine κ σ) : Nat × Nat :=
  (m.store.lacks kinds, (m.agenda.map Job.passes).sum)

theorem Accumulator.lacks_record (hk : news.kind ∈ kinds) (hn : a.IsNew news) :
    (a.record news).lacks kinds < a.lacks kinds := by
  refine countP_lt kinds hk ?_ ?_ fun k hk => ?_
  · simp [(a.has_record news _).2 (.inr rfl)]
  · simp [isNew_iff.1 hn]
  · rw [Bool.not_eq_true'] at hk ⊢
    cases hold : a.has k with
    | false => rfl
    | true => rw [(a.has_record news k).2 (.inl hold)] at hk; cases hk

theorem Store.lacks_record (ha : s.accumulator? id = some a) (hk : news.kind ∈ kinds)
    (hn : a.IsNew news) :
    (s.modifyAccumulator id fun _ => a.record news).lacks kinds < s.lacks kinds := by
  have hid : s.accumulators.toList[id]? = some a := by rwa [Array.getElem?_toList]
  have hsum := sum_modify (Accumulator.lacks kinds) (a.record news) s.accumulators.toList hid
  have hlt := Accumulator.lacks_record hk hn
  rw [lacks, lacks, modifyAccumulator, Array.toList_modify]
  omega

theorem Job.Relayed.descends (hr : j.Relayed s kinds s' js) :
    s'.lacks kinds < s.lacks kinds ∨
      s'.lacks kinds = s.lacks kinds ∧ (js.map Job.passes).sum < j.passes := by
  cases hr with
  | @recorded target a news ha hk hn => exact .inl (Store.lacks_record ha (a.kind_keep news ▸ hk) hn)
  | known | told | carried | nothing => exact .inr ⟨rfl, by simp [Job.passes]⟩

end Counting

section Phases

variable {e : Engine κ σ} {s s' : Store κ} {w : σ} {m : Machine κ σ} {kinds : List Kind}
  {id source target : AccumulatorId} {a b : Accumulator κ} {news x : News}

/-- Something is passed on along all links, or it is on the agenda to be passed on. -/
structure Machine.Relaying (kinds : List Kind) (m : Machine κ σ) : Prop where
  web : m.store.Web
  jobs : ∀ j ∈ m.agenda, j.Relays m.store kinds
  owed : ∀ source target a x, m.store.Links source target →
    m.store.accumulator? source = some a → a.Holds x →
    (∃ b, m.store.accumulator? target = some b ∧ b.Covers x) ∨
      ∃ j ∈ m.agenda, j.Delivers m.store target x

/-- What remains of a machine in the end. -/
structure Machine.Passes (m m' : Machine κ σ) : Prop where
  world : m'.world = m.world
  gains : m.store.Gains m'.store
  links : ∀ source target, m'.store.Links source target ↔ m.store.Links source target

theorem Machine.Passes.refl (m : Machine κ σ) : m.Passes m := ⟨rfl, .refl _, fun _ _ => Iff.rfl⟩

theorem Machine.Passes.trans {m m' m'' : Machine κ σ} (h : m.Passes m') (h' : m'.Passes m'') :
    m.Passes m'' where
  world := h'.world.trans h.world
  gains := h.gains.trans h'.gains
  links source target := (h'.links source target).trans (h.links source target)

/-- The step lemma: whatever is recorded is told to all who are linked, in place of the job done. -/
theorem Machine.Relaying.step (h : m.Relaying kinds) :
    (m.step e).Relaying kinds ∧ m.Passes (m.step e) := by
  obtain ⟨s, w, js⟩ := m
  cases js with
  | nil => exact ⟨h, .refl _⟩
  | cons j js =>
    have hs : s.Web := h.web
    obtain ⟨hw, hr⟩ := (h.jobs j List.mem_cons_self).relayed (e := e) (w := w) hs
    refine ⟨⟨hr.web hs, ?_, ?_⟩, hw, hr.gains, hr.links_iff⟩
    · intro k hk
      rcases List.mem_append.1 hk with hk | hk
      · exact hr.relays hs k hk
      · exact (h.jobs k (List.mem_cons_of_mem _ hk)).mono hr
    · intro source target b x hlink hb hx
      obtain ⟨a, ha, hsame, hholds⟩ := hr.before hb
      have hlink' := (hr.links_iff source target).1 hlink
      rcases hholds x hx with hx | ⟨-, htold⟩
      · rcases h.owed source target a x hlink' ha hx with ⟨c, hc, hcovers⟩ | ⟨k, hk, hdelivers⟩
        · obtain ⟨c', hc', he⟩ := hr.gains target c hc
          exact .inl ⟨c', hc', he.covers hcovers⟩
        · rcases List.mem_cons.1 hk with rfl | hk
          · rcases hr.delivers hs hdelivers with hdone | ⟨k, hk, hdelivers⟩
            · exact .inl hdone
            · exact .inr ⟨k, List.mem_append_left _ hk, hdelivers⟩
          · exact .inr ⟨k, List.mem_append_right _ hk, hdelivers.mono hr.gains⟩
      · obtain ⟨a', l, ha', hl, hrole⟩ := hlink'
        cases ha.symm.trans ha'
        exact .inr ⟨_, List.mem_append_left _ (htold l hl), hrole, .refl x⟩

theorem Machine.Relaying.run (h : m.Relaying kinds) (n : Nat) :
    (Machine.run e n m).Relaying kinds ∧ m.Passes (Machine.run e n m) := by
  induction n generalizing m with
  | zero => exact ⟨h, .refl m⟩
  | succ n ih =>
    obtain ⟨hstep, hpasses⟩ := h.step (e := e)
    obtain ⟨hrun, hpasses'⟩ := ih hstep
    rw [Machine.run_succ]
    exact ⟨hrun, hpasses.trans hpasses'⟩

theorem Machine.Relaying.descends (h : m.Relaying kinds) (hm : m.agenda ≠ []) :
    Prod.Lex (· < ·) (· < ·) ((m.step e).toPass kinds) (m.toPass kinds) := by
  obtain ⟨s, w, js⟩ := m
  cases js with
  | nil => exact absurd rfl hm
  | cons j js =>
    obtain ⟨-, hr⟩ := (h.jobs j List.mem_cons_self).relayed (e := e) (w := w) h.web
    simp only [Machine.step, Machine.toPass]
    rcases hr.descends with hlt | ⟨hsame, hlt⟩
    · exact .left _ _ hlt
    · rw [hsame]
      refine .right _ ?_
      rw [List.map_append, List.sum_append_nat, List.map_cons, List.sum_cons]
      exact Nat.add_lt_add_right hlt _

/-- The run lemma: what goes around comes to an end. -/
theorem Machine.Relaying.rests (e : Engine κ σ) (m : Machine κ σ) (h : m.Relaying kinds) :
    ∃ n, (Machine.run e n m).agenda = [] := by
  by_cases hm : m.agenda = []
  · exact ⟨0, hm⟩
  · have hdescends := h.descends (e := e) hm
    obtain ⟨n, hn⟩ := Machine.Relaying.rests e (m.step e) h.step.1
    exact ⟨n + 1, by rwa [Machine.run_succ]⟩
termination_by m.toPass kinds
decreasing_by exact hdescends

/-- Whatever is recorded in an accumulator is recorded where it forwards to, as far as it matters. -/
def Store.Closed (s : Store κ) : Prop :=
  ∀ source target a x, s.Links source target → s.accumulator? source = some a → a.Holds x →
    ∃ b, s.accumulator? target = some b ∧ b.Covers x

theorem Machine.Relaying.settles (e : Engine κ σ) (h : m.Relaying kinds) :
    ∃ n s', (∀ k, n ≤ k → Machine.run e k m = ⟨s', m.world, []⟩) ∧ s'.Web ∧ s'.Closed ∧
      m.Passes ⟨s', m.world, []⟩ := by
  obtain ⟨n, hn⟩ := Machine.Relaying.rests e m h
  obtain ⟨hend, hpasses⟩ := h.run (e := e) n
  have hrun : Machine.run e n m = ⟨(Machine.run e n m).store, m.world, []⟩ := by
    rw [← hpasses.world, ← hn]
  refine ⟨n, (Machine.run e n m).store, fun k hk => ?_, hend.web, ?_, hrun ▸ hpasses⟩
  · rw [Machine.run_of_idle hn hk, ← hrun]
  · intro source target a x hlink ha hx
    rcases hend.owed source target a x hlink ha hx with hdone | ⟨j, hj, -⟩
    · exact hdone
    · rw [hn] at hj
      cases hj

end Phases

section Spreading

variable {e : Engine κ σ} {s₀ s s' : Store κ} {m : Machine κ σ} {j : Job κ} {js : List (Job κ)}
  {root id target : AccumulatorId} {kind : Kind} {kinds : List Kind} {news : News}

/-- The accumulator that a job which passes something on is about. -/
def Job.goal? : Job κ → Option AccumulatorId
  | .operate (.addTree target _) | .operate (.addFailure target _) => some target
  | .tell ⟨_, .forward target⟩ _ _ => some target
  | _ => none

theorem Job.goal?_offerTo : (Job.operate (news.offerTo target) : Job κ).goal? = some target := by
  cases news <;> rfl

/-- What a job calls for is about the same accumulator or about one to which that forwards. -/
theorem Job.Relayed.goals (hr : j.Relayed s kinds s' js) (hs : s.Web) (hj : j.goal? = some id) :
    ∀ k ∈ js, ∃ id', k.goal? = some id' ∧ (id' = id ∨ s.Links id id') := by
  intro k hk
  cases hr with
  | @recorded target a news ha _ _ =>
    cases Job.goal?_offerTo.symm.trans hj
    obtain ⟨⟨n, role⟩, hl, rfl⟩ := List.mem_map.1 hk
    obtain ⟨target', b, hrole, -⟩ := (hs.wired _ a ha).forwards _ hl
    cases hrole
    exact ⟨target', rfl, .inr ⟨a, _, ha, hl, rfl⟩⟩
  | told =>
    cases hj
    rw [List.mem_singleton.1 hk]
    exact ⟨id, Job.goal?_offerTo, .inl rfl⟩
  | carried => cases hj
  | known | nothing => cases hk

/-- Only in the accumulator that a job is about something may be recorded. -/
theorem Job.Relayed.changes (hr : j.Relayed s kinds s' js) (hj : j.goal? = some id)
    {k : AccumulatorId} {b : Accumulator κ} (hb : s'.accumulator? k = some b) :
    s.accumulator? k = some b ∨ k = id ∧ ∃ a x, s.accumulator? id = some a ∧ a.IsNew x ∧
      x.kind ∈ kinds ∧ b = a.record x := by
  cases hr with
  | @recorded target a news ha hk hn =>
    cases Job.goal?_offerTo.symm.trans hj
    rcases accumulator?_modify_cases ha rfl hb with ⟨rfl, rfl⟩ | ⟨-, hb⟩
    · exact .inr ⟨rfl, a, _, ha, hn, (a.kind_keep news).symm ▸ hk, rfl⟩
    · exact .inl hb
  | known | told | carried | nothing => exact .inl hb

/-- Something of one kind spreads from one accumulator along the links: where it came to it was
recorded once, if at all. -/
structure Machine.Spreads (s₀ : Store κ) (root : AccumulatorId) (kind : Kind) (m : Machine κ σ) :
    Prop where
  goals : ∀ j ∈ m.agenda, ∃ id, j.goal? = some id ∧ ReflTransGen s₀.Links root id
  links : ∀ source target, m.store.Links source target → s₀.Links source target
  changed : ∀ id b, m.store.accumulator? id = some b → ∃ a, s₀.accumulator? id = some a ∧
    (b = a ∨ ReflTransGen s₀.Links root id ∧ ∃ x, x.kind = kind ∧ b = a.record x)

/-- The step lemma: nothing of the kind is new where something of it is recorded. -/
theorem Machine.Spreads.step (h : m.Spreads s₀ root kind) (hm : m.Relaying [kind]) :
    (m.step e).Spreads s₀ root kind := by
  obtain ⟨s, w, js⟩ := m
  cases js with
  | nil => exact h
  | cons j js =>
    have hs : s.Web := hm.web
    obtain ⟨-, hr⟩ := (hm.jobs j List.mem_cons_self).relayed (e := e) (w := w) hs
    obtain ⟨id, hgoal, hreach⟩ := h.goals j List.mem_cons_self
    refine ⟨?_, fun source target hlink => ?_, ?_⟩
    · intro k hk
      rcases List.mem_append.1 hk with hk | hk
      · obtain ⟨id', hid', rfl | hlink⟩ := hr.goals hs hgoal k hk
        · exact ⟨id', hid', hreach⟩
        · exact ⟨id', hid', hreach.tail (h.links id id' hlink)⟩
      · exact h.goals k (List.mem_cons_of_mem _ hk)
    · exact h.links source target ((hr.links_iff source target).1 hlink)
    · intro k b hb
      rcases hr.changes hgoal hb with hb | ⟨rfl, a, x, ha, hn, hx, rfl⟩
      · exact h.changed k b hb
      · rw [List.mem_singleton] at hx
        obtain ⟨a₀, ha₀, rfl | ⟨-, y, hy, rfl⟩⟩ := h.changed k a ha
        · exact ⟨a, ha₀, .inr ⟨hreach, x, hx, rfl⟩⟩
        · have hhas := (a₀.has_record y kind).2 (.inr hy)
          rw [← hx, Accumulator.isNew_iff.1 hn] at hhas
          cases hhas

theorem Machine.Spreads.run (h : m.Spreads s₀ root kind) (hm : m.Relaying [kind]) (n : Nat) :
    (Machine.run e n m).Spreads s₀ root kind := by
  induction n generalizing m with
  | zero => exact h
  | succ n ih =>
    rw [Machine.run_succ]
    exact ih (h.step hm) (hm.step (e := e)).1

end Spreading

section Calls

variable {e : Engine κ σ} {s s' : Store κ} {w : σ} {o : Operation κ} {news : News}
  {source target : AccumulatorId} {a b : Accumulator κ}

theorem Machine.Relaying.offer (hs : s.Web) (hc : s.Closed)
    (hb : s.accumulator? target = some b) (news : News) (w : σ) :
    Machine.Relaying [news.kind] ⟨s, w, [.operate (news.offerTo target)]⟩ where
  web := hs
  jobs j hj := by
    rw [List.mem_singleton.1 hj]
    exact Job.relays_offerTo.2 ⟨⟨b, hb⟩, List.mem_singleton.2 rfl⟩
  owed source target a x hlink ha hx := .inl (hc source target a x hlink ha hx)

theorem Machine.Spreads.offer (s : Store κ) (target : AccumulatorId) (news : News) (w : σ) :
    Machine.Spreads s target news.kind ⟨s, w, [.operate (news.offerTo target)]⟩ where
  goals j hj := by
    rw [List.mem_singleton.1 hj]
    exact ⟨target, Job.goal?_offerTo, .refl⟩
  links _ _ h := h
  changed id b hb := ⟨b, hb, .inl rfl⟩

/-- The store once one accumulator is linked to another one. -/
def Store.link (s : Store κ) (source target : AccumulatorId) (a : Accumulator κ) : Store κ :=
  { s with listenerCount := s.listenerCount + 1 }.modifyAccumulator source fun _ =>
    a.register ⟨s.listenerCount, .forward target⟩

/-- The jobs by which what was recorded before is passed on along a new link. -/
def Accumulator.catchUp (a : Accumulator κ) (n : Nat) (source target : AccumulatorId) :
    List (Job κ) :=
  (a.trees.map fun t => .tell ⟨n, .forward target⟩ source (.found t)) ++ [.carry source target]

/-- A link is made in three steps. -/
theorem Machine.run_forward (hs : s.Web) (ha : s.accumulator? source = some a) (n : Nat) :
    Machine.run e (n + 3) ⟨s, w, [.operate (.forward source target)]⟩ =
      Machine.run e n ⟨s.link source target a, w, a.catchUp s.listenerCount source target⟩ := by
  have hnew : (a.listeners.any (·.id == s.listenerCount)) = false := by
    rw [List.any_eq_false]
    intro l hl he
    exact Nat.ne_of_lt ((hs.wired source a ha).numbered l hl) (beq_iff_eq.1 he)
  have ha' : ({ s with listenerCount := s.listenerCount + 1 } : Store κ).accumulator? source =
      some a := ha
  rw [Machine.run_succ, Machine.run_succ, Machine.run_succ]
  simp only [Machine.step, Job.perform, Operation.perform, Store.newListener, List.cons_append,
    List.nil_append, ha', Accumulator.addListener?_eq, hnew]
  rfl

theorem Store.accumulator?_link (ha : s.accumulator? source = some a) (target id : AccumulatorId) :
    (s.link source target a).accumulator? id =
      if id = source then some (a.register ⟨s.listenerCount, .forward target⟩)
      else s.accumulator? id := by
  have ha' : ({ s with listenerCount := s.listenerCount + 1 } : Store κ).accumulator? source =
      some a := ha
  exact accumulator?_modify ha' rfl id

theorem Store.gains_link (ha : s.accumulator? source = some a) (target : AccumulatorId) :
    s.Gains (s.link source target a) := by
  intro id b hb
  rw [accumulator?_link ha]
  split
  next he =>
    cases ha.symm.trans (he ▸ hb)
    exact ⟨_, rfl, .register a _⟩
  next => exact ⟨b, hb, .refl b⟩

/-- An accumulator after a link was made holds what it held, and listeners are those it had, but for
the new one. -/
theorem Store.before_link (ha : s.accumulator? source = some a) {id : AccumulatorId}
    (hb : (s.link source target a).accumulator? id = some b) :
    ∃ c, s.accumulator? id = some c ∧ (∀ x, b.Holds x → c.Holds x) ∧
      ∀ l ∈ b.listeners, l ∈ c.listeners ∨ id = source ∧ l = ⟨s.listenerCount, .forward target⟩ := by
  rw [accumulator?_link ha] at hb
  split at hb
  next he =>
    cases hb
    refine ⟨a, he ▸ ha, fun x hx => ?_, fun l hl => ?_⟩
    · cases x <;> exact hx
    · rcases List.mem_append.1 hl with hl | hl
      · exact .inl hl
      · exact .inr ⟨he, List.mem_singleton.1 hl⟩
  next => exact ⟨b, hb, fun x hx => hx, fun l hl => .inl hl⟩

theorem Store.links_link (ha : s.accumulator? source = some a) (x y : AccumulatorId) :
    (s.link source target a).Links x y ↔ s.Links x y ∨ x = source ∧ y = target := by
  constructor
  · rintro ⟨b, l, hb, hl, hrole⟩
    obtain ⟨c, hc, -, hlisteners⟩ := Store.before_link ha hb
    rcases hlisteners l hl with hl | ⟨rfl, rfl⟩
    · exact .inl ⟨c, l, hc, hl, hrole⟩
    · cases hrole
      exact .inr ⟨rfl, rfl⟩
  · rintro (⟨c, l, hc, hl, hrole⟩ | ⟨rfl, rfl⟩)
    · obtain ⟨b, hb, he⟩ := Store.gains_link ha target x c hc
      exact ⟨b, l, hb, he.listeners.subset hl, hrole⟩
    · refine ⟨_, ⟨s.listenerCount, .forward y⟩, (Store.accumulator?_link ha y x).trans (if_pos rfl),
        ?_, rfl⟩
      exact List.mem_append_right _ (List.mem_singleton.2 rfl)

theorem Store.Web.link (hs : s.Web) (ha : s.accumulator? source = some a)
    (hb : s.accumulator? target = some b) : (s.link source target a).Web := by
  have hcounted : ({ s with listenerCount := s.listenerCount + 1 } : Store κ).Web :=
    ⟨hs.live, fun id c hc => (hs.wired id c hc).mono (.refl s) (Nat.le_succ _)⟩
  refine hcounted.modify ha (.register a _) ⟨fun l hl => ?_, fun l hl => ?_, ?_⟩
  · rcases List.mem_append.1 hl with hl | hl
    · exact (hs.wired source a ha).forwards l hl
    · rw [List.mem_singleton.1 hl]
      exact ⟨target, b, rfl, hb⟩
  · rcases List.mem_append.1 hl with hl | hl
    · exact Nat.lt_succ_of_lt ((hs.wired source a ha).numbered l hl)
    · rw [List.mem_singleton.1 hl]
      exact Nat.lt_succ_self _
  · exact (hs.wired source a ha).best

theorem Machine.Relaying.forward (hs : s.Web) (hc : s.Closed)
    (ha : s.accumulator? source = some a) (hb : s.accumulator? target = some b) (w : σ) :
    Machine.Relaying (a.trees.map (fun t => .length t.length) ++ a.failures.map .failure)
      ⟨s.link source target a, w, a.catchUp s.listenerCount source target⟩ := by
  have hgains : s.Gains (s.link source target a) := Store.gains_link ha target
  have hsource := (Store.accumulator?_link ha target source).trans (if_pos rfl)
  obtain ⟨b', hb', -⟩ := hgains target b hb
  refine ⟨hs.link ha hb, fun j hj => ?_, fun x y c z hlink hx hz => ?_⟩
  · rcases List.mem_append.1 hj with hj | hj
    · obtain ⟨t, ht, rfl⟩ := List.mem_map.1 hj
      exact ⟨⟨target, b', rfl, hb'⟩, List.mem_append_left _ (List.mem_map.2 ⟨t, ht, rfl⟩)⟩
    · rw [List.mem_singleton.1 hj]
      refine ⟨⟨_, hsource, fun f hf => ?_⟩, b', hb'⟩
      exact List.mem_append_right _ (List.mem_map.2 ⟨f, hf, rfl⟩)
  · obtain ⟨c', hc', hholds, -⟩ := Store.before_link ha hx
    rcases (Store.links_link ha x y).1 hlink with hlink | ⟨rfl, rfl⟩
    · obtain ⟨d, hd, hcovers⟩ := hc x y c' z hlink hc' (hholds z hz)
      obtain ⟨d', hd', he⟩ := hgains y d hd
      exact .inl ⟨d', hd', he.covers hcovers⟩
    · cases ha.symm.trans hc'
      right
      cases z with
      | found t =>
        refine ⟨_, List.mem_append_left _ (List.mem_map.2 ⟨t, hholds _ hz, rfl⟩), rfl, ?_⟩
        exact .refl _
      | failed f =>
        refine ⟨_, List.mem_append_right _ (List.mem_singleton.2 rfl), rfl, _, f, hsource, ?_, ?_⟩
        · exact hholds _ hz
        · exact .refl _

/-- Every such operation comes to an end, by when all is passed on along all links. -/
theorem Operation.Relays.settles (e : Engine κ σ) (w : σ) (ho : o.Relays s) (hs : s.Web)
    (hc : s.Closed) :
    ∃ n s', (∀ k, n ≤ k → Machine.run e k ⟨s, w, [.operate o]⟩ = ⟨s', w, []⟩) ∧ s'.Web ∧
      s'.Closed ∧ s.Gains s' ∧
      ∀ x y, s'.Links x y ↔ s.Links x y ∨ o = .forward x y := by
  have hoffer {target : AccumulatorId} {b : Accumulator κ}
      (hb : s.accumulator? target = some b) (news : News) :
      ∃ n s', (∀ k, n ≤ k → Machine.run e k ⟨s, w, [.operate (news.offerTo target)]⟩ =
        ⟨s', w, []⟩) ∧ s'.Web ∧ s'.Closed ∧ s.Gains s' ∧
        ∀ x y, s'.Links x y ↔ s.Links x y ∨ (news.offerTo target : Operation κ) = .forward x y := by
    obtain ⟨n, s', hrun, hweb, hclosed, hpasses⟩ :=
      (Machine.Relaying.offer hs hc hb news w).settles e
    refine ⟨n, s', hrun, hweb, hclosed, hpasses.gains, fun x y => ?_⟩
    have hnot : (news.offerTo target : Operation κ) ≠ .forward x y := by
      cases news <;> simp [News.offerTo]
    rw [hpasses.links x y, or_iff_left hnot]
  cases o with
  | addTree target t =>
    obtain ⟨b, hb⟩ := ho
    exact hoffer hb (.found t)
  | addFailure target f =>
    obtain ⟨b, hb⟩ := ho
    exact hoffer hb (.failed f)
  | forward source target =>
    obtain ⟨⟨a, ha⟩, b, hb⟩ := ho
    obtain ⟨n, s', hrun, hweb, hclosed, hpasses⟩ :=
      (Machine.Relaying.forward hs hc ha hb w).settles e
    have hgains : s.Gains (s.link source target a) := Store.gains_link ha target
    refine ⟨n + 3, s', fun k hk => ?_, hweb, hclosed, hgains.trans hpasses.gains, fun x y => ?_⟩
    · obtain ⟨k, rfl⟩ : ∃ j, k = j + 3 := ⟨k - 3, by omega⟩
      rw [Machine.run_forward hs ha]
      exact hrun k (by omega)
    · rw [hpasses.links x y, Store.links_link ha, Operation.forward.injEq]
      simp only [eq_comm]
  | _ => exact ho.elim

theorem Engine.Network.closed (hn : e.Network s) : s.Web ∧ s.Closed := by
  induction hn with
  | start hblank =>
    refine ⟨⟨fun id a ha => (hblank id a ha).1, fun id a ha => ?_⟩, ?_⟩
    · rw [(hblank id a ha).2]
      exact ⟨by simp, by simp, rfl⟩
    · intro source target a x _ ha hx
      rw [(hblank source a ha).2] at hx
      cases x <;> cases hx
  | @call s s' o w w' n _ ho hrun ih =>
    obtain ⟨hs, hc⟩ := ih
    obtain ⟨k, s'', hsettles, hweb, hclosed, -⟩ := ho.settles e w hs hc
    have hsame : Machine.run e (max n k) ⟨s, w, [.operate o]⟩ = ⟨s', w', []⟩ :=
      (Machine.run_of_idle (by rw [hrun]) (Nat.le_max_left n k)).trans hrun
    rw [hsettles _ (Nat.le_max_right n k)] at hsame
    cases hsame
    exact ⟨hweb, hclosed⟩

end Calls

/-- Between calls whatever is recorded in an accumulator is recorded where it forwards to: of each
length a tree, and a failure at least as far as its best one. Each call comes to an end, and links
are added by calls for them alone. A call that offers something changes an accumulator at most in
that one tree of the length or that failure is recorded, and only if the links lead there. -/
theorem forwarding_closes {e : Engine κ σ} {s : Store κ} (hs : e.Network s) :
    (∀ source target, s.Links source target → ∃ a b, s.accumulator? source = some a ∧
      s.accumulator? target = some b ∧ (∀ t ∈ a.trees, ∃ u ∈ b.trees, u.length = t.length) ∧
      ∀ f, a.best = some f → ∃ f', b.best = some f' ∧ f.position ≤ f'.position) ∧
    ∀ (w : σ) (o : Operation κ), o.Relays s → ∃ n s',
      (∀ k, n ≤ k → Machine.run e k ⟨s, w, [.operate o]⟩ = ⟨s', w, []⟩) ∧ e.Network s' ∧
      (∀ source target, s'.Links source target ↔
        s.Links source target ∨ o = .forward source target) ∧
      ∀ id a, s.accumulator? id = some a → ∃ b, s'.accumulator? id = some b ∧ a.Extends b ∧
        (∀ target t, o = .addTree target t → b = a ∨ ReflTransGen s.Links target id ∧
          ∃ u : Tree, u.length = t.length ∧ b = a.record (.found u)) ∧
        ∀ target f, o = .addFailure target f → b = a ∨ ReflTransGen s.Links target id ∧
          b = a.record (.failed f) := by
  obtain ⟨hweb, hclosed⟩ := hs.closed
  refine ⟨fun source target hlink => ?_, fun w o ho => ?_⟩
  · obtain ⟨a, l, ha, hl, hrole⟩ := hlink
    obtain ⟨target', b, hrole', hb⟩ := (hweb.wired source a ha).forwards l hl
    cases hrole.symm.trans hrole'
    have hcovers (x : News) (hx : a.Holds x) : b.Covers x := by
      obtain ⟨b', hb', h⟩ := hclosed source target a x ⟨a, l, ha, hl, hrole⟩ ha hx
      cases hb.symm.trans hb'
      exact h
    refine ⟨a, b, ha, hb, fun t ht => ?_, fun f hf => ?_⟩
    · obtain ⟨y, hy, h⟩ := hcovers (.found t) ht
      cases y with
      | found u => exact ⟨u, hy, h⟩
      | failed f => exact h.elim
    · have hmem : f ∈ a.failures := mem_of_foldr_furthest ((hweb.wired source a ha).best ▸ hf)
      obtain ⟨y, hy, h⟩ := hcovers (.failed f) hmem
      cases y with
      | found u => exact h.elim
      | failed f' =>
        obtain ⟨best, hbest, hle⟩ := position_le_of_foldr_furthest hy
        exact ⟨best, (hweb.wired target b hb).best.trans hbest, Nat.le_trans h hle⟩
  · obtain ⟨n, s', hrun, -, -, hgains, hlinks⟩ := ho.settles e w hweb hclosed
    have hnetwork : e.Network s' := .call hs ho (hrun n (Nat.le_refl n))
    refine ⟨n, s', hrun, hnetwork, hlinks, fun id a ha => ?_⟩
    obtain ⟨b, hb, he⟩ := hgains id a ha
    have hspread {target : AccumulatorId} {c : Accumulator κ}
        (hc : s.accumulator? target = some c) (news : News)
        (hnews : o = news.offerTo target) :
        b = a ∨ ReflTransGen s.Links target id ∧ ∃ x, x.kind = news.kind ∧ b = a.record x := by
      subst hnews
      have hspreads := (Machine.Spreads.offer s target news w).run (e := e)
        (.offer hweb hclosed hc news w) n
      rw [hrun n (Nat.le_refl n)] at hspreads
      obtain ⟨a', ha', h⟩ := hspreads.changed id b hb
      cases ha.symm.trans ha'
      exact h
    refine ⟨b, hb, he, ?_, ?_⟩
    · rintro target t rfl
      obtain ⟨c, hc⟩ := ho
      rcases hspread hc (.found t) rfl with hsame | ⟨hreach, x, hx, hrecord⟩
      · exact .inl hsame
      · cases x with
        | found u => exact .inr ⟨hreach, u, Kind.length.inj hx, hrecord⟩
        | failed f => cases hx
    · rintro target f rfl
      obtain ⟨c, hc⟩ := ho
      rcases hspread hc (.failed f) rfl with hsame | ⟨hreach, x, hx, hrecord⟩
      · exact .inl hsame
      · cases x with
        | found u => cases hx
        | failed f' =>
          cases hx
          exact .inr ⟨hreach, hrecord⟩

namespace Ring

def engine : Engine Empty Unit := .standard ⟨#[]⟩

/-- Two accumulators of one document, at different positions. -/
def start : Store Empty :=
  { accumulators := #[{ context := 1, parser := 0, position := 0 },
      { context := 1, parser := 1, position := 3 }], heldAccumulators := [0, 1] }

def after (s : Store Empty) (o : Operation Empty) : Machine Empty Unit :=
  Machine.run engine 40 ⟨s, (), [.operate o]⟩

/-- The first one failed, then it was linked to the second one, then it found something. -/
def failed : Store Empty := (after start (.addFailure 0 ⟨5, "Expected x", 0, 1⟩)).store

def linked : Store Empty := (after failed (.forward 0 1)).store

def grown : Store Empty := (after linked (.addTree 0 (.leaf 0 0 2))).store

theorem network_start : engine.Network start := by
  refine .start fun id a ha => ?_
  match id with
  | 0 => cases ha; exact ⟨rfl, rfl⟩
  | 1 => cases ha; exact ⟨rfl, rfl⟩
  | n + 2 => simp [start, Store.accumulator?] at ha

theorem network_after {s : Store Empty} {o : Operation Empty} (hs : engine.Network s)
    (ho : o.Relays s) (h : (after s o).agenda.isEmpty = true) : engine.Network (after s o).store := by
  have hrun : after s o = ⟨(after s o).store, (), []⟩ := by
    rw [← List.isEmpty_iff.1 h]
  exact .call hs ho hrun

theorem exists_accumulator {s : Store Empty} {id : AccumulatorId}
    (h : (s.accumulator? id).isSome = true) : ∃ a, s.accumulator? id = some a :=
  Option.isSome_iff_exists.1 h

theorem network_grown : engine.Network grown := by
  have hfails : (.addFailure 0 ⟨5, "Expected x", 0, 1⟩ : Operation Empty).Relays start :=
    exists_accumulator (by decide +kernel)
  have hforwards : (.forward 0 1 : Operation Empty).Relays failed :=
    ⟨exists_accumulator (by decide +kernel), exists_accumulator (by decide +kernel)⟩
  have hgrows : (.addTree 0 (.leaf 0 0 2) : Operation Empty).Relays linked :=
    exists_accumulator (by decide +kernel)
  have hfailed := network_after network_start hfails (by decide +kernel)
  have hlinked := network_after hfailed hforwards (by decide +kernel)
  exact network_after hlinked hgrows (by decide +kernel)

end Ring

/-- A link back closes the circle: what the second accumulator heard from the first one comes to
that one again, and there it ends. -/
theorem forwarding_closes_ring :
    ∃ n s', (∀ k, n ≤ k → Machine.run Ring.engine k ⟨Ring.grown, (), [.operate (.forward 1 0)]⟩ =
        ⟨s', (), []⟩) ∧
      ∃ a b t, s'.accumulator? 1 = some a ∧ s'.accumulator? 0 = some b ∧ t ∈ a.trees ∧
        (∃ u ∈ b.trees, u.length = t.length) ∧
        ∀ f, a.best = some f → ∃ f', b.best = some f' ∧ f.position ≤ f'.position := by
  have ho : (.forward 1 0 : Operation Empty).Relays Ring.grown :=
    ⟨Ring.exists_accumulator (by decide +kernel), Ring.exists_accumulator (by decide +kernel)⟩
  obtain ⟨n, s', hrun, hs', hlinks, hchange⟩ := (forwarding_closes Ring.network_grown).2 () _ ho
  have hlink : s'.Links 1 0 := (hlinks 1 0).2 (.inr rfl)
  obtain ⟨a, b, ha, hb, htrees, hbest⟩ := (forwarding_closes hs').1 1 0 hlink
  have hheard : (Ring.grown.accumulator? 1).any
      (·.trees.contains (.wrap 1 (.leaf 0 0 2))) = true := by decide +kernel
  cases ha₀ : Ring.grown.accumulator? 1 with
  | none =>
    rw [ha₀] at hheard
    cases hheard
  | some a₀ =>
    rw [ha₀, Option.any_some, List.contains_iff_mem] at hheard
    obtain ⟨a', ha', hextends, -⟩ := hchange 1 a₀ ha₀
    cases ha.symm.trans ha'
    have ht := hextends.trees.subset hheard
    exact ⟨n, s', hrun, a, b, _, ha, hb, ht, htrees _ ht, hbest⟩

end PushParsing
