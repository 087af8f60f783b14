import Mathlib.Data.List.Forall2
import PushParsing.Proofs.Completeness
import PushParsing.Proofs.Diary
import PushParsing.Proofs.OrderedMap
import PushParsing.Proofs.Shift

/-!
# Contexts alike

Two contexts, of one store or of two, in which the same was done are alike: the same pairs were asked
for, in the same order, and the accumulators of a pair in the one and in the other hold the same. The
numbers of accumulators, of listeners and of the contexts themselves may differ, and the document of
the second one may have `δ` bytes more in front, so that all that happens there happens `δ` bytes
further on. What is done in both contexts alike, step by step, leaves them alike.
-/
namespace PushParsing

/-- The failure as another context tells it, further on in its document. -/
def Failure.moved (δ : Nat) (c : ContextNumber) (f : Failure) : Failure := (f.shift δ).within c

/-- The same of whatever is recorded. -/
def News.moved (δ : Nat) (c : ContextNumber) : News → News
  | found t => found (t.shift δ)
  | failed f => failed (f.moved δ c)

/-- The sequence on behalf of another accumulator, further on in its document. -/
def Sequel.moved (δ : Nat) (target : AccumulatorId) (r : Sequel) : Sequel :=
  ⟨target, r.start + δ, r.taken.map (Tree.shift δ), r.rest⟩

/-- Two tables have entries for the same pairs, in one order, and counted alike. -/
structure Memo.Table.Alike (δ : Nat) (t t' : Memo.Table AccumulatorId) : Prop where
  pairs : t'.entries.toList.map Entry.pair =
    t.entries.toList.map fun e => (e.position + δ, e.parser)
  hits : t'.hits = t.hits
  misses : t'.misses = t.misses

section Relations

variable (s s' : Store Empty) (c c' : ContextNumber) (δ : Nat)

/-- The accumulators of one pair, in the one context and in the other. -/
def Twins (id id' : AccumulatorId) : Prop :=
  ∃ p i, s.IsFor id c p i ∧ s'.IsFor id' c' p (i + δ)

/-- Listeners that do the same, each for an accumulator of its context. -/
inductive Role.Alike : Role Empty → Role Empty → Prop
  | forward {id id' : AccumulatorId} : Twins s s' c c' δ id id' → Alike (.forward id) (.forward id')
  | element {r : Sequel} {id' : AccumulatorId} : Twins s s' c c' δ r.target id' →
      Alike (.element r) (.element (r.moved δ id'))

/-- Jobs that do the same, each in its context. -/
inductive Job.Alike : Job Empty → Job Empty → Prop
  | offer {id id' : AccumulatorId} (news : News) : Twins s s' c c' δ id id' →
      Alike (.operate (news.offerTo id)) (.operate ((news.moved δ c').offerTo id'))
  | addStop {id id' : AccumulatorId} (stop : Nat) : Twins s s' c c' δ id id' →
      Alike (.operate (.addStop id stop)) (.operate (.addStop id' (stop + δ)))
  | failAt {id id' : AccumulatorId} (message : String) (position : Nat) : Twins s s' c c' δ id id' →
      Alike (.operate (.failAt id message position)) (.operate (.failAt id' message (position + δ)))
  | listen {id id' : AccumulatorId} {role role' : Role Empty} (n n' : Nat) :
      Twins s s' c c' δ id id' → role.Alike s s' c c' δ role' →
      Alike (.operate (.listen id ⟨n, role⟩)) (.operate (.listen id' ⟨n', role'⟩))
  | watch {id id' : AccumulatorId} {role role' : Role Empty} : Twins s s' c c' δ id id' →
      role.Alike s s' c c' δ role' → Alike (.operate (.watch id role)) (.operate (.watch id' role'))
  | forward {source source' target target' : AccumulatorId} : Twins s s' c c' δ source source' →
      Twins s s' c c' δ target target' →
      Alike (.operate (.forward source target)) (.operate (.forward source' target'))
  | ask (q : ParserId) (k : Nat) {next next' : Next Empty} :
      next.role.Alike s s' c c' δ next'.role → Alike (.ask c q k next) (.ask c' q (k + δ) next')
  | start {id id' : AccumulatorId} : Twins s s' c c' δ id id' → Alike (.start id) (.start id')
  | proceed {id id' : AccumulatorId} {next next' : Next Empty} :
      next.role.Alike s s' c c' δ next'.role → Twins s s' c c' δ id id' →
      Alike (.proceed next id) (.proceed next' id')
  | tell {id id' : AccumulatorId} {role role' : Role Empty} (n n' : Nat) (news : News) :
      role.Alike s s' c c' δ role' → Twins s s' c c' δ id id' →
      Alike (.tell ⟨n, role⟩ id news) (.tell ⟨n', role'⟩ id' (news.moved δ c'))
  | carry {source source' target target' : AccumulatorId} : Twins s s' c c' δ source source' →
      Twins s s' c c' δ target target' → Alike (.carry source target) (.carry source' target')

/-- Accumulators that hold the same and are listened to alike. -/
structure Accumulator.Alike (a a' : Accumulator Empty) : Prop where
  trees : a'.trees = a.trees.map (Tree.shift δ)
  best : a'.best = a.best.map (Failure.moved δ c')
  failures : a'.failures = a.failures.map (Failure.moved δ c')
  listeners : List.Forall₂ (fun l l' => l.role.Alike s s' c c' δ l'.role) a.listeners a'.listeners

/-- The contexts are alike: in their documents, in the pairs asked for, and in what the accumulators
of each pair hold. -/
structure Store.Alike : Prop where
  context : ∃ x x', s.context? c = some x ∧ s'.context? c' = some x' ∧
    x'.document.EndsWith δ x.document ∧ x.memo.Alike δ x'.memo
  accumulator : ∀ id id' a a', Twins s s' c c' δ id id' → s.accumulator? id = some a →
    s'.accumulator? id' = some a' → a.Alike s s' c c' δ a'

/-- The outcomes of two jobs are alike: the stores that they leave and the jobs that they call for. -/
def Outcome.Alike (r r' : Store Empty × Unit × List (Job Empty)) : Prop :=
  r.1.Alike r'.1 c c' δ ∧ List.Forall₂ (Job.Alike r.1 r'.1 c c' δ) r.2.2 r'.2.2

end Relations

variable {g : Grammar Empty} {d : Document} {s s' t t' : Store Empty} {c c' : ContextNumber}
  {id id' k k' : AccumulatorId} {a a' b b' : Accumulator Empty} {δ : Nat}

section Growth

variable (hst : s.Grows t) (hst' : s'.Grows t')
include hst hst'

theorem Twins.mono (h : Twins s s' c c' δ id id') : Twins t t' c c' δ id id' := by
  obtain ⟨p, i, hid, hid'⟩ := h
  exact ⟨p, i, hst.isFor hid, hst'.isFor hid'⟩

theorem Role.Alike.mono {role role' : Role Empty} (h : role.Alike s s' c c' δ role') :
    role.Alike t t' c c' δ role' := by
  cases h with
  | forward ht => exact .forward (ht.mono hst hst')
  | element ht => exact .element (ht.mono hst hst')

theorem Job.Alike.mono {j j' : Job Empty} (h : j.Alike s s' c c' δ j') :
    j.Alike t t' c c' δ j' := by
  cases h with
  | offer news ht => exact .offer news (ht.mono hst hst')
  | addStop n ht => exact .addStop n (ht.mono hst hst')
  | failAt m n ht => exact .failAt m n (ht.mono hst hst')
  | listen n n' ht hr => exact .listen n n' (ht.mono hst hst') (hr.mono hst hst')
  | watch ht hr => exact .watch (ht.mono hst hst') (hr.mono hst hst')
  | forward ht hu => exact .forward (ht.mono hst hst') (hu.mono hst hst')
  | ask q i hr => exact .ask q i (hr.mono hst hst')
  | start ht => exact .start (ht.mono hst hst')
  | proceed hr ht => exact .proceed (hr.mono hst hst') (ht.mono hst hst')
  | tell n n' news hr ht => exact .tell n n' news (hr.mono hst hst') (ht.mono hst hst')
  | carry ht hu => exact .carry (ht.mono hst hst') (hu.mono hst hst')

theorem Accumulator.Alike.mono (h : a.Alike s s' c c' δ a') : a.Alike t t' c c' δ a' :=
  ⟨h.trees, h.best, h.failures, h.listeners.imp fun _ _ hr => hr.mono hst hst'⟩

end Growth

section Tables

variable {t t' : Memo.Table AccumulatorId} (h : t.Alike δ t') (hv : t.Valid) (hv' : t'.Valid)
include h hv hv'

/-- Where the one has no entry for a pair the other has none. -/
theorem Memo.Table.Alike.peek?_eq_none_iff (i : Nat) (p : ParserId) :
    t'.peek? (i + δ) p = none ↔ t.peek? i p = none := by
  have hpairs : (∀ e' ∈ t'.entries.toList, ¬(e'.position = i + δ ∧ e'.parser = p)) ↔
      (i + δ, p) ∉ t'.entries.toList.map Entry.pair := by
    simp only [List.mem_map, Entry.pair, Prod.mk.injEq, not_exists, not_and]
  rw [hv.peek?_eq_none_iff, hv'.peek?_eq_none_iff, hpairs, h.pairs]
  simp only [List.mem_map, Prod.mk.injEq, not_exists, not_and, Nat.add_right_cancel_iff]

theorem Memo.Table.Alike.get? (i : Nat) (p : ParserId) :
    (t.get? i p).2.Alike δ (t'.get? (i + δ) p).2 := by
  have hnone := h.peek?_eq_none_iff hv hv' i p
  simp only [Table.get?]
  cases hp : t.peek? i p with
  | none =>
    rw [hnone.2 hp]
    exact ⟨h.pairs, h.hits, congrArg (· + 1) h.misses⟩
  | some v =>
    obtain ⟨v', hv'⟩ := Option.ne_none_iff_exists'.1 fun hn => by rw [hnone.1 hn] at hp; cases hp
    rw [hv']
    exact ⟨h.pairs, congrArg (· + 1) h.hits, h.misses⟩

theorem Memo.Table.Alike.getOrInsert (i : Nat) (p : ParserId) (v v' : AccumulatorId) :
    (t.getOrInsert i p v).2.2.Alike δ (t'.getOrInsert (i + δ) p v').2.2 := by
  have hnone := h.peek?_eq_none_iff hv hv' i p
  simp only [Table.getOrInsert]
  cases hp : t.peek? i p with
  | none =>
    rw [hnone.2 hp]
    obtain ⟨hhits, hmisses, -⟩ := counts_insert t i p v
    obtain ⟨hhits', hmisses', -⟩ := counts_insert t' (i + δ) p v'
    refine ⟨?_, by rw [hhits, hhits', h.hits], by rw [hmisses, hmisses', h.misses]⟩
    simp only [toList_entries_insert, List.map_append, h.pairs, List.map_cons, List.map_nil,
      Entry.pair]
  | some u =>
    obtain ⟨u', hu'⟩ := Option.ne_none_iff_exists'.1 fun hn => by rw [hnone.1 hn] at hp; cases hp
    rw [hu']
    exact ⟨h.pairs, congrArg (· + 1) h.hits, h.misses⟩

end Tables

section Stores

/-- The accumulators of twins are there, for one pair, and alike. -/
theorem Store.Alike.accumulators (h : s.Alike s' c c' δ) (ht : Twins s s' c c' δ id id') :
    ∃ a a', s.accumulator? id = some a ∧ s'.accumulator? id' = some a' ∧ a.context = c ∧
      a'.context = c' ∧ a'.parser = a.parser ∧ a'.position = a.position + δ ∧
      a.Alike s s' c c' δ a' := by
  have halike := h.accumulator id id'
  have htwins := ht
  obtain ⟨p, i, ⟨a, ha, hc, rfl, rfl⟩, a', ha', hc', hp', hi'⟩ := ht
  exact ⟨a, a', ha, ha', hc, hc', hp', hi', halike a a' htwins ha ha'⟩

/-- What is a pair's accumulator in the one context has one twin in the other. -/
theorem Twins.eq_iff (hs : s.Sound g) (hs' : s'.Sound g) (h : Twins s s' c c' δ id id')
    (hk : Twins s s' c c' δ k k') : k = id ↔ k' = id' := by
  obtain ⟨p, i, hid, hid'⟩ := h
  obtain ⟨q, m, hk, hk'⟩ := hk
  constructor
  · rintro rfl
    obtain ⟨-, rfl, rfl⟩ := hid.unique hk
    exact Option.some.inj ((hs'.isFor_iff.1 hk').symm.trans (hs'.isFor_iff.1 hid'))
  · rintro rfl
    obtain ⟨-, rfl, him⟩ := hid'.unique hk'
    obtain rfl := Nat.add_right_cancel him
    exact Option.some.inj ((hs.isFor_iff.1 hk).symm.trans (hs.isFor_iff.1 hid))

/-- Contexts stay alike while accumulators stay as they are. -/
theorem Store.Alike.still (h : s.Alike s' c c' δ) (hst : s.Grows t) (hst' : s'.Grows t')
    (ha : t.accumulators = s.accumulators) (ha' : t'.accumulators = s'.accumulators)
    (hx : ∃ x x', t.context? c = some x ∧ t'.context? c' = some x' ∧
      x'.document.EndsWith δ x.document ∧ x.memo.Alike δ x'.memo) : t.Alike t' c c' δ where
  context := hx
  accumulator id id' a a' ht hid hid' := by
    obtain ⟨p, i, hp, hp'⟩ := ht
    have ht : Twins s s' c c' δ id id' :=
      ⟨p, i, (Store.isFor_congr ha).1 hp, (Store.isFor_congr ha').1 hp'⟩
    rw [accumulator?_congr ha] at hid
    rw [accumulator?_congr ha'] at hid'
    exact (h.accumulator id id' a a' ht hid hid').mono hst hst'

/-- Contexts stay alike while twins change alike. -/
theorem Store.Alike.modify (hs : s.Sound g) (hs' : s'.Sound g) (h : s.Alike s' c c' δ)
    (ht : Twins s s' c c' δ id id') (ha : s.accumulator? id = some a)
    (ha' : s'.accumulator? id' = some a') (hab : a.Extends b) (hab' : a'.Extends b')
    (hb : b.Alike s s' c c' δ b') :
    (s.modifyAccumulator id fun _ => b).Alike (s'.modifyAccumulator id' fun _ => b') c c' δ where
  context := h.context
  accumulator k k' x x' hk hx hx' := by
    have hst : s.Grows (s.modifyAccumulator id fun _ => b) := .modify ha hab rfl rfl rfl
    have hst' : s'.Grows (s'.modifyAccumulator id' fun _ => b') := .modify ha' hab' rfl rfl rfl
    obtain ⟨p, i, hp, hp'⟩ := hk
    have hk : Twins s s' c c' δ k k' :=
      ⟨p, i, (Store.isFor_modify ha hab rfl).1 hp, (Store.isFor_modify ha' hab' rfl).1 hp'⟩
    rw [accumulator?_modify ha rfl] at hx
    rw [accumulator?_modify ha' rfl] at hx'
    by_cases he : k = id
    · rw [if_pos he] at hx
      rw [if_pos ((ht.eq_iff hs hs' hk).1 he)] at hx'
      cases hx
      cases hx'
      exact hb.mono hst hst'
    · rw [if_neg he] at hx
      rw [if_neg fun he' => he ((ht.eq_iff hs hs' hk).2 he')] at hx'
      exact (h.accumulator k k' x x' hk hx hx').mono hst hst'

/-- A context after a pair was asked for. -/
theorem Store.context?_request {x : Context} (hx : s.context? c = some x) (p : ParserId) (i : Nat) :
    (s.request c p i).2.2.context? c =
      some { x with memo := (x.memo.getOrInsert i p s.accumulators.size).2.2 } := by
  have hsome : s.peek? c p i = none → (s.context? c).isSome := fun _ => by rw [hx]; rfl
  rw [context?_congr (contexts_request hsome), context?_modifyMemo, if_pos rfl, hx]
  rfl

/-- A pair is asked for in both contexts: it is new in both or in none, and its accumulators are
twins. -/
theorem Store.Alike.request (hs : s.Sound g) (hs' : s'.Sound g) (h : s.Alike s' c c' δ)
    (p : ParserId) (i : Nat) : (s'.request c' p (i + δ)).2.1 = (s.request c p i).2.1 ∧
      Twins (s.request c p i).2.2 (s'.request c' p (i + δ)).2.2 c c' δ (s.request c p i).1
        (s'.request c' p (i + δ)).1 ∧
      (s.request c p i).2.2.Alike (s'.request c' p (i + δ)).2.2 c c' δ := by
  obtain ⟨x, x', hx, hx', hdoc, hmemo⟩ := h.context
  have hv : x.memo.Valid := hs.valid c x hx
  have hv' : x'.memo.Valid := hs'.valid c' x' hx'
  have hd : s.document? c = some x.document := by rw [Store.document?, hx]; rfl
  have hd' : s'.document? c' = some x'.document := by rw [Store.document?, hx']; rfl
  obtain ⟨hsound, hst, hid⟩ := hs.request hd p i
  obtain ⟨hsound', hst', hid'⟩ := hs'.request hd' p (i + δ)
  have htwins : Twins (s.request c p i).2.2 (s'.request c' p (i + δ)).2.2 c c' δ
      (s.request c p i).1 (s'.request c' p (i + δ)).1 := ⟨p, i, hid, hid'⟩
  have hcontext : ∃ y y', (s.request c p i).2.2.context? c = some y ∧
      (s'.request c' p (i + δ)).2.2.context? c' = some y' ∧ y'.document.EndsWith δ y.document ∧
      y.memo.Alike δ y'.memo :=
    ⟨_, _, Store.context?_request hx p i, Store.context?_request hx' p (i + δ), hdoc,
      hmemo.getOrInsert hv hv' i p s.accumulators.size s'.accumulators.size⟩
  have hnone : s'.peek? c' p (i + δ) = none ↔ s.peek? c p i = none := by
    simpa only [Store.peek?, hx, hx', Option.bind_some] using hmemo.peek?_eq_none_iff hv hv' i p
  cases hp : s.peek? c p i with
  | some k =>
    obtain ⟨k', hp'⟩ := Option.ne_none_iff_exists'.1 fun hn => by rw [hnone.1 hn] at hp; cases hp
    obtain ⟨-, hnew, hacc⟩ := Store.request_old hp
    obtain ⟨-, hnew', hacc'⟩ := Store.request_old hp'
    exact ⟨hnew'.trans hnew.symm, htwins, h.still hst hst' hacc hacc' hcontext⟩
  | none =>
    obtain ⟨hlast, hnew, hacc⟩ := Store.request_new hp (Store.isSome_context hd)
    obtain ⟨hlast', hnew', hacc'⟩ := Store.request_new (hnone.2 hp) (Store.isSome_context hd')
    refine ⟨hnew'.trans hnew.symm, htwins, hcontext, fun k k' a a' hk ha ha' => ?_⟩
    have hnewest := htwins.eq_iff hsound hsound' hk
    rw [hlast, hlast'] at hnewest
    rw [accumulator?_push hacc] at ha
    rw [accumulator?_push hacc'] at ha'
    by_cases he : k = s.accumulators.size
    · rw [if_pos he] at ha
      rw [if_pos (hnewest.1 he)] at ha'
      cases ha
      cases ha'
      exact ⟨rfl, rfl, rfl, .nil⟩
    · have he' := fun he' => he (hnewest.2 he')
      rw [if_neg he] at ha
      rw [if_neg he'] at ha'
      obtain ⟨q, m, hq, hq'⟩ := hk
      rw [Store.isFor_push hacc, if_neg he] at hq
      rw [Store.isFor_push hacc', if_neg he'] at hq'
      exact (h.accumulator k k' a a' ⟨q, m, hq, hq'⟩ ha ha').mono hst hst'

end Stores

section Recording

theorem Failure.furthest_moved (δ : Nat) (c : ContextNumber) (best : Option Failure)
    (f : Failure) :
    (furthest best f).map (moved δ c) = furthest (best.map (moved δ c)) (f.moved δ c) := by
  cases best with
  | none => rfl
  | some b =>
    simp only [furthest, Option.map_some, moved, within, shift, Nat.add_lt_add_iff_right]
    split <;> rfl

theorem Failure.moved_inj {f f' : Failure} (hf : f.context = c) (hf' : f'.context = c) :
    f.moved δ c' = f'.moved δ c' ↔ f = f' := by
  refine ⟨fun h => ?_, fun h => h ▸ rfl⟩
  obtain ⟨position, message, parser, context⟩ := f
  obtain ⟨position', message', parser', context'⟩ := f'
  obtain rfl : context = c := hf
  obtain rfl : context' = context := hf'
  simp only [moved, within, shift, mk.injEq, Nat.add_right_cancel_iff] at h
  obtain ⟨rfl, rfl, rfl, -⟩ := h
  rfl

theorem Genuine.context {p : ParserId} {i : Nat} {f : Failure} (h : Genuine g d c p i f) :
    f.context = c := by
  obtain ⟨q, k, -, hf⟩ := h
  obtain ⟨cause, -, rfl⟩ := Option.map_eq_some_iff.1 hf
  rfl

/-- What is new to the one of two accumulators alike is new to the other. -/
theorem Accumulator.Alike.isNew_iff (h : a.Alike s s' c c' δ a')
    (hf : ∀ f ∈ a.failures, f.context = c) (news : News)
    (hn : ∀ f, news = .failed f → f.context = c) : a'.IsNew (news.moved δ c') ↔ a.IsNew news := by
  cases news with
  | found t =>
    simp only [News.moved, IsNew, hasLength, h.trees, List.any_map, Function.comp_def,
      Tree.length_shift]
  | failed f =>
    simp only [News.moved, IsNew, h.failures, List.mem_map]
    refine not_congr ⟨?_, fun hmem => ⟨f, hmem, rfl⟩⟩
    rintro ⟨f', hmem, heq⟩
    exact (Failure.moved_inj (hf f' hmem) (hn f rfl)).1 heq ▸ hmem

theorem Accumulator.Alike.record (h : a.Alike s s' c c' δ a') (news : News) :
    (a.record news).Alike s s' c c' δ (a'.record (news.moved δ c')) := by
  cases news with
  | found t =>
    refine ⟨?_, h.best, h.failures, h.listeners⟩
    simp only [News.moved, Accumulator.record, h.trees, List.map_append, List.map_singleton]
  | failed f =>
    refine ⟨h.trees, ?_, congrArg (f.moved δ c' :: ·) h.failures, h.listeners⟩
    simp only [News.moved, Accumulator.record, h.best, Failure.furthest_moved]

theorem Accumulator.Alike.register (h : a.Alike s s' c c' δ a') {l l' : Listener Empty}
    (hl : l.role.Alike s s' c c' δ l'.role) :
    (a.register l).Alike s s' c c' δ (a'.register l') :=
  ⟨h.trees, h.best, h.failures, List.rel_append h.listeners (.cons hl .nil)⟩

/-- All who listen are told alike. -/
theorem Accumulator.Alike.broadcast (h : a.Alike s s' c c' δ a') (ht : Twins s s' c c' δ id id')
    (news : News) : List.Forall₂ (Job.Alike s s' c c' δ) (a.broadcast id news)
      (a'.broadcast id' (news.moved δ c')) := by
  rw [Accumulator.broadcast, Accumulator.broadcast, List.forall₂_map_left_iff,
    List.forall₂_map_right_iff]
  exact h.listeners.imp fun l l' hr => .tell l.id l'.id news hr ht

end Recording

section Jobs

variable {j j' : Job Empty}

/-- A listener that is to be registered has a number that was handed out, and no other one has it. -/
def Job.Unheard (s : Store Empty) (j : Job Empty) : Prop :=
  ∀ source l, j = .operate (.listen source l) → l.id < s.listenerCount ∧
    ∀ id a, s.accumulator? id = some a → ∀ l' ∈ a.listeners, l'.id ≠ l.id

variable (hs : s.Sound g) (hs' : s'.Sound g) (h : s.Alike s' c c' δ)

theorem Outcome.Alike.nothing (h : s.Alike s' c c' δ) :
    Outcome.Alike c c' δ (s, (), []) (s', (), []) :=
  ⟨h, .nil⟩

theorem Outcome.Alike.single (h : s.Alike s' c c' δ) (hj : j.Alike s s' c c' δ j') :
    Outcome.Alike c c' δ (s, (), [j]) (s', (), [j']) := ⟨h, .cons hj .nil⟩

include hs hs' h

/-- Something is offered to twins. -/
theorem Job.alike_offer (ht : Twins s s' c c' δ id id') {news : News}
    (hj : (Job.operate (news.offerTo id)).Sound g d s c) :
    Outcome.Alike c c' δ ((Job.operate (news.offerTo id)).perform (.standard g) s ())
      ((Job.operate ((news.moved δ c').offerTo id')).perform (.standard g) s' ()) := by
  obtain ⟨a, a', ha, ha', hc, hc', hparser, hposition, halike⟩ := h.accumulators ht
  obtain ⟨-, d', hd', hsound⟩ := hs.kept id a ha
  have hkeep : a'.keep (news.moved δ c') = (a.keep news).moved δ c' := by
    cases news with
    | found t => simp only [News.moved, Accumulator.keep, Accumulator.adopt_shift hparser]
    | failed f => rfl
  have hcontext (f : Failure) (hf : a.keep news = .failed f) : f.context = c := by
    cases news with
    | found t => cases hf
    | failed f' =>
      cases hf
      obtain ⟨p, i, -, hgenuine⟩ := hj
      exact hgenuine.context
  have hnew := halike.isNew_iff (fun f hf => hc ▸ (hsound.failures f hf).context) _ hcontext
  rw [Job.perform_offerTo _ () news ha, Job.perform_offerTo _ () (news.moved δ c') ha', hkeep]
  by_cases hn : a.IsNew (a.keep news)
  · rw [if_pos hn, if_pos (hnew.2 hn)]
    refine ⟨h.modify hs hs' ht ha ha' (.record ..) (.record ..) (halike.record _), ?_⟩
    refine (halike.broadcast ht _).imp fun j j' hjj => hjj.mono ?_ ?_
    · exact .modify ha (.record ..) rfl rfl rfl
    · exact .modify ha' (.record ..) rfl rfl rfl
  · rw [if_neg hn, if_neg fun hn' => hn (hnew.1 hn')]
    exact .nothing h

omit hs hs' in
theorem Job.alike_addStop (ht : Twins s s' c c' δ id id') {stop : Nat}
    (hj : (Job.operate (.addStop id stop)).Sound g d s c) :
    Outcome.Alike c c' δ ((Job.operate (.addStop id stop)).perform (.standard g) s ())
      ((Job.operate (.addStop id' (stop + δ))).perform (.standard g) s' ()) := by
  obtain ⟨a, a', ha, ha', -, -, hparser, hposition, -⟩ := h.accumulators ht
  -- a refusal would tell of offsets that lie further on in the second document
  have hle : a.position ≤ stop := by
    obtain ⟨p, i, ⟨b, hb, -, -, rfl⟩, -, hle, -⟩ := hj
    cases ha.symm.trans hb
    exact hle
  simp only [perform, Operation.perform, ha, ha', hparser, hposition, Nat.add_lt_add_iff_right,
    if_neg (Nat.not_lt.2 hle), ← Tree.shift_leaf]
  exact .single h (.offer (.found (.leaf a.parser a.position stop)) ht)

omit hs hs' in
theorem Job.alike_failAt (ht : Twins s s' c c' δ id id') (message : String) (position : Nat) :
    Outcome.Alike c c' δ ((Job.operate (.failAt id message position)).perform (.standard g) s ())
      ((Job.operate (.failAt id' message (position + δ))).perform (.standard g) s' ()) := by
  obtain ⟨a, a', ha, ha', -, hc', hparser, -, -⟩ := h.accumulators ht
  have hfailure : a'.failure message (position + δ) = (a.failure message position).moved δ c' := by
    rw [Accumulator.failure, Accumulator.failure, hparser, hc']
    rfl
  simp only [perform, Operation.perform, ha, ha', hfailure]
  exact .single h (.offer (.failed (a.failure message position)) ht)

/-- A listener that is new to both is registered with both. -/
theorem Job.alike_listen (ht : Twins s s' c c' δ id id') {l l' : Listener Empty}
    (hl : l.role.Alike s s' c c' δ l'.role) (hn : (Job.operate (.listen id l)).Unheard s)
    (hn' : (Job.operate (.listen id' l')).Unheard s') :
    Outcome.Alike c c' δ ((Job.operate (.listen id l)).perform (.standard g) s ())
      ((Job.operate (.listen id' l')).perform (.standard g) s' ()) := by
  obtain ⟨a, a', ha, ha', -, -, -, -, halike⟩ := h.accumulators ht
  have hnone (s : Store Empty) (id : AccumulatorId) (l : Listener Empty) (a : Accumulator Empty)
      (hn : (Job.operate (.listen id l)).Unheard s) (ha : s.accumulator? id = some a) :
      ¬a.listeners.any (·.id == l.id) := by
    simp only [List.any_eq_true, beq_iff_eq, not_exists, not_and]
    exact (hn id l rfl).2 id a ha
  simp only [perform, Operation.perform, ha, ha', Accumulator.addListener?_eq,
    if_neg (hnone s id l a hn ha), if_neg (hnone s' id' l' a' hn' ha')]
  refine ⟨h.modify hs hs' ht ha ha' (.register ..) (.register ..) (halike.register hl), ?_⟩
  rw [halike.trees, List.map_map, List.forall₂_map_left_iff, List.forall₂_map_right_iff,
    List.forall₂_same]
  intro t _
  have htell : (Job.tell l id (.found t)).Alike s s' c c' δ (.tell l' id' (.found (t.shift δ))) :=
    .tell l.id l'.id (.found t) hl ht
  have hst : s.Grows (s.modifyAccumulator id fun _ => a.register l) :=
    .modify ha (.register a l) rfl rfl rfl
  have hst' : s'.Grows (s'.modifyAccumulator id' fun _ => a'.register l') :=
    .modify ha' (.register a' l') rfl rfl rfl
  exact htell.mono hst hst'

theorem Job.alike_watch (ht : Twins s s' c c' δ id id') {role role' : Role Empty}
    (hr : role.Alike s s' c c' δ role') :
    Outcome.Alike c c' δ ((Job.operate (.watch id role)).perform (.standard g) s ())
      ((Job.operate (.watch id' role')).perform (.standard g) s' ()) := by
  have hst := hs.grows_perform (.operate (.watch id role)) ()
  have hst' := hs'.grows_perform (.operate (.watch id' role')) ()
  refine ⟨h.still hst hst' rfl rfl ?_, .cons (.mono hst hst' (.listen _ _ ht hr)) .nil⟩
  obtain ⟨x, x', hx, hx', hrest⟩ := h.context
  exact ⟨x, x', (Store.context?_congr rfl c).trans hx, (Store.context?_congr rfl c').trans hx',
    hrest⟩

theorem Job.alike_ask (q : ParserId) (i : Nat) {next next' : Next Empty}
    (hr : next.role.Alike s s' c c' δ next'.role) :
    Outcome.Alike c c' δ ((Job.ask c q i next).perform (.standard g) s ())
      ((Job.ask c' q (i + δ) next').perform (.standard g) s' ()) := by
  obtain ⟨hnew, ht, halike⟩ := h.request hs hs' q i
  have hst : s.Grows (s.request c q i).2.2 := hs.valid.request_grows
  have hst' : s'.Grows (s'.request c' q (i + δ)).2.2 := hs'.valid.request_grows
  have hproceed := Job.Alike.proceed (hr.mono hst hst') ht
  rw [Job.perform_ask, Job.perform_ask, hnew]
  refine ⟨halike, ?_⟩
  dsimp only
  split
  · exact .cons (.start ht) (.cons hproceed .nil)
  · exact .cons hproceed .nil

omit hs hs' h in
/-- A parser begins alike with twins. -/
theorem Parser.alike_begin (x : Parser Empty) {d' : Document} (hdocument : d'.EndsWith δ d)
    (ht : Twins s s' c c' δ id id') (hc : a.context = c) (hc' : a'.context = c')
    (hparser : a'.parser = a.parser) (hposition : a'.position = a.position + δ) :
    List.Forall₂ (Job.Alike s s' c c' δ) (x.begin d id a) (x.begin d' id' a') := by
  have hstop (n : Nat) : (Job.operate (.addStop id (a.position + n))).Alike s s' c c' δ
      (.operate (.addStop id' (a'.position + n))) := by
    rw [hposition, Nat.add_right_comm]
    exact .addStop _ ht
  have hfail (message : String) : (Job.operate (.failAt id message a.position)).Alike s s' c c' δ
      (.operate (.failAt id' message a'.position)) := hposition ▸ .failAt message _ ht
  have hask (q : ParserId) {next next' : Next Empty}
      (hr : next.role.Alike s s' c c' δ next'.role) :
      (Job.ask c q a.position next).Alike s s' c c' δ (.ask c' q a'.position next') :=
    hposition ▸ .ask q a.position hr
  cases x with
  | literal text =>
    rw [begin, begin, hposition, hdocument.rest, ← hposition]
    split
    · exact .cons (hstop _) .nil
    · exact .cons (hfail _) .nil
  | pattern r =>
    rw [begin, begin, hposition, hdocument.rest, ← hposition]
    split
    · exact .cons (hstop _) .nil
    · exact .cons (hfail _) .nil
  | sequence es =>
    cases es with
    | nil =>
      simp only [begin, hparser, hposition, Tree.nothing, ← Tree.shift_leaf]
      exact .cons (.offer (.found (.nothing a.parser a.position)) ht) .nil
    | cons e rest =>
      simp only [begin, hc, hc']
      exact .cons (hask e (hposition ▸ .element ht)) .nil
  | choice qs =>
    cases qs with
    | nil => exact .cons (hfail _) .nil
    | cons q qs =>
      simp only [begin, hc, hc']
      rw [List.forall₂_map_left_iff, List.forall₂_map_right_iff, List.forall₂_same]
      exact fun q _ => hask q (.forward ht)
  | optional q =>
    simp only [begin, hc, hc']
    exact .cons (hstop 0) (.cons (hask q (.forward ht)) .nil)
  | custom label refs code => exact code.elim

omit hs hs' in
theorem Job.alike_start (ht : Twins s s' c c' δ id id') :
    Outcome.Alike c c' δ ((Job.start id).perform (.standard g) s ())
      ((Job.start id').perform (.standard g) s' ()) := by
  obtain ⟨a, a', ha, ha', hc, hc', hparser, hposition, -⟩ := h.accumulators ht
  obtain ⟨x, x', hx, hx', hdocument, -⟩ := h.context
  simp only [perform, ha, ha', hc, hc', hx, hx', hdocument.size, hparser, hposition,
    Nat.add_lt_add_iff_right]
  split
  · exact .single h (.failAt _ _ ht)
  · split
    · exact .single h (.failAt _ _ ht)
    next label refs code _ => exact code.elim
    next y _ _ => exact ⟨h, y.alike_begin hdocument ht hc hc' hparser hposition⟩

omit hs hs' in
/-- A sequence goes on alike when it is told of a match. -/
theorem Sequel.alike_continue {r : Sequel} (ht : Twins s s' c c' δ r.target id')
    (hheld : s.holds c = true) (hheld' : s'.holds c' = true) (t : Tree) :
    List.Forall₂ (Job.Alike s s' c c' δ) (r.continue s t)
      ((r.moved δ id').continue s' (t.shift δ)) := by
  obtain ⟨a, a', ha, ha', hc, hc', hparser, -, -⟩ := h.accumulators ht
  have htaken : r.taken.map (Tree.shift δ) ++ [t.shift δ] =
      (r.taken ++ [t]).map (Tree.shift δ) := by
    rw [List.map_append, List.map_singleton]
  simp only [Sequel.continue, Sequel.moved, ha, ha', hc, hc', hparser, htaken, Tree.stop_shift]
  cases r.rest with
  | nil =>
    rw [← Tree.shift_join]
    exact .cons (.offer (.found (.join a.parser r.start (r.taken ++ [t]))) ht) .nil
  | cons e rest =>
    simp only [if_pos hheld, if_pos hheld']
    exact .cons (.ask e t.stop (.element ht)) .nil

theorem Job.alike_tell (hheld : s.holds c = true) (hheld' : s'.holds c' = true)
    {role role' : Role Empty} (hr : role.Alike s s' c c' δ role') (n n' : Nat) (news : News) :
    Outcome.Alike c c' δ ((Job.tell ⟨n, role⟩ id news).perform (.standard g) s ())
      ((Job.tell ⟨n', role'⟩ id' (news.moved δ c')).perform (.standard g) s' ()) := by
  have hlive {k k' : AccumulatorId} (ht : Twins s s' c c' δ k k') :
      s.isLive k = true ∧ s'.isLive k' = true := by
    obtain ⟨p, i, hk, hk'⟩ := ht
    exact ⟨hs.isLive hk, hs'.isLive hk'⟩
  cases hr with
  | forward ht =>
    obtain ⟨hk, hk'⟩ := hlive ht
    cases news with
    | found t =>
      simp only [News.moved, perform, if_pos hk, if_pos hk']
      exact .single h (.offer (.found t) ht)
    | failed f =>
      simp only [News.moved, perform, if_pos hk, if_pos hk']
      exact .single h (.offer (.failed f) ht)
  | @element r k' ht =>
    obtain ⟨hk, hk'⟩ := hlive ht
    have hk' : s'.isLive (r.moved δ k').target = true := hk'
    cases news with
    | found t =>
      simp only [News.moved, perform, if_pos hk, if_pos hk']
      exact ⟨h, Sequel.alike_continue h ht hheld hheld' t⟩
    | failed f =>
      simp only [News.moved, perform, if_pos hk, if_pos hk']
      exact .single h (.offer (.failed f) ht)

omit hs hs' in
theorem Job.alike_proceed {next next' : Next Empty} (hr : next.role.Alike s s' c c' δ next'.role)
    (ht : Twins s s' c c' δ id id') :
    Outcome.Alike c c' δ ((Job.proceed next id).perform (.standard g) s ())
      ((Job.proceed next' id').perform (.standard g) s' ()) := by
  cases next with
  | forwardTo target =>
    cases next' with
    | forwardTo target' =>
      cases hr with
      | forward hu => exact .single h (.forward ht hu)
    | await r => cases hr
    | custom code => exact code.elim
  | await r =>
    cases next' with
    | forwardTo target' => cases hr
    | await r' =>
      cases hr with
      | element hu => exact ⟨h, .cons (.watch ht (.element hu)) (.cons (.carry ht hu) .nil)⟩
    | custom code => exact code.elim
  | custom code => exact code.elim

omit hs hs' in
theorem Job.alike_carry {target target' : AccumulatorId} (ht : Twins s s' c c' δ id id')
    (hu : Twins s s' c c' δ target target') :
    Outcome.Alike c c' δ ((Job.carry id target).perform (.standard g) s ())
      ((Job.carry id' target').perform (.standard g) s' ()) := by
  obtain ⟨a, a', ha, ha', -, -, -, -, halike⟩ := h.accumulators ht
  simp only [perform, ha, ha', Option.bind_some, halike.best]
  cases a.best with
  | none => exact .nothing h
  | some f => exact .single h (.offer (.failed f) hu)

/-- The step lemma for jobs: jobs alike, done in contexts alike, leave the contexts alike and call for
jobs alike. -/
theorem Job.Alike.perform (hjj : j.Alike s s' c c' δ j') (hj : j.Sound g d s c) (hn : j.Unheard s)
    (hn' : j'.Unheard s') :
    Outcome.Alike c c' δ (j.perform (.standard g) s ()) (j'.perform (.standard g) s' ()) := by
  obtain ⟨x, x', hx, hx', -⟩ := h.context
  have hheld : s.holds c = true := hs.held c x.document (by rw [Store.document?, hx]; rfl)
  have hheld' : s'.holds c' = true := hs'.held c' x'.document (by rw [Store.document?, hx']; rfl)
  cases hjj with
  | offer news ht => exact Job.alike_offer hs hs' h ht hj
  | addStop stop ht => exact Job.alike_addStop h ht hj
  | failAt message position ht => exact Job.alike_failAt h ht message position
  | listen n n' ht hr => exact Job.alike_listen hs hs' h ht hr hn hn'
  | watch ht hr => exact Job.alike_watch hs hs' h ht hr
  | forward ht hu =>
    exact ⟨h, .cons (.watch ht (.forward hu)) (.cons (.carry ht hu) .nil)⟩
  | ask q i hr => exact Job.alike_ask hs hs' h q i hr
  | start ht => exact Job.alike_start h ht
  | proceed hr ht => exact Job.alike_proceed h hr ht
  | tell n n' news hr ht => exact Job.alike_tell hs hs' h hheld hheld' hr n n' news
  | carry ht hu => exact Job.alike_carry h ht hu

end Jobs

end PushParsing
