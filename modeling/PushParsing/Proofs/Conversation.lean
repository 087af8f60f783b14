import PushParsing.Proofs.Best
import PushParsing.Proofs.Lockstep
import PushParsing.Session

/-!
# Conversations with several contexts

Contexts of one engine are opened and asked in any order. What each of them answers is what it would
have answered on its own, had nothing else been opened or asked; only its number is another one.
-/
namespace PushParsing

/-- What an accumulator shows of itself. -/
structure View where
  parser : ParserId
  position : Nat
  trees : List Tree
  best : Option Failure
  failures : List Failure
  listeners : Nat

def Accumulator.view (a : Accumulator Empty) : View :=
  ⟨a.parser, a.position, a.trees, a.best, a.failures, a.listeners.length⟩

/-- What can be asked of a context from outside. -/
inductive Question where
  /-- What does a parser find at a position? It is evaluated if it was not asked for before. -/
  | request (parser : ParserId) (position : Nat)
  /-- The same without evaluation. -/
  | lookup (parser : ParserId) (position : Nat)
  /-- Does a root match the whole document? -/
  | parse (root : ParserId)
  | furthest
  | statistics
  /-- Which pairs were asked for, in which order, and what do their accumulators hold? -/
  | contents

inductive Reply where
  /-- The context was opened and has a number. -/
  | opened (number : ContextNumber)
  | accumulator (found : Option View)
  | verdict (result : Except Failure Tree)
  | furthest (failure : Option Failure)
  | statistics (counts : Option Statistics)
  | contents (rows : List (ParserId × Nat × Option View))

/-- One thing done from outside. -/
inductive Deed where
  | opening (document : Document) (limits : Limits)
  | asking (context : ContextNumber) (question : Question)

/-- Whether a document may be parsed. -/
def Limits.Admits (limits : Limits) (d : Document) : Prop :=
  ¬(0 < limits.maxInputSize ∧ limits.maxInputSize < d.size)

instance (limits : Limits) (d : Document) : Decidable (limits.Admits d) :=
  inferInstanceAs (Decidable ¬_)

/-- Whether a context is opened. -/
def Deed.opens : Deed → Bool
  | opening d limits => limits.Admits d
  | asking _ _ => false

section Telling

variable (c : ContextNumber)

/-- The view as another context shows it. -/
def View.within (v : View) : View :=
  { v with best := v.best.map (·.within c), failures := v.failures.map (·.within c) }

/-- The reply as another context gives it. -/
def Reply.within : Reply → Reply
  | opened _ => opened c
  | accumulator found => accumulator (found.map (·.within c))
  | verdict result => verdict (result.mapError (·.within c))
  | furthest failure => furthest (failure.map (·.within c))
  | statistics counts => statistics counts
  | contents rows => contents (rows.map fun (p, i, v) => (p, i, v.map (·.within c)))

/-- The outcome as another context tells it. -/
def DocumentError.within : DocumentError → DocumentError
  | refused cause => refused cause
  | failed f => failed (f.within c)

/-- What is done to one context alone, readdressed to the first one. The number of a context is the
number of documents accepted so far, its own included. -/
def ownDeeds : Nat → List Deed → List Deed
  | _, [] => []
  | n, .opening d limits :: deeds =>
    if limits.Admits d then
      (if n + 1 = c then [.opening d limits] else []) ++ ownDeeds (n + 1) deeds
    else ownDeeds n deeds
  | n, .asking k q :: deeds => (if k = c then [.asking 1 q] else []) ++ ownDeeds n deeds

end Telling

namespace Engine

/-- The standard engine with another limit. -/
def limited (g : Grammar Empty) (limit : Nat) : Engine Empty Unit :=
  { Engine.standard g with limit }

variable (e : Engine Empty Unit)

/-- The reply of a context, and the store that it leaves. -/
def reply (s : Store Empty) (c : ContextNumber) : Question → Reply × Store Empty
  | .request p i =>
    let (id, t, _) := e.request s () c p i
    (.accumulator ((t.accumulator? id).map (·.view)), t)
  | .lookup p i =>
    let (found, t) := s.lookup c p i
    (.accumulator ((found.bind t.accumulator?).map (·.view)), t)
  | .parse root =>
    let (result, t, _) := e.parse s () c root
    (.verdict result, t)
  | .furthest => (.furthest (s.furthest? c), s)
  | .statistics => (.statistics ((s.context? c).map (·.memo.statistics)), s)
  | .contents =>
    (.contents (((s.context? c).map fun x => x.memo.entries.toList.map fun e =>
      (e.parser, e.position, (s.accumulator? e.value).map (·.view))).getD []), s)

/-- Do one thing. Answers which context replies what; a document that is refused has none. -/
def respond (s : Store Empty) : Deed → Option (ContextNumber × Reply) × Store Empty
  | .opening d limits =>
    match e.openContext s d limits with
    | .ok (c, t) => (some (c, .opened c), t)
    | .error _ => (none, s)
  | .asking c q =>
    let (r, t) := e.reply s c q
    (some (c, r), t)

/-- What one context replies while one thing after another is done. -/
def answers (c : ContextNumber) : Store Empty → List Deed → List Reply
  | _, [] => []
  | s, deed :: deeds =>
    let (told, t) := e.respond s deed
    (told.toList.filter (·.1 = c)).map (·.2) ++ answers c t deeds

/-- The store once all that is done. -/
def after : Store Empty → List Deed → Store Empty
  | s, [] => s
  | s, deed :: deeds => after (e.respond s deed).2 deeds

end Engine

variable {g : Grammar Empty} {d d' : Document} {s s' t t' : Store Empty} {c c' k : ContextNumber}
  {id id' : AccumulatorId} {a a' : Accumulator Empty} {δ limit : Nat}

section Holdings

/-- The view as another context shows it, further on in its document. -/
def View.moved (δ : Nat) (c : ContextNumber) (v : View) : View :=
  ⟨v.parser, v.position + δ, v.trees.map (Tree.shift δ), v.best.map (Failure.moved δ c),
    v.failures.map (Failure.moved δ c), v.listeners⟩

theorem View.moved_zero (c : ContextNumber) : View.moved 0 c = View.within c := by
  funext v
  have htrees : v.trees.map (Tree.shift 0) = v.trees := by
    rw [show Tree.shift 0 = id from funext Tree.shift_zero, List.map_id]
  rw [View.moved, htrees]
  rfl

/-- The pairs asked for in a context, in their order, and what their accumulators show. -/
def Store.holdings (s : Store Empty) (c : ContextNumber) : List (ParserId × Nat × Option View) :=
  ((s.context? c).map fun x => x.memo.entries.toList.map fun e =>
    (e.parser, e.position, (s.accumulator? e.value).map (·.view))).getD []

theorem Accumulator.Alike.view (h : a.Alike s s' c c' δ a') (hparser : a'.parser = a.parser)
    (hposition : a'.position = a.position + δ) : a'.view = a.view.moved δ c' := by
  rw [Accumulator.view, hparser, hposition, h.trees, h.best, h.failures, ← h.listeners.length_eq]
  rfl

/-- Twins show the same. -/
theorem Store.Alike.view (h : s.Alike s' c c' δ) (ht : Twins s s' c c' δ id id') :
    (s'.accumulator? id').map (·.view) =
      ((s.accumulator? id).map (·.view)).map (·.moved δ c') := by
  obtain ⟨a, a', ha, ha', -, -, hparser, hposition, halike⟩ := h.accumulators ht
  rw [ha, ha', Option.map_some, Option.map_some, Option.map_some, halike.view hparser hposition]

/-- A pair has an accumulator in both contexts or in none. -/
theorem Store.Alike.peek? (hs : s.Sound g) (hs' : s'.Sound g) (h : s.Alike s' c c' δ)
    (p : ParserId) (i : Nat) : s.peek? c p i = none ∧ s'.peek? c' p (i + δ) = none ∨
      ∃ id id', s.peek? c p i = some id ∧ s'.peek? c' p (i + δ) = some id' ∧
        Twins s s' c c' δ id id' := by
  obtain ⟨x, x', hx, hx', -, hmemo⟩ := h.context
  have hnone : s'.peek? c' p (i + δ) = none ↔ s.peek? c p i = none := by
    simpa only [Store.peek?, hx, hx', Option.bind_some] using
      hmemo.peek?_eq_none_iff (hs.valid c x hx) (hs'.valid c' x' hx') i p
  cases hp : s.peek? c p i with
  | none => exact .inl ⟨rfl, hnone.2 hp⟩
  | some id =>
    obtain ⟨id', hp'⟩ := Option.ne_none_iff_exists'.1 fun hn => by rw [hnone.1 hn] at hp; cases hp
    exact .inr ⟨id, id', rfl, hp', p, i, hs.known c p i id hp, hs'.known c' p (i + δ) id' hp'⟩

theorem forall₂_entries {es es' : List (Memo.Entry AccumulatorId)}
    (hpairs : es'.map Memo.Entry.pair = es.map fun e => (e.position + δ, e.parser))
    (hes : ∀ e ∈ es, s.IsFor e.value c e.parser e.position)
    (hes' : ∀ e ∈ es', s'.IsFor e.value c' e.parser e.position) :
    List.Forall₂ (fun e e' => e'.pair = (e.position + δ, e.parser) ∧
      Twins s s' c c' δ e.value e'.value) es es' := by
  induction es generalizing es' with
  | nil =>
    obtain rfl := List.map_eq_nil_iff.1 hpairs
    exact .nil
  | cons e es ih =>
    cases es' with
    | nil => cases hpairs
    | cons e' es' =>
      obtain ⟨hpair, hpairs⟩ := List.cons.inj hpairs
      obtain ⟨hposition, hparser⟩ := Prod.mk.inj hpair
      have he' := hes' e' List.mem_cons_self
      refine .cons ⟨hpair, e.parser, e.position, hes e List.mem_cons_self, ?_⟩ (ih hpairs ?_ ?_)
      · rwa [← hparser, ← hposition]
      · exact fun x hx => hes x (List.mem_cons_of_mem _ hx)
      · exact fun x hx => hes' x (List.mem_cons_of_mem _ hx)

/-- Entry by entry, contexts alike have been asked for the same. -/
theorem Store.Alike.entries (hs : s.Sound g) (hs' : s'.Sound g) (h : s.Alike s' c c' δ) :
    ∃ x x', s.context? c = some x ∧ s'.context? c' = some x' ∧
      x'.document.EndsWith δ x.document ∧ x.memo.Alike δ x'.memo ∧ List.Forall₂
        (fun e e' => e'.pair = (e.position + δ, e.parser) ∧ Twins s s' c c' δ e.value e'.value)
        x.memo.entries.toList x'.memo.entries.toList := by
  obtain ⟨x, x', hx, hx', hdocument, hmemo⟩ := h.context
  refine ⟨x, x', hx, hx', hdocument, hmemo, forall₂_entries hmemo.pairs ?_ ?_⟩
  · intro e he
    refine hs.known c _ _ _ (Store.peek?_eq_some_iff.2 ⟨x, hx, ?_⟩)
    exact (hs.valid c x hx).peek?_of_mem he
  · intro e he
    refine hs'.known c' _ _ _ (Store.peek?_eq_some_iff.2 ⟨x', hx', ?_⟩)
    exact (hs'.valid c' x' hx').peek?_of_mem he

/-- Contexts alike hold the same. -/
theorem Store.Alike.holdings (hs : s.Sound g) (hs' : s'.Sound g) (h : s.Alike s' c c' δ) :
    s'.holdings c' =
      (s.holdings c).map fun (p, i, v) => (p, i + δ, v.map (·.moved δ c')) := by
  obtain ⟨x, x', hx, hx', -, -, hentries⟩ := h.entries hs hs'
  simp only [Store.holdings, hx, hx', Option.map_some, Option.getD_some, List.map_map]
  generalize x.memo.entries.toList = es at hentries ⊢
  generalize x'.memo.entries.toList = es' at hentries ⊢
  induction hentries with
  | nil => rfl
  | cons he _ ih =>
    obtain ⟨hpair, ht⟩ := he
    obtain ⟨hposition, hparser⟩ := Prod.mk.inj hpair
    simp only [List.map_cons, ih, hposition, hparser, h.view ht, Function.comp_apply]

theorem foldl_furthest_moved (δ : Nat) (c : ContextNumber) (fs : List Failure)
    (best : Option Failure) :
    (fs.map (·.moved δ c)).foldl Failure.furthest (best.map (·.moved δ c)) =
      (fs.foldl Failure.furthest best).map (·.moved δ c) := by
  induction fs generalizing best with
  | nil => rfl
  | cons f fs ih =>
    rw [List.map_cons, List.foldl_cons, List.foldl_cons, ← ih, Failure.furthest_moved]

/-- The furthest failures of contexts alike are the same. -/
theorem Store.Alike.furthest? (hs : s.Sound g) (hs' : s'.Sound g) (h : s.Alike s' c c' δ) :
    s'.furthest? c' = (s.furthest? c).map (·.moved δ c') := by
  obtain ⟨x, x', hx, hx', -, -, hentries⟩ := h.entries hs hs'
  have hbest : (s'.accumulatorsOf c').filterMap (·.best) =
      ((s.accumulatorsOf c).filterMap (·.best)).map (·.moved δ c') := by
    simp only [Store.accumulatorsOf, hx, hx']
    generalize x.memo.entries.toList = es at hentries ⊢
    generalize x'.memo.entries.toList = es' at hentries ⊢
    induction hentries with
    | nil => rfl
    | cons he _ ih =>
      obtain ⟨a, a', ha, ha', -, -, -, -, halike⟩ := h.accumulators he.2
      simp only [List.filterMap_cons, ha, ha', halike.best]
      cases a.best with
      | none => exact ih
      | some f => simp only [Option.map_some, List.map_cons, ih]
  rw [Store.furthest?, Store.furthest?, hbest]
  exact foldl_furthest_moved δ c' _ none

/-- In contexts alike a root matches the whole document or fails alike. -/
theorem Store.Alike.verdict (hs : s.Sound g) (hs' : s'.Sound g) (h : s.Alike s' c c' 0)
    (ht : Twins s s' c c' 0 id id') (root : ParserId) :
    s'.verdict c' root id' = (s.verdict c root id).mapError (·.within c') := by
  obtain ⟨x, x', hx, hx', hdocument, -⟩ := h.context
  obtain ⟨a, a', ha, ha', -, -, hparser, hposition, halike⟩ := h.accumulators ht
  have htrees : a'.trees = a.trees := congrArg View.trees
    ((halike.view hparser hposition).trans (congrFun (View.moved_zero c') a.view))
  have hlongest : a'.longest? = a.longest? := by
    rw [Accumulator.longest?, Accumulator.longest?, htrees]
  have hcomplete : a'.complete? x'.document.size = a.complete? x.document.size := by
    rw [Accumulator.complete?, Accumulator.complete?, htrees, hdocument.size, Nat.add_zero]
  simp only [Store.verdict, hx, hx', ha, ha', hcomplete, hlongest, h.furthest? hs hs']
  cases a.complete? x.document.size with
  | some t => rfl
  | none =>
    cases a.longest? with
    | none => cases s.furthest? c <;> rfl
    | some t =>
      cases s.furthest? c with
      | none => rfl
      | some f =>
        simp only [Option.map_some, Except.mapError, Failure.moved, Failure.shift_zero,
          Failure.within]
        split <;> rfl

end Holdings

section Replies

/-- What a context replies that was never opened. -/
def Question.vain : Question → Reply
  | request _ _ | lookup _ _ => .accumulator none
  | parse root => .verdict (.error ⟨0, Cause.noMatches.message, root, 0⟩)
  | furthest => .furthest none
  | statistics => .statistics none
  | contents => .contents []

theorem Engine.request_limited (s : Store Empty) (c : ContextNumber) (p : ParserId) (i : Nat) :
    (limited g limit).request s () c p i = ((s.request c p i).1,
      (Machine.run (.standard g) limit (.ofRequest s () c p i)).store, ()) := by
  rw [limited, Engine.request_eq, Machine.run_limit]

theorem Store.modifyMemo_astray (hc : s.context? c = none)
    (f : Memo.Table AccumulatorId → Memo.Table AccumulatorId) : s.modifyMemo c f = s := by
  cases c with
  | zero => rfl
  | succ n =>
    have hsame : (s.contexts.modify n fun x => { x with memo := f x.memo }) = s.contexts := by
      refine Array.ext_getElem? fun m => ?_
      rw [Array.getElem?_modify]
      split
      next he =>
        subst he
        rw [show s.contexts[n]? = none from hc]
        rfl
      next => rfl
    rw [modifyMemo, hsame]

theorem Engine.reply_vain (hc : s.context? c = none) (q : Question) :
    (limited g limit).reply s c q = (q.vain.within c, s) := by
  have hpeek (p : ParserId) (i : Nat) : s.peek? c p i = none := by rw [Store.peek?, hc]; rfl
  have hrequest (p : ParserId) (i : Nat) :
      (limited g limit).request s () c p i = (s.accumulators.size, s, ()) := by
    have hasked : Machine.ofRequest s () c p i = ⟨s, (), []⟩ := by
      simp only [Machine.ofRequest, Store.request_astray hc]
      rfl
    rw [Engine.request_limited, hasked, Machine.run_idle, Store.request_astray hc]
  have hlast : s.accumulator? s.accumulators.size = none := Array.getElem?_eq_none (Nat.le_refl _)
  cases q with
  | request p i =>
    simp only [reply, hrequest, hlast]
    rfl
  | lookup p i =>
    simp only [reply, Store.lookup, hpeek, Store.modifyMemo_astray hc]
    rfl
  | parse root =>
    simp only [reply, parse, hrequest, Store.verdict, hc]
    rfl
  | furthest =>
    simp only [reply, Store.furthest?, Store.accumulatorsOf, hc]
    rfl
  | statistics =>
    simp only [reply, hc]
    rfl
  | contents =>
    simp only [reply, hc]
    rfl

/-- A request is answered alike by contexts alike, and they stay alike. -/
theorem Store.Alike.answer (hg : g.Closed) (hs : s.Fit g) (hs' : s'.Fit g)
    (h : s.Alike s' c c' δ) (p : ParserId) (i n : Nat) :
    Machine.Lockstep g c c' δ (Machine.run (.standard g) n (.ofRequest s () c p i))
        (Machine.run (.standard g) n (.ofRequest s' () c' p (i + δ))) ∧
      Twins (Machine.run (.standard g) n (.ofRequest s () c p i)).store
        (Machine.run (.standard g) n (.ofRequest s' () c' p (i + δ))).store c c' δ
        (s.request c p i).1 (s'.request c' p (i + δ)).1 := by
  have hasked := Machine.Lockstep.ofRequest hs hs' h p i
  obtain ⟨-, ht, -⟩ := h.request hs.sound hs'.sound p i
  obtain ⟨d, hm⟩ := hasked.sound
  obtain ⟨d', hm'⟩ := hasked.sound'
  exact ⟨hasked.run hg n, ht.mono (hm.run hg n).2 (hm'.run hg n).2⟩

/-- Contexts alike reply alike and stay alike. -/
theorem Engine.reply_alike (limit : Nat) (hg : g.Closed) (hs : s.Fit g) (hs' : s'.Fit g)
    (h : s.Alike s' c c' 0) (q : Question) : ((limited g limit).reply s' c' q).1 =
        ((limited g limit).reply s c q).1.within c' ∧
      ((limited g limit).reply s c q).2.Alike ((limited g limit).reply s' c' q).2 c c' 0 := by
  have hview {t t' : Store Empty} {id id' : AccumulatorId} (h : t.Alike t' c c' 0)
      (ht : Twins t t' c c' 0 id id') : (t'.accumulator? id').map (·.view) =
        ((t.accumulator? id).map (·.view)).map (·.within c') := by
    rw [h.view ht, View.moved_zero]
  cases q with
  | request p i =>
    obtain ⟨hend, ht⟩ := h.answer hg hs hs' p i limit
    simp only [reply, Engine.request_limited]
    exact ⟨congrArg Reply.accumulator (hview hend.alike ht), hend.alike⟩
  | parse root =>
    obtain ⟨hend, ht⟩ := h.answer hg hs hs' root 0 limit
    obtain ⟨d, hm⟩ := hend.sound
    obtain ⟨d', hm'⟩ := hend.sound'
    simp only [reply, parse, Engine.request_limited]
    exact ⟨congrArg Reply.verdict (hend.alike.verdict hm.store hm'.store ht root), hend.alike⟩
  | lookup p i =>
    obtain ⟨x, x', hx, hx', hdocument, hmemo⟩ := h.context
    have halike : (s.lookup c p i).2.Alike (s'.lookup c' p i).2 c c' 0 := by
      refine h.still (s.lookup_grows c p i) (s'.lookup_grows c' p i) (accumulators_modifyMemo ..)
        (accumulators_modifyMemo ..) ?_
      simp only [Store.lookup, Store.context?_modifyMemo, if_pos, hx, hx', Option.map_some]
      exact ⟨_, _, rfl, rfl, hdocument,
        hmemo.get? (hs.sound.valid c x hx) (hs'.sound.valid c' x' hx') i p⟩
    refine ⟨?_, halike⟩
    simp only [reply]
    rcases h.peek? hs.sound hs'.sound p i with ⟨hp, hp'⟩ | ⟨id, id', hp, hp', ht⟩
    · rw [Nat.add_zero] at hp'
      simp only [Store.lookup, hp, hp']
      rfl
    · have ht' := ht.mono (s.lookup_grows c p i) (s'.lookup_grows c' p i)
      rw [Nat.add_zero] at hp'
      simp only [Store.lookup, hp, hp', Option.bind_some] at halike ht' ⊢
      exact congrArg Reply.accumulator (hview halike ht')
  | furthest => exact ⟨congrArg Reply.furthest (h.furthest? hs.sound hs'.sound), h⟩
  | statistics =>
    obtain ⟨x, x', hx, hx', -, hmemo⟩ := h.context
    have hsize : x'.memo.size = x.memo.size := by
      have hlength := congrArg List.length hmemo.pairs
      rwa [List.length_map, List.length_map, Array.length_toList, Array.length_toList] at hlength
    have hstatistics : x'.memo.statistics = x.memo.statistics := by
      rw [Memo.Table.statistics, Memo.Table.statistics, Memo.Table.rate, Memo.Table.rate, hsize,
        hmemo.hits, hmemo.misses]
    simp only [reply, hx, hx', Option.map_some, hstatistics]
    exact ⟨rfl, h⟩
  | contents =>
    have hholdings := h.holdings hs.sound hs'.sound
    rw [View.moved_zero] at hholdings
    exact ⟨congrArg Reply.contents hholdings, h⟩

/-- A reply leaves a store that can reply further, and other contexts alone. -/
theorem Engine.reply_confined (limit : Nat) (hg : g.Closed) (hs : s.Fit g) (c : ContextNumber)
    (q : Question) :
    ((limited g limit).reply s c q).2.Fit g ∧ s.Grows ((limited g limit).reply s c q).2 ∧
      Store.Confined c s ((limited g limit).reply s c q).2 := by
  cases hc : s.context? c with
  | none =>
    rw [Engine.reply_vain hc]
    exact ⟨hs, .refl s, .refl c s⟩
  | some x =>
    have hd : s.document? c = some x.document := by rw [Store.document?, hc]; rfl
    cases q with
    | request p i =>
      simp only [reply, Engine.request_limited]
      exact hs.request hg hd p i limit
    | parse root =>
      simp only [reply, parse, Engine.request_limited]
      exact hs.request hg hd root 0 limit
    | lookup p i => exact ⟨hs.lookup c p i, s.lookup_grows c p i, .lookup s p i⟩
    | furthest | statistics | contents => exact ⟨hs, .refl s, .refl c s⟩

theorem Store.size_contexts_modifyMemo (s : Store Empty) (c : ContextNumber)
    (f : Memo.Table AccumulatorId → Memo.Table AccumulatorId) :
    (s.modifyMemo c f).contexts.size = s.contexts.size := by
  cases c with
  | zero => rfl
  | succ n => exact Array.size_modify

theorem Store.size_contexts_request (s : Store Empty) (c : ContextNumber) (p : ParserId) (i : Nat) :
    (s.request c p i).2.2.contexts.size = s.contexts.size := by
  cases hc : s.context? c with
  | none => rw [Store.request_astray hc]
  | some x =>
    rw [Store.contexts_request fun _ => by rw [hc]; rfl, Store.size_contexts_modifyMemo]

theorem Machine.size_contexts_run (n : Nat) : ∀ m : Machine Empty Unit,
    (Machine.run (.standard g) n m).store.contexts.size = m.store.contexts.size := by
  induction n with
  | zero => exact fun _ => rfl
  | succ n ih =>
    intro m
    rw [Machine.run_succ, ih]
    obtain ⟨s, w, js⟩ := m
    cases js with
    | nil => rfl
    | cons j js =>
      rcases j.perform_store (.standard g) s w with ⟨hc, -⟩ | ⟨c, p, i, next, -, -⟩ |
        ⟨c, p, i, next, -, hstore⟩
      · exact congrArg Array.size hc
      · exact next.elim
      · exact (congrArg (·.contexts.size) hstore).trans (Store.size_contexts_request s c p i)

/-- To ask opens no context. -/
theorem Engine.size_contexts_reply (g : Grammar Empty) (limit : Nat) (s : Store Empty)
    (c : ContextNumber) (q : Question) :
    ((limited g limit).reply s c q).2.contexts.size = s.contexts.size := by
  have hrequest (p : ParserId) (i : Nat) : (Machine.run (.standard g) limit
      (.ofRequest s () c p i)).store.contexts.size = s.contexts.size := by
    rw [Machine.size_contexts_run, Machine.ofRequest, Store.size_contexts_request]
  cases q with
  | request p i =>
    simp only [reply, Engine.request_limited]
    exact hrequest p i
  | parse root =>
    simp only [reply, parse, Engine.request_limited]
    exact hrequest root 0
  | lookup p i => exact Store.size_contexts_modifyMemo ..
  | furthest | statistics | contents => rfl

end Replies

section Openings

variable {limits limits' : Limits}

theorem Engine.openContext_admitted (e : Engine Empty Unit) (s : Store Empty)
    (h : limits.Admits d) : ∃ t, e.openContext s d limits = .ok (s.contexts.size + 1, t) ∧
      t.contexts.size = s.contexts.size + 1 := by
  simp only [openContext, Store.openContext, if_neg h]
  exact ⟨_, rfl, Array.size_push ..⟩

theorem Engine.openContext_refused (e : Engine Empty Unit) (s : Store Empty)
    (h : ¬limits.Admits d) :
    e.openContext s d limits = .error ⟨d.size, limits.maxInputSize⟩ := by
  simp only [openContext, Store.openContext, if_pos (not_not.1 h)]
  rfl

/-- Contexts that were just opened are alike if the document of the second one ends with that of the
first. -/
theorem Store.Alike.opened (hs : s.Sound g) (hd : d'.EndsWith δ d)
    (ho : (Engine.standard g).openContext s d limits = .ok (c, t))
    (ho' : (Engine.standard g).openContext s' d' limits' = .ok (c', t')) :
    t.Alike t' c c' δ where
  context := by
    obtain ⟨n, hcontext⟩ := Store.context?_opened ho
    obtain ⟨n', hcontext'⟩ := Store.context?_opened ho'
    refine ⟨⟨d, limits, .ofEstimate n⟩, ⟨d', limits', .ofEstimate n'⟩, ?_, ?_, hd, rfl, rfl, rfl⟩
    · rw [hcontext, if_pos rfl]
    · rw [hcontext', if_pos rfl]
  accumulator id id' a a' ht _ _ := by
    -- no pair was asked for so far
    obtain ⟨p, i, hid, -⟩ := ht
    have hpeek := (hs.opened ho).isFor_iff.1 hid
    rw [Store.peek?_opened ho, Store.peek?, Store.context?_of_opened ho] at hpeek
    cases hpeek

end Openings

section Interleaving

/-- Either the context is not yet open, and nothing was done for it, or the first context of a store
of its own is alike. -/
def Beside (c : ContextNumber) (s t : Store Empty) : Prop :=
  t.context? c = none ∧ s = {} ∨ s.Alike t 1 c 0

/-- What is done to other contexts makes no difference. -/
theorem Beside.confined (h : Beside c s t) (ht : t.Sound g) (ht' : t'.Sound g) (hgrows : t.Grows t')
    (hk : Store.Confined k t t') (hne : c ≠ k) : Beside c s t' := by
  rcases h with ⟨hnone, rfl⟩ | h
  · exact .inl ⟨(hk.context c hne).trans hnone, rfl⟩
  · exact .inr (h.confined ht ht' hgrows hk hne)

/-- The step lemma for a question: it is put to the context, or it makes no difference. -/
theorem Beside.reply (limit : Nat) (hg : g.Closed) (hs : s.Fit g) (ht : t.Fit g) (h : Beside c s t)
    (q : Question) :
    ((Engine.limited g limit).reply t c q).1 =
        ((Engine.limited g limit).reply s 1 q).1.within c ∧
      Beside c ((Engine.limited g limit).reply s 1 q).2
        ((Engine.limited g limit).reply t c q).2 := by
  rcases h with ⟨hnone, rfl⟩ | h
  · have hnone' : ({} : Store Empty).context? 1 = none := rfl
    rw [Engine.reply_vain hnone, Engine.reply_vain hnone']
    refine ⟨?_, .inl ⟨hnone, rfl⟩⟩
    cases q <;> rfl
  · obtain ⟨hreply, halike⟩ := Engine.reply_alike limit hg hs ht h q
    exact ⟨hreply, .inr halike⟩

/-- The step lemma for an opening: before its own a context is not there. -/
theorem Beside.opened {limits : Limits} (h : Beside c s t)
    (ho : (Engine.standard g).openContext {} d limits = .ok (1, s'))
    (ho' : (Engine.standard g).openContext t d limits = .ok (c, t')) : s = {} ∧ Beside c s' t' := by
  rcases h with ⟨-, hs⟩ | h
  · exact ⟨hs, .inr (.opened .start (.self d) ho ho')⟩
  · obtain ⟨_, x, -, hx, -⟩ := h.context
    rw [Store.context?_of_opened ho'] at hx
    cases hx

/-- By induction on what is done: a context replies as the first context of a store of its own. -/
theorem Engine.answers_eq (hg : g.Closed) (deeds : List Deed) : ∀ {s t : Store Empty}, s.Fit g →
    t.Fit g → Beside c s t → (limited g limit).answers c t deeds =
      ((limited g limit).answers 1 s (ownDeeds c t.contexts.size deeds)).map (·.within c) := by
  induction deeds with
  | nil => exact fun _ _ _ => rfl
  | cons deed deeds ih =>
    intro s t hs ht h
    cases deed with
    | opening d limits =>
      by_cases hadmits : limits.Admits d
      · obtain ⟨t', ho, hsize⟩ := openContext_admitted (limited g limit) t hadmits
        have ht' : t'.Fit g := ht.opened ho
        simp only [answers, respond, ho, ownDeeds, if_pos hadmits]
        by_cases hk : t.contexts.size + 1 = c
        · obtain ⟨s', ho', -⟩ := openContext_admitted (limited g limit) {} hadmits
          change (limited g limit).openContext {} d limits = .ok (1, s') at ho'
          subst hk
          obtain ⟨rfl, h'⟩ := h.opened ho' ho
          have hih := ih (Store.Fit.start.opened ho') ht' h'
          rw [hsize] at hih
          simp [answers, respond, ho', hih, Reply.within]
        · have h' : Beside c s t' :=
            h.confined ht.sound ht'.sound (.opened ho) (.opened ho) (Ne.symm hk)
          have hih := ih hs ht' h'
          rw [hsize] at hih
          simp [hk, hih]
      · simp only [answers, respond, openContext_refused _ _ hadmits, ownDeeds, if_neg hadmits]
        exact ih hs ht h
    | asking k q =>
      obtain ⟨ht', hgrows, hconfined⟩ := Engine.reply_confined limit hg ht k q
      have hsize := Engine.size_contexts_reply g limit t k q
      simp only [answers, respond, ownDeeds]
      by_cases hk : k = c
      · subst hk
        obtain ⟨hreply, h'⟩ := h.reply limit hg hs ht q
        have hih := ih (Engine.reply_confined limit hg hs 1 q).1 ht' h'
        rw [hsize] at hih
        simp [answers, respond, hih, hreply]
      · have h' := h.confined ht.sound ht'.sound hgrows hconfined (Ne.symm hk)
        have hih := ih hs ht' h'
        rw [hsize] at hih
        simp [hk, hih]

end Interleaving

section Documents

theorem Engine.fit_respond (limit : Nat) (hg : g.Closed) (hs : s.Fit g) (deed : Deed) :
    ((limited g limit).respond s deed).2.Fit g ∧
      ((limited g limit).respond s deed).2.contexts.size =
        s.contexts.size + [deed].countP (·.opens) := by
  cases deed with
  | opening d limits =>
    by_cases hadmits : limits.Admits d
    · obtain ⟨t, ho, hsize⟩ := openContext_admitted (limited g limit) s hadmits
      simp only [respond, ho]
      exact ⟨hs.opened ho, by simp [hsize, Deed.opens, hadmits]⟩
    · simp only [respond, openContext_refused _ _ hadmits]
      exact ⟨hs, by simp [Deed.opens, hadmits]⟩
  | asking k q =>
    exact ⟨(Engine.reply_confined limit hg hs k q).1, Engine.size_contexts_reply g limit s k q⟩

/-- Whatever is done, more can be done, and the contexts opened so far have been counted. -/
theorem Engine.fit_after (limit : Nat) (hg : g.Closed) (deeds : List Deed) :
    ∀ {s : Store Empty}, s.Fit g → ((limited g limit).after s deeds).Fit g ∧
      ((limited g limit).after s deeds).contexts.size =
        s.contexts.size + deeds.countP (·.opens) := by
  induction deeds with
  | nil => exact fun hs => ⟨hs, rfl⟩
  | cons deed deeds ih =>
    intro s hs
    obtain ⟨ht, hsize⟩ := Engine.fit_respond limit hg hs deed
    obtain ⟨hend, hcount⟩ := ih ht
    refine ⟨hend, ?_⟩
    rw [after, hcount, hsize, Nat.add_assoc, ← List.countP_append, List.singleton_append]

/-- A document is parsed with the result that it has alone. -/
theorem Engine.parseDocument_eq (limit : Nat) (hg : g.Closed) (hs : s.Fit g) (root : ParserId)
    (d : Document) : ((limited g limit).parseDocument s () root d).1 =
        ((limited g limit).parseDocument {} () root d).1.mapError (·.within (s.contexts.size + 1)) ∧
      ((limited g limit).parseDocument s () root d).2.1.Fit g ∧
      ((limited g limit).parseDocument s () root d).2.1.contexts.size =
        s.contexts.size + [d].countP (Limits.Admits {} ·) := by
  by_cases hadmits : Limits.Admits {} d
  · obtain ⟨t, ho, hsize⟩ := openContext_admitted (limited g limit) s hadmits
    obtain ⟨t', ho', -⟩ := openContext_admitted (limited g limit) {} hadmits
    have ht : t.Fit g := hs.opened ho
    have halike : t'.Alike t 1 (s.contexts.size + 1) 0 := .opened .start (.self d) ho' ho
    obtain ⟨hreply, -⟩ :=
      Engine.reply_alike limit hg (Store.Fit.start.opened ho') ht halike (.parse root)
    have hverdict : ((limited g limit).parse t () (s.contexts.size + 1) root).1 =
        ((limited g limit).parse t' () 1 root).1.mapError (·.within (s.contexts.size + 1)) :=
      Reply.verdict.inj hreply
    simp only [parseDocument, ho, ho']
    refine ⟨?_, (Engine.reply_confined limit hg ht _ (.parse root)).1,
      (Engine.size_contexts_reply g limit t _ (.parse root)).trans (by simp [hsize, hadmits])⟩
    rw [hverdict]
    change _ = (Except.mapError _ ((limited g limit).parse t' () 1 root).1).mapError _
    cases ((limited g limit).parse t' () 1 root).1 <;> rfl
  · simp only [parseDocument, openContext_refused _ _ hadmits]
    exact ⟨rfl, hs, by simp [hadmits]⟩

/-- Documents are parsed one after another as each alone. -/
theorem Engine.parseBatch_eq (limit : Nat) (hg : g.Closed) (root : ParserId)
    (docs : List Document) :
    ∀ {s : Store Empty}, s.Fit g → ((limited g limit).parseBatch s () root docs).1 =
      docs.mapIdx fun i d => ((limited g limit).parseDocument {} () root d).1.mapError
        (·.within (s.contexts.size + (docs.take i).countP (Limits.Admits {} ·) + 1)) := by
  induction docs with
  | nil => exact fun _ => rfl
  | cons d docs ih =>
    intro s hs
    obtain ⟨hresult, ht, hsize⟩ := Engine.parseDocument_eq limit hg hs root d
    have hih := ih ht
    rw [List.mapIdx_cons]
    simp only [parseBatch, List.take_zero, List.take_succ_cons]
    refine congrArg₂ List.cons hresult (hih.trans ?_)
    have hcount (i : Nat) : s.contexts.size + (d :: docs.take i).countP (Limits.Admits {} ·) =
        s.contexts.size + [d].countP (Limits.Admits {} ·) +
          (docs.take i).countP (Limits.Admits {} ·) := by
      rw [Nat.add_assoc, ← List.countP_append, List.singleton_append]
    simp only [hsize, hcount]

end Documents

/-- Contexts do not interfere. Whatever is done to however many contexts of one engine in any order,
each of them replies to its questions what it replies as the only context of an engine of its own;
just its number is another one, the number of documents accepted so far. Documents that are parsed
one after another, whatever was done before, have the results that each of them has alone, up to
that number. -/
theorem contexts_do_not_interfere {draft : Draft Empty} (hb : draft.build = .ok g) (limit : Nat)
    (deeds : List Deed) :
    (∀ c, (Engine.limited g limit).answers c {} deeds =
      ((Engine.limited g limit).answers 1 {} (ownDeeds c 0 deeds)).map (·.within c)) ∧
    ∀ root docs, ((Engine.limited g limit).parseBatch
        ((Engine.limited g limit).after {} deeds) () root docs).1 =
      docs.mapIdx fun i d =>
        ((Engine.limited g limit).parseDocument {} () root d).1.mapError
          (·.within (deeds.countP (·.opens) + (docs.take i).countP (Limits.Admits {} ·) + 1)) := by
  have hg := Draft.closed_build hb
  refine ⟨fun c => Engine.answers_eq hg deeds .start .start (.inl ⟨?_, rfl⟩), fun root docs => ?_⟩
  · cases c <;> rfl
  · obtain ⟨hfit, hsize⟩ := Engine.fit_after limit hg deeds .start
    have hempty : ({} : Store Empty).contexts.size = 0 := rfl
    rw [Engine.parseBatch_eq limit hg root docs hfit, hsize, hempty, Nat.zero_add]

namespace Ones

/-- Ones, `r ::= r '1' | '1'`. -/
def draft : Draft Empty :=
  { slots := #[⟨some "r", some (.choice [1, 2])⟩, ⟨none, some (.sequence [0, 2])⟩,
      ⟨none, some (.literal "1")⟩] }

def grammar : Grammar Empty :=
  ⟨#[⟨some "r", .choice [1, 2]⟩, ⟨none, .sequence [0, 2]⟩, ⟨none, .literal "1"⟩]⟩

def engine : Engine Empty Unit := .limited grammar 99

/-- Of two contexts the second is asked first. -/
def deeds : List Deed :=
  [.opening (.ofString "11") {}, .opening (.ofString "x") {}, .asking 2 (.request 0 0),
    .asking 1 (.parse 0), .asking 2 (.parse 0), .asking 1 .furthest]

end Ones

/-- The second context is told of what its own document lacks, under its own number, and so is the
fourth, which is the second of two that are opened later for documents parsed in a row. -/
theorem contexts_do_not_interfere_ones :
    (Ones.engine.answers 2 {} Ones.deeds).getLast? =
      some (.verdict (.error ((Cause.expectedText "1").failure 2 2 0))) ∧
    (Ones.engine.parseBatch (Ones.engine.after {} Ones.deeds) () 0
        [.ofString "1", .ofString "x"]).1[1]? =
      some (.error (.failed ((Cause.expectedText "1").failure 4 2 0))) := by
  have hbuilt : Ones.draft.build = .ok Ones.grammar := rfl
  obtain ⟨halone, hbatch⟩ := contexts_do_not_interfere hbuilt 99 Ones.deeds
  rw [Ones.engine, halone 2, hbatch]
  exact ⟨rfl, rfl⟩

end PushParsing
