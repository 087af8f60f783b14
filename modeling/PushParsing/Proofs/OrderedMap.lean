import Mathlib.Data.List.Basic
import PushParsing.Proofs.MemoTable

/-!
# Memo tables as insertion-ordered maps

What a memo table answers to any number of questions is what a list of entries answers, where each
new entry is put behind the others. The bound on the steps of a search is never felt: searches, those
of a table that grows included, come to an end by themselves, and on their way they look at slots and
entries that are there.
-/
namespace PushParsing.Memo

variable {α σ : Type}

/-- A question to a memo table. A value is made only for a pair that has none, and to make it may
change a state. -/
inductive Query (α σ : Type) where
  | get (position : Nat) (parser : ParserId)
  | getOrInsert (position : Nat) (parser : ParserId) (make : σ → α × σ)

/-- The value of a pair, if it has one now, and whether it had one before the question. -/
structure Answer (α : Type) where
  value : Option α
  existed : Bool

namespace Query

def isGet : Query α σ → Bool
  | get _ _ => true
  | getOrInsert _ _ _ => false

/-- The pair that has a value once the question is answered. -/
def inserted? : Query α σ → Option (Nat × ParserId)
  | get _ _ => none
  | getOrInsert position parser _ => some (position, parser)

end Query

/-- Ask one question after another. -/
def askAll {τ : Type} (ask : τ → σ → Query α σ → Answer α × τ × σ) (t : τ) (w : σ) :
    List (Query α σ) → List (Answer α) × τ × σ
  | [] => ([], t, w)
  | q :: qs =>
    let (a, t, w) := ask t w q
    let (as, t, w) := askAll ask t w qs
    (a :: as, t, w)

theorem askAll_cons {τ : Type} (ask : τ → σ → Query α σ → Answer α × τ × σ) (t : τ) (w : σ)
    (q : Query α σ) (qs : List (Query α σ)) : askAll ask t w (q :: qs) =
      ((ask t w q).1 :: (askAll ask (ask t w q).2.1 (ask t w q).2.2 qs).1,
        (askAll ask (ask t w q).2.1 (ask t w q).2.2 qs).2) := rfl

/-- How many questions that insert nothing found nothing. -/
def missed (qs : List (Query α σ)) (as : List (Answer α)) : Nat :=
  (qs.zip as).countP fun (q, a) => q.isGet && !a.existed

section Lists

def Entry.pair (e : Entry α) : Nat × ParserId := (e.position, e.parser)

/-- The value of a pair in a list of entries read as a map. -/
def lookup (es : List (Entry α)) (position : Nat) (parser : ParserId) : Option α :=
  (es.find? (·.pair == (position, parser))).map (·.value)

/-- Ask a list of entries. -/
def askList (es : List (Entry α)) (w : σ) : Query α σ → Answer α × List (Entry α) × σ
  | .get position parser =>
    let value := lookup es position parser
    (⟨value, value.isSome⟩, es, w)
  | .getOrInsert position parser make =>
    match lookup es position parser with
    | some value => (⟨some value, true⟩, es, w)
    | none =>
      let (value, w) := make w
      (⟨some value, false⟩, es ++ [⟨position, parser, value⟩], w)

variable {es : List (Entry α)} {position : Nat} {parser : ParserId}

theorem lookup_eq_none_iff :
    lookup es position parser = none ↔ (position, parser) ∉ es.map Entry.pair := by
  simp only [lookup, Option.map_eq_none_iff, List.find?_eq_none, List.mem_map, not_exists, not_and,
    beq_iff_eq]

theorem mem_of_lookup {v : α} (h : lookup es position parser = some v) :
    ⟨position, parser, v⟩ ∈ es := by
  obtain ⟨e, he, rfl⟩ := Option.map_eq_some_iff.1 h
  have hpair : e.pair = (position, parser) := by simpa using List.find?_some he
  obtain ⟨i, p, v⟩ := e
  cases hpair
  exact List.mem_of_find?_eq_some he

/-- The pair of a question is added unless it is there. -/
theorem pairs_askList (es : List (Entry α)) (w : σ) (q : Query α σ) :
    (askList es w q).2.1.map Entry.pair =
      es.map Entry.pair ++ q.inserted?.toList.removeAll (es.map Entry.pair) := by
  cases q with
  | get position parser => simp [askList, Query.inserted?, List.removeAll]
  | getOrInsert position parser make =>
    simp only [askList, Query.inserted?, Option.toList_some, List.removeAll]
    cases h : lookup es position parser with
    | some value =>
      have hmem : (position, parser) ∈ es.map Entry.pair := List.mem_map.2 ⟨_, mem_of_lookup h, rfl⟩
      rw [List.filter_cons_of_neg (by simpa using hmem), List.filter_nil, List.append_nil]
    | none =>
      have hn := lookup_eq_none_iff.1 h
      rw [List.filter_cons_of_pos (by simpa using hn), List.filter_nil, List.map_append]
      rfl

theorem eraseDups_append_toList (ys : List (Nat × ParserId)) (x : Option (Nat × ParserId)) :
    (ys ++ x.toList).eraseDups = ys.eraseDups ++ x.toList.removeAll ys.eraseDups := by
  cases x with
  | none => simp [List.removeAll]
  | some x =>
    rw [List.eraseDups_append]
    by_cases hx : x ∈ ys <;> simp [List.removeAll, hx, List.eraseDups_cons]

/-- The pairs of a list that is asked are those inserted, each where it was inserted first. -/
theorem pairs_askAll (qs : List (Query α σ)) :
    ∀ (es : List (Entry α)) (w : σ) (done : List (Nat × ParserId)),
      es.map Entry.pair = done.eraseDups →
      (askAll askList es w qs).2.1.map Entry.pair =
        (done ++ qs.filterMap Query.inserted?).eraseDups := by
  induction qs with
  | nil =>
    intro es w done h
    rw [List.filterMap_nil, List.append_nil]
    exact h
  | cons q qs ih =>
    intro es w done h
    have hone : (askList es w q).2.1.map Entry.pair = (done ++ q.inserted?.toList).eraseDups := by
      rw [pairs_askList, h, eraseDups_append_toList]
    have hcons : (q :: qs).filterMap Query.inserted? =
        q.inserted?.toList ++ qs.filterMap Query.inserted? := by
      cases hq : q.inserted? <;> simp [hq]
    rw [hcons, ← List.append_assoc]
    exact ih _ _ _ hone

end Lists

section Searches

variable {slots slots' : Array (Option Nat)} {s t k n position : Nat} {parser : ParserId}
  {wanted : Nat → Option Bool}

/-- A search as it runs, with nothing to bound it: what it comes to is reached in finitely many
steps. A slot on the way is one of the array and an entry on the way one of the table, since of an
index without an entry it is not told whether it is wanted. -/
inductive Search (slots : Array (Option Nat)) (wanted : Nat → Option Bool) : Nat → Probe → Prop
  | vacant {s : Nat} : slots[s]? = some none → Search slots wanted s (.vacant s)
  | present {s i : Nat} : slots[s]? = some (some i) → wanted i = some true →
      Search slots wanted s (.present i)
  | next {s i : Nat} {r : Probe} : slots[s]? = some (some i) → wanted i = some false →
      Search slots wanted ((s + 1) &&& (slots.size - 1)) r → Search slots wanted s r

/-- The slot at which a search for a pair begins: the last bits of its hash. -/
def firstSlot (slots : Array (Option Nat)) (position : Nat) (parser : ParserId) : Nat :=
  (hashOf [position, parser]).toNat &&& (slots.size - 1)

/-- The number of slots is a power of two, so a remainder is what a mask leaves. -/
def Masked (slots : Array (Option Nat)) : Prop := slots.size.isPowerOfTwo

theorem Masked.and_eq_mod (h : Masked slots) (n : Nat) :
    n &&& (slots.size - 1) = n % slots.size := by
  obtain ⟨k, hk⟩ := h
  rw [hk]
  exact Nat.and_two_pow_sub_one_eq_mod n k

theorem Masked.firstSlot_eq (h : Masked slots) (position : Nat) (parser : ParserId) :
    firstSlot slots position parser = home slots position parser := h.and_eq_mod _

/-- On the way to a vacant slot a bounded search is one without a bound. -/
theorem Search.of_leads (hp : Masked slots) (h : Leads slots s k t) (hk : k < n)
    (ht : slots[t]? = some none)
    (hw : ∀ slot i : Nat, slots[slot]? = some (some i) → (wanted i).isSome) :
    Search slots wanted s (probe slots (fun i => (wanted i).getD false) n s) := by
  induction h generalizing n with
  | here s =>
    obtain ⟨m, rfl⟩ : ∃ m, n = m + 1 := ⟨n - 1, by omega⟩
    simp only [probe, ht]
    exact .vacant ht
  | @next s t k i hs _ ih =>
    obtain ⟨m, rfl⟩ : ∃ m, n = m + 1 := ⟨n - 1, by omega⟩
    obtain ⟨b, hb⟩ := Option.isSome_iff_exists.1 (hw s i hs)
    simp only [probe, hs, hb, Option.getD_some]
    cases b with
    | true => exact .present hs hb
    | false =>
      refine .next hs hb ?_
      rw [hp.and_eq_mod]
      exact ih (by omega) ht

theorem Search.unique {r r' : Probe} (h : Search slots wanted s r) (h' : Search slots wanted s r') :
    r' = r := by
  induction h with
  | vacant hs => cases h' <;> simp_all
  | present hs hi => cases h' <;> simp_all
  | next hs hi _ ih =>
    cases h' with
    | vacant hs' | present hs' hi' => simp_all
    | next hs' hi' h' => exact ih h'

/-- What no search finds is not looked for. -/
theorem Search.vacant_any (h : Search slots wanted s (.vacant t)) :
    Search slots (fun _ => some false) s (.vacant t) := by
  generalize hr : Probe.vacant t = r at h
  induction h with
  | vacant hs =>
    cases hr
    exact .vacant hs
  | present hs hi => cases hr
  | next hs hi _ ih => exact .next hs rfl (ih hr)

/-- Slots come to lead to entries one after another, each from the first vacant slot on its way. -/
inductive Filled : Array (Option Nat) → List (Entry α × Nat) → Array (Option Nat) → Prop
  | nil {slots : Array (Option Nat)} : Filled slots [] slots
  | cons {slots slots' : Array (Option Nat)} {e : Entry α} {i slot : Nat}
      {es : List (Entry α × Nat)} (h : slot < slots.size) :
      Search slots (fun _ => some false) (firstSlot slots e.position e.parser) (.vacant slot) →
      Filled (slots.set slot (some i)) es slots' → Filled slots ((e, i) :: es) slots'

/-- As long as not all slots are taken, a pair finds one. -/
theorem Indexed.occupied {es : List (Entry α)} (h : Indexed slots es) (hr : es.length < slots.size)
    (hp : Masked slots) (position : Nat) (parser : ParserId) (i : Nat) :
    ∃ slot, ∃ hlt : slot < slots.size,
      Search slots (fun _ => some false) (firstSlot slots position parser) (.vacant slot) ∧
      Table.occupy slots position parser i = slots.set slot (some i) := by
  have hpos : 0 < slots.size := by omega
  obtain ⟨k, hk, t, hl, ht⟩ := exists_vacant (home_lt hpos position parser) (by rwa [h.count])
  have hprobe : probe slots (fun _ => false) slots.size (home slots position parser) = .vacant t :=
    probe_vacant hl hk ht
  obtain ⟨hlt, -⟩ := Array.getElem?_eq_some_iff.1 ht
  refine ⟨t, hlt, ?_, ?_⟩
  · rw [hp.firstSlot_eq, ← hprobe]
    exact Search.of_leads hp hl hk ht fun _ _ _ => rfl
  · rw [Table.occupy, hprobe]
    exact dif_pos hlt

theorem Indexed.filled (es : List (Entry α)) :
    ∀ {slots : Array (Option Nat)} {done : List (Entry α)}, Indexed slots done → Masked slots →
      done.length + es.length ≤ slots.size →
      Filled slots (es.zipIdx done.length) ((es.zipIdx done.length).foldl
        (fun slots (e, i) => Table.occupy slots e.position e.parser i) slots) := by
  induction es with
  | nil => exact fun _ _ _ => .nil
  | cons e es ih =>
    intro slots done h hp hr
    rw [List.length_cons] at hr
    have hsize : (Table.occupy slots e.position e.parser done.length).size = slots.size :=
      size_occupy ..
    obtain ⟨slot, hlt, hsearch, hset⟩ := h.occupied (by omega) hp e.position e.parser done.length
    have hmasked : Masked (Table.occupy slots e.position e.parser done.length) := by
      rwa [Masked, hsize]
    have hrest := ih (h.occupy (by omega) e) hmasked (by
      rw [hsize, List.length_append, List.length_singleton]
      omega)
    rw [List.length_append, List.length_singleton] at hrest
    rw [List.zipIdx_cons, List.foldl_cons]
    refine .cons hlt hsearch ?_
    rw [← hset]
    exact hrest

end Searches

namespace Table

/-- Ask a table. A value that is not needed is not made. -/
def ask (t : Table α) (w : σ) : Query α σ → Answer α × Table α × σ
  | .get position parser =>
    let (value, t) := t.get? position parser
    (⟨value, value.isSome⟩, t, w)
  | .getOrInsert position parser make =>
    let (value, existed, t) := t.getOrInsert position parser (make w).1
    (⟨some value, existed⟩, t, if existed then w else (make w).2)

/-- Whether the entry at an index is that of a pair, if there is an entry. -/
def isAt? (t : Table α) (position : Nat) (parser : ParserId) (index : Nat) : Option Bool :=
  t.entries[index]?.map fun e => e.position == position && e.parser == parser

/-- A question and its answer, step by step: searches run to their end, an entry is read and a slot
written where there is one, and a value is made where it is inserted. -/
inductive Answers (t : Table α) (w : σ) : Query α σ → Answer α → Table α → σ → Prop
  | found {position index : Nat} {parser : ParserId} {e : Entry α} :
      Search t.slots (t.isAt? position parser) (firstSlot t.slots position parser)
        (.present index) → t.entries[index]? = some e →
      Answers t w (.get position parser) ⟨some e.value, true⟩ { t with hits := t.hits + 1 } w
  | missed {position slot : Nat} {parser : ParserId} :
      Search t.slots (t.isAt? position parser) (firstSlot t.slots position parser)
        (.vacant slot) →
      Answers t w (.get position parser) ⟨none, false⟩ { t with misses := t.misses + 1 } w
  | kept {position index : Nat} {parser : ParserId} {e : Entry α} {make : σ → α × σ} :
      Search t.slots (t.isAt? position parser) (firstSlot t.slots position parser)
        (.present index) → t.entries[index]? = some e →
      Answers t w (.getOrInsert position parser make) ⟨some e.value, true⟩
        { t with hits := t.hits + 1 } w
  /-- There is room in the vacant slot to which the search came. -/
  | added {position slot : Nat} {parser : ParserId} {make : σ → α × σ} (h : slot < t.slots.size) :
      Search t.slots (t.isAt? position parser) (firstSlot t.slots position parser)
        (.vacant slot) → t.isFull = false →
      Answers t w (.getOrInsert position parser make) ⟨some (make w).1, false⟩
        ⟨t.slots.set slot (some t.size), t.entries.push ⟨position, parser, (make w).1⟩, t.hits,
          t.misses + 1⟩ (make w).2
  /-- The table grows first, so another vacant slot is searched for. -/
  | grown {position slot slot' : Nat} {parser : ParserId} {make : σ → α × σ}
      {slots : Array (Option Nat)} (h : slot' < slots.size) :
      Search t.slots (t.isAt? position parser) (firstSlot t.slots position parser)
        (.vacant slot) → t.isFull = true →
      Filled (Array.replicate (2 * t.capacity) none) t.entries.toList.zipIdx slots →
      Search slots (fun _ => some false) (firstSlot slots position parser) (.vacant slot') →
      Answers t w (.getOrInsert position parser make) ⟨some (make w).1, false⟩
        ⟨slots.set slot' (some t.size), t.entries.push ⟨position, parser, (make w).1⟩, t.hits,
          t.misses + 1⟩ (make w).2

/-- Questions and their answers, one after another. -/
inductive AnswersAll : Table α → σ → List (Query α σ) → List (Answer α) → Table α → σ → Prop
  | nil {t : Table α} {w : σ} : AnswersAll t w [] [] t w
  | cons {t t' t'' : Table α} {w w' w'' : σ} {q : Query α σ} {qs : List (Query α σ)} {a : Answer α}
      {as : List (Answer α)} : Answers t w q a t' w' → AnswersAll t' w' qs as t'' w'' →
      AnswersAll t w (q :: qs) (a :: as) t'' w''

section Steps

variable {t : Table α} {position : Nat} {parser : ParserId}

theorem masked_ofEstimate (n : Nat) : Masked (ofEstimate n : Table α).slots := by
  simp only [Masked, ofEstimate, Array.size_replicate, roundUp]
  split
  · exact ⟨4, rfl⟩
  · exact ⟨_, rfl⟩

theorem isAt_eq (t : Table α) (position : Nat) (parser : ParserId) :
    t.isAt position parser = fun i => (t.isAt? position parser i).getD false := by
  funext i
  simp only [isAt, isAt?]
  cases t.entries[i]? <;> rfl

theorem Valid.size_lt (h : t.Valid) : t.entries.toList.length < t.slots.size := by
  have hroomy : 4 * t.entries.size ≤ 3 * t.slots.size := h.roomy
  have hnonempty : 0 < t.slots.size := h.nonempty
  rw [Array.length_toList]
  omega

/-- A search comes to the end that the bound on its steps would let it come to. -/
theorem Valid.search (h : t.Valid) (hp : Masked t.slots) (position : Nat) (parser : ParserId) :
    Search t.slots (t.isAt? position parser) (firstSlot t.slots position parser)
      (t.find position parser) := by
  obtain ⟨k, hk, slot, hl, hs⟩ := exists_vacant (home_lt h.nonempty position parser)
    (by rw [h.indexed.count]; exact h.size_lt)
  rw [hp.firstSlot_eq, find, isAt_eq]
  refine Search.of_leads hp hl hk hs fun slot i hi => ?_
  have hlt : i < t.entries.toList.length := h.indexed.bounded slot i hi
  rw [Array.length_toList] at hlt
  rw [isAt?, Array.getElem?_eq_getElem hlt]
  rfl

theorem Valid.search_present {v : α} (h : t.Valid) (hp : Masked t.slots)
    (hv : t.peek? position parser = some v) :
    ∃ (index : Nat) (e : Entry α), Search t.slots (t.isAt? position parser)
      (firstSlot t.slots position parser) (.present index) ∧
      t.entries[index]? = some e ∧ e.value = v := by
  have hsearch := h.search hp position parser
  unfold peek? at hv
  split at hv
  next index hfind =>
    obtain ⟨e, he, rfl⟩ := Option.map_eq_some_iff.1 hv
    rw [hfind] at hsearch
    exact ⟨index, e, hsearch, he, rfl⟩
  next => cases hv

theorem Valid.search_vacant (h : t.Valid) (hp : Masked t.slots)
    (hn : t.peek? position parser = none) :
    ∃ slot, Search t.slots (t.isAt? position parser) (firstSlot t.slots position parser)
      (.vacant slot) := by
  have hsearch := h.search hp position parser
  unfold peek? at hn
  split at hn
  next index hfind =>
    obtain ⟨e, he, -⟩ := (isAt_iff t position parser index).1 (probe_eq_present hfind)
    rw [he] at hn
    cases hn
  next slot hfind =>
    rw [hfind] at hsearch
    exact ⟨slot, hsearch⟩

theorem ask_get_some {v : α} (hv : t.peek? position parser = some v) (w : σ) :
    t.ask w (.get position parser) = (⟨some v, true⟩, { t with hits := t.hits + 1 }, w) := by
  simp only [ask, get?, hv, Option.isSome_some]

theorem ask_get_none (hv : t.peek? position parser = none) (w : σ) :
    t.ask w (.get position parser) = (⟨none, false⟩, { t with misses := t.misses + 1 }, w) := by
  simp only [ask, get?, hv, Option.isSome_none]

theorem ask_insert_some {v : α} (hv : t.peek? position parser = some v) (w : σ)
    (make : σ → α × σ) : t.ask w (.getOrInsert position parser make) =
      (⟨some v, true⟩, { t with hits := t.hits + 1 }, w) := by
  simp only [ask, getOrInsert, hv, if_true]

theorem ask_insert_none (hv : t.peek? position parser = none) (w : σ) (make : σ → α × σ) :
    t.ask w (.getOrInsert position parser make) =
      (⟨some (make w).1, false⟩, t.insert position parser (make w).1, (make w).2) := by
  simp only [ask, getOrInsert, hv, Bool.false_eq_true, if_false]

theorem Valid.filled_grow (h : t.Valid) (hp : Masked t.slots) :
    Filled (Array.replicate (2 * t.capacity) none) t.entries.toList.zipIdx t.grow.slots := by
  have hmasked : Masked (Array.replicate (2 * t.capacity) (none : Option Nat)) := by
    obtain ⟨k, hk⟩ := hp
    exact ⟨k + 1, by rw [Array.size_replicate, capacity, hk, Nat.pow_succ, Nat.mul_comm]⟩
  have hlt := h.size_lt
  refine Indexed.filled t.entries.toList (Indexed.empty _) hmasked ?_
  rw [Array.size_replicate, capacity, List.length_nil]
  omega

theorem masked_grow (hp : Masked t.slots) : Masked t.grow.slots := by
  obtain ⟨k, hk⟩ := hp
  have hsize : t.grow.slots.size = 2 * t.slots.size := size_index ..
  exact ⟨k + 1, by rw [hsize, hk, Nat.pow_succ, Nat.mul_comm]⟩

theorem masked_insert (hp : Masked t.slots) (position : Nat) (parser : ParserId) (v : α) :
    Masked (t.insert position parser v).slots := by
  have hsame (u : Table α) : (u.append position parser v).slots.size = u.slots.size :=
    size_occupy ..
  rw [Masked, Table.insert, hsame]
  split
  · exact masked_grow hp
  · exact hp

/-- A new pair is inserted with searches that come to an end, also if the table grows. -/
theorem Valid.answers_insert (h : t.Valid) (hp : Masked t.slots)
    (hn : t.peek? position parser = none) (w : σ) (make : σ → α × σ) :
    t.Answers w (.getOrInsert position parser make) ⟨some (make w).1, false⟩
      (t.insert position parser (make w).1) (make w).2 := by
  obtain ⟨slot, hsearch⟩ := h.search_vacant hp hn
  have hfull : ({ t with misses := t.misses + 1 } : Table α).isFull = t.isFull := rfl
  cases hf : t.isFull with
  | false =>
    obtain ⟨slot', hlt, hsearch', hset⟩ := h.indexed.occupied h.size_lt hp position parser t.size
    obtain rfl : slot' = slot := by injection hsearch.vacant_any.unique hsearch'
    have hadded : t.Answers w (.getOrInsert position parser make) _ _ _ := .added hlt hsearch hf
    rw [← hset] at hadded
    simp only [Table.insert, hfull, hf]
    exact hadded
  | true =>
    obtain ⟨slot', hlt, hsearch', hset⟩ :=
      h.grow.indexed.occupied h.grow.size_lt (masked_grow hp) position parser t.size
    have hgrown : t.Answers w (.getOrInsert position parser make) _ _ _ :=
      .grown hlt hsearch hf (h.filled_grow hp) hsearch'
    rw [← hset] at hgrown
    simp only [Table.insert, hfull, hf]
    exact hgrown

/-- The step lemma for searches: what a table answers is what the steps lead to. -/
theorem Valid.answers (h : t.Valid) (hp : Masked t.slots) (w : σ) (q : Query α σ) :
    t.Answers w q (t.ask w q).1 (t.ask w q).2.1 (t.ask w q).2.2 := by
  cases q with
  | get position parser =>
    cases hv : t.peek? position parser with
    | some v =>
      obtain ⟨index, e, hsearch, he, rfl⟩ := h.search_present hp hv
      rw [ask_get_some hv]
      exact .found hsearch he
    | none =>
      obtain ⟨slot, hsearch⟩ := h.search_vacant hp hv
      rw [ask_get_none hv]
      exact .missed hsearch
  | getOrInsert position parser make =>
    cases hv : t.peek? position parser with
    | some v =>
      obtain ⟨index, e, hsearch, he, rfl⟩ := h.search_present hp hv
      rw [ask_insert_some hv]
      exact .kept hsearch he
    | none =>
      rw [ask_insert_none hv]
      exact h.answers_insert hp hv w make

end Steps

section Runs

variable {t : Table α}

theorem Valid.peek?_eq_lookup (h : t.Valid) (position : Nat) (parser : ParserId) :
    t.peek? position parser = lookup t.entries.toList position parser := by
  cases hl : lookup t.entries.toList position parser with
  | some v => exact h.peek?_eq_some_iff.2 (mem_of_lookup hl)
  | none =>
    refine h.peek?_eq_none_iff.2 fun e he hpair => lookup_eq_none_iff.1 hl ?_
    exact List.mem_map.2 ⟨e, he, Prod.ext hpair.1 hpair.2⟩

/-- The step lemma for answers: they are those of the list of entries. -/
theorem Valid.ask_eq (h : t.Valid) (w : σ) (q : Query α σ) :
    ((t.ask w q).1, (t.ask w q).2.1.entries.toList, (t.ask w q).2.2) =
      askList t.entries.toList w q := by
  cases q with
  | get position parser =>
    simp only [askList, ← h.peek?_eq_lookup]
    cases hv : t.peek? position parser with
    | some v => rw [ask_get_some hv]; rfl
    | none => rw [ask_get_none hv]; rfl
  | getOrInsert position parser make =>
    simp only [askList, ← h.peek?_eq_lookup]
    cases hv : t.peek? position parser with
    | some v => rw [ask_insert_some hv]
    | none => rw [ask_insert_none hv, toList_entries_insert]

/-- The step lemma for the table itself. -/
theorem Valid.ask (h : t.Valid) (hp : Masked t.slots) (w : σ) (q : Query α σ) :
    (t.ask w q).2.1.Valid ∧ Masked (t.ask w q).2.1.slots := by
  cases q with
  | get position parser =>
    cases hv : t.peek? position parser with
    | some v => rw [ask_get_some hv]; exact ⟨h.count .., hp⟩
    | none => rw [ask_get_none hv]; exact ⟨h.count .., hp⟩
  | getOrInsert position parser make =>
    cases hv : t.peek? position parser with
    | some v => rw [ask_insert_some hv]; exact ⟨h.count .., hp⟩
    | none => rw [ask_insert_none hv]; exact ⟨h.insert hv _, masked_insert hp ..⟩

theorem counts_insert (t : Table α) (position : Nat) (parser : ParserId) (v : α) :
    (t.insert position parser v).hits = t.hits ∧ (t.insert position parser v).misses = t.misses + 1 ∧
      (t.insert position parser v).size = t.size + 1 := by
  have hsize := congrArg List.length (toList_entries_insert t position parser v)
  rw [List.length_append, Array.length_toList, Array.length_toList] at hsize
  refine ⟨?_, ?_, hsize⟩ <;> simp only [Table.insert, Table.append] <;> split <;> rfl

/-- The step lemma for what is counted. -/
theorem counts_ask (t : Table α) (w : σ) (q : Query α σ) :
    (t.ask w q).2.1.hits + (t.ask w q).2.1.misses = t.hits + t.misses + 1 ∧
      (t.ask w q).2.1.misses + t.size =
        t.misses + (t.ask w q).2.1.size + missed [q] [(t.ask w q).1] := by
  cases q with
  | get position parser =>
    cases hv : t.peek? position parser with
    | some v => rw [ask_get_some hv]; simp [missed, size]; omega
    | none => rw [ask_get_none hv]; simp [missed, size, Query.isGet]; omega
  | getOrInsert position parser make =>
    cases hv : t.peek? position parser with
    | some v => rw [ask_insert_some hv]; simp [missed, size]; omega
    | none =>
      obtain ⟨hhits, hmisses, hsize⟩ := t.counts_insert position parser (make w).1
      rw [ask_insert_none hv]
      simp only [hhits, hmisses, hsize]
      simp [missed, Query.isGet]
      omega

theorem missed_cons (q : Query α σ) (qs : List (Query α σ)) (a : Answer α) (as : List (Answer α)) :
    missed (q :: qs) (a :: as) = missed [q] [a] + missed qs as := by
  simp only [missed, List.zip_cons_cons, List.zip_nil_left, List.countP_cons, List.countP_nil]
  omega

/-- The run lemma for answers. -/
theorem Valid.askAll_eq (qs : List (Query α σ)) :
    ∀ {t : Table α} {w : σ}, t.Valid → Masked t.slots →
      ((askAll Table.ask t w qs).1, (askAll Table.ask t w qs).2.1.entries.toList,
        (askAll Table.ask t w qs).2.2) = askAll askList t.entries.toList w qs := by
  induction qs with
  | nil => exact fun _ _ => rfl
  | cons q qs ih =>
    intro t w h hp
    obtain ⟨hvalid, hmasked⟩ := h.ask hp w q
    simp only [askAll_cons, ← h.ask_eq w q, ← ih hvalid hmasked]

/-- The run lemma for searches. -/
theorem Valid.answersAll (qs : List (Query α σ)) :
    ∀ {t : Table α} {w : σ}, t.Valid → Masked t.slots →
      AnswersAll t w qs (askAll Table.ask t w qs).1 (askAll Table.ask t w qs).2.1
        (askAll Table.ask t w qs).2.2 := by
  induction qs with
  | nil => exact fun _ _ => .nil
  | cons q qs ih =>
    intro t w h hp
    obtain ⟨hvalid, hmasked⟩ := h.ask hp w q
    exact .cons (h.answers hp w q) (ih hvalid hmasked)

/-- The run lemma for the table itself. -/
theorem Valid.askAll (qs : List (Query α σ)) :
    ∀ {t : Table α} {w : σ}, t.Valid → Masked t.slots →
      (askAll Table.ask t w qs).2.1.Valid ∧ Masked (askAll Table.ask t w qs).2.1.slots := by
  induction qs with
  | nil => exact fun h hp => ⟨h, hp⟩
  | cons q qs ih =>
    intro t w h hp
    obtain ⟨hvalid, hmasked⟩ := h.ask hp w q
    exact ih hvalid hmasked

/-- The run lemma for what is counted. -/
theorem counts_askAll (qs : List (Query α σ)) :
    ∀ (t : Table α) (w : σ), (askAll Table.ask t w qs).2.1.hits + (askAll Table.ask t w qs).2.1.misses =
        t.hits + t.misses + qs.length ∧
      (askAll Table.ask t w qs).2.1.misses + t.size = t.misses + (askAll Table.ask t w qs).2.1.size +
        missed qs (askAll Table.ask t w qs).1 := by
  induction qs with
  | nil => exact fun t w => ⟨rfl, rfl⟩
  | cons q qs ih =>
    intro t w
    obtain ⟨hsum, hmisses⟩ := t.counts_ask w q
    obtain ⟨hsums, hmisses'⟩ := ih (t.ask w q).2.1 (t.ask w q).2.2
    rw [askAll_cons, missed_cons, List.length_cons]
    dsimp only
    omega

end Runs

end Table

/-- What an empty table, with room for as many entries as estimated, becomes when it is asked
questions, and what it answers. -/
structure ActsAsMap (estimate : Nat) (w : σ) (qs : List (Query α σ)) (as : List (Answer α))
    (t : Table α) (w' : σ) : Prop where
  /-- The answers and the values made are those of a list of entries asked the same, which is then
  the list of the table's entries. -/
  map : askAll askList [] w qs = (as, t.entries.toList, w')
  /-- Each question is answered after finitely many steps, none of which leads out of range. -/
  steps : Table.AnswersAll (.ofEstimate estimate) w qs as t w'
  /-- Each pair that was inserted has one entry, where it was inserted first. -/
  order : t.entries.toList.map Entry.pair = (qs.filterMap Query.inserted?).eraseDups
  calls : t.hits + t.misses = qs.length
  misses : t.misses = t.size + missed qs as
  masked : Masked t.slots
  vacancy : 4 * t.size ≤ 3 * t.capacity

/-- To any questions a memo table answers as an insertion-ordered map does, whatever number of
entries was estimated. -/
theorem acts_as_ordered_map (estimate : Nat) (w : σ) (qs : List (Query α σ)) :
    let run (n : Nat) := askAll Table.ask (.ofEstimate n : Table α) w qs
    ActsAsMap estimate w qs (run estimate).1 (run estimate).2.1 (run estimate).2.2 ∧
      ∀ other, (run other).1 = (run estimate).1 ∧ (run other).2.2 = (run estimate).2.2 ∧
        (run other).2.1.entries = (run estimate).2.1.entries ∧
        (run other).2.1.hits = (run estimate).2.1.hits ∧
        (run other).2.1.misses = (run estimate).2.1.misses := by
  intro run
  have hacts (n : Nat) : ActsAsMap n w qs (run n).1 (run n).2.1 (run n).2.2 := by
    have hvalid : (Table.ofEstimate n : Table α).Valid := Table.valid_ofEstimate n
    have hmasked : Masked (Table.ofEstimate n : Table α).slots := Table.masked_ofEstimate n
    have hmap : ((run n).1, (run n).2.1.entries.toList, (run n).2.2) = askAll askList [] w qs :=
      Table.Valid.askAll_eq qs hvalid hmasked
    have hpairs := pairs_askAll qs ([] : List (Entry α)) w [] rfl
    obtain ⟨hcalls, hmisses⟩ := Table.counts_askAll qs (Table.ofEstimate n : Table α) w
    obtain ⟨hvalid', hmasked'⟩ := Table.Valid.askAll qs (w := w) hvalid hmasked
    refine ⟨hmap.symm, Table.Valid.answersAll qs hvalid hmasked, ?_, ?_, ?_, hmasked', hvalid'.roomy⟩
    · rw [← hmap] at hpairs
      exact hpairs
    · exact hcalls.trans (Nat.zero_add _)
    · exact hmisses.trans (congrArg (· + missed qs (run n).1) (Nat.zero_add _))
  refine ⟨hacts estimate, fun other => ?_⟩
  have hone := hacts estimate
  have hother := hacts other
  have hsame := hone.map.symm.trans hother.map
  simp only [Prod.mk.injEq] at hsame
  obtain ⟨hanswers, hentries, hstate⟩ := hsame
  have hentries' : (run other).2.1.entries = (run estimate).2.1.entries :=
    (Array.toList_inj.1 hentries).symm
  have hmisses : (run other).2.1.misses = (run estimate).2.1.misses := by
    rw [hother.misses, hone.misses, ← hanswers, Table.size, hentries', Table.size]
  have hcalls := hone.calls.trans hother.calls.symm
  exact ⟨hanswers.symm, hstate.symm, hentries', by omega, hmisses⟩

end PushParsing.Memo
