import Mathlib.Data.List.Nodup
import PushParsing.Memo.Table

/-!
# Memo tables as finite maps

Every search ends because a slot is always vacant, and it ends at the right entry because no slot
between the home of a pair and the slot that leads to its entry is ever vacant.
-/
namespace PushParsing.Memo

variable {α : Type} {slots : Array (Option Nat)} {s t k n : Nat}

/-- A search from one slot passes `k` taken slots and comes to another slot. -/
inductive Leads (slots : Array (Option Nat)) : Nat → Nat → Nat → Prop
  | here (s : Nat) : Leads slots s 0 s
  | next {s t k i : Nat} : slots[s]? = some (some i) → Leads slots ((s + 1) % slots.size) k t →
      Leads slots s (k + 1) t

theorem probe_of_leads {wanted : Nat → Bool} {i : Nat} (h : Leads slots s k t) (hk : k < n)
    (ht : slots[t]? = some (some i)) (hi : wanted i) (hu : ∀ j, wanted j → j = i) :
    probe slots wanted n s = .present i := by
  induction h generalizing n with
  | here s =>
    obtain ⟨m, rfl⟩ : ∃ m, n = m + 1 := ⟨n - 1, by omega⟩
    simp [probe, ht, hi]
  | @next s t k j hs _ ih =>
    obtain ⟨m, rfl⟩ : ∃ m, n = m + 1 := ⟨n - 1, by omega⟩
    by_cases hj : wanted j
    · obtain rfl := hu j hj
      simp [probe, hs, hj]
    · simp only [probe, hs, hj]
      exact ih (by omega) ht

theorem probe_vacant (h : Leads slots s k t) (hk : k < n) (ht : slots[t]? = some none) :
    probe slots (fun _ => false) n s = .vacant t := by
  induction h generalizing n with
  | here s =>
    obtain ⟨m, rfl⟩ : ∃ m, n = m + 1 := ⟨n - 1, by omega⟩
    simp [probe, ht]
  | next hs _ ih =>
    obtain ⟨m, rfl⟩ : ∃ m, n = m + 1 := ⟨n - 1, by omega⟩
    simp only [probe, hs]
    exact ih (by omega) ht

theorem probe_eq_present {wanted : Nat → Bool} {i : Nat} (h : probe slots wanted n s = .present i) :
    wanted i := by
  induction n generalizing s with
  | zero => simp [probe] at h
  | succ n ih =>
    simp only [probe] at h
    split at h
    · split at h
      · cases h; assumption
      · exact ih h
    · cases h

/-- The first vacant slot on the way to a vacant slot. -/
theorem exists_leads_vacant (hs : s < slots.size) (h : slots[(s + n) % slots.size]? = some none) :
    ∃ k ≤ n, ∃ t, Leads slots s k t ∧ slots[t]? = some none := by
  induction n generalizing s with
  | zero =>
    rw [Nat.add_zero, Nat.mod_eq_of_lt hs] at h
    exact ⟨0, Nat.le_refl _, s, .here s, h⟩
  | succ n ih =>
    cases hc : slots[s] with
    | none => exact ⟨0, by omega, s, .here s, by simp [hc, hs]⟩
    | some i =>
      have hn : slots[((s + 1) % slots.size + n) % slots.size]? = some none := by
        rw [Nat.mod_add_mod, Nat.add_assoc, Nat.add_comm 1 n]
        exact h
      obtain ⟨k, hk, t, hl, ht⟩ := ih (Nat.mod_lt _ (by omega)) hn
      exact ⟨k + 1, by omega, t, .next (i := i) (by simp [hc, hs]) hl, ht⟩

/-- A search finds a vacant slot if not all slots are taken. -/
theorem exists_vacant (hs : s < slots.size) (h : slots.toList.countP Option.isSome < slots.size) :
    ∃ k < slots.size, ∃ t, Leads slots s k t ∧ slots[t]? = some none := by
  have hv : ∃ v, ∃ hv : v < slots.size, slots[v] = none := by
    by_contra hc
    push Not at hc
    have hall : ∀ x ∈ slots.toList, x.isSome := by
      intro x hx
      obtain ⟨v, hv, rfl⟩ := List.getElem_of_mem hx
      exact Option.isSome_iff_ne_none.2 (hc v (by simpa using hv))
    rw [List.countP_eq_length.2 hall] at h
    simp at h
  obtain ⟨v, hv, he⟩ := hv
  have hd : (s + (v + slots.size - s) % slots.size) % slots.size = v := by
    rw [Nat.add_mod_mod, show s + (v + slots.size - s) = v + slots.size by omega,
      Nat.add_mod_right, Nat.mod_eq_of_lt hv]
  obtain ⟨k, hk, t, hl, ht⟩ := exists_leads_vacant (n := (v + slots.size - s) % slots.size) hs
    (by rw [hd]; simp [he, hv])
  exact ⟨k, Nat.lt_of_le_of_lt hk (Nat.mod_lt _ (by omega)), t, hl, ht⟩

/-- To fill a vacant slot breaks no path. -/
theorem Leads.setIfInBounds {u j : Nat} (h : Leads slots s k t) (hu : slots[u]? = some none) :
    Leads (slots.setIfInBounds u (some j)) s k t := by
  induction h with
  | here s => exact .here s
  | @next s t k i hs _ ih =>
    have hne : u ≠ s := by rintro rfl; simp [hu] at hs
    refine .next (i := i) ?_ (by simpa using ih)
    rw [Array.getElem?_setIfInBounds_ne hne, hs]

/-- The slots lead to the entries of a list, each to be found from its home, and to nothing else. -/
structure Indexed (slots : Array (Option Nat)) (es : List (Entry α)) : Prop where
  count : slots.toList.countP Option.isSome = es.length
  reachable : ∀ (i : Nat) e, es[i]? = some e → ∃ k < slots.size, ∃ slot : Nat,
    Leads slots (home slots e.position e.parser) k slot ∧ slots[slot]? = some (some i)
  bounded : ∀ slot i : Nat, slots[slot]? = some (some i) → i < es.length

theorem home_lt (h : 0 < slots.size) (position : Nat) (parser : ParserId) :
    home slots position parser < slots.size := Nat.mod_lt _ h

theorem Indexed.empty (capacity : Nat) :
    Indexed (Array.replicate capacity none) ([] : List (Entry α)) where
  count := by simp
  reachable := by simp
  bounded := by
    intro slot i h
    simp [Array.getElem?_replicate] at h

theorem size_occupy (position : Nat) (parser : ParserId) (i : Nat) :
    (Table.occupy slots position parser i).size = slots.size := by
  unfold Table.occupy
  split <;> simp

theorem Indexed.occupy {es : List (Entry α)} (h : Indexed slots es)
    (hr : es.length < slots.size) (e : Entry α) :
    Indexed (Table.occupy slots e.position e.parser es.length) (es ++ [e]) := by
  have hpos : 0 < slots.size := by omega
  obtain ⟨k, hk, t, hl, ht⟩ := exists_vacant (home_lt hpos e.position e.parser)
    (by rw [h.count]; exact hr)
  have hlt : t < slots.size := by
    by_contra hc
    simp [Array.getElem?_eq_none (Nat.le_of_not_lt hc)] at ht
  have ho : Table.occupy slots e.position e.parser es.length =
      slots.setIfInBounds t (some es.length) := by
    rw [Table.occupy, probe_vacant hl hk ht]
  have hself : (slots.setIfInBounds t (some es.length))[t]? = some (some es.length) := by
    rw [Array.getElem?_setIfInBounds_self_of_lt hlt]
  rw [ho]
  constructor
  · have hn : slots.toList[t] = none := by
      have := Array.getElem?_eq_getElem hlt
      rw [ht] at this
      simpa using this.symm
    rw [Array.toList_setIfInBounds, List.countP_set (by simpa using hlt), hn, h.count]
    simp
  · intro i f hf
    have hhome : home (slots.setIfInBounds t (some es.length)) f.position f.parser =
        home slots f.position f.parser := by simp [home]
    rw [hhome, Array.size_setIfInBounds]
    rcases Nat.lt_or_ge i es.length with hi | hi
    · rw [List.getElem?_append_left hi] at hf
      obtain ⟨k', hk', slot, hl', hslot⟩ := h.reachable i f hf
      have hne : t ≠ slot := by rintro rfl; simp [ht] at hslot
      exact ⟨k', hk', slot, hl'.setIfInBounds ht, by
        rw [Array.getElem?_setIfInBounds_ne hne, hslot]⟩
    · rw [List.getElem?_append_right hi] at hf
      have hi' : i = es.length := by
        have hlen := (List.getElem?_eq_some_iff.1 hf).1
        simp at hlen
        omega
      subst hi'
      have hfe : e = f := by simpa using hf
      subst hfe
      exact ⟨k, hk, t, hl.setIfInBounds ht, hself⟩
  · intro slot i hs
    rw [List.length_append, List.length_singleton]
    by_cases hc : t = slot
    · subst hc
      rw [hself] at hs
      cases hs
      omega
    · rw [Array.getElem?_setIfInBounds_ne hc] at hs
      have := h.bounded slot i hs
      omega

theorem size_foldl_occupy (es : List (Entry α × Nat)) (slots : Array (Option Nat)) :
    (es.foldl (fun slots (e, i) => Table.occupy slots e.position e.parser i) slots).size =
      slots.size := by
  induction es generalizing slots with
  | nil => rfl
  | cons e es ih => rw [List.foldl_cons, ih, size_occupy]

theorem Indexed.foldl_occupy (es done : List (Entry α)) (h : Indexed slots done)
    (hr : done.length + es.length ≤ slots.size) :
    Indexed ((es.zipIdx done.length).foldl
      (fun slots (e, i) => Table.occupy slots e.position e.parser i) slots) (done ++ es) := by
  induction es generalizing slots done with
  | nil => simpa using h
  | cons e es ih =>
    rw [List.length_cons] at hr
    have h' := ih (done ++ [e]) (h.occupy (by omega) e) (by
      rw [size_occupy, List.length_append, List.length_singleton]
      omega)
    simpa [List.zipIdx_cons] using h'

theorem size_index (es : List (Entry α)) (capacity : Nat) :
    (Table.index es capacity).size = capacity := by
  rw [Table.index, size_foldl_occupy, Array.size_replicate]

theorem Indexed.index (es : List (Entry α)) {capacity : Nat} (h : es.length ≤ capacity) :
    Indexed (Table.index es capacity) es := by
  simpa [Table.index] using Indexed.foldl_occupy es [] (Indexed.empty capacity) (by simpa using h)

namespace Table

/-- A table answers as a finite map: its slots lead to its entries, no two of which are for one
pair, and a quarter of the slots is vacant. -/
structure Valid (t : Table α) : Prop where
  roomy : 4 * t.size ≤ 3 * t.capacity
  nonempty : 0 < t.capacity
  indexed : Indexed t.slots t.entries.toList
  distinct : t.entries.toList.Pairwise fun e f => ¬(e.position = f.position ∧ e.parser = f.parser)

theorem isAt_iff (t : Table α) (position : Nat) (parser : ParserId) (i : Nat) :
    t.isAt position parser i ↔
      ∃ e, t.entries[i]? = some e ∧ e.position = position ∧ e.parser = parser := by
  unfold isAt
  cases t.entries[i]? <;> simp

theorem Valid.unique {t : Table α} (h : t.Valid) {i j : Nat} {e f : Entry α}
    (hi : t.entries[i]? = some e) (hj : t.entries[j]? = some f) (hp : e.position = f.position)
    (hq : e.parser = f.parser) : i = j := by
  rw [← Array.getElem?_toList] at hi hj
  obtain ⟨hi', rfl⟩ := List.getElem?_eq_some_iff.1 hi
  obtain ⟨hj', rfl⟩ := List.getElem?_eq_some_iff.1 hj
  have hd := List.pairwise_iff_getElem.1 h.distinct
  rcases Nat.lt_trichotomy i j with hlt | heq | hlt
  · exact absurd ⟨hp, hq⟩ (hd i j hi' hj' hlt)
  · exact heq
  · exact absurd ⟨hp.symm, hq.symm⟩ (hd j i hj' hi' hlt)

theorem mem_of_peek? {t : Table α} {position : Nat} {parser : ParserId} {v : α}
    (h : t.peek? position parser = some v) : ⟨position, parser, v⟩ ∈ t.entries.toList := by
  unfold peek? at h
  split at h
  next i hf =>
    obtain ⟨e, he, rfl, rfl⟩ := (isAt_iff t position parser i).1 (probe_eq_present hf)
    rw [he] at h
    cases h
    rw [← Array.getElem?_toList] at he
    exact List.mem_of_getElem? he
  next => cases h

theorem Valid.peek?_of_mem {t : Table α} (h : t.Valid) {e : Entry α} (he : e ∈ t.entries.toList) :
    t.peek? e.position e.parser = some e.value := by
  obtain ⟨i, hi⟩ := List.getElem?_of_mem he
  obtain ⟨k, hk, slot, hl, hs⟩ := h.indexed.reachable i e hi
  rw [Array.getElem?_toList] at hi
  have hf : t.find e.position e.parser = .present i := by
    refine probe_of_leads hl hk hs ((isAt_iff ..).2 ⟨e, hi, rfl, rfl⟩) ?_
    intro j hj
    obtain ⟨f, hf, hp, hq⟩ := (isAt_iff ..).1 hj
    exact h.unique hf hi hp hq
  rw [peek?, hf]
  simp [hi]

/-- The value of a pair is that of the one entry for it. -/
theorem Valid.peek?_eq_some_iff {t : Table α} (h : t.Valid) {position : Nat} {parser : ParserId}
    {v : α} : t.peek? position parser = some v ↔ ⟨position, parser, v⟩ ∈ t.entries.toList :=
  ⟨mem_of_peek?, fun he => h.peek?_of_mem he⟩

theorem Valid.peek?_eq_none_iff {t : Table α} (h : t.Valid) {position : Nat} {parser : ParserId} :
    t.peek? position parser = none ↔
      ∀ e ∈ t.entries.toList, ¬(e.position = position ∧ e.parser = parser) := by
  constructor
  · rintro hn e he ⟨rfl, rfl⟩
    rw [h.peek?_of_mem he] at hn
    cases hn
  · intro ha
    cases hp : t.peek? position parser with
    | none => rfl
    | some v => exact absurd ⟨rfl, rfl⟩ (ha _ (mem_of_peek? hp))

theorem roundUp_pos (n : Nat) : 0 < roundUp n := by
  unfold roundUp
  split
  · decide
  · exact Nat.pow_pos (by decide)

theorem valid_ofEstimate (n : Nat) : (ofEstimate n : Table α).Valid where
  roomy := by simp [ofEstimate, size]
  nonempty := by simpa [ofEstimate, capacity] using roundUp_pos _
  indexed := Indexed.empty _
  distinct := .nil

theorem Valid.grow {t : Table α} (h : t.Valid) : t.grow.Valid := by
  have hr := h.roomy
  have hp := h.nonempty
  have hc : t.grow.capacity = 2 * t.capacity := size_index ..
  have hs : t.grow.size = t.size := rfl
  exact {
    roomy := by omega
    nonempty := by omega
    indexed := Indexed.index _ (by simp [size] at hr ⊢; omega)
    distinct := h.distinct }

theorem Valid.append {t : Table α} (h : t.Valid) (hf : t.isFull = false) {position : Nat}
    {parser : ParserId} (hn : t.peek? position parser = none) (v : α) :
    (t.append position parser v).Valid := by
  have hp := h.nonempty
  have hroom : 4 * (t.size + 1) ≤ 3 * t.capacity := by simpa [isFull] using hf
  have hsize : t.entries.toList.length = t.size := by simp [size]
  have hc : (t.append position parser v).capacity = t.capacity := size_occupy ..
  have he : (t.append position parser v).entries.toList =
      t.entries.toList ++ [⟨position, parser, v⟩] := by simp [Table.append]
  have hs : (t.append position parser v).size = t.size + 1 := by simp [Table.append, size]
  refine ⟨by omega, by omega, ?_, ?_⟩
  · rw [he]
    have := h.indexed.occupy (by rw [hsize]; exact (by omega : t.size < t.capacity))
      ⟨position, parser, v⟩
    rwa [hsize] at this
  · rw [he, List.pairwise_append]
    refine ⟨h.distinct, List.pairwise_singleton .., ?_⟩
    intro e hm f hf' hc
    rw [List.mem_singleton] at hf'
    subst hf'
    exact h.peek?_eq_none_iff.1 hn e hm hc

theorem Valid.count {t : Table α} (h : t.Valid) (hits misses : Nat) :
    ({ t with hits, misses } : Table α).Valid :=
  ⟨h.roomy, h.nonempty, h.indexed, h.distinct⟩

theorem toList_entries_insert (t : Table α) (position : Nat) (parser : ParserId) (v : α) :
    (t.insert position parser v).entries.toList = t.entries.toList ++ [⟨position, parser, v⟩] := by
  simp only [insert, Table.append]
  split <;> simp [Table.grow]

/-- A table that is full has room again once it has grown. -/
theorem Valid.growAppend {t : Table α} (h : t.Valid) {position : Nat} {parser : ParserId}
    (hn : t.peek? position parser = none) (v : α) :
    ((if t.isFull then t.grow else t).append position parser v).Valid := by
  by_cases hf : t.isFull
  · rw [if_pos hf]
    refine h.grow.append ?_ (h.grow.peek?_eq_none_iff.2 (h.peek?_eq_none_iff.1 hn)) v
    have hr := h.roomy
    have hp := h.nonempty
    have hc : t.grow.capacity = 2 * t.capacity := size_index ..
    have hs : t.grow.size = t.size := rfl
    simp only [isFull, hc, hs, decide_eq_false_iff_not, decide_eq_true_eq] at hf ⊢
    omega
  · rw [if_neg hf]
    exact h.append (by simpa using hf) hn v

theorem Valid.insert {t : Table α} (h : t.Valid) {position : Nat} {parser : ParserId}
    (hn : t.peek? position parser = none) (v : α) : (t.insert position parser v).Valid :=
  (h.count t.hits (t.misses + 1)).growAppend hn v

theorem Valid.peek?_insert {t : Table α} (h : t.Valid) {position : Nat} {parser : ParserId}
    (hn : t.peek? position parser = none) (v : α) (i : Nat) (p : ParserId) :
    (t.insert position parser v).peek? i p =
      if i = position ∧ p = parser then some v else t.peek? i p := by
  ext u
  rw [(h.insert hn v).peek?_eq_some_iff, toList_entries_insert, List.mem_append,
    List.mem_singleton, ← h.peek?_eq_some_iff]
  by_cases hc : i = position ∧ p = parser
  · obtain ⟨rfl, rfl⟩ := hc
    simp [hn, eq_comm]
  · rw [if_neg hc]
    simp only [Entry.mk.injEq, or_iff_left_iff_imp]
    rintro ⟨rfl, rfl, -⟩
    exact absurd ⟨rfl, rfl⟩ hc

end Table

end PushParsing.Memo
