import PushParsing.Engine.Accumulator

/-!
# The best of several

Of failures that come one after another the best is the first of those that lie furthest on. Of
trees it is the first of the longest.
-/
namespace PushParsing

variable {fs : List Failure} {f best : Failure}

theorem Failure.exists_furthest (best : Option Failure) (f : Failure) :
    ∃ b, furthest best f = some b := by
  cases best with
  | none => exact ⟨f, rfl⟩
  | some b =>
    rw [furthest]
    split <;> exact ⟨_, rfl⟩

theorem foldr_furthest_eq_none_iff :
    fs.foldr (fun f best => Failure.furthest best f) none = none ↔ fs = [] := by
  cases fs with
  | nil => simp
  | cons f fs =>
    obtain ⟨b, hb⟩ := Failure.exists_furthest (fs.foldr (fun f best => Failure.furthest best f) none) f
    simp [hb]

/-- Failures listed latest first: none after the best one lies further on, and all before it lie
less far. -/
theorem split_of_foldr_furthest
    (h : fs.foldr (fun f best => Failure.furthest best f) none = some best) :
    ∃ later earlier, fs = later ++ best :: earlier ∧ (∀ f ∈ later, f.position ≤ best.position) ∧
      ∀ f ∈ earlier, f.position < best.position := by
  induction fs generalizing best with
  | nil => cases h
  | cons f fs ih =>
    rw [List.foldr_cons] at h
    cases hb : fs.foldr (fun f best => Failure.furthest best f) none with
    | none =>
      rw [hb] at h
      cases h
      exact ⟨[], fs, rfl, by simp, by simp [foldr_furthest_eq_none_iff.1 hb]⟩
    | some b =>
      obtain ⟨later, earlier, rfl, hlater, hearlier⟩ := ih hb
      rw [hb, Failure.furthest] at h
      split at h
      next hlt =>
        cases h
        refine ⟨[], _, rfl, by simp, ?_⟩
        intro x hx
        rcases List.mem_append.1 hx with hx | hx
        · exact Nat.lt_of_le_of_lt (hlater x hx) hlt
        · rcases List.mem_cons.1 hx with rfl | hx
          · exact hlt
          · exact Nat.lt_trans (hearlier x hx) hlt
      next hle =>
        cases h
        refine ⟨f :: later, earlier, rfl, ?_, hearlier⟩
        intro x hx
        rcases List.mem_cons.1 hx with rfl | hx
        · exact Nat.le_of_not_lt hle
        · exact hlater x hx

theorem mem_of_foldr_furthest
    (h : fs.foldr (fun f best => Failure.furthest best f) none = some best) : best ∈ fs := by
  obtain ⟨later, earlier, rfl, -⟩ := split_of_foldr_furthest h
  exact List.mem_append_right _ List.mem_cons_self

/-- The best of several failures is as far as any. -/
theorem position_le_of_foldr_furthest (hf : f ∈ fs) :
    ∃ best, fs.foldr (fun f best => Failure.furthest best f) none = some best ∧
      f.position ≤ best.position := by
  cases hb : fs.foldr (fun f best => Failure.furthest best f) none with
  | none =>
    rw [foldr_furthest_eq_none_iff.1 hb] at hf
    cases hf
  | some best =>
    refine ⟨best, rfl, ?_⟩
    obtain ⟨later, earlier, rfl, hlater, hearlier⟩ := split_of_foldr_furthest hb
    rcases List.mem_append.1 hf with hf | hf
    · exact hlater f hf
    · rcases List.mem_cons.1 hf with rfl | hf
      · exact Nat.le_refl _
      · exact Nat.le_of_lt (hearlier f hf)

/-- A failure is the best one also if others that are not further on follow. -/
theorem foldl_furthest_of_le (h : ∀ x ∈ fs, x.position ≤ f.position) :
    fs.foldl Failure.furthest (some f) = some f := by
  induction fs with
  | nil => rfl
  | cons x fs ih =>
    have hx : x.position ≤ f.position := h x List.mem_cons_self
    rw [List.foldl_cons, Failure.furthest, if_neg (Nat.not_lt.2 hx)]
    exact ih fun y hy => h y (List.mem_cons_of_mem _ hy)

theorem mem_of_foldl_furthest (h : fs.foldl Failure.furthest none = some best) : best ∈ fs := by
  rw [List.foldl_eq_foldr_reverse] at h
  exact List.mem_reverse.1 (mem_of_foldr_furthest h)

theorem foldl_furthest_eq_none_iff : fs.foldl Failure.furthest none = none ↔ fs = [] := by
  rw [List.foldl_eq_foldr_reverse, foldr_furthest_eq_none_iff, List.reverse_eq_nil_iff]

section Longest

variable {κ : Type}

theorem exists_longest (ts : List Tree) : ∀ b : Tree, ∃ t ∈ b :: ts,
    ts.foldl (fun best t =>
      match best with
      | none => some t
      | some b => if b.length < t.length then some t else some b) (some b) = some t ∧
    ∀ u ∈ b :: ts, u.length ≤ t.length := by
  induction ts with
  | nil => exact fun b => ⟨b, List.mem_cons_self, rfl, by simp⟩
  | cons x ts ih =>
    intro b
    rw [List.foldl_cons]
    dsimp only
    split
    next hlt =>
      obtain ⟨t, ht, heq, hle⟩ := ih x
      refine ⟨t, List.mem_cons_of_mem _ ht, heq, fun u hu => ?_⟩
      rcases List.mem_cons.1 hu with rfl | hu
      · exact Nat.le_trans (Nat.le_of_lt hlt) (hle x List.mem_cons_self)
      · exact hle u hu
    next hge =>
      obtain ⟨t, ht, heq, hle⟩ := ih b
      have hbt := hle b List.mem_cons_self
      refine ⟨t, ?_, heq, fun u hu => ?_⟩
      · rcases List.mem_cons.1 ht with rfl | ht
        · exact List.mem_cons_self
        · exact List.mem_cons_of_mem _ (List.mem_cons_of_mem _ ht)
      · rcases List.mem_cons.1 hu with rfl | hu
        · exact hbt
        · rcases List.mem_cons.1 hu with rfl | hu
          · exact Nat.le_trans (Nat.le_of_not_lt hge) hbt
          · exact hle u (List.mem_cons_of_mem _ hu)

/-- The longest tree is one of the trees, and no tree is longer. -/
theorem Accumulator.longest?_cases (a : Accumulator κ) : a.trees = [] ∧ a.longest? = none ∨
    ∃ t ∈ a.trees, a.longest? = some t ∧ ∀ u ∈ a.trees, u.length ≤ t.length := by
  rw [longest?]
  cases a.trees with
  | nil => exact .inl ⟨rfl, rfl⟩
  | cons b ts => exact .inr (exists_longest ts b)

theorem Accumulator.longest?_eq_none_iff {a : Accumulator κ} : a.longest? = none ↔ a.trees = [] := by
  rcases a.longest?_cases with ⟨hnil, hnone⟩ | ⟨t, ht, hsome, -⟩
  · simp only [hnil, hnone]
  · simp only [hsome, reduceCtorEq, false_iff]
    exact List.ne_nil_of_mem ht

end Longest

end PushParsing
