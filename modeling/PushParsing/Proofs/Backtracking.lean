import PushParsing.Proofs.Termination

/-!
# Backtracking

An evaluator without memo tables and listeners: to evaluate a pair it evaluates, again and again,
whatever pairs the pair makes use of. It answers as long as no pair makes use of itself, directly or
not.
-/
namespace PushParsing

/-- What is found for a pair: trees, and the best failure. -/
structure Finding where
  trees : List Tree
  best : Option Failure
  deriving DecidableEq, Repr

namespace Finding

/-- The first trees of each length. -/
def firsts (ts : List Tree) : List Tree :=
  ts.foldl (fun kept t => if kept.any (·.length == t.length) then kept else kept ++ [t]) []

/-- The first of the furthest failures. -/
def furthest (fs : List Failure) : Option Failure := fs.foldl Failure.furthest none

/-- What is kept of all that a parser comes upon, in this order. -/
def ofNews (news : List News) : Finding where
  trees := firsts (treesOf news)
  best := furthest (failuresOf news)

/-- What a parser comes upon that passes on another one's finding. -/
def passed (x : Finding) (p : ParserId) : List News :=
  x.trees.map (fun t => .found (.wrap p t)) ++ x.best.toList.map .failed

end Finding

/-- What comes of the members of a list one after another. -/
def collect {α : Type} (f : α → Option (List News)) : List α → Option (List News)
  | [] => some []
  | x :: xs => do return (← f x) ++ (← collect f xs)

/-- What a sequence comes upon from one of its elements on, if `find` evaluates pairs: for each
match of the element in turn what the elements after it lead to, and then the failure of the element
itself. -/
def chains (find : ParserId → Nat → Option Finding) (p : ParserId) (start : Nat) :
    List ParserId → Nat → List Tree → Option (List News)
  | [], _, taken => some [.found (.join p start taken)]
  | e :: es, k, taken => do
    let x ← find e k
    let further ← collect (fun t => chains find p start es t.stop (taken ++ [t])) x.trees
    return further ++ x.best.toList.map .failed

/-- What a parser comes upon at a position within the document, if `find` evaluates pairs. -/
def Parser.backtrack (find : ParserId → Nat → Option Finding) (d : Document) (c : ContextNumber)
    (p : ParserId) (i : Nat) : Parser Empty → Option (List News)
  | .literal text =>
    if (d.rest? i).any (text.toList.isPrefixOf ·) then
      some [.found (.leaf p i (i + byteLength text.toList))]
    else some [.failed ((Cause.expectedText text).failure c p i)]
  | .pattern r =>
    match (d.rest? i).bind r.find? with
    | some e => some [.found (.leaf p i (i + e))]
    | none => some [.failed ((Cause.expectedPattern r.source).failure c p i)]
  | .sequence es => chains find p i es i []
  | .choice [] => some [.failed (Cause.noAlternatives.failure c p i)]
  | .choice qs => collect (fun q => (find q i).map (·.passed p)) qs
  | .optional q => (find q i).map fun x => .found (.leaf p i i) :: x.passed p
  | .custom _ _ code => code.elim

/-- The finding of a pair, if calls are nested less deeply than the given number. -/
def Grammar.backtrack (g : Grammar Empty) (d : Document) (c : ContextNumber) :
    Nat → ParserId → Nat → Option Finding
  | 0, _, _ => none
  | n + 1, p, i =>
    if d.size < i then some (.ofNews [.failed (Cause.beyondEnd.failure c p i)])
    else
      match g.parser? p with
      | none => some (.ofNews [.failed ((Cause.unknownParser p).failure c p i)])
      | some x => (x.backtrack (g.backtrack d c n) d c p i).map .ofNews

/-- The evaluator answers with a finding, at some depth. -/
def Grammar.Backtracks (g : Grammar Empty) (d : Document) (c : ContextNumber)
    (x : ParserId × Nat) (finding : Finding) : Prop :=
  ∃ n, g.backtrack d c n x.1 x.2 = some finding

/-- No pair that a pair makes use of makes use of itself. -/
def Grammar.Acyclic (g : Grammar Empty) (d : Document) (x : ParserId × Nat) : Prop :=
  ∀ y, Relation.ReflTransGen (Requests g d) x y → ¬Relation.TransGen (Requests g d) y y

variable {g : Grammar Empty} {d : Document} {c : ContextNumber}
  {find find' : ParserId → Nat → Option Finding}

section Depth

theorem collect_cons {α : Type} {f : α → Option (List News)} {x : α} {xs : List α}
    {news : List News} : collect f (x :: xs) = some news ↔
      ∃ as bs, f x = some as ∧ collect f xs = some bs ∧ as ++ bs = news := by
  simp only [collect]
  cases f x <;> cases collect f xs <;> simp

theorem collect_mono {α : Type} {f f' : α → Option (List News)}
    (h : ∀ x news, f x = some news → f' x = some news) {xs : List α} :
    ∀ {news : List News}, collect f xs = some news → collect f' xs = some news := by
  induction xs with
  | nil => exact fun hn => hn
  | cons x xs ih =>
    intro news hn
    obtain ⟨as, bs, has, hbs, hab⟩ := collect_cons.1 hn
    exact collect_cons.2 ⟨as, bs, h x as has, ih hbs, hab⟩

theorem collect_isSome {α : Type} {f : α → Option (List News)} {xs : List α}
    (h : ∀ x ∈ xs, ∃ news, f x = some news) : ∃ news, collect f xs = some news := by
  induction xs with
  | nil => exact ⟨[], rfl⟩
  | cons x xs ih =>
    obtain ⟨as, has⟩ := h x List.mem_cons_self
    obtain ⟨bs, hbs⟩ := ih fun y hy => h y (List.mem_cons_of_mem _ hy)
    exact ⟨as ++ bs, collect_cons.2 ⟨as, bs, has, hbs, rfl⟩⟩

theorem collect_mem {α : Type} {f : α → Option (List News)} {xs : List α} :
    ∀ {news : List News}, collect f xs = some news → ∀ m ∈ news, ∃ x ∈ xs, ∃ as,
      f x = some as ∧ m ∈ as := by
  induction xs with
  | nil =>
    intro news hn m hm
    cases hn
    cases hm
  | cons x xs ih =>
    intro news hn m hm
    obtain ⟨as, bs, has, hbs, rfl⟩ := collect_cons.1 hn
    rcases List.mem_append.1 hm with hm | hm
    · exact ⟨x, List.mem_cons_self, as, has, hm⟩
    · obtain ⟨y, hy, cs, hcs, hmem⟩ := ih hbs m hm
      exact ⟨y, List.mem_cons_of_mem _ hy, cs, hcs, hmem⟩

theorem chains_cons {p : ParserId} {start k : Nat} {e : ParserId} {es : List ParserId}
    {taken : List Tree} {news : List News} :
    chains find p start (e :: es) k taken = some news ↔ ∃ x further, find e k = some x ∧
      collect (fun t => chains find p start es t.stop (taken ++ [t])) x.trees = some further ∧
      further ++ x.best.toList.map .failed = news := by
  simp only [chains]
  cases find e k with
  | none => simp
  | some x =>
    cases hf : collect (fun t => chains find p start es t.stop (taken ++ [t])) x.trees with
    | none => simp [hf]
    | some further => simp [hf]

theorem chains_mono (h : ∀ q k x, find q k = some x → find' q k = some x) {p : ParserId}
    {start : Nat} (es : List ParserId) : ∀ {k : Nat} {taken : List Tree} {news : List News},
      chains find p start es k taken = some news → chains find' p start es k taken = some news := by
  induction es with
  | nil => exact fun hn => hn
  | cons e es ih =>
    intro k taken news hn
    obtain ⟨x, further, hx, hf, hnews⟩ := chains_cons.1 hn
    exact chains_cons.2 ⟨x, further, h e k x hx, collect_mono (fun _ _ => ih) hf, hnews⟩

theorem Parser.backtrack_mono (h : ∀ q k x, find q k = some x → find' q k = some x)
    {p : ParserId} {i : Nat} {x : Parser Empty} {news : List News}
    (hn : x.backtrack find d c p i = some news) : x.backtrack find' d c p i = some news := by
  have hmap {β : Type} (f : Finding → β) (q : ParserId) (b : β) :
      (find q i).map f = some b → (find' q i).map f = some b := by
    intro hb
    obtain ⟨y, hy, hf⟩ := Option.map_eq_some_iff.1 hb
    exact Option.map_eq_some_iff.2 ⟨y, h q i y hy, hf⟩
  cases x with
  | literal text => exact hn
  | pattern r => exact hn
  | sequence es => exact chains_mono h es hn
  | choice qs =>
    cases qs with
    | nil => exact hn
    | cons q qs => exact collect_mono (fun q news => hmap _ q news) hn
  | optional q => exact hmap _ q news hn
  | custom label refs code => exact code.elim

/-- To look deeper does not change an answer. -/
theorem Grammar.backtrack_mono {n m : Nat} (hnm : n ≤ m) :
    ∀ {p : ParserId} {i : Nat} {x : Finding},
      g.backtrack d c n p i = some x → g.backtrack d c m p i = some x := by
  induction n generalizing m with
  | zero => exact fun h => by cases h
  | succ n ih =>
    intro p i x h
    obtain ⟨m, rfl⟩ : ∃ k, m = k + 1 := ⟨m - 1, by omega⟩
    have hle : n ≤ m := Nat.le_of_succ_le_succ hnm
    rw [backtrack] at h ⊢
    by_cases hi : d.size < i
    · rwa [if_pos hi] at h ⊢
    · rw [if_neg hi] at h ⊢
      cases hp : g.parser? p with
      | none => rwa [hp] at h
      | some y =>
        rw [hp] at h
        obtain ⟨news, hnews, hx⟩ := Option.map_eq_some_iff.1 h
        have hdeep := Parser.backtrack_mono (fun q k z => ih hle) hnews
        exact Option.map_eq_some_iff.2 ⟨news, hdeep, hx⟩

theorem Grammar.Backtracks.unique {x : ParserId × Nat} {a b : Finding}
    (ha : g.Backtracks d c x a) (hb : g.Backtracks d c x b) : a = b := by
  obtain ⟨n, hn⟩ := ha
  obtain ⟨m, hm⟩ := hb
  have hn' := backtrack_mono (Nat.le_max_left n m) hn
  have hm' := backtrack_mono (Nat.le_max_right n m) hm
  rw [hn'] at hm'
  exact Option.some.inj hm'

end Depth

section Cycles

open Relation

theorem Grammar.Acyclic.request {x y : ParserId × Nat} (h : g.Acyclic d x)
    (hr : Requests g d x y) : g.Acyclic d y := fun z hz => h z (hz.head hr)

theorem Grammar.Acyclic.below {x y : ParserId × Nat} (h : g.Acyclic d x)
    (hy : TransGen (Requests g d) x y) : g.Acyclic d y :=
  fun z hz => h z (hy.to_reflTransGen.trans hz)

theorem Grammar.Acyclic.irrefl {x : ParserId × Nat} (h : g.Acyclic d x) :
    ¬TransGen (Requests g d) x x := h x .refl

/-- There are no cycles if requests lead down. -/
theorem Grammar.Acyclic.of_rank (rank : ParserId × Nat → Nat)
    (h : ∀ x y, Requests g d x y → rank y < rank x) (x : ParserId × Nat) : g.Acyclic d x := by
  have hless {y z : ParserId × Nat} (hyz : TransGen (Requests g d) y z) : rank z < rank y := by
    induction hyz with
    | single hr => exact h _ _ hr
    | tail _ hr ih => exact Nat.lt_trans (h _ _ hr) ih
  intro y _ hy
  exact Nat.lt_irrefl _ (hless hy)

/-- Without cycles, what holds of a pair if it holds of all that the pair makes use of, holds. The
number of pairs within reach gets less with each request. -/
theorem Grammar.Acyclic.induction (hg : g.Closed) {P : ParserId × Nat → Prop}
    (step : ∀ x, g.Acyclic d x → (∀ y, Requests g d x y → P y) → P x) {x : ParserId × Nat}
    (hx : g.Acyclic d x) : P x := by
  classical
  have hcount (n : Nat) : ∀ x, g.Acyclic d x →
      (allPairs g.size d.size).countP (fun y => TransGen (Requests g d) x y) < n → P x := by
    induction n with
    | zero => intro x _ hlt; omega
    | succ n ih =>
      intro x hx hlt
      refine step x hx fun y hy => ih y (hx.request hy) ?_
      obtain ⟨hcov, -⟩ := hy.covers hg
      have hless := countP_lt (p := fun z => decide (TransGen (Requests g d) y z))
        (q := fun z => decide (TransGen (Requests g d) x z)) _ (mem_allPairs.2 hcov)
        (decide_eq_false (hx.request hy).irrefl) (decide_eq_true (.single hy)) fun z hz =>
          decide_eq_true (TransGen.head hy (of_decide_eq_true hz))
      omega
  exact hcount _ x hx (Nat.lt_succ_self _)

end Cycles

section Answers

variable {p : ParserId} {i : Nat}

/-- Whatever is found stands for derivations of the pair. -/
def News.Proper (g : Grammar Empty) (d : Document) (p : ParserId) (i : Nat) (news : List News) :
    Prop :=
  ∀ t, .found t ∈ news → Derives g d p i t.stop

/-- The trees of a finding for a pair stand for derivations. -/
def Finding.Sound (g : Grammar Empty) (d : Document) (x : ParserId × Nat) (a : Finding) : Prop :=
  ∀ t ∈ a.trees, Derives g d x.1 x.2 t.stop

theorem mem_of_foldl_firsts {t : Tree} {ts : List Tree} :
    ∀ {kept : List Tree}, t ∈ ts.foldl
      (fun kept t => if kept.any (·.length == t.length) then kept else kept ++ [t]) kept →
        t ∈ kept ∨ t ∈ ts := by
  induction ts with
  | nil => exact fun h => .inl h
  | cons x xs ih =>
    intro kept h
    rw [List.foldl_cons] at h
    rcases ih h with h | h
    · split at h
      · exact .inl h
      · rcases List.mem_append.1 h with h | h
        · exact .inl h
        · exact .inr (List.mem_singleton.1 h ▸ List.mem_cons_self)
    · exact .inr (List.mem_cons_of_mem _ h)

theorem Finding.mem_of_firsts {t : Tree} {ts : List Tree} (h : t ∈ firsts ts) : t ∈ ts :=
  (mem_of_foldl_firsts h).resolve_left List.not_mem_nil

theorem Finding.Sound.ofNews {news : List News} (h : News.Proper g d p i news) :
    (Finding.ofNews news).Sound g d (p, i) := by
  intro t ht
  obtain ⟨m, hm, hmt⟩ := List.mem_filterMap.1 (Finding.mem_of_firsts ht)
  cases m with
  | found t' =>
    cases hmt
    exact h _ hm
  | failed f => cases hmt

theorem News.Proper.failed (f : Failure) : News.Proper g d p i [.failed f] := by
  intro t ht
  rw [List.mem_singleton] at ht
  cases ht

theorem News.Proper.single {t : Tree} (h : Derives g d p i t.stop) :
    News.Proper g d p i [.found t] := by
  intro t' ht
  rw [List.mem_singleton] at ht
  cases ht
  exact h

theorem News.Proper.append_best {news : List News} (h : News.Proper g d p i news)
    (best : Option Failure) : News.Proper g d p i (news ++ best.toList.map .failed) := by
  intro t ht
  rcases List.mem_append.1 ht with ht | ht
  · exact h t ht
  · obtain ⟨f, -, hf⟩ := List.mem_map.1 ht
    cases hf

theorem Finding.Sound.passed {q : ParserId} {a : Finding} (h : a.Sound g d (q, i))
    (hp : g.Passes p q) : News.Proper g d p i (a.passed p) := by
  refine News.Proper.append_best ?_ a.best
  intro t ht
  obtain ⟨t', ht', heq⟩ := List.mem_map.1 ht
  cases heq
  exact hp.derives (h t' ht')

variable (hfind : ∀ y, Requests g d (p, i) y → ∃ a, find y.1 y.2 = some a ∧ a.Sound g d y)
include hfind

/-- By induction on the elements that are left: a sequence comes to an end. -/
theorem chains_isSome (hi : i ≤ d.size) (es : List ParserId) :
    ∀ {before : List ParserId} {k : Nat} {taken : List Tree},
      g.parser? p = some (.sequence (before ++ es)) → DerivesAll g d before i k →
        (Tree.join p i taken).stop = k →
          ∃ news, chains find p i es k taken = some news ∧ News.Proper g d p i news := by
  induction es with
  | nil =>
    intro before k taken hp hbefore hk
    refine ⟨_, rfl, .single ?_⟩
    rw [hk]
    exact .sequence (List.append_nil before ▸ hp) hbefore
  | cons e es ih =>
    intro before k taken hp hbefore hk
    obtain ⟨a, ha, hsound⟩ := hfind (e, k) (.sequence hi hp hbefore)
    have hnext (t : Tree) (ht : t ∈ a.trees) : ∃ news,
        chains find p i es t.stop (taken ++ [t]) = some news ∧ News.Proper g d p i news := by
      have hp' : g.parser? p = some (.sequence ((before ++ [e]) ++ es)) := by simpa using hp
      exact ih hp' (hbefore.snoc (hsound t ht)) (Tree.stop_join_append ..)
    obtain ⟨further, hfurther⟩ := collect_isSome fun t ht => by
      obtain ⟨news, hnews, -⟩ := hnext t ht
      exact ⟨news, hnews⟩
    refine ⟨_, chains_cons.2 ⟨a, further, ha, hfurther, rfl⟩, News.Proper.append_best ?_ a.best⟩
    intro t ht
    obtain ⟨t', ht', as, has, hmem⟩ := collect_mem hfurther _ ht
    obtain ⟨news, hnews, hproper⟩ := hnext t' ht'
    rw [hnews] at has
    cases has
    exact hproper t hmem

/-- If all that a pair makes use of is found, its parser comes to an end. -/
theorem Parser.backtrack_isSome (hi : i ≤ d.size) {x : Parser Empty} (hp : g.parser? p = some x) :
    ∃ news, x.backtrack find d c p i = some news ∧ News.Proper g d p i news := by
  cases x with
  | literal text =>
    simp only [backtrack]
    split
    next h =>
      obtain ⟨rest, hr, ht⟩ := (Option.any_eq_true _ _).1 h
      refine ⟨_, rfl, .single ?_⟩
      rw [Tree.stop_leaf, Nat.max_eq_left (Nat.le_add_right ..)]
      exact .literal hp hr (List.isPrefixOf_iff_prefix.1 ht)
    next => exact ⟨_, rfl, .failed _⟩
  | pattern r =>
    simp only [backtrack]
    split
    next e h =>
      obtain ⟨rest, hr, he⟩ := Option.bind_eq_some_iff.1 h
      refine ⟨_, rfl, .single ?_⟩
      rw [Tree.stop_leaf, Nat.max_eq_left (Nat.le_add_right ..)]
      exact .pattern hp hr he
    next => exact ⟨_, rfl, .failed _⟩
  | sequence es =>
    have hstop : (Tree.join p i []).stop = i := by
      rw [Tree.join_nil, Tree.nothing, Tree.stop_leaf, Nat.max_self]
    have hp' : g.parser? p = some (.sequence ([] ++ es)) := hp
    exact chains_isSome hfind hi es hp' .nil hstop
  | choice qs =>
    cases qs with
    | nil => exact ⟨_, rfl, .failed _⟩
    | cons q qs =>
      have halt (q' : ParserId) (hq : q' ∈ q :: qs) :
          ∃ a, find q' i = some a ∧ News.Proper g d p i (a.passed p) := by
        have hpass : g.Passes p q' := .choice hp hq
        obtain ⟨a, ha, hsound⟩ := hfind (q', i) (.pass hi hpass)
        exact ⟨a, ha, hsound.passed hpass⟩
      obtain ⟨news, hnews⟩ := collect_isSome (f := fun q' => (find q' i).map (·.passed p))
        fun q' hq => by
          obtain ⟨a, ha, -⟩ := halt q' hq
          exact ⟨a.passed p, by rw [ha, Option.map_some]⟩
      refine ⟨news, hnews, ?_⟩
      intro t ht
      obtain ⟨q', hq, as, has, hmem⟩ := collect_mem hnews _ ht
      obtain ⟨a, ha, hproper⟩ := halt q' hq
      rw [ha] at has
      cases has
      exact hproper t hmem
  | optional q =>
    have hpass : g.Passes p q := .optional hp
    obtain ⟨a, ha, hsound⟩ := hfind (q, i) (.pass hi hpass)
    refine ⟨.found (.leaf p i i) :: a.passed p, by rw [backtrack, ha, Option.map_some], ?_⟩
    intro t ht
    rcases List.mem_cons.1 ht with heq | ht
    · cases heq
      rw [Tree.stop_leaf, Nat.max_self]
      exact .nothing hp
    · exact hsound.passed hpass t ht
  | custom label refs code => exact code.elim

omit hfind

/-- One depth does for all pairs of a list. -/
theorem Grammar.backtrack_uniform {R : ParserId × Nat → Prop} {P : ParserId × Nat → Finding → Prop}
    {xs : List (ParserId × Nat)} (h : ∀ y ∈ xs, R y → ∃ a, g.Backtracks d c y a ∧ P y a) :
    ∃ n, ∀ y ∈ xs, R y → ∃ a, g.backtrack d c n y.1 y.2 = some a ∧ P y a := by
  induction xs with
  | nil => exact ⟨0, by simp⟩
  | cons x xs ih =>
    obtain ⟨n, hn⟩ := ih fun y hy => h y (List.mem_cons_of_mem _ hy)
    by_cases hx : R x
    · obtain ⟨a, ⟨m, hm⟩, ha⟩ := h x List.mem_cons_self hx
      refine ⟨max n m, ?_⟩
      intro y hy hR
      rcases List.mem_cons.1 hy with rfl | hy
      · exact ⟨a, backtrack_mono (Nat.le_max_right n m) hm, ha⟩
      · obtain ⟨b, hb, hPb⟩ := hn y hy hR
        exact ⟨b, backtrack_mono (Nat.le_max_left n m) hb, hPb⟩
    · refine ⟨n, ?_⟩
      intro y hy hR
      rcases List.mem_cons.1 hy with rfl | hy
      · exact absurd hR hx
      · exact hn y hy hR

/-- Without cycles the evaluator answers. -/
theorem Grammar.Acyclic.backtracks (hg : g.Closed) {x : ParserId × Nat} (hx : g.Acyclic d x) :
    ∃ a, g.Backtracks d c x a ∧ a.Sound g d x := by
  refine Acyclic.induction hg (P := fun x => ∃ a, g.Backtracks d c x a ∧ a.Sound g d x) ?_ hx
  rintro ⟨p, i⟩ - ih
  have hall : ∀ y ∈ allPairs g.size d.size, Requests g d (p, i) y →
      ∃ a, g.Backtracks d c y a ∧ a.Sound g d y := fun y _ => ih y
  obtain ⟨n, hn⟩ := backtrack_uniform hall
  have hfind (y : ParserId × Nat) (hy : Requests g d (p, i) y) :
      ∃ a, g.backtrack d c n y.1 y.2 = some a ∧ a.Sound g d y :=
    hn y (mem_allPairs.2 (hy.covers hg).1) hy
  by_cases hi : d.size < i
  · refine ⟨_, ⟨n + 1, by rw [backtrack, if_pos hi]⟩, .ofNews (.failed _)⟩
  · cases hp : g.parser? p with
    | none => exact ⟨_, ⟨n + 1, by rw [backtrack, if_neg hi, hp]⟩, .ofNews (.failed _)⟩
    | some x =>
      obtain ⟨news, hnews, hproper⟩ := x.backtrack_isSome (c := c) hfind (Nat.not_lt.1 hi) hp
      refine ⟨.ofNews news, ⟨n + 1, ?_⟩, .ofNews hproper⟩
      rw [backtrack, if_neg hi, hp]
      exact Option.map_eq_some_iff.2 ⟨news, hnews, rfl⟩

end Answers

end PushParsing
