import PushParsing.Grammar.Draft

/-!
# Derivations

What the parsers of a grammar match, without regard to how matches are found, which pairs of a
parser and a position a pair makes use of, and how a pair fails by itself. All of it stays within
the document and the grammar.
-/
namespace PushParsing

mutual

/-- A parser matches the document between two offsets. -/
inductive Derives (g : Grammar Empty) (d : Document) : ParserId → Nat → Nat → Prop
  | literal {p : ParserId} {i : Nat} {text : String} {rest : List Char} :
      g.parser? p = some (.literal text) → d.rest? i = some rest → text.toList <+: rest →
      Derives g d p i (i + byteLength text.toList)
  | pattern {p : ParserId} {i e : Nat} {r : Pattern} {rest : List Char} :
      g.parser? p = some (.pattern r) → d.rest? i = some rest → r.find? rest = some e →
      Derives g d p i (i + e)
  | sequence {p : ParserId} {i j : Nat} {es : List ParserId} :
      g.parser? p = some (.sequence es) → DerivesAll g d es i j → Derives g d p i j
  | choice {p q : ParserId} {i j : Nat} {qs : List ParserId} :
      g.parser? p = some (.choice qs) → q ∈ qs → Derives g d q i j → Derives g d p i j
  | nothing {p q : ParserId} {i : Nat} : g.parser? p = some (.optional q) → Derives g d p i i
  | optional {p q : ParserId} {i j : Nat} :
      g.parser? p = some (.optional q) → Derives g d q i j → Derives g d p i j

/-- Parsers match the document between two offsets, one after another. -/
inductive DerivesAll (g : Grammar Empty) (d : Document) : List ParserId → Nat → Nat → Prop
  | nil {i : Nat} : DerivesAll g d [] i i
  | cons {e : ParserId} {es : List ParserId} {i k j : Nat} :
      Derives g d e i k → DerivesAll g d es k j → DerivesAll g d (e :: es) i j

end

/-- A parser matches whatever another one matches: one of its alternatives, or its inner parser. -/
inductive Grammar.Passes (g : Grammar Empty) (p q : ParserId) : Prop
  | choice {qs : List ParserId} : g.parser? p = some (.choice qs) → q ∈ qs → Passes g p q
  | optional : g.parser? p = some (.optional q) → Passes g p q

/-- The first pair makes use of the second one. A pair beyond the end of the document makes use of
none. -/
inductive Requests (g : Grammar Empty) (d : Document) : ParserId × Nat → ParserId × Nat → Prop
  | pass {p q : ParserId} {i : Nat} : i ≤ d.size → g.Passes p q → Requests g d (p, i) (q, i)
  | sequence {p e : ParserId} {before after : List ParserId} {i k : Nat} :
      i ≤ d.size → g.parser? p = some (.sequence (before ++ e :: after)) →
      DerivesAll g d before i k → Requests g d (p, i) (e, k)

/-- The failure of a pair for a cause. -/
def Cause.failure (cause : Cause) (c : ContextNumber) (p : ParserId) (i : Nat) : Failure :=
  { position := i, message := cause.message, parser := p, context := c }

/-- Why a parser fails at a position within the document, whatever other parsers find. -/
def Parser.cause? (d : Document) (i : Nat) : Parser Empty → Option Cause
  | .literal text =>
    if (d.rest? i).any (text.toList.isPrefixOf ·) then none else some (.expectedText text)
  | .pattern r =>
    match (d.rest? i).bind r.find? with
    | some _ => none
    | none => some (.expectedPattern r.source)
  | .choice [] => some .noAlternatives
  | _ => none

namespace Grammar

variable {κ : Type}

/-- Whether the grammar has the parser and the document the position. -/
def Covers (g : Grammar κ) (d : Document) (p : ParserId) (i : Nat) : Prop :=
  p < g.size ∧ i ≤ d.size

instance (g : Grammar κ) (d : Document) (p : ParserId) (i : Nat) : Decidable (g.Covers d p i) :=
  inferInstanceAs (Decidable (_ ∧ _))

/-- All references lead to parsers of the grammar. -/
def Closed (g : Grammar κ) : Prop :=
  ∀ p x, g.parser? p = some x → ∀ q ∈ x.references, q < g.size

/-- Why a pair fails by itself, whatever other pairs find. -/
def cause? (g : Grammar Empty) (d : Document) (p : ParserId) (i : Nat) : Option Cause :=
  if d.size < i then some .beyondEnd
  else
    match g.parser? p with
    | none => some (.unknownParser p)
    | some x => x.cause? d i

theorem cause?_eq {g : Grammar Empty} {d : Document} {p : ParserId} {i : Nat}
    {x : Parser Empty} (hi : i ≤ d.size) (hx : g.parser? p = some x) :
    g.cause? d p i = x.cause? d i := by
  rw [cause?, if_neg (Nat.not_lt.2 hi), hx]

/-- The failure of a pair by itself. -/
def failure? (g : Grammar Empty) (d : Document) (c : ContextNumber) (p : ParserId) (i : Nat) :
    Option Failure :=
  (g.cause? d p i).map fun cause => cause.failure c p i

theorem lt_size {g : Grammar κ} {p : ParserId} {x : Parser κ} (h : g.parser? p = some x) :
    p < g.size := by
  obtain ⟨r, hr, -⟩ := Option.map_eq_some_iff.1 h
  exact (Array.getElem?_eq_some_iff.1 hr).1

theorem closed_iff {g : Grammar κ} :
    g.Closed ↔ ∀ r ∈ g.rules.toList, ∀ q ∈ r.parser.references, q < g.size := by
  constructor
  · intro h r hr
    obtain ⟨p, hp⟩ := List.getElem?_of_mem hr
    exact h p r.parser (by rw [parser?, ← Array.getElem?_toList, hp, Option.map_some])
  · intro h p x hx
    obtain ⟨r, hr, rfl⟩ := Option.map_eq_some_iff.1 hx
    exact h r (List.mem_of_getElem? (by rw [Array.getElem?_toList, hr]))

end Grammar

section Drafts

variable {κ : Type}

/-- The place that a rule is kept in while its grammar is a draft. -/
def Rule.slot (r : Rule κ) : Slot κ := ⟨r.name, some r.parser⟩

namespace Draft

theorem checkSlot_eq_ok_iff {count : Nat} {id : ParserId} {slot : Slot κ} {r : Rule κ} :
    checkSlot count id slot = .ok r ↔
      slot = r.slot ∧ ∀ q ∈ r.parser.references, q < count := by
  obtain ⟨name, parser⟩ := slot
  cases parser with
  | none => simp [checkSlot, Rule.slot]
  | some p =>
    cases hfind : p.references.find? (count ≤ ·) with
    | none =>
      simp only [checkSlot, hfind, Except.ok.injEq]
      constructor
      · rintro rfl
        exact ⟨rfl, by simpa using hfind⟩
      · rintro ⟨he, -⟩
        cases he
        rfl
    | some missing =>
      simp only [checkSlot, hfind, reduceCtorEq, false_iff]
      rintro ⟨he, hlt⟩
      cases he
      have hmissing := hlt missing (List.mem_of_find?_eq_some hfind)
      have hle := List.find?_some hfind
      exact absurd hmissing (Nat.not_lt.2 (of_decide_eq_true hle))

theorem checkFrom_eq_ok_iff {count : Nat} {slots : List (Slot κ)} :
    ∀ {id : ParserId} {rs : List (Rule κ)}, checkFrom count id slots = .ok rs ↔
      slots = rs.map Rule.slot ∧ ∀ r ∈ rs, ∀ q ∈ r.parser.references, q < count := by
  induction slots with
  | nil =>
    intro id rs
    rw [checkFrom, Except.ok.injEq]
    constructor
    · rintro rfl
      exact ⟨rfl, by simp⟩
    · rintro ⟨he, -⟩
      exact (List.map_eq_nil_iff.1 he.symm).symm
  | cons slot slots ih =>
    intro id rs
    constructor
    · intro h
      rw [checkFrom] at h
      cases hr : checkSlot count id slot with
      | error e => rw [hr] at h; cases h
      | ok r =>
        cases hs : checkFrom count (id + 1) slots with
        | error e => rw [hr, hs] at h; cases h
        | ok rest =>
          rw [hr, hs] at h
          cases h
          obtain ⟨rfl, href⟩ := checkSlot_eq_ok_iff.1 hr
          obtain ⟨rfl, hrest⟩ := ih.1 hs
          exact ⟨rfl, List.forall_mem_cons.2 ⟨href, hrest⟩⟩
    · rintro ⟨he, href⟩
      cases rs with
      | nil => cases he
      | cons r rest =>
        obtain ⟨rfl, rfl⟩ := List.cons.inj he
        obtain ⟨hr, hrest⟩ := List.forall_mem_cons.1 href
        rw [checkFrom, checkSlot_eq_ok_iff.2 ⟨rfl, hr⟩, ih.2 ⟨rfl, hrest⟩]
        rfl

theorem build_eq_ok_iff_checkFrom {d : Draft κ} {g : Grammar κ} :
    d.build = .ok g ↔ checkFrom d.slots.size 0 d.slots.toList = .ok g.rules.toList := by
  rw [build]
  cases checkFrom d.slots.size 0 d.slots.toList with
  | error e => simp [Except.map]
  | ok rs =>
    simp only [Except.map, Except.ok.injEq]
    constructor
    · rintro rfl
      rfl
    · rintro rfl
      rfl

/-- A draft is accepted exactly if every place is filled and every reference leads to a place. The
grammar then has in each place what the draft has there. -/
theorem build_eq_ok_iff {d : Draft κ} {g : Grammar κ} :
    d.build = .ok g ↔ d.slots = g.rules.map Rule.slot ∧ g.Closed := by
  rw [Grammar.closed_iff, build_eq_ok_iff_checkFrom, checkFrom_eq_ok_iff, ← Array.toList_map,
    Array.toList_inj]
  refine and_congr_right fun hslots => ?_
  rw [hslots, Array.size_map, Grammar.size]

/-- A draft that is accepted leads to a closed grammar. -/
theorem closed_build {d : Draft κ} {g : Grammar κ} (h : d.build = .ok g) : g.Closed :=
  (build_eq_ok_iff.1 h).2

end Draft

end Drafts

section Bounds

theorem byteLength_append (as bs : List Char) :
    byteLength (as ++ bs) = byteLength as + byteLength bs := by
  induction as with
  | nil => simp [byteLength]
  | cons a as ih => simp only [List.cons_append, byteLength, ih]; omega

theorem byteLength_le_of_isPrefix {as bs : List Char} (h : as <+: bs) :
    byteLength as ≤ byteLength bs := by
  obtain ⟨cs, rfl⟩ := h
  rw [byteLength_append]
  omega

theorem Document.size_of_rest? {d : Document} {i : Nat} {rest : List Char}
    (h : d.rest? i = some rest) : d.size = i + byteLength rest := by
  obtain ⟨p, hp, hi⟩ := dropBytes_eq_some_iff.1 h
  rw [d.size_eq, hp, byteLength_append, hi]

/-- What is found takes whole characters. -/
theorem Pattern.find?_stop {r : Pattern} {text : List Char} {e : Nat} (h : r.find? text = some e) :
    ∃ taken, taken <+: text ∧ e = byteLength taken := by
  obtain ⟨span, hspan, rfl⟩ := Option.map_eq_some_iff.1 h
  exact r.expression.ends text span hspan

theorem Pattern.find?_le {r : Pattern} {text : List Char} {e : Nat} (h : r.find? text = some e) :
    e ≤ byteLength text := by
  obtain ⟨taken, hp, rfl⟩ := Pattern.find?_stop h
  exact byteLength_le_of_isPrefix hp

variable {g : Grammar Empty} {d : Document}

mutual

/-- Derivations go to the right and end within the document. -/
theorem Derives.bounds {p : ParserId} {i j : Nat} :
    Derives g d p i j → i ≤ d.size → i ≤ j ∧ j ≤ d.size
  | .literal _ hr ht, _ => by
    have hs := Document.size_of_rest? hr
    have hb := byteLength_le_of_isPrefix ht
    omega
  | .pattern _ hr he, _ => by
    have hs := Document.size_of_rest? hr
    have hb := Pattern.find?_le he
    omega
  | .sequence _ h, hi => h.bounds hi
  | .choice _ _ h, hi => h.bounds hi
  | .nothing _, hi => ⟨Nat.le_refl _, hi⟩
  | .optional _ h, hi => h.bounds hi

theorem DerivesAll.bounds {es : List ParserId} {i j : Nat} :
    DerivesAll g d es i j → i ≤ d.size → i ≤ j ∧ j ≤ d.size
  | .nil, hi => ⟨Nat.le_refl _, hi⟩
  | .cons h hs, hi => by
    have hk := h.bounds hi
    have hj := hs.bounds hk.2
    omega

end

theorem DerivesAll.snoc {es : List ParserId} {e : ParserId} {i k j : Nat}
    (h : DerivesAll g d es i k) (he : Derives g d e k j) : DerivesAll g d (es ++ [e]) i j := by
  induction es generalizing i with
  | nil =>
    cases h
    exact .cons he .nil
  | cons x xs ih =>
    cases h with
    | cons hx hxs => exact .cons hx (ih hxs)

theorem Grammar.Passes.derives {p q : ParserId} {i j : Nat} (h : g.Passes p q)
    (hq : Derives g d q i j) : Derives g d p i j := by
  cases h with
  | choice hp hm => exact .choice hp hm hq
  | optional hp => exact .optional hp hq

theorem Grammar.Passes.lt_size {p q : ParserId} (h : g.Passes p q) (hg : g.Closed) :
    q < g.size := by
  cases h with
  | choice hp hm => exact hg _ _ hp _ hm
  | optional hp => exact hg _ _ hp _ (by simp [Parser.references])

/-- Whatever is made use of lies within the grammar and the document, and not further left. -/
theorem Requests.covers (hg : g.Closed) {x y : ParserId × Nat} (h : Requests g d x y) :
    g.Covers d y.1 y.2 ∧ x.2 ≤ y.2 := by
  cases h with
  | pass hi hp => exact ⟨⟨hp.lt_size hg, hi⟩, Nat.le_refl _⟩
  | sequence hi hp hb =>
    have hk := hb.bounds hi
    exact ⟨⟨hg _ _ hp _ (by simp [Parser.references]), hk.2⟩, hk.1⟩

end Bounds

end PushParsing
