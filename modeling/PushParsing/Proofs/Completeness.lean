import PushParsing.Proofs.Ledger

/-!
# Completeness

Once nothing is left to do, the accumulator of a pair has a tree for every offset at which a
derivation of the pair ends. Derivations are followed to where their parts are told of: to the
listeners that pass trees on or go on with sequences.
-/
namespace PushParsing

variable {g : Grammar Empty} {d : Document} {s : Store Empty} {c : ContextNumber}
  {done : Job Empty → Prop}

namespace Store

/-- The accumulator has a tree that stops at the offset. -/
def HasStop (s : Store Empty) (id : AccumulatorId) (j : Nat) : Prop :=
  ∃ a, s.accumulator? id = some a ∧ ∃ t ∈ a.trees, t.stop = j

/-- A listener that does the given is registered on the accumulator. -/
def Linked (s : Store Empty) (id : AccumulatorId) (role : Role Empty) : Prop :=
  ∃ a, s.accumulator? id = some a ∧ ∃ l ∈ a.listeners, l.role = role

theorem Sound.isLive (hs : s.Sound g) {id : AccumulatorId} {p : ParserId} {i : Nat}
    (h : s.IsFor id c p i) : s.isLive id = true := by
  obtain ⟨a, ha, rfl, -⟩ := h
  obtain ⟨-, d, hd, -⟩ := hs.kept id a ha
  have hheld := hs.held _ d hd
  simp [Store.isLive, ha, hheld]

end Store

theorem Accumulator.stop_adopt (a : Accumulator Empty) (t : Tree) : (a.adopt t).stop = t.stop := by
  unfold adopt
  split <;> rfl

theorem Parser.begin_congr (x : Parser Empty) (d : Document) (id : AccumulatorId)
    {a b : Accumulator Empty} (h : a.Extends b) : x.begin d id b = x.begin d id a := by
  have hc := h.context
  have hp := h.parser
  have hi := h.position
  cases x with
  | literal text => simp only [begin, hi]
  | pattern p => simp only [begin, hi]
  | sequence es => cases es <;> simp only [begin, hc, hp, hi]
  | choice qs => cases qs <;> simp only [begin, hc, hi]
  | optional q => simp only [begin, hc, hi]
  | custom label refs code => exact code.elim

theorem Offered.derives (hs : s.Sound g) (hd : s.document? c = some d) {p : ParserId} {i : Nat}
    {t : Tree} (h : Offered g d (s.Found c) p i t) : t.start = i ∧ Derives g d p i t.stop := by
  cases h with
  | made hm =>
    have hc : Composed g d (s.Found c) p i t := .made hm
    exact ⟨hm.parser_start.2, hc.derives fun _ _ _ _ hq => (hs.found hd hq).2.2.2.2⟩
  | passed hp hq =>
    obtain ⟨-, hi, -, -, hder⟩ := hs.found hd hq
    exact ⟨hi, hp.derives hder⟩

section Rest

variable (h : Ledger g s [] done)
include h

theorem Ledger.closed {j : Job Empty} (hj : done j) : j.Met g s done :=
  (h.met j hj).mono (.refl s) fun _ hk => hk.resolve_right (by simp)

/-- A tree that was to be recorded is stored, or another one of its length is. -/
theorem Ledger.addTree {target : AccumulatorId} {t : Tree}
    (hj : done (.operate (.addTree target t))) : s.HasStop target t.stop := by
  obtain ⟨s₀, c, d, hs, hd, ⟨p, i, ht, hi, ho⟩, hgrows, -⟩ := h.closed hj
  obtain ⟨hstart, hder⟩ := ho.derives hs hd
  obtain ⟨a, ha, hc, rfl, rfl, -, hsound⟩ := hs.accumulator hd ht
  simp only [Job.perform, Operation.perform, ha, Accumulator.addTree?_eq] at hgrows
  by_cases hn : a.IsNew (.found (a.adopt t))
  · simp only [if_pos hn] at hgrows
    have hrec : (s₀.modifyAccumulator target fun _ => a.record (.found (a.adopt t))).accumulator?
        target = some (a.record (.found (a.adopt t))) := by
      rw [accumulator?_modify ha rfl, if_pos rfl]
    obtain ⟨b, hb, he⟩ := hgrows.accumulator _ _ hrec
    have hm : a.adopt t ∈ b.trees :=
      he.trees.subset (List.mem_append_right _ (List.mem_singleton.2 rfl))
    exact ⟨b, hb, _, hm, a.stop_adopt t⟩
  · simp only [if_neg hn] at hgrows
    obtain ⟨b, hb, he⟩ := hgrows.accumulator _ _ ha
    simp only [Accumulator.IsNew, Bool.not_eq_false] at hn
    obtain ⟨x, hx, hlen⟩ := List.any_eq_true.1 hn
    refine ⟨b, hb, x, he.trees.subset hx, ?_⟩
    have hxstart := (hsound.trees x hx).2.2.1
    have hxstop := (hs.found hd ⟨target, a, ha, hc, rfl, rfl, hx⟩).2.2.1
    have htstop := (hder.bounds hi).1
    have hadopt : (a.adopt t).start = t.start := by
      unfold Accumulator.adopt
      split <;> rfl
    rw [beq_iff_eq, Tree.length, Tree.length, a.stop_adopt, hadopt] at hlen
    omega

theorem Ledger.addStop {target : AccumulatorId} {j : Nat}
    (hj : done (.operate (.addStop target j))) : s.HasStop target j := by
  obtain ⟨s₀, c, d, hs, hd, ⟨p, i, ht, hi, hle, -⟩, -, hjobs⟩ := h.closed hj
  obtain ⟨a, ha, -, rfl, rfl, -⟩ := hs.accumulator hd ht
  simp only [Job.perform, Operation.perform, ha, if_neg (Nat.not_lt.2 hle)] at hjobs
  have hstop := h.addTree (hjobs _ List.mem_cons_self)
  rwa [Tree.stop_leaf, Nat.max_eq_left hle] at hstop

theorem Ledger.watch {id : AccumulatorId} {role : Role Empty}
    (hj : done (.operate (.watch id role))) : s.Linked id role := by
  obtain ⟨s₀, c, d, -, -, -, -, hjobs⟩ := h.closed hj
  exact h.listening id _ (hjobs _ List.mem_cons_self)

theorem Ledger.proceed {id : AccumulatorId} {next : Next Empty} (hj : done (.proceed next id)) :
    s.Linked id next.role := by
  obtain ⟨s₀, c, d, -, -, -, -, hjobs⟩ := h.closed hj
  cases next with
  | forwardTo target =>
    have hforward := hjobs _ List.mem_cons_self
    obtain ⟨s₁, c', d', -, -, -, -, hjobs'⟩ := h.closed hforward
    exact h.watch (hjobs' _ List.mem_cons_self)
  | await r => exact h.watch (hjobs _ List.mem_cons_self)
  | custom code => exact code.elim

/-- A pair that was asked for has an accumulator, with a listener for what was to be done next. -/
theorem Ledger.ask (hs : s.Sound g) {q : ParserId} {k : Nat} {next : Next Empty}
    (hj : done (.ask c q k next)) : ∃ id, s.peek? c q k = some id ∧ s.Linked id next.role := by
  obtain ⟨s₀, c', d', hs₀, hd₀, ⟨rfl, -⟩, hgrows, hjobs⟩ := h.closed hj
  obtain ⟨-, -, hid⟩ := hs₀.request hd₀ q k
  rw [Job.perform_ask] at hgrows hjobs
  refine ⟨_, hs.isFor_iff.1 (hgrows.isFor hid), h.proceed (hjobs _ ?_)⟩
  dsimp only
  split <;> simp

/-- The parser of each accumulator has begun. -/
theorem Ledger.begin (hd : s.document? c = some d) {id : AccumulatorId} {a : Accumulator Empty}
    {x : Parser Empty} (ha : s.accumulator? id = some a) (hc : a.context = c)
    (hi : a.position ≤ d.size) (hx : g.parser? a.parser = some x) :
    ∀ j ∈ x.begin d id a, done j := by
  have hj : done (.start id) := (h.begun id a ha).resolve_right (by simp)
  obtain ⟨s₀, c', d', hs₀, hd₀, ⟨p, i, hid⟩, hgrows, hjobs⟩ := h.closed hj
  have hgrows₀ := (hs₀.grows_perform (.start id) ()).trans hgrows
  obtain ⟨a₀, ha₀, rfl, rfl, rfl, -⟩ := hs₀.accumulator hd₀ hid
  obtain ⟨b, hb, he⟩ := hgrows₀.accumulator id a₀ ha₀
  rw [ha] at hb
  cases hb
  have hd' := hgrows₀.document hd₀
  rw [← he.context, hc, hd] at hd'
  cases hd'
  obtain ⟨y, hy, rfl⟩ := Option.map_eq_some_iff.1 hd₀
  rw [he.position] at hi
  rw [he.parser] at hx
  have hparser : (Engine.standard g).grammar.parser? a₀.parser = some x := hx
  simp only [Job.perform, ha₀, hy, if_neg (Nat.not_lt.2 hi), hparser] at hjobs
  rw [x.begin_congr _ id he]
  cases x with
  | custom label refs code => exact code.elim
  | _ => exact hjobs

theorem Ledger.told {id : AccumulatorId} {a : Accumulator Empty} {l : Listener Empty} {t : Tree}
    (ha : s.accumulator? id = some a) (hl : l ∈ a.listeners) (ht : t ∈ a.trees) :
    done (.tell l id (.found t)) :=
  (h.heard id a ha l hl t ht).resolve_right (by simp)

/-- A tree that a listener passes on is stored where it leads. -/
theorem Ledger.passed {id target : AccumulatorId} {j : Nat}
    (hl : s.Linked id (.forward target)) (ht : s.HasStop id j) : s.HasStop target j := by
  obtain ⟨a, ha, ⟨n, role⟩, hl, rfl⟩ := hl
  obtain ⟨b, hb, t, ht, rfl⟩ := ht
  rw [ha] at hb
  cases hb
  obtain ⟨s₀, c, d, hs₀, hd₀, ⟨q, k, -, hr, -⟩, -, hjobs⟩ := h.closed (h.told ha hl ht)
  obtain ⟨p, i, htar, -⟩ := hr.requests hs₀ hd₀
  have hlive : s₀.isLive target = true := hs₀.isLive htar
  simp only [Job.perform, if_pos hlive] at hjobs
  exact h.addTree (hjobs _ List.mem_cons_self)

/-- What a sequence does with a tree of the element it waits for was done. -/
theorem Ledger.continued (hs : s.Sound g) {id : AccumulatorId}
    {e : ParserId} {k j : Nat} {r : Sequel} (hid : s.peek? c e k = some id)
    (hl : s.Linked id (.element r)) (ht : s.HasStop id j) :
    (r.rest = [] ∧ s.HasStop r.target j) ∨ ∃ e' rest id' r', r.rest = e' :: rest ∧
      r'.target = r.target ∧ r'.rest = rest ∧ s.peek? c e' j = some id' ∧
      s.Linked id' (.element r') := by
  obtain ⟨a, ha, ⟨n, role⟩, hl, rfl⟩ := hl
  obtain ⟨b, hb, t, ht, rfl⟩ := ht
  rw [ha] at hb
  cases hb
  obtain ⟨s₀, c', d', hs₀, hd₀, ⟨q, m, hq, hr, -⟩, hgrows, hjobs⟩ := h.closed (h.told ha hl ht)
  obtain ⟨p, i, htar, -⟩ := hr.requests hs₀ hd₀
  have hgrows₀ := (hs₀.grows_perform (.tell ⟨n, .element r⟩ id (.found t)) ()).trans hgrows
  obtain ⟨rfl, -, -⟩ := (hs.known c e k id hid).unique (hgrows₀.isFor hq)
  have hlive : s₀.isLive r.target = true := hs₀.isLive htar
  obtain ⟨a₀, ha₀, hc, -⟩ := htar
  have ha₀ : s₀.accumulator? r.target = some a₀ := ha₀
  simp only [Job.perform, if_pos hlive, Sequel.continue, ha₀] at hjobs
  cases hrest : r.rest with
  | nil =>
    rw [hrest] at hjobs
    have hstop := h.addTree (hjobs _ List.mem_cons_self)
    rw [Tree.stop_join_append] at hstop
    exact .inl ⟨rfl, hstop⟩
  | cons e' rest =>
    have hheld := hs₀.held _ _ hd₀
    rw [hrest] at hjobs
    simp only [hc, if_pos hheld] at hjobs
    obtain ⟨id', hid', hlink⟩ := h.ask hs (hjobs _ List.mem_cons_self)
    exact .inr ⟨e', rest, id', { r with taken := r.taken ++ [t], rest }, rfl, rfl, rfl, hid', hlink⟩

section Beginnings

variable (hs : s.Sound g) (hd : s.document? c = some d) {p : ParserId} {i : Nat}
  {id : AccumulatorId} (hid : s.peek? c p i = some id) (hi : i ≤ d.size)
include hs hd hid hi

theorem Ledger.begins {x : Parser Empty} (hx : g.parser? p = some x) :
    ∃ a : Accumulator Empty, a.context = c ∧ a.parser = p ∧ a.position = i ∧
      ∀ j ∈ x.begin d id a, done j := by
  obtain ⟨a, ha, hc, rfl, rfl⟩ := hs.known c p i id hid
  exact ⟨a, hc, rfl, rfl, h.begin hd ha hc hi hx⟩

theorem Ledger.literal {text : String} {rest : List Char} (hp : g.parser? p = some (.literal text))
    (hr : d.rest? i = some rest) (ht : text.toList <+: rest) :
    s.HasStop id (i + byteLength text.toList) := by
  obtain ⟨a, -, -, rfl, hjobs⟩ := h.begins hs hd hid hi hp
  have hany : (d.rest? a.position).any (text.toList.isPrefixOf ·) = true :=
    (Option.any_eq_true _ _).2 ⟨rest, hr, List.isPrefixOf_iff_prefix.2 ht⟩
  simp only [Parser.begin, if_pos hany] at hjobs
  exact h.addStop (hjobs _ List.mem_cons_self)

theorem Ledger.pattern {r : Pattern} {rest : List Char} {e : Nat}
    (hp : g.parser? p = some (.pattern r)) (hr : d.rest? i = some rest)
    (he : r.find? rest = some e) : s.HasStop id (i + e) := by
  obtain ⟨a, -, -, rfl, hjobs⟩ := h.begins hs hd hid hi hp
  simp only [Parser.begin, hr, Option.bind_some, he] at hjobs
  exact h.addStop (hjobs _ List.mem_cons_self)

theorem Ledger.nothing {q : ParserId} (hp : g.parser? p = some (.optional q)) :
    s.HasStop id i := by
  obtain ⟨a, -, -, rfl, hjobs⟩ := h.begins hs hd hid hi hp
  exact h.addStop (hjobs _ List.mem_cons_self)

theorem Ledger.empty (hp : g.parser? p = some (.sequence [])) : s.HasStop id i := by
  obtain ⟨a, -, -, rfl, hjobs⟩ := h.begins hs hd hid hi hp
  have hstop := h.addTree (hjobs _ List.mem_cons_self)
  rwa [Tree.nothing, Tree.stop_leaf, Nat.max_self] at hstop

/-- A parser listens to the first element of its sequence. -/
theorem Ledger.awaits {e : ParserId} {rest : List ParserId}
    (hp : g.parser? p = some (.sequence (e :: rest))) :
    ∃ id' r, s.peek? c e i = some id' ∧ s.Linked id' (.element r) ∧ r.target = id ∧
      r.rest = rest := by
  obtain ⟨a, rfl, -, rfl, hjobs⟩ := h.begins hs hd hid hi hp
  obtain ⟨id', hid', hlink⟩ := h.ask hs (hjobs _ List.mem_cons_self)
  exact ⟨id', _, hid', hlink, rfl, rfl⟩

/-- A parser listens to whatever it passes on. -/
theorem Ledger.forwards {q : ParserId} (hp : g.Passes p q) :
    ∃ id', s.peek? c q i = some id' ∧ s.Linked id' (.forward id) := by
  cases hp with
  | @choice qs hp hq =>
    obtain ⟨a, rfl, -, rfl, hjobs⟩ := h.begins hs hd hid hi hp
    cases qs with
    | nil => cases hq
    | cons x xs => exact h.ask hs (hjobs _ (List.mem_map.2 ⟨q, hq, rfl⟩))
  | optional hp =>
    obtain ⟨a, rfl, -, rfl, hjobs⟩ := h.begins hs hd hid hi hp
    exact h.ask hs (hjobs _ (List.mem_cons_of_mem _ List.mem_cons_self))

end Beginnings

mutual

/-- By induction on the derivation: it ends where a tree of the pair's accumulator does. -/
theorem Ledger.hasStop (hs : s.Sound g) (hd : s.document? c = some d) {p : ParserId} {i j : Nat} :
    Derives g d p i j → i ≤ d.size → ∀ id, s.peek? c p i = some id → s.HasStop id j
  | .literal hp hr ht, hi, id, hid => h.literal hs hd hid hi hp hr ht
  | .pattern hp hr he, hi, id, hid => h.pattern hs hd hid hi hp hr he
  | @Derives.sequence _ _ _ _ _ [] hp hall, hi, id, hid => by
    have hj : j = i := by
      cases hall
      rfl
    exact hj ▸ h.empty hs hd hid hi hp
  | @Derives.sequence _ _ _ _ _ (e :: es) hp hall, hi, id, hid => by
    obtain ⟨id', r, hid', hlink, htar, hrest⟩ := h.awaits hs hd hid hi hp
    exact htar ▸ Ledger.hasStop_all hs hd hall hi id' e r (by rw [hrest]) hid' hlink
  | .choice hp hq hder, hi, id, hid => by
    obtain ⟨id', hid', hlink⟩ := h.forwards hs hd hid hi (.choice hp hq)
    exact h.passed hlink (Ledger.hasStop hs hd hder hi id' hid')
  | .nothing hp, hi, id, hid => h.nothing hs hd hid hi hp
  | .optional hp hder, hi, id, hid => by
    obtain ⟨id', hid', hlink⟩ := h.forwards hs hd hid hi (.optional hp)
    exact h.passed hlink (Ledger.hasStop hs hd hder hi id' hid')

/-- A sequence that waits for the first of some elements gets as far as they do. -/
theorem Ledger.hasStop_all (hs : s.Sound g) (hd : s.document? c = some d) {es : List ParserId}
    {i j : Nat} : DerivesAll g d es i j → i ≤ d.size → ∀ id e r, es = e :: r.rest →
      s.peek? c e i = some id → s.Linked id (.element r) → s.HasStop r.target j
  | .nil, _, _, _, _, hes, _, _ => by cases hes
  | .cons hder hall, hi, id, e, r, hes, hid, hlink => by
    obtain ⟨he, hrest⟩ := List.cons.inj hes
    have hstop := Ledger.hasStop hs hd hder hi id (he ▸ hid)
    rcases h.continued hs (he ▸ hid) hlink hstop with
      ⟨hnil, hstop⟩ | ⟨e', rest, id', r', hcons, htar, hrest', hid', hlink'⟩
    · rw [hrest, hnil] at hall
      cases hall
      exact hstop
    · have hk := (hder.bounds hi).2
      have hes' := hrest.trans (hcons.trans (congrArg _ hrest'.symm))
      exact htar ▸ Ledger.hasStop_all hs hd hall hk id' e' r' hes' hid' hlink'

end

end Rest

/-- Whenever a request is done, the accumulator of each pair memoized has a tree up to an offset if
and only if the parser derives the document from its position up to there. The grammar may be
recursive in any way. -/
theorem stops_iff_derives {draft : Draft Empty} (hb : draft.build = .ok g)
    (hr : g.Reached g.Covers s) (hd : s.document? c = some d) {p : ParserId} {i : Nat}
    {id : AccumulatorId} (hp : s.peek? c p i = some id) :
    ∃ a, s.accumulator? id = some a ∧ a.parser = p ∧ a.position = i ∧
      ∀ j, (∃ t ∈ a.trees, t.stop = j) ↔ Derives g d p i j := by
  have hg := Draft.closed_build hb
  have hs := hr.sound hg
  obtain ⟨done, h⟩ := hr.ledger hg
  obtain ⟨a, ha, rfl, rfl, rfl⟩ := hs.known c p i id hp
  have hcov : g.Covers d a.parser a.position := (or_self_iff).1 (hr.pairs hg hd hp)
  refine ⟨a, ha, rfl, rfl, fun j => ⟨?_, ?_⟩⟩
  · rintro ⟨t, ht, rfl⟩
    exact (hs.found hd ⟨id, a, ha, rfl, rfl, rfl, ht⟩).2.2.2.2
  · intro hder
    obtain ⟨b, hb, ht⟩ := h.hasStop hs hd hder hcov.2 id hp
    rw [ha] at hb
    cases hb
    exact ht

namespace LeftRecursion

/-- A rule that begins with itself, `r ::= r 'a' | 'a'`. -/
def draft : Draft Empty :=
  { slots := #[⟨some "r", some (.choice [1, 2])⟩, ⟨none, some (.sequence [0, 2])⟩,
      ⟨none, some (.literal "a")⟩] }

def grammar : Grammar Empty :=
  ⟨#[⟨some "r", .choice [1, 2]⟩, ⟨none, .sequence [0, 2]⟩, ⟨none, .literal "a"⟩]⟩

def document : Document := .ofString "aa"

def opened : Store Empty :=
  { contexts := #[⟨document, {}, .forInput 2 3⟩], heldContexts := [1] }

def asked : Machine Empty Unit := .ofRequest opened () 1 0 0

def store : Store Empty := (Machine.run (.standard grammar) 99 asked).store

theorem built : draft.build = .ok grammar := rfl

theorem reached_opened : grammar.Reached grammar.Covers opened := by
  have hopen : (Engine.standard grammar).openContext {} document {} = .ok (1, opened) := rfl
  exact .opened .start hopen

theorem reached : grammar.Reached grammar.Covers store :=
  .requested (d := document) reached_opened rfl (by decide) (by decide +kernel)

theorem document?_store : store.document? 1 = some document :=
  reached_opened.document_request (Draft.closed_build built) rfl 0 0 99

end LeftRecursion

/-- The rule that begins with itself derives both prefixes of the document, and no more. -/
theorem stops_iff_derives_left_recursion :
    LeftRecursion.store.peek? 1 0 0 = some 0 ∧
      ∀ j, Derives LeftRecursion.grammar LeftRecursion.document 0 0 j ↔ j ∈ [1, 2] := by
  have hpeek : LeftRecursion.store.peek? 1 0 0 = some 0 := by decide +kernel
  refine ⟨hpeek, ?_⟩
  intro j
  have hstops : (LeftRecursion.store.accumulator? 0).map (·.trees.map Tree.stop) = some [1, 2] := by
    decide +kernel
  obtain ⟨a, ha, -, -, hj⟩ := stops_iff_derives LeftRecursion.built LeftRecursion.reached
    LeftRecursion.document?_store hpeek
  rw [ha, Option.map_some, Option.some.injEq] at hstops
  rw [← hj, ← hstops, List.mem_map]

end PushParsing
