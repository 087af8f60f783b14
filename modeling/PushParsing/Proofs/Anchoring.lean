import PushParsing.Pattern.Standard
import PushParsing.Proofs.Documented
import PushParsing.Proofs.Furthest

/-!
# Matches at the start

Of a match only the end counts, so a pattern depends on the text that is compiled for it not to match
further on. By the rules for carets and groups it does not if the pattern is a regular expression by
itself. What is then recorded is a match of the pattern as it is written.
-/
namespace PushParsing

/-- Where the match that is found in a text ends, if it begins with the text. -/
def Pattern.opening? (r : Pattern) (text : List Char) : Option Nat :=
  match r.expression.find? text with
  | some (0, stop) => some stop
  | _ => none

/-- An accumulator of a pattern, given where the match ends that counts, in bytes from the position on.
It holds that match and nothing else, or else the failure of the pattern, which is told within the
document only. -/
structure Accumulator.HoldsMatch (a : Accumulator Empty) (d : Document) (source : String)
    (stop? : Option Nat) : Prop where
  trees : a.trees = (stop?.map fun e => .leaf a.parser a.position (a.position + e)).toList
  best : a.position ≤ d.size → a.best = if stop?.isSome then none
    else some ((Cause.expectedPattern source).failure a.context a.parser a.position)

theorem Pattern.opening?_eq_find?_iff {r : Pattern} {text : List Char} :
    r.opening? text = r.find? text ↔ ∀ span, r.expression.find? text = some span → span.1 = 0 := by
  rw [opening?, find?]
  rcases r.expression.find? text with _ | ⟨_ | start, stop⟩ <;> simp

theorem Parser.compiled_eq_ok_iff {lib : Pattern.Library} {source : String} {x : Parser Empty} :
    compiled lib source = .ok x ↔ ∃ r, r.source = source ∧
      lib.compile (Pattern.anchored source.toList) = .ok r.expression ∧ x = .pattern r := by
  rw [compiled, Pattern.ofString]
  cases lib.compile (Pattern.anchored source.toList) with
  | error e => simp [Except.map]
  | ok expression =>
    simp only [Except.map, Except.ok.injEq]
    constructor
    · rintro rfl
      exact ⟨_, rfl, rfl, rfl⟩
    · rintro ⟨r, rfl, rfl, rfl⟩
      rfl

variable {g : Grammar Empty} {d : Document} {s : Store Empty} {c : ContextNumber} {p : ParserId}
  {i : Nat} {id : AccumulatorId} {r : Pattern}

section Terminals

theorem Grammar.Passes.not_pattern (hx : g.parser? p = some (.pattern r)) {q : ParserId} :
    ¬g.Passes p q := by
  intro h
  cases h with
  | choice hp _ | optional hp => rw [hx] at hp; cases hp

theorem Requests.not_pattern (hx : g.parser? p = some (.pattern r)) {y : ParserId × Nat} :
    ¬Requests g d (p, i) y := by
  intro h
  cases h with
  | pass _ hpass => exact Grammar.Passes.not_pattern hx hpass
  | sequence _ hp _ => rw [hx] at hp; cases hp

theorem eq_of_reach_pattern (hx : g.parser? p = some (.pattern r)) {y : ParserId × Nat}
    (h : Relation.ReflTransGen (Requests g d) (p, i) y) : y = (p, i) := by
  rcases h.cases_head with rfl | ⟨z, hz, -⟩
  · rfl
  · exact absurd hz (Requests.not_pattern hx)

theorem Made.pattern_eq {stored : ParserId → Nat → Tree → Prop} {t : Tree}
    (hx : g.parser? p = some (.pattern r)) (h : Made g d stored p i t) :
    ∃ e, (d.rest? i).bind r.find? = some e ∧ t = .leaf p i (i + e) := by
  cases h with
  | pattern hp hrest he =>
    rw [hx] at hp
    cases hp
    exact ⟨_, Option.bind_eq_some_iff.2 ⟨_, hrest, he⟩, rfl⟩
  | literal hp _ _ | sequence hp _ | nothing hp => rw [hx] at hp; cases hp

theorem eq_toList_of_nodup {α : Type} {l : List α} {x : Option α} (hl : l.Nodup)
    (h : ∀ y, y ∈ l ↔ x = some y) : l = x.toList := by
  cases x with
  | none =>
    refine List.eq_nil_iff_forall_not_mem.2 fun y hy => ?_
    exact Option.some_ne_none y ((h y).1 hy).symm
  | some x =>
    refine List.perm_singleton.1 ((List.perm_ext_iff_of_nodup hl (List.nodup_singleton x)).2 ?_)
    intro y
    rw [h, List.mem_singleton, Option.some_inj, eq_comm]

theorem Composed.pattern_eq {stored : ParserId → Nat → Tree → Prop} {t : Tree}
    (hx : g.parser? p = some (.pattern r)) (h : Composed g d stored p i t) :
    ∃ e, (d.rest? i).bind r.find? = some e ∧ t = .leaf p i (i + e) := by
  cases h with
  | made hmade => exact hmade.pattern_eq hx
  | passed hpass _ _ => exact absurd hpass (Grammar.Passes.not_pattern hx)

variable {a : Accumulator Empty} {admits : Document → ParserId → Nat → Prop}

/-- A tree is stored that stops where the match does that is found, and there is no other tree. -/
theorem Grammar.Reached.trees_pattern (hg : g.Closed) (hr : g.Reached admits s)
    (hd : s.document? c = some d) (hx : g.parser? a.parser = some (.pattern r))
    (hp : s.peek? c a.parser a.position = some id) (ha : s.accumulator? id = some a)
    (hsound : a.Sound g d s) :
    a.trees = (((d.rest? a.position).bind r.find?).map fun e =>
      .leaf a.parser a.position (a.position + e)).toList := by
  obtain ⟨done, h⟩ := hr.ledger hg
  have hleaf {t : Tree} (ht : t ∈ a.trees) : ∃ e, (d.rest? a.position).bind r.find? = some e ∧
      t = .leaf a.parser a.position (a.position + e) :=
    (hsound.trees t ht).2.2.2.pattern_eq hx
  refine eq_toList_of_nodup (.of_map _ hsound.lengths) fun t => ?_
  rw [Option.map_eq_some_iff]
  constructor
  · intro ht
    obtain ⟨e, he, rfl⟩ := hleaf ht
    exact ⟨e, he, rfl⟩
  · rintro ⟨e, he, rfl⟩
    obtain ⟨rest, hrest, he'⟩ := Option.bind_eq_some_iff.1 he
    have hi : a.position ≤ d.size := by
      rw [Document.size_of_rest? hrest]
      exact Nat.le_add_right ..
    obtain ⟨b, hb, t, ht, -⟩ := h.pattern (hr.sound hg) hd hp hi hx hrest he'
    rw [ha] at hb
    cases hb
    obtain ⟨e', heq, rfl⟩ := hleaf ht
    rw [he] at heq
    cases heq
    exact ht

/-- No failure but its own can reach the accumulator of a pattern. -/
theorem Grammar.Reached.best_pattern (hg : g.Closed) (hr : g.Reached admits s)
    (hd : s.document? c = some d) (hx : g.parser? a.parser = some (.pattern r))
    (hp : s.peek? c a.parser a.position = some id) (ha : s.accumulator? id = some a)
    (hsound : a.Sound g d s) (hi : a.position ≤ d.size) :
    a.best = if ((d.rest? a.position).bind r.find?).isSome then none
      else some ((Cause.expectedPattern r.source).failure a.context a.parser a.position) := by
  have hfurthest : g.IsFurthest d (a.parser, a.position) a.best :=
    hr.isFurthest hg hd ⟨Grammar.lt_size hx, hi⟩ hp ha
  have hcause := Grammar.cause?_eq hi hx
  cases hfind : (d.rest? a.position).bind r.find? with
  | some e =>
    refine hfurthest.none_iff.2 fun y cause hreach hfails => ?_
    obtain rfl := eq_of_reach_pattern hx hreach
    have hsome := hfails.cause? hx
    rw [Parser.cause?, hfind] at hsome
    cases hsome
  | none =>
    rw [Parser.cause?, hfind] at hcause
    cases hbest : a.best with
    | none =>
      have hfails := Parser.fails_of_cause? (d := d) (i := a.position) hx
        (by rw [Parser.cause?, hfind])
      exact absurd hfails (hfurthest.none_iff.1 hbest _ _ .refl)
    | some f =>
      obtain ⟨q, k, hreach, hfailure⟩ :=
        hsound.failures f (mem_of_foldr_furthest (hsound.best ▸ hbest))
      cases eq_of_reach_pattern hx hreach
      rw [Grammar.failure?, hcause] at hfailure
      exact hfailure.symm

/-- The accumulator of a pattern holds what is found from its position on. -/
theorem Grammar.Reached.holdsMatch (hg : g.Closed) (hr : g.Reached admits s)
    (hd : s.document? c = some d) (hx : g.parser? p = some (.pattern r))
    (hp : s.peek? c p i = some id) :
    ∃ a, s.accumulator? id = some a ∧ a.context = c ∧ a.parser = p ∧ a.position = i ∧
      a.HoldsMatch d r.source ((d.rest? i).bind r.find?) := by
  have hs := hr.sound hg
  obtain ⟨a, ha, hc, rfl, rfl, -, hsound⟩ := hs.accumulator hd (hs.known _ _ _ id hp)
  exact ⟨a, ha, hc, rfl, rfl, hr.trees_pattern hg hd hx hp ha hsound,
    hr.best_pattern hg hd hx hp ha hsound⟩

/-- An accumulator holds one match at most. -/
theorem Accumulator.HoldsMatch.unique {source : String} {x y : Option Nat}
    (hx : a.HoldsMatch d source x) (hy : a.HoldsMatch d source y) : x = y := by
  have htrees := hx.trees.symm.trans hy.trees
  refine Option.map_injective (f := fun e => Tree.leaf a.parser a.position (a.position + e)) ?_ ?_
  · intro e e' he
    have hstop := congrArg Tree.stop he
    simpa using hstop
  · refine Option.ext fun t => ?_
    rw [← Option.mem_toList, ← Option.mem_toList, htrees]

/-- What it holds begins at its position exactly if what is found there does. -/
theorem Accumulator.HoldsMatch.opening_iff
    (h : a.HoldsMatch d r.source ((d.rest? i).bind r.find?)) :
    a.HoldsMatch d r.source ((d.rest? i).bind r.opening?) ↔
      ∀ rest span, d.rest? i = some rest → r.expression.find? rest = some span → span.1 = 0 := by
  cases hrest : d.rest? i with
  | none =>
    rw [hrest] at h
    exact iff_of_true h nofun
  | some rest =>
    rw [hrest, Option.bind_some] at h
    rw [Option.bind_some]
    constructor
    · rintro hopening _ span ⟨rfl⟩
      exact Pattern.opening?_eq_find?_iff.1 (hopening.unique h) span
    · intro hspan
      rwa [Pattern.opening?_eq_find?_iff.2 fun span => hspan rest span rfl]

end Terminals

/-- Whatever was asked for, and whatever the library: the accumulator of a pattern holds the match that
ends where that which is found ends. So what begins further on is never taken for a match exactly if
nothing is found that begins further on. Of a library that keeps to its documentation, no text that is a
regular expression by itself is found further on. What is recorded for it is a match of the pattern as it
is written, and nothing is recorded only if that matches nowhere from there. -/
theorem patterns_match_at_start {lib : Pattern.Library} {source : String} {x : Parser Empty}
    (hcompiled : Parser.compiled lib source = .ok x) {draft : Draft Empty} (hb : draft.build = .ok g)
    {admits : Document → ParserId → Nat → Prop} (hs : g.Reached admits s)
    (hd : s.document? c = some d) (hx : g.parser? p = some x) (hp : s.peek? c p i = some id) :
    ∃ r a, x = .pattern r ∧
      lib.compile (Pattern.anchored source.toList) = .ok r.expression ∧
      s.accumulator? id = some a ∧
      a.context = c ∧ a.parser = p ∧ a.position = i ∧
      a.HoldsMatch d source ((d.rest? i).bind r.find?) ∧
      (a.HoldsMatch d source ((d.rest? i).bind r.opening?) ↔
        ∀ rest span, d.rest? i = some rest → r.expression.find? rest = some span → span.1 = 0) ∧
      ∀ Matches expression, lib.Documented Matches → lib.compile source.toList = .ok expression →
        a.HoldsMatch d source ((d.rest? i).bind r.opening?) ∧
        ∀ rest, d.rest? i = some rest →
          (∀ t ∈ a.trees, ∃ e, Matches source.toList rest 0 e ∧ t = .leaf p i (i + e)) ∧
          (a.trees = [] ↔ ∀ e, ¬Matches source.toList rest 0 e) := by
  obtain ⟨r, rfl, hr, rfl⟩ := Parser.compiled_eq_ok_iff.1 hcompiled
  obtain ⟨a, ha, hc, rfl, rfl, hholds⟩ := hs.holdsMatch (Draft.closed_build hb) hd hx hp
  have hopening := hholds.opening_iff
  refine ⟨r, a, rfl, hr, ha, hc, rfl, rfl, hholds, hopening, ?_⟩
  intro Matches expression hlib hsource
  refine ⟨hopening.2 fun rest span _ => hlib.begins hr hsource span, fun rest hrest => ?_⟩
  obtain ⟨hfound, hmissed⟩ := hlib.finds hr hsource rest
  have htrees := hholds.trees
  rw [hrest, Option.bind_some] at htrees
  rw [htrees]
  cases hfind : r.find? rest with
  | none => exact ⟨nofun, iff_of_true rfl (hmissed hfind)⟩
  | some e =>
    have hmatch := hfound e hfind
    refine ⟨fun t ht => ⟨e, hmatch, List.mem_singleton.1 ht⟩, iff_of_false nofun ?_⟩
    exact fun hno => hno e hmatch

namespace Anchor

def pattern (lib : Pattern.Library) (source : String) : Pattern :=
  match Pattern.ofString lib source with
  | .ok r => r
  | .error _ => ⟨source, fun _ => none, nofun⟩

theorem compiled_eq {lib : Pattern.Library} {source : String}
    (h : (Pattern.ofString lib source).isOk = true) :
    Parser.compiled lib source = .ok (.pattern (pattern lib source) : Parser Empty) := by
  rw [Parser.compiled, pattern]
  cases hr : Pattern.ofString lib source with
  | ok r => rfl
  | error e => rw [hr] at h; cases h

def draft (r : Pattern) : Draft Empty := { slots := #[⟨none, some (.pattern r)⟩] }

def grammar (r : Pattern) : Grammar Empty := ⟨#[⟨none, .pattern r⟩]⟩

theorem built (r : Pattern) : (draft r).build = .ok (grammar r) := rfl

/-- A context for a document, with nothing asked for. -/
def opened (text : String) : Store Empty :=
  { contexts := #[⟨.ofString text, {}, .forInput (Document.ofString text).size 1⟩],
    heldContexts := [1] }

/-- What is stored when the pattern was asked for at a position. -/
def ask (r : Pattern) (s : Store Empty) (i : Nat) : Store Empty :=
  (Machine.run (.standard (grammar r)) 9 (.ofRequest s () 1 0 i)).store

def letter : Pattern := pattern Pattern.Word.library "b"

def store : Store Empty := ask letter (ask letter (opened "ab") 0) 1

theorem reached_opened : (grammar letter).Reached (fun _ _ _ => True) (opened "ab") := by
  have hopen : (Engine.standard (grammar letter)).openContext {} (.ofString "ab") {} =
      .ok (1, opened "ab") := rfl
  exact .opened .start hopen

theorem reached_first : (grammar letter).Reached (fun _ _ _ => True) (ask letter (opened "ab") 0) :=
  .requested (d := .ofString "ab") reached_opened rfl trivial (by decide +kernel)

theorem document?_first : (ask letter (opened "ab") 0).document? 1 = some (.ofString "ab") :=
  reached_opened.document_request (Draft.closed_build (built letter)) rfl 0 0 9

theorem reached : (grammar letter).Reached (fun _ _ _ => True) store :=
  .requested reached_first document?_first trivial (by decide +kernel)

theorem document?_store : store.document? 1 = some (.ofString "ab") :=
  reached_first.document_request (Draft.closed_build (built letter)) document?_first 0 1 9

end Anchor

/-- A letter is expected in vain at the first offset and found at the second one. -/
theorem patterns_match_at_start_letter :
    ∃ a b, Anchor.store.accumulator? 0 = some a ∧ Anchor.store.accumulator? 1 = some b ∧
      a.trees = [] ∧ a.best = some ((Cause.expectedPattern "b").failure 1 0 0) ∧
      (∀ e, ¬Pattern.Word.Matches ['b'] ['a', 'b'] 0 e) ∧
      b.trees = [.leaf 0 1 2] ∧ b.best = none ∧ ∃ e, Pattern.Word.Matches ['b'] ['b'] 0 e := by
  have hcompiled : Parser.compiled Pattern.Word.library "b" = .ok (.pattern Anchor.letter) :=
    Anchor.compiled_eq rfl
  have hword : Pattern.Word.library.compile "b".toList =
      .ok (Pattern.Word.expression ⟨false, ['b']⟩) := rfl
  have hfirst : ((Document.ofString "ab").rest? 0).bind Anchor.letter.opening? = none := by
    decide +kernel
  have hsecond : ((Document.ofString "ab").rest? 1).bind Anchor.letter.opening? = some 1 := by
    decide +kernel
  have hpeek : Anchor.store.peek? 1 0 0 = some 0 := by decide +kernel
  have hpeek' : Anchor.store.peek? 1 0 1 = some 1 := by decide +kernel
  obtain ⟨r, a, ⟨rfl⟩, -, ha, hac, hap, hai, -, -, ha'⟩ := patterns_match_at_start hcompiled
    (Anchor.built _) Anchor.reached Anchor.document?_store rfl hpeek
  obtain ⟨r', b, ⟨rfl⟩, -, hb, hbc, hbp, hbi, -, -, hb'⟩ := patterns_match_at_start hcompiled
    (Anchor.built _) Anchor.reached Anchor.document?_store rfl hpeek'
  obtain ⟨⟨hatrees, habest⟩, harest⟩ := ha' _ _ Pattern.Word.documented hword
  obtain ⟨⟨hbtrees, hbbest⟩, hbrest⟩ := hb' _ _ Pattern.Word.documented hword
  rw [hfirst, hac, hap, hai] at habest
  rw [hsecond, hbp, hbi] at hbtrees
  rw [hsecond, hbi] at hbbest
  rw [hfirst] at hatrees
  have hmem : .leaf 0 1 2 ∈ b.trees := hbtrees ▸ List.mem_singleton_self _
  obtain ⟨e, he, -⟩ := (hbrest ['b'] rfl).1 _ hmem
  exact ⟨a, b, ha, hb, hatrees, habest (by decide), (harest _ rfl).2.1 hatrees, hbtrees,
    hbbest (by decide), e, he⟩

/-- A text that is no regular expression by itself may close the group that is set around it. What is
found then begins behind the first letter, but counts as a match from there. -/
theorem patterns_match_further_on :
    let r := Anchor.pattern .standard "a)|(?:b"
    Parser.compiled .standard "a)|(?:b" = .ok (.pattern r : Parser Empty) ∧
      r.expression.find? "xb".toList = some (1, 2) ∧
      ((Anchor.ask r (Anchor.opened "xb") 0).accumulator? 0).map (fun a => (a.trees, a.best)) =
        some ([.leaf 0 0 2], none) := by
  refine ⟨Anchor.compiled_eq ?_, ?_, ?_⟩
  · decide +kernel
  · decide +kernel
  · decide +kernel

end PushParsing
