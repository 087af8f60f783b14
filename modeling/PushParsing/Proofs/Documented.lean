import PushParsing.Proofs.Boundary

/-!
# What libraries of regular expressions say of themselves

The rules for matches, carets and groups that libraries document, as far as patterns depend on them. By
these rules a text that is a regular expression by itself is found at the start only when it is compiled
behind a caret and in a group. A library of words keeps to them.
-/
namespace PushParsing.Pattern

/-- What the documentation of regular expressions says of a library. `Matches` says which texts match in
another text from where to where. -/
structure Library.Documented (lib : Library)
    (Matches : List Char → List Char → Nat → Nat → Prop) : Prop where
  /-- What is found is a match. -/
  found {source text : List Char} {expression : Expression} {start stop : Nat} :
    lib.compile source = .ok expression → expression.find? text = some (start, stop) →
      Matches source text start stop
  /-- Nothing is found only if there is no match. -/
  missed {source text : List Char} {expression : Expression} {start stop : Nat} :
    lib.compile source = .ok expression → expression.find? text = none →
      ¬Matches source text start stop
  /-- A caret matches nothing, at the beginning of the text. -/
  caret {text : List Char} {start stop : Nat} :
    Matches ['^'] text start stop ↔ start = 0 ∧ stop = 0
  /-- A group matches what is set in it. Behind a caret it matches from where the caret's match ends. -/
  anchored {source text : List Char} {expression expression' : Expression} {start stop : Nat} :
    lib.compile source = .ok expression → lib.compile (anchored source) = .ok expression' →
      (Matches (anchored source) text start stop ↔
        ∃ middle, Matches ['^'] text start middle ∧ Matches source text middle stop)

section Rules

variable {lib : Library} {Matches : List Char → List Char → Nat → Nat → Prop} {source text : List Char}
  {expression : Expression} {r : Pattern}

/-- Between caret and group there is nothing to match. -/
theorem Library.Documented.anchored_iff (h : lib.Documented Matches)
    (hr : lib.compile (Pattern.anchored source) = .ok r.expression)
    (hsource : lib.compile source = .ok expression) {start stop : Nat} :
    Matches (Pattern.anchored source) text start stop ↔ start = 0 ∧ Matches source text 0 stop := by
  rw [h.anchored hsource hr]
  constructor
  · rintro ⟨middle, hcaret, hmatch⟩
    obtain ⟨rfl, rfl⟩ := h.caret.1 hcaret
    exact ⟨rfl, hmatch⟩
  · rintro ⟨rfl, hmatch⟩
    exact ⟨0, h.caret.2 ⟨rfl, rfl⟩, hmatch⟩

/-- What is a regular expression by itself is not found further on. -/
theorem Library.Documented.begins (h : lib.Documented Matches)
    (hr : lib.compile (Pattern.anchored source) = .ok r.expression)
    (hsource : lib.compile source = .ok expression) :
    ∀ span, r.expression.find? text = some span → span.1 = 0 :=
  fun _ hspan => ((h.anchored_iff hr hsource).1 (h.found hr hspan)).1

/-- It is found if it matches at the beginning of the text. -/
theorem Library.Documented.finds (h : lib.Documented Matches)
    (hr : lib.compile (Pattern.anchored source) = .ok r.expression)
    (hsource : lib.compile source = .ok expression) (text : List Char) :
    (∀ e, r.find? text = some e → Matches source text 0 e) ∧
      (r.find? text = none → ∀ e, ¬Matches source text 0 e) := by
  rw [find?]
  constructor
  · intro e he
    obtain ⟨span, hspan, rfl⟩ := Option.map_eq_some_iff.1 he
    exact ((h.anchored_iff hr hsource).1 (h.found hr hspan)).2
  · intro hnone e he
    exact h.missed hr (Option.map_eq_none_iff.1 hnone) ((h.anchored_iff hr hsource).2 ⟨rfl, he⟩)

end Rules

section Words

/-- A word of letters, and whether it has to be at the beginning of the text. -/
structure Word where
  opens : Bool
  letters : List Char

namespace Word

/-- The word that a text stands for: letters by themselves, or in a group behind a caret. A caret by
itself stands for no letters at the beginning. -/
def read? (source : List Char) : Option Word :=
  let inner := (source.drop 4).dropLast
  if source.all Char.isAlpha then some ⟨false, source⟩
  else if source = ['^'] then some ⟨true, []⟩
  else if source = Pattern.anchored inner ∧ inner.all Char.isAlpha then some ⟨true, inner⟩
  else none

/-- Whether a word stands at an offset of a text. -/
def OccursAt (w : Word) (text : List Char) (start : Nat) : Prop :=
  ∃ before after, text = before ++ w.letters ++ after ∧ start = byteLength before ∧
    (w.opens = true → before = [])

/-- Where a word stands first in a text. -/
def search (w : Word) : List Char → Option Nat
  | [] => if w.letters = [] then some 0 else none
  | c :: cs =>
    if w.letters <+: c :: cs then some 0
    else if w.opens then none
    else (search w cs).map (c.utf8Size + ·)

variable {w : Word} {text source : List Char} {start stop : Nat}

theorem occursAt_of_search (h : w.search text = some start) : w.OccursAt text start := by
  induction text generalizing start with
  | nil =>
    rw [search, Option.ite_none_right_eq_some] at h
    obtain ⟨hw, ⟨⟩⟩ := h
    exact ⟨[], [], by rw [hw]; rfl, rfl, fun _ => rfl⟩
  | cons c cs ih =>
    rw [search] at h
    split at h
    next hprefix =>
      obtain ⟨after, hafter⟩ := hprefix
      cases h
      exact ⟨[], after, hafter.symm, rfl, fun _ => rfl⟩
    next =>
      rw [Option.ite_none_left_eq_some, Option.map_eq_some_iff] at h
      obtain ⟨hopens, start, hstart, rfl⟩ := h
      obtain ⟨before, after, rfl, rfl, -⟩ := ih hstart
      exact ⟨c :: before, after, rfl, rfl, fun ho => absurd ho hopens⟩

theorem not_occursAt_of_search (h : w.search text = none) : ¬w.OccursAt text start := by
  rintro ⟨before, after, htext, -, hopens⟩
  induction text generalizing before with
  | nil =>
    obtain ⟨hbefore, -⟩ := List.append_eq_nil_iff.1 htext.symm
    rw [search, if_pos (List.append_eq_nil_iff.1 hbefore).2] at h
    cases h
  | cons c cs ih =>
    rw [search] at h
    split at h
    next => cases h
    next hprefix =>
      cases before with
      | nil => exact hprefix ⟨after, htext.symm⟩
      | cons b before =>
        have hw : ¬w.opens = true := fun ho => List.cons_ne_nil _ _ (hopens ho)
        rw [if_neg hw, Option.map_eq_none_iff] at h
        exact ih h before (List.cons.inj htext).2 fun ho => absurd ho hw

/-- The expression that finds a word. -/
def expression (w : Word) : Expression where
  find? text := (w.search text).map fun start => (start, start + byteLength w.letters)
  ends text span h := by
    obtain ⟨start, hstart, rfl⟩ := Option.map_eq_some_iff.1 h
    obtain ⟨before, after, rfl, rfl, -⟩ := occursAt_of_search hstart
    exact ⟨before ++ w.letters, List.prefix_append .., (byteLength_append ..).symm⟩

def library : Library where
  compile source :=
    match read? source with
    | some w => .ok w.expression
    | none => .error { message := "not a word" }

/-- From where to where a text that stands for a word matches in another one. -/
def Matches (source text : List Char) (start stop : Nat) : Prop :=
  ∃ w, read? source = some w ∧ w.OccursAt text start ∧ stop = start + byteLength w.letters

theorem compile_eq_ok_iff {e : Expression} :
    library.compile source = .ok e ↔ ∃ w, read? source = some w ∧ e = w.expression := by
  simp only [library]
  cases read? source <;> simp [eq_comm]

theorem read?_letters (h : source.all Char.isAlpha = true) : read? source = some ⟨false, source⟩ := by
  rw [read?, if_pos h]

theorem read?_caret : read? ['^'] = some ⟨true, []⟩ := rfl

theorem read?_anchored {w : Word} (h : read? (Pattern.anchored source) = some w) :
    source.all Char.isAlpha = true ∧ w = ⟨true, source⟩ := by
  have hinner : ((Pattern.anchored source).drop 4).dropLast = source := by simp [Pattern.anchored]
  have hletters : ¬(Pattern.anchored source).all Char.isAlpha = true := by simp [Pattern.anchored]
  have hcaret : Pattern.anchored source ≠ ['^'] := by simp [Pattern.anchored]
  simp only [read?, hinner, if_neg hletters, if_neg hcaret, true_and] at h
  rw [Option.ite_none_right_eq_some] at h
  exact ⟨h.1, (Option.some_inj.1 h.2).symm⟩

/-- The library of words keeps to the rules. -/
theorem documented : library.Documented Matches where
  found hcompile hfind := by
    obtain ⟨w, hw, rfl⟩ := compile_eq_ok_iff.1 hcompile
    obtain ⟨start, hstart, ⟨⟩⟩ := Option.map_eq_some_iff.1 hfind
    exact ⟨w, hw, occursAt_of_search hstart, rfl⟩
  missed hcompile hfind := by
    obtain ⟨w, hw, rfl⟩ := compile_eq_ok_iff.1 hcompile
    rintro ⟨w', hw', hoccurs, -⟩
    rw [hw] at hw'
    cases hw'
    exact not_occursAt_of_search (Option.map_eq_none_iff.1 hfind) hoccurs
  caret := by
    intro text start stop
    constructor
    · rintro ⟨w, ⟨rfl⟩, ⟨before, after, -, rfl, hopens⟩, rfl⟩
      rw [hopens rfl]
      exact ⟨rfl, rfl⟩
    · rintro ⟨rfl, rfl⟩
      exact ⟨_, read?_caret, ⟨[], _, rfl, rfl, fun _ => rfl⟩, rfl⟩
  anchored := by
    intro source text expression expression' start stop hsource hanchored
    obtain ⟨w, hw, -⟩ := compile_eq_ok_iff.1 hanchored
    obtain ⟨hletters, rfl⟩ := read?_anchored hw
    have hword := read?_letters hletters
    constructor
    · rintro ⟨w, hw', ⟨before, after, rfl, rfl, hopens⟩, rfl⟩
      rw [hw] at hw'
      cases hw'
      obtain rfl := hopens rfl
      exact ⟨0, ⟨_, read?_caret, ⟨[], _, rfl, rfl, fun _ => rfl⟩, rfl⟩,
        _, hword, ⟨[], after, rfl, rfl, nofun⟩, rfl⟩
    · rintro ⟨middle, ⟨w, ⟨rfl⟩, ⟨before, after, -, rfl, hopens⟩, rfl⟩, w', hw', hoccurs, rfl⟩
      rw [hword] at hw'
      cases hw'
      obtain rfl := hopens rfl
      obtain ⟨before, after, rfl, hstart, -⟩ := hoccurs
      obtain rfl : before = [] := eq_nil_of_byteLength hstart.symm
      exact ⟨_, hw, ⟨[], after, rfl, rfl, fun _ => rfl⟩, rfl⟩

end Word

end Words

end PushParsing.Pattern
