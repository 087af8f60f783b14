import PushParsing.Proofs.Conversation
import PushParsing.Proofs.Termination

/-!
# Parsing looks to the right

What a parser finds from an offset on depends on the document behind that offset alone: the same is
found from the beginning of that part, taken as a document of its own, and everything is just so many
bytes further on.
-/
namespace PushParsing

variable {g : Grammar Empty} {d : Document} {s s' t t' : Store Empty} {c c' : ContextNumber}
  {i : Nat} {limits limits' : Limits}

/-- A pair asked for in one context and what is shown of it, as another context has it further on. -/
def movedRow (δ : Nat) (c : ContextNumber) :
    ParserId × Nat × Option View → ParserId × Nat × Option View
  | (p, i, v) => (p, i + δ, v.map (·.moved δ c))

/-- A request at an offset to a context just opened goes the way of the same request at the beginning
of what lies behind the offset: both are answered, and whenever they are stopped the same pairs have
been asked for in the same order, with the same trees, failures and numbers of listeners, so many
bytes further on. -/
theorem parsing_looks_right {draft : Draft Empty} (hb : draft.build = .ok g)
    {admits admits' : Document → ParserId → Nat → Prop} (hr : g.Reached admits s)
    (hr' : g.Reached admits' s') (hi : d.IsBoundary i)
    (ho : (Engine.standard g).openContext s (d.from i) limits = .ok (c, t))
    (ho' : (Engine.standard g).openContext s' d limits' = .ok (c', t')) (p : ParserId) :
    (∃ n, (Machine.run (.standard g) n (.ofRequest t () c p 0)).agenda = [] ∧
      (Machine.run (.standard g) n (.ofRequest t' () c' p i)).agenda = []) ∧
    ∀ n, (Machine.run (.standard g) n (.ofRequest t' () c' p i)).store.holdings c' =
        ((Machine.run (.standard g) n (.ofRequest t () c p 0)).store.holdings c).map
          (movedRow i c') ∧
      ((Machine.run (.standard g) n (.ofRequest t' () c' p i)).store.accumulator?
          (t'.request c' p i).1).map (·.view) =
        (((Machine.run (.standard g) n (.ofRequest t () c p 0)).store.accumulator?
          (t.request c p 0).1).map (·.view)).map (·.moved i c') := by
  have hg := Draft.closed_build hb
  have ht := (hr.fit hg).opened ho
  have ht' := (hr'.fit hg).opened ho'
  have halike : t.Alike t' c c' i :=
    .opened (hr.sound hg) (Document.endsWith_from hi) ho ho'
  have hlock (n : Nat) := halike.answer hg ht ht' p 0 n
  simp only [Nat.zero_add] at hlock
  constructor
  · obtain ⟨d₀, hm⟩ := (hlock 0).1.sound
    have hstart : Machine.Sound g d₀ c (.ofRequest t () c p 0) := hm
    obtain ⟨n, hn⟩ := hstart.rests hg
    have hagenda := (hlock n).1.agenda
    refine ⟨n, hn, ?_⟩
    rw [hn, List.forall₂_nil_left_iff] at hagenda
    exact hagenda
  · intro n
    obtain ⟨hend, htwins⟩ := hlock n
    obtain ⟨d₀, hm⟩ := hend.sound
    obtain ⟨d₁, hm'⟩ := hend.sound'
    exact ⟨hend.alike.holdings hm.store hm'.store, hend.alike.view htwins⟩

namespace Late

/-- Ones behind another letter, `r ::= r '1' | '1'`. -/
def document : Document := .ofString "é11x"

def opened : Store Empty :=
  { contexts := #[⟨document, {}, .forInput 5 3⟩], heldContexts := [1] }

def openedBehind : Store Empty :=
  { contexts := #[⟨document.from 2, {}, .forInput 3 3⟩], heldContexts := [1] }

end Late

/-- Behind a letter of two bytes the ones are found two bytes further on, and so is what is missing. -/
theorem parsing_looks_right_late :
    (((Machine.run (.standard Ones.grammar) 99 (.ofRequest Late.opened () 1 0 2)).store.accumulator?
        0).map (·.view)).map (fun v => (v.trees.map Tree.span, v.best)) =
      some ([⟨0, 2, 3⟩, ⟨0, 2, 4⟩], some ((Cause.expectedText "1").failure 1 2 4)) := by
  have hb : Ones.draft.build = .ok Ones.grammar := rfl
  have hr : Ones.grammar.Reached (fun _ _ _ => True) {} := .start
  have hi : Late.document.IsBoundary 2 := by decide
  have ho : (Engine.standard Ones.grammar).openContext {} (Late.document.from 2) {} =
      .ok (1, Late.openedBehind) := rfl
  have ho' : (Engine.standard Ones.grammar).openContext {} Late.document {} =
      .ok (1, Late.opened) := rfl
  obtain ⟨-, hsame⟩ := parsing_looks_right hb hr hr hi ho ho' 0
  obtain ⟨-, hview⟩ := hsame 99
  refine (congrArg (Option.map fun v => (v.trees.map Tree.span, v.best)) hview).trans ?_
  decide +kernel

end PushParsing
