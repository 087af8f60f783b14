import PushParsing.Grammar
import PushParsing.Pattern.Reader
import PushParsing.Pattern.Search

/-!
# A library that runs

The common syntax of regular expressions with leftmost-first search, for grammars that are to be run. It
goes without classes of Unicode properties and without the flags `u` and `R`. What is said of patterns
elsewhere holds for any library.
-/
namespace PushParsing.Pattern

/-- A search only finds what it had found before or what ends behind some of the characters left. -/
theorem Program.searchFrom_stop (p : Program) {o e : Nat} (cs : List Char) :
    ∀ {before : Option Char} {offset round : Nat} {ts : List Thread} {seen : Array Nat}
      {found : Option (Nat × Nat)},
      p.searchFrom before offset round ts seen found cs = some (o, e) →
        found = some (o, e) ∨ ∃ taken, taken <+: cs ∧ e = offset + byteLength taken := by
  induction cs with
  | nil =>
    intro before offset round ts seen found h
    rw [searchFrom] at h
    split at h
    · cases h
      exact .inr ⟨[], List.nil_prefix, rfl⟩
    · exact .inl h
  | cons c cs ih =>
    intro before offset round ts seen found h
    rw [searchFrom] at h
    dsimp only at h
    split at h
    · exact .inl h
    · rcases ih h with h | ⟨taken, hp, rfl⟩
      · split at h
        · cases h
          exact .inr ⟨[], List.nil_prefix, rfl⟩
        · exact .inl h
      · refine .inr ⟨c :: taken, List.cons_prefix_cons.2 ⟨rfl, hp⟩, ?_⟩
        rw [byteLength, Nat.add_assoc]

/-- The expression that a program searches for. -/
def Program.expression (p : Program) : Expression where
  find? := p.find?
  ends text span h := by
    rcases p.searchFrom_stop text h with hfound | ⟨taken, hp, he⟩
    · cases hfound
    · exact ⟨taken, hp, he.trans (Nat.zero_add _)⟩

/-- The library of the programs in this project. -/
def Library.standard : Library where
  compile text :=
    match Regex.read text with
    | .ok regex => .ok regex.program.expression
    | .error e => .error { message := e.message }

end PushParsing.Pattern

namespace PushParsing

/-- A parser for a regular expression of the library that runs. -/
def Parser.ofPattern {κ : Type} (source : String) : Except GrammarError (Parser κ) :=
  compiled .standard source

end PushParsing
