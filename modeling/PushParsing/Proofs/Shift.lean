import PushParsing.Proofs.Boundary
import PushParsing.Proofs.Effects

/-!
# Further on

Trees and failures as they would be in a document that has so many bytes more in front, and
documents that go on behind an offset as another one does from its beginning.
-/
namespace PushParsing

namespace Tree

mutual

/-- The tree with all its offsets so many bytes further on. -/
def shift (n : Nat) : Tree → Tree
  | node p s e cs => node p (s + n) (e + n) (shiftAll n cs)

def shiftAll (n : Nat) : List Tree → List Tree
  | [] => []
  | c :: cs => c.shift n :: shiftAll n cs

end

variable {n : Nat}

theorem shiftAll_eq_map (n : Nat) (ts : List Tree) : shiftAll n ts = ts.map (shift n) := by
  induction ts with
  | nil => rfl
  | cons t ts ih => rw [shiftAll, ih, List.map_cons]

@[simp] theorem parser_shift (t : Tree) : (t.shift n).parser = t.parser := by
  cases t
  rfl

@[simp] theorem start_shift (t : Tree) : (t.shift n).start = t.start + n := by
  cases t
  rfl

@[simp] theorem stop_shift (t : Tree) : (t.shift n).stop = t.stop + n := by
  cases t
  rfl

@[simp] theorem length_shift (t : Tree) : (t.shift n).length = t.length := by
  rw [length, length, stop_shift, start_shift, Nat.add_sub_add_right]

theorem shift_leaf (p : ParserId) (s e : Nat) :
    (leaf p s e).shift n = leaf p (s + n) (e + n) := by
  rw [leaf, leaf, shift, Nat.add_max_add_right]
  rfl

theorem shift_wrap (p : ParserId) (t : Tree) : (wrap p t).shift n = wrap p (t.shift n) := by
  rw [wrap, wrap, shift, start_shift, stop_shift]
  rfl

theorem shift_join (p : ParserId) (s : Nat) (ts : List Tree) :
    (join p s ts).shift n = join p (s + n) (ts.map (shift n)) := by
  rw [join, join, shift, shiftAll_eq_map, List.getLast?_map, Option.map_map]
  cases ts.getLast? with
  | none => rfl
  | some t => simp

mutual

@[simp] theorem shift_zero : ∀ t : Tree, t.shift 0 = t
  | node p s e cs => by rw [shift, shiftAll_zero cs, Nat.add_zero, Nat.add_zero]

theorem shiftAll_zero : ∀ ts : List Tree, shiftAll 0 ts = ts
  | [] => rfl
  | t :: ts => by rw [shiftAll, shift_zero t, shiftAll_zero ts]

end

end Tree

/-- The failure as another context tells it. -/
def Failure.within (c : ContextNumber) (f : Failure) : Failure := { f with context := c }

/-- The failure so many bytes further on. -/
def Failure.shift (n : Nat) (f : Failure) : Failure := { f with position := f.position + n }

@[simp] theorem Failure.shift_zero (f : Failure) : f.shift 0 = f := rfl

theorem Accumulator.adopt_shift {κ : Type} {a a' : Accumulator κ} (h : a'.parser = a.parser)
    (n : Nat) (t : Tree) : a'.adopt (t.shift n) = (a.adopt t).shift n := by
  rw [adopt, adopt, h, Tree.parser_shift]
  split
  · rfl
  · exact (Tree.shift_wrap _ t).symm

section Documents

variable {d d' : Document} {n : Nat}

/-- From an offset on the document is another one. -/
structure Document.EndsWith (d' : Document) (n : Nat) (d : Document) : Prop where
  rest : ∀ i, d'.rest? (i + n) = d.rest? i
  size : d'.size = d.size + n

theorem Document.EndsWith.self (d : Document) : d.EndsWith 0 d := ⟨fun _ => rfl, rfl⟩

/-- The document from an offset on, empty inside a character or beyond the end. -/
def Document.from (d : Document) (n : Nat) : Document := { chars := (d.rest? n).getD [] }

theorem Document.endsWith_from (h : d.IsBoundary n) : d.EndsWith n (d.from n) := by
  obtain ⟨before, after, hd, rfl⟩ := isBoundary_iff.1 h
  have hfrom : d.from (byteLength before) = { chars := after } := by
    simp only [Document.from, rest?, hd, dropBytes_append, Option.getD_some]
  rw [hfrom]
  refine ⟨fun i => ?_, ?_⟩
  · simp only [rest?, hd, dropBytes_append_add]
  · rw [d.size_eq, hd, byteLength_append, Nat.add_comm]

end Documents

end PushParsing
