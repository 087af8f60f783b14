import PushParsing.Document

/-!
# Match trees

A tree is the evidence that a parser matched a stretch of the document: the parser, the offsets
where the match starts and stops, and the matches it was put together from.
-/
namespace PushParsing

/-- A parser is named by its place in the grammar. -/
abbrev ParserId := Nat

/-- The way a parser's number is written. -/
def ParserId.text (p : ParserId) : String := "#" ++ toString (show Nat from p)

inductive Tree where
  | node (parser : ParserId) (start stop : Nat) (children : List Tree)
  deriving Repr

/-- The parser and the offsets of one node. -/
structure Tree.Span where
  parser : ParserId
  start : Nat
  stop : Nat
  deriving DecidableEq, Repr

namespace Tree

def parser : Tree → ParserId
  | node p _ _ _ => p

def start : Tree → Nat
  | node _ s _ _ => s

def stop : Tree → Nat
  | node _ _ e _ => e

def children : Tree → List Tree
  | node _ _ _ cs => cs

@[simp] theorem parser_node (p : ParserId) (s e : Nat) (cs : List Tree) :
    (node p s e cs).parser = p := rfl
@[simp] theorem start_node (p : ParserId) (s e : Nat) (cs : List Tree) :
    (node p s e cs).start = s := rfl
@[simp] theorem stop_node (p : ParserId) (s e : Nat) (cs : List Tree) :
    (node p s e cs).stop = e := rfl
@[simp] theorem children_node (p : ParserId) (s e : Nat) (cs : List Tree) :
    (node p s e cs).children = cs := rfl

/-- A match without parts. It never stops before it starts. -/
def leaf (p : ParserId) (start stop : Nat) : Tree := node p start (max stop start) []

/-- A match of nothing at an offset. -/
def nothing (p : ParserId) (offset : Nat) : Tree := leaf p offset offset

/-- The same stretch, now claimed by another parser; the given tree is the only part. -/
def wrap (p : ParserId) (t : Tree) : Tree := node p t.start t.stop [t]

/-- A match put together from adjacent parts; it stops where the last part does. -/
def join (p : ParserId) (start : Nat) (parts : List Tree) : Tree :=
  node p start ((parts.getLast?.map stop).getD start) parts

def span (t : Tree) : Span := ⟨t.parser, t.start, t.stop⟩

/-- Number of bytes matched. -/
def length (t : Tree) : Nat := t.stop - t.start

def isEmpty (t : Tree) : Bool := t.start == t.stop

/-- The matched part of a document, empty if the offsets do not fit it. -/
def text (t : Tree) (d : Document) : String := d.slice t.start t.stop

mutual

/-- Number of nodes. -/
def size : Tree → Nat
  | node _ _ _ cs => 1 + sizeAll cs

def sizeAll : List Tree → Nat
  | [] => 0
  | c :: cs => c.size + sizeAll cs

end

mutual

/-- All nodes with their depths, each before its parts, the root at the given depth. -/
def preorder (depth : Nat) : Tree → List (Nat × Span)
  | node p s e cs => (depth, ⟨p, s, e⟩) :: preorderAll (depth + 1) cs

def preorderAll (depth : Nat) : List Tree → List (Nat × Span)
  | [] => []
  | c :: cs => c.preorder depth ++ preorderAll depth cs

end

/-- The nodes of one parser, each before the nodes below it. -/
def nodesOf (t : Tree) (p : ParserId) : List Span :=
  ((t.preorder 0).map Prod.snd).filter (·.parser == p)

mutual

theorem length_preorder (depth : Nat) : ∀ t : Tree, (t.preorder depth).length = t.size
  | node _ _ _ cs => by
    simp only [preorder, size, List.length_cons, length_preorderAll (depth + 1) cs]
    omega

theorem length_preorderAll (depth : Nat) :
    ∀ cs : List Tree, (preorderAll depth cs).length = sizeAll cs
  | [] => rfl
  | c :: cs => by
    simp only [preorderAll, sizeAll, List.length_append, length_preorder depth c,
      length_preorderAll depth cs]

end

mutual

def decEq : (a b : Tree) → Decidable (a = b)
  | node p s e cs, node p' s' e' cs' =>
    if h : p = p' ∧ s = s' ∧ e = e' then
      match decEqAll cs cs' with
      | isTrue hc => isTrue (by simp [h, hc])
      | isFalse hc => isFalse (by simp [hc])
    else isFalse (by intro he; injection he with h₁ h₂ h₃; exact h ⟨h₁, h₂, h₃⟩)

def decEqAll : (as bs : List Tree) → Decidable (as = bs)
  | [], [] => isTrue rfl
  | [], _ :: _ => isFalse (by simp)
  | _ :: _, [] => isFalse (by simp)
  | a :: as, b :: bs =>
    match decEq a b, decEqAll as bs with
    | isTrue h, isTrue ht => isTrue (by simp [h, ht])
    | isFalse h, _ => isFalse (by simp [h])
    | _, isFalse ht => isFalse (by simp [ht])

end

instance : DecidableEq Tree := decEq

@[simp] theorem parser_leaf (p : ParserId) (s e : Nat) : (leaf p s e).parser = p := rfl
@[simp] theorem start_leaf (p : ParserId) (s e : Nat) : (leaf p s e).start = s := rfl
@[simp] theorem stop_leaf (p : ParserId) (s e : Nat) : (leaf p s e).stop = max e s := rfl
@[simp] theorem parser_wrap (p : ParserId) (t : Tree) : (wrap p t).parser = p := rfl
@[simp] theorem start_wrap (p : ParserId) (t : Tree) : (wrap p t).start = t.start := rfl
@[simp] theorem stop_wrap (p : ParserId) (t : Tree) : (wrap p t).stop = t.stop := rfl
@[simp] theorem parser_join (p : ParserId) (s : Nat) (ts : List Tree) :
    (join p s ts).parser = p := rfl
@[simp] theorem start_join (p : ParserId) (s : Nat) (ts : List Tree) :
    (join p s ts).start = s := rfl
@[simp] theorem stop_join_append (p : ParserId) (s : Nat) (ts : List Tree) (t : Tree) :
    (join p s (ts ++ [t])).stop = t.stop := by
  simp [join]

end Tree

end PushParsing
