import PushParsing.Proofs.Boundary
import PushParsing.Proofs.Priming

/-!
# Well-formed trees

Every tree that is stored is a derivation of its text, node by node: the node of a literal is a leaf
over the literal's text, the node of a sequence has one part for each element, and these adjoin.
-/
namespace PushParsing

namespace Tree

mutual

/-- All nodes of a tree with what is below them, each before its parts. -/
def nodes : Tree → List Tree
  | node p s e cs => node p s e cs :: nodesAll cs

def nodesAll : List Tree → List Tree
  | [] => []
  | c :: cs => c.nodes ++ nodesAll cs

end

/-- The nodes without parts, from left to right. -/
def leaves (t : Tree) : List Tree := t.nodes.filter (·.children.isEmpty)

/-- The texts of the leaves in their order. -/
def leafText (d : Document) (t : Tree) : String := String.join (t.leaves.map (·.text d))

/-- Trees follow each other without gaps, from one offset to another. -/
def Adjoin : Nat → List Tree → Nat → Prop
  | i, [], j => i = j
  | i, t :: ts, j => t.start = i ∧ Adjoin t.stop ts j

theorem mem_nodesAll {n : Tree} {ts : List Tree} : n ∈ nodesAll ts ↔ ∃ t ∈ ts, n ∈ t.nodes := by
  induction ts with
  | nil => simp [nodesAll]
  | cons t ts ih => simp [nodesAll, ih]

theorem self_mem_nodes (t : Tree) : t ∈ t.nodes := by
  cases t
  exact List.mem_cons_self

theorem mem_nodes {n t : Tree} : n ∈ t.nodes ↔ n = t ∨ ∃ u ∈ t.children, n ∈ u.nodes := by
  cases t with
  | node p s e cs => rw [nodes, List.mem_cons, mem_nodesAll, children_node]

theorem size_lt {t u : Tree} (h : u ∈ t.children) : u.size < t.size := by
  have hle := size_le_sizeAll h
  cases t
  simp only [size, children_node] at hle ⊢
  omega

theorem Adjoin.snoc {ts : List Tree} {t : Tree} {i : Nat} :
    Adjoin i ts t.start → Adjoin i (ts ++ [t]) t.stop := by
  induction ts generalizing i with
  | nil => exact fun h => ⟨h.symm, rfl⟩
  | cons u ts ih => exact fun h => ⟨h.1, ih h.2⟩

end Tree

variable {g : Grammar Empty} {d : Document} {s : Store Empty} {c : ContextNumber}

/-- What a parser makes of a node: its parts, and the text of a literal. -/
def Parser.Shapes (d : Document) (t : Tree) : Parser Empty → Prop
  | .literal text => t.children = [] ∧ t.text d = text
  | .pattern _ => t.children = []
  | .sequence es => t.children.map Tree.parser = es ∧ Tree.Adjoin t.start t.children t.stop
  | .choice qs => ∃ q ∈ qs, ∃ u, t.children = [u] ∧ u.span = ⟨q, t.start, t.stop⟩
  | .optional q => t.children = [] ∧ t.start = t.stop ∨
      t.start < t.stop ∧ ∃ u, t.children = [u] ∧ u.span = ⟨q, t.start, t.stop⟩
  | .custom _ _ code => code.elim

/-- A node that a parser of the grammar made of a piece of the document. -/
structure Tree.Fits (g : Grammar Empty) (d : Document) (t : Tree) : Prop where
  ordered : t.start ≤ t.stop
  inside : t.stop ≤ d.size
  starts : d.IsBoundary t.start
  stops : d.IsBoundary t.stop
  text : ∃ cs, d.Between t.start t.stop cs ∧ t.text d = String.ofList cs
  shape : ∃ x, g.parser? t.parser = some x ∧ x.Shapes d t

section Leaves

theorem Tree.Fits.adjoin {t : Tree} (h : t.Fits g d) (hne : t.children ≠ []) :
    Adjoin t.start t.children t.stop := by
  obtain ⟨x, -, hx⟩ := h.shape
  have hone {q : ParserId} {u : Tree} (hu : t.children = [u])
      (hspan : u.span = ⟨q, t.start, t.stop⟩) : Adjoin t.start t.children t.stop := by
    rw [hu]
    exact ⟨congrArg Span.start hspan, congrArg Span.stop hspan⟩
  cases x with
  | literal text => exact absurd hx.1 hne
  | pattern r => exact absurd hx hne
  | sequence es => exact hx.2
  | choice qs =>
    obtain ⟨q, -, u, hu, hspan⟩ := hx
    exact hone hu hspan
  | optional q =>
    rcases hx with ⟨hnil, -⟩ | ⟨-, u, hu, hspan⟩
    · exact absurd hnil hne
    · exact hone hu hspan
  | custom label refs code => exact code.elim

mutual

/-- The leaves of a well-formed tree tell the piece of the document between its offsets. -/
theorem Tree.exists_leafText : ∀ t : Tree, (∀ n ∈ t.nodes, n.Fits g d) →
    ∃ cs, d.Between t.start t.stop cs ∧ t.leafText d = String.ofList cs
  | node p s e [], h => by
    obtain ⟨cs, hcs, htext⟩ := (h _ (self_mem_nodes _)).text
    have hleaves : (node p s e []).leaves = [node p s e []] := rfl
    refine ⟨cs, hcs, ?_⟩
    rw [leafText, hleaves, List.map_singleton, String.join_cons, String.join_nil,
      String.append_empty, htext]
  | node p s e (u :: us), h => by
    have hself := h _ (self_mem_nodes _)
    have hbelow (n : Tree) (hn : n ∈ nodesAll (u :: us)) : n.Fits g d :=
      h n (List.mem_cons_of_mem _ hn)
    exact Tree.exists_leafText_all (u :: us) hbelow hself.starts (hself.adjoin (by simp))

theorem Tree.exists_leafText_all : ∀ ts : List Tree, (∀ n ∈ nodesAll ts, n.Fits g d) →
    ∀ {i j : Nat}, d.IsBoundary i → Adjoin i ts j → ∃ cs, d.Between i j cs ∧
      String.join (((nodesAll ts).filter (·.children.isEmpty)).map (·.text d)) = String.ofList cs
  | [], _, i, j, hi, hj => by
    obtain rfl : i = j := hj
    exact ⟨[], .nothing hi, rfl⟩
  | t :: ts, h, i, j, hi, hj => by
    obtain ⟨rfl, hj⟩ := hj
    have hfirst (n : Tree) (hn : n ∈ t.nodes) : n.Fits g d := h n (List.mem_append_left _ hn)
    have hrest (n : Tree) (hn : n ∈ nodesAll ts) : n.Fits g d := h n (List.mem_append_right _ hn)
    have hstop := (hfirst t t.self_mem_nodes).stops
    obtain ⟨as, has, htext⟩ := Tree.exists_leafText t hfirst
    obtain ⟨bs, hbs, htexts⟩ := Tree.exists_leafText_all ts hrest hstop hj
    refine ⟨as ++ bs, has.append hbs, ?_⟩
    rw [nodesAll, List.filter_append, List.map_append, String.join_append, htexts,
      String.ofList_append, ← htext]
    rfl

end

/-- The texts of the leaves make up the text of the tree. -/
theorem Tree.leafText_eq {t : Tree} (h : ∀ n ∈ t.nodes, n.Fits g d) : t.leafText d = t.text d := by
  obtain ⟨cs, hcs, htext⟩ := t.exists_leafText h
  rw [htext, text, hcs.slice]

end Leaves

section Stored

/-- The parts of a sequence are trees of its elements, and they adjoin. -/
theorem Chain.parts (hs : s.Sound g) (hd : s.document? c = some d) {es : List ParserId} {i j : Nat}
    {ts : List Tree} (h : Chain (s.Found c) es i ts j) :
    ts.map Tree.parser = es ∧ Tree.Adjoin i ts j ∧ ∀ t ∈ ts, ∃ q k, s.Found c q k t := by
  induction h with
  | nil => exact ⟨rfl, rfl, by simp⟩
  | @snoc es e ts t i k _ ht ih =>
    obtain ⟨hparsers, hadjoin, hfound⟩ := ih
    obtain ⟨hp, hstart, -⟩ := hs.found hd ht
    subst hstart
    refine ⟨?_, hadjoin.snoc, ?_⟩
    · rw [List.map_append, hparsers, List.map_singleton, hp]
    · intro u hu
      rcases List.mem_append.1 hu with hu | hu
      · exact hfound u hu
      · rw [List.mem_singleton] at hu
        exact ⟨e, t.start, hu ▸ ht⟩

/-- All that is stored in a context began at boundaries between characters. -/
def Store.Aligned (s : Store Empty) (d : Document) (c : ContextNumber) : Prop :=
  ∀ p i id, s.peek? c p i = some id → d.IsBoundary i

variable (hs : s.Sound g) (hd : s.document? c = some d)
include hs hd

theorem Store.Found.boundaries (haligned : s.Aligned d c) {p : ParserId} {i : Nat} {t : Tree}
    (h : s.Found c p i t) : d.IsBoundary t.start ∧ d.IsBoundary t.stop := by
  obtain ⟨-, hstart, -, -, hder⟩ := hs.found hd h
  obtain ⟨id, a, ha, rfl, rfl, rfl, -⟩ := h
  have hi := haligned _ _ id (hs.kept id a ha).1
  exact ⟨hstart ▸ hi, hder.boundary hi⟩

/-- A tree stored is of the shape that its parser gives to it, and its parts are stored, too. -/
theorem Store.Found.shape (hprimed : Machine.Primed g ⟨s, (), []⟩) {p : ParserId} {i : Nat}
    {t : Tree} (h : s.Found c p i t) : (∃ x, g.parser? t.parser = some x ∧ x.Shapes d t) ∧
      ∀ u ∈ t.children, ∃ q k, s.Found c q k u := by
  obtain ⟨-, -, hle, -, -⟩ := hs.found hd h
  obtain ⟨id, a, ha, rfl, rfl, rfl, ht⟩ := h
  obtain ⟨-, d', hd', hsound⟩ := hs.kept id a ha
  rw [hd] at hd'
  cases hd'
  obtain ⟨-, -, hstart, hcomposed⟩ := hsound.trees t ht
  cases hcomposed with
  | made hm =>
    cases hm with
    | literal hx hr htext =>
      have hpiece := Document.Between.of_rest? hr htext
      refine ⟨⟨_, hx, rfl, ?_⟩, by simp [Tree.leaf]⟩
      rw [Tree.text, Tree.start_leaf, Tree.stop_leaf, Nat.max_eq_left (Nat.le_add_right ..),
        hpiece.slice, String.ofList_toList]
    | pattern hx _ _ => exact ⟨⟨_, hx, rfl⟩, by simp [Tree.leaf]⟩
    | sequence hx hch =>
      obtain ⟨hparsers, hadjoin, hfound⟩ := hch.parts hs hd
      exact ⟨⟨_, hx, hparsers, hch.stop_join a.parser ▸ hadjoin⟩, hfound⟩
    | nothing hx => exact ⟨⟨_, hx, .inl ⟨rfl, (Nat.max_self _).symm⟩⟩, by simp [Tree.leaf]⟩
  | @passed q u hpasses _ hu =>
    obtain ⟨huq, -⟩ := hs.found hd hu
    have hspan : u.span = ⟨q, u.start, u.stop⟩ := by rw [Tree.span, huq]
    have hparts : ∀ v ∈ (Tree.wrap a.parser u).children, ∃ q k, s.Found a.context q k v := by
      intro v hv
      obtain rfl := List.mem_singleton.1 hv
      exact ⟨q, a.position, hu⟩
    cases hpasses with
    | choice hx hq => exact ⟨⟨_, hx, q, hq, u, rfl, hspan⟩, hparts⟩
    | optional hx =>
      have hlength : (Tree.wrap a.parser u).length ≠ 0 := by
        intro h0
        cases (hprimed id a q ha hx).2 _ ht h0
      rw [Tree.length, hstart] at hlength
      refine ⟨⟨_, hx, .inr ⟨?_, u, rfl, hspan⟩⟩, hparts⟩
      omega

/-- By induction on the number of nodes: all nodes of a tree stored are made of pieces of the
document. -/
theorem Store.Found.fits (hprimed : Machine.Primed g ⟨s, (), []⟩) (haligned : s.Aligned d c)
    (n : Nat) : ∀ {p : ParserId} {i : Nat} {t : Tree}, t.size ≤ n → s.Found c p i t →
      ∀ m ∈ t.nodes, m.Fits g d := by
  induction n with
  | zero =>
    intro p i t hn
    cases t
    simp only [Tree.size] at hn
    omega
  | succ n ih =>
    intro p i t hn h m hm
    obtain ⟨hshape, hparts⟩ := Store.Found.shape hs hd hprimed h
    rcases Tree.mem_nodes.1 hm with rfl | ⟨u, hu, hm⟩
    · obtain ⟨hstarts, hstops⟩ := Store.Found.boundaries hs hd haligned h
      obtain ⟨-, hstart, hle, hin, -⟩ := hs.found hd h
      rw [← hstart] at hle
      obtain ⟨cs, hcs⟩ := Document.exists_between hstarts hstops hle
      exact ⟨hle, hin, hstarts, hstops, ⟨cs, hcs, hcs.slice⟩, hshape⟩
    · obtain ⟨q, k, hq⟩ := hparts u hu
      have hlt := Tree.size_lt hu
      exact ih (by omega) hq m hm

end Stored

/-- Whatever is asked for at boundaries between characters, a tree that is stored in the accumulator
of a pair is one of the pair's parser at the pair's position. All its nodes are made of pieces of the
document as the grammar demands, so the texts of its leaves make up its own text. -/
theorem stored_trees_fit {draft : Draft Empty} (hb : draft.build = .ok g)
    (hr : g.Reached (fun d _ i => d.IsBoundary i) s) (hd : s.document? c = some d) {p : ParserId}
    {i : Nat} {id : AccumulatorId} {a : Accumulator Empty} (hp : s.peek? c p i = some id)
    (ha : s.accumulator? id = some a) {t : Tree} (ht : t ∈ a.trees) :
    t.parser = p ∧ t.start = i ∧ (∀ n ∈ t.nodes, n.Fits g d) ∧ t.leafText d = t.text d := by
  have hg := Draft.closed_build hb
  have hs := hr.sound hg
  have haligned : s.Aligned d c := fun p i id hp =>
    hr.forall_pairs hg (P := fun d x => d.IsBoundary x.2) (fun _ _ _ hreq hx => hreq.boundary hx)
      (fun _ _ _ hi => hi) hd hp
  obtain ⟨b, hb, hc, hbp, hbi⟩ := hs.known c p i id hp
  rw [ha] at hb
  cases hb
  have hfound : s.Found c p i t := ⟨id, a, ha, hc, hbp, hbi, ht⟩
  have hfits := Store.Found.fits hs hd (hr.primed hg) haligned t.size (Nat.le_refl _) hfound
  obtain ⟨htp, hti, -⟩ := hs.found hd hfound
  exact ⟨htp, hti, hfits, Tree.leafText_eq hfits⟩

namespace Accent

/-- A letter of two bytes that may be missing, and another letter, `r ::= 'é'? 'x'`. -/
def draft : Draft Empty :=
  { slots := #[⟨some "r", some (.sequence [1, 3])⟩, ⟨none, some (.optional 2)⟩,
      ⟨none, some (.literal "é")⟩, ⟨none, some (.literal "x")⟩] }

def grammar : Grammar Empty :=
  ⟨#[⟨some "r", .sequence [1, 3]⟩, ⟨none, .optional 2⟩, ⟨none, .literal "é"⟩,
    ⟨none, .literal "x"⟩]⟩

def document : Document := .ofString "éx"

def opened : Store Empty :=
  { contexts := #[⟨document, {}, .forInput 3 4⟩], heldContexts := [1] }

def store : Store Empty := (Machine.run (.standard grammar) 99 (.ofRequest opened () 1 0 0)).store

theorem built : draft.build = .ok grammar := rfl

theorem reached_opened : grammar.Reached (fun d _ i => d.IsBoundary i) opened := by
  have hopen : (Engine.standard grammar).openContext {} document {} = .ok (1, opened) := rfl
  exact .opened .start hopen

theorem reached : grammar.Reached (fun d _ i => d.IsBoundary i) store :=
  .requested (d := document) reached_opened rfl (by decide) (by decide +kernel)

def tree : Tree := .node 0 0 3 [.node 1 0 2 [.node 2 0 2 []], .node 3 2 3 []]

end Accent

/-- The letter of two bytes is one leaf, below the parser that may do without it. -/
theorem stored_trees_fit_accent :
    Accent.tree.leafText Accent.document = "éx" ∧
      ∀ n ∈ Accent.tree.nodes, n.Fits Accent.grammar Accent.document := by
  have hd : Accent.store.document? 1 = some Accent.document :=
    Accent.reached_opened.document_request (Draft.closed_build Accent.built) rfl 0 0 99
  have hp : Accent.store.peek? 1 0 0 = some 0 := by decide +kernel
  have htrees : (Accent.store.accumulator? 0).map (·.trees) = some [Accent.tree] := by
    decide +kernel
  obtain ⟨a, ha, hat⟩ := Option.map_eq_some_iff.1 htrees
  have ht : Accent.tree ∈ a.trees := hat ▸ List.mem_singleton.2 rfl
  obtain ⟨-, -, hfits, htext⟩ := stored_trees_fit Accent.built Accent.reached hd hp ha ht
  exact ⟨htext.trans (by decide +kernel), hfits⟩

end PushParsing
