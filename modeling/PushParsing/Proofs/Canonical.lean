import PushParsing.Proofs.Termination
import PushParsing.Proofs.WellFormed

/-!
# Canonical trees

A context stores at most one tree for each parser and each piece of its document, and whatever else
is put together from that piece by that parser is put together from that tree. So even a grammar that
is ambiguous without bound has no tree in which a piece is made from itself.
-/
namespace PushParsing

/-- The nodes on a way from the root of a tree down to a leaf. -/
inductive Tree.Descent : Tree → List Tree → Prop
  | leaf {t : Tree} : t.children = [] → Descent t [t]
  | part {t u : Tree} {ns : List Tree} : u ∈ t.children → Descent u ns → Descent t (t :: ns)

section Descents

theorem Tree.size_le_of_mem_nodes {t n : Tree} (h : n ∈ t.nodes) : n.size ≤ t.size := by
  rcases Tree.mem_nodes.1 h with rfl | ⟨u, hu, h⟩
  · exact Nat.le_refl _
  · have hlt := Tree.size_lt hu
    have hle := Tree.size_le_of_mem_nodes h
    omega
termination_by t.size

variable {t : Tree} {ns : List Tree}

theorem Tree.Descent.mem_nodes (h : t.Descent ns) : ∀ n ∈ ns, n ∈ t.nodes := by
  induction h with
  | leaf _ =>
    intro n hn
    rw [List.mem_singleton.1 hn]
    exact Tree.self_mem_nodes _
  | part hu _ ih =>
    intro n hn
    rcases List.mem_cons.1 hn with rfl | hn
    · exact Tree.self_mem_nodes n
    · exact Tree.mem_nodes.2 (.inr ⟨_, hu, ih n hn⟩)

/-- On the way down the trees become smaller. -/
theorem Tree.Descent.sizes (h : t.Descent ns) : ns.Pairwise fun m n => n.size < m.size := by
  induction h with
  | leaf _ => exact List.pairwise_singleton ..
  | part hu hns ih =>
    refine List.pairwise_cons.2 ⟨fun n hn => ?_, ih⟩
    exact Nat.lt_of_le_of_lt (Tree.size_le_of_mem_nodes (hns.mem_nodes n hn)) (Tree.size_lt hu)

end Descents

variable {g : Grammar Empty} {d : Document} {s : Store Empty} {c : ContextNumber}

/-- A pair has one tree of each length. -/
theorem Store.Sound.found_unique (hs : s.Sound g) {p : ParserId} {i : Nat} {t u : Tree}
    (ht : s.Found c p i t) (hu : s.Found c p i u) (hlength : t.length = u.length) : t = u := by
  obtain ⟨id, a, ha, rfl, rfl, rfl, htrees⟩ := ht
  obtain ⟨-, d, -, hsound⟩ := hs.kept id a ha
  exact List.inj_on_of_nodup_map hsound.lengths htrees (hs.mem_trees ha hu) hlength

/-- Every node of a tree that is stored is stored itself, in the accumulator of its own pair. -/
theorem Store.Found.node (hs : s.Sound g) (hd : s.document? c = some d)
    (hprimed : Machine.Primed g ⟨s, (), []⟩) {p : ParserId} {i : Nat} {t n : Tree}
    (h : s.Found c p i t) (hn : n ∈ t.nodes) : s.Found c n.parser n.start n := by
  rcases Tree.mem_nodes.1 hn with rfl | ⟨u, hu, hn⟩
  · obtain ⟨hp, hi, -⟩ := hs.found hd h
    rwa [hp, hi]
  · have hlt := Tree.size_lt hu
    obtain ⟨q, k, hq⟩ := (Store.Found.shape hs hd hprimed h).2 u hu
    exact Store.Found.node hs hd hprimed hq hn
termination_by t.size

/-- Stored nodes of one parser over one piece of the document are the same. -/
theorem Store.Sound.node_unique (hs : s.Sound g) {m n : Tree}
    (hm : s.Found c m.parser m.start m) (hn : s.Found c n.parser n.start n)
    (hspan : m.span = n.span) : m = n := by
  simp only [Tree.span, Tree.Span.mk.injEq] at hspan
  obtain ⟨hp, hstart, hstop⟩ := hspan
  rw [← hp, ← hstart] at hn
  exact hs.found_unique hm hn (by rw [Tree.length, hstart, hstop, Tree.length])

/-- Whatever was asked for, every node of a tree that a context stores is the one tree of its length
in the accumulator of its own parser and position. So nodes of one parser over one piece of the
document are the same wherever they occur, and on no way down a tree such a node occurs again. -/
theorem stored_trees_are_canonical {draft : Draft Empty} (hb : draft.build = .ok g)
    {admits : Document → ParserId → Nat → Prop} (hr : g.Reached admits s) {p : ParserId} {i : Nat}
    {t : Tree} (ht : s.Found c p i t) :
    (∀ n ∈ t.nodes, ∃ id a, s.peek? c n.parser n.start = some id ∧ s.accumulator? id = some a ∧
      ∀ m, m ∈ a.trees ∧ m.length = n.length ↔ m = n) ∧
    (∀ q k u, s.Found c q k u → ∀ m ∈ t.nodes, ∀ n ∈ u.nodes, m.span = n.span → m = n) ∧
    ∀ ns, t.Descent ns → (ns.map Tree.span).Nodup := by
  have hg := Draft.closed_build hb
  have hs := hr.sound hg
  obtain ⟨d, hd⟩ : ∃ d, s.document? c = some d := by
    obtain ⟨id, a, ha, rfl, -⟩ := ht
    exact Store.document_of_peek (hs.kept id a ha).1
  have hnode {q : ParserId} {k : Nat} {u n : Tree} (hu : s.Found c q k u) (hn : n ∈ u.nodes) :
      s.Found c n.parser n.start n := hu.node hs hd (hr.primed hg) hn
  refine ⟨fun n hn => ?_, fun q k u hu m hm n hn => hs.node_unique (hnode ht hm) (hnode hu hn), ?_⟩
  · have hfound := hnode ht hn
    obtain ⟨id, a, ha, hc, hp, hi, hmem⟩ := hfound
    have hpeek := (hs.kept id a ha).1
    rw [hc, hp, hi] at hpeek
    refine ⟨id, a, hpeek, ha, fun m => ⟨fun ⟨hm, hlength⟩ => ?_, ?_⟩⟩
    · exact hs.found_unique ⟨id, a, ha, hc, hp, hi, hm⟩ (hnode ht hn) hlength
    · rintro rfl
      exact ⟨hmem, rfl⟩
  · -- a node that came again would be smaller than itself
    intro ns hns
    refine List.pairwise_map.2 (hns.sizes.imp_of_mem fun hm hn hlt hspan => ?_)
    have heq := hs.node_unique (hnode ht (hns.mem_nodes _ hm)) (hnode ht (hns.mem_nodes _ hn)) hspan
    rw [heq] at hlt
    exact Nat.lt_irrefl _ hlt

namespace Ambiguity

def store : Store Empty := (Machine.run (.standard grammar) 99 (.ofRequest opened () 1 0 0)).store

theorem reached_store : grammar.Reached (fun _ _ _ => True) store :=
  .requested (d := document) reached rfl trivial (by decide +kernel)

/-- The empty match of the rule, by its literal. -/
def once : Tree := .node 0 0 0 [.leaf 2 0 0]

/-- The empty match of the sequence, by the rule twice. -/
def twice : Tree := .node 1 0 0 [once, once]

end Ambiguity

/-- Of the infinitely many trees that the ambiguous rule has over nothing, the one by its literal is
stored. The sequence is made of it twice, and in neither place it is made from the sequence. -/
theorem stored_trees_are_canonical_ambiguity :
    (∃ id a, Ambiguity.store.peek? 1 0 0 = some id ∧ Ambiguity.store.accumulator? id = some a ∧
      ∀ m, m ∈ a.trees ∧ m.length = 0 ↔ m = Ambiguity.once) ∧
    ∀ ns, Ambiguity.twice.Descent ns → (ns.map Tree.span).Nodup := by
  have hb : Ambiguity.draft.build = .ok Ambiguity.grammar := rfl
  have hfound : Ambiguity.store.Found 1 1 0 Ambiguity.twice := by
    have htrees : (Ambiguity.store.accumulator? 1).map (fun a => (a.context, a.parser, a.position,
        a.trees)) = some (1, 1, 0, [Ambiguity.twice]) := by decide +kernel
    obtain ⟨a, ha, heq⟩ := Option.map_eq_some_iff.1 htrees
    obtain ⟨hc, hp, hi, ht⟩ : a.context = 1 ∧ a.parser = 1 ∧ a.position = 0 ∧
        a.trees = [Ambiguity.twice] := by simpa using heq
    exact ⟨1, a, ha, hc, hp, hi, ht ▸ List.mem_singleton.2 rfl⟩
  obtain ⟨hnodes, -, hdescents⟩ := stored_trees_are_canonical hb Ambiguity.reached_store hfound
  exact ⟨hnodes Ambiguity.once (by decide), hdescents⟩

end PushParsing
