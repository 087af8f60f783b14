import PushParsing.Outline
import PushParsing.Proofs.Lines

/-!
# Printed trees, line by line

A printed tree has one piece of text for each node down to the greatest depth, in the order of the
tree, and an ellipsis for each node right below. Each piece is ended by a line break. What was matched
is quoted and so stays on its line, but a description is printed as it stands: the pieces are the lines
of the printed tree exactly if no description has a line break in it.
-/
namespace PushParsing

variable {κ : Type}

section Quoting

theorem newline_not_mem_toDigits (base n : Nat) (h : 1 < base) : '\n' ∉ Nat.toDigits base n := by
  induction n using Nat.strong_induction_on with
  | _ n ih =>
    have hdigit (k : Nat) : '\n' ∉ [k.digitChar] := by
      rw [List.mem_singleton]
      exact Ne.symm (Nat.digitChar_ne '\n' (by decide))
    rw [Nat.toDigits_eq_if h]
    split
    · exact hdigit n
    next hn =>
      rw [List.mem_append, not_or]
      exact ⟨ih (n / base) (Nat.div_lt_self (by omega) h), hdigit (n % base)⟩

namespace Text

theorem newline_not_mem_escape (c : Char) : '\n' ∉ escape c := by
  by_cases hc : c = '\n'
  · rw [hc]
    decide
  · have hdigits := newline_not_mem_toDigits 16 c.toNat (by decide)
    simp only [escape, if_neg hc]
    split_ifs <;> simp [hdigits, Ne.symm hc]

/-- A quoted text has no line break, whatever is quoted. -/
theorem newline_not_mem_quote (s : String) : '\n' ∉ (quote s).toList := by
  simp [quote, newline_not_mem_escape]

end Text

end Quoting

section Pieces

/-- Pieces of text, each ended by a line break. -/
def joinLines (ls : List (List Char)) : List Char := ls.flatMap (· ++ ['\n'])

theorem count_joinLines_cons (l : List Char) (ls : List (List Char)) :
    (joinLines (l :: ls)).count '\n' = l.count '\n' + 1 + (joinLines ls).count '\n' := by
  simp [joinLines]
  omega

theorem length_le_count_joinLines (ls : List (List Char)) :
    ls.length ≤ (joinLines ls).count '\n' := by
  induction ls with
  | nil => exact Nat.le_refl 0
  | cons l ls ih =>
    rw [count_joinLines_cons, List.length_cons]
    omega

theorem count_joinLines_eq_iff (ls : List (List Char)) :
    (joinLines ls).count '\n' = ls.length ↔ ∀ l ∈ ls, '\n' ∉ l := by
  induction ls with
  | nil => simp [joinLines]
  | cons l ls ih =>
    have hle := length_le_count_joinLines ls
    rw [List.forall_mem_cons, ← ih, ← List.count_eq_zero, count_joinLines_cons, List.length_cons]
    omega

/-- The pieces are the lines of the text exactly if they have no line breaks of their own. -/
theorem splitOn_joinLines_iff (ls : List (List Char)) :
    (joinLines ls).splitOn '\n' = ls ++ [[]] ↔ ∀ l ∈ ls, '\n' ∉ l := by
  constructor
  · intro h
    have hlength := congrArg List.length h
    rw [length_splitOn, List.length_append] at hlength
    exact (count_joinLines_eq_iff ls).1 (Nat.succ_injective hlength)
  · intro h
    induction ls with
    | nil => rfl
    | cons l ls ih =>
      have hl := h l List.mem_cons_self
      have hrest := ih fun l' hl' => h l' (List.mem_cons_of_mem _ hl')
      simp only [joinLines, List.flatMap_cons, List.append_assoc, List.singleton_append] at hrest ⊢
      rw [List.splitOn_append_cons_self_of_not_mem hl, hrest]
      rfl

end Pieces

section Trees

mutual

theorem Tree.le_of_mem_preorder {depth : Nat} {row : Nat × Tree.Span} :
    ∀ t : Tree, row ∈ t.preorder depth → depth ≤ row.1
  | .node _ _ _ cs, h => by
    rcases List.mem_cons.1 h with rfl | h
    · exact Nat.le_refl depth
    · exact Nat.le_of_succ_le (Tree.le_of_mem_preorderAll cs h)

theorem Tree.le_of_mem_preorderAll {depth : Nat} {row : Nat × Tree.Span} :
    ∀ cs : List Tree, row ∈ Tree.preorderAll depth cs → depth ≤ row.1
  | c :: cs, h => by
    rcases List.mem_append.1 h with h | h
    · exact Tree.le_of_mem_preorder c h
    · exact Tree.le_of_mem_preorderAll cs h

end

end Trees

namespace Printer

variable {p : Printer} {g : Grammar κ} {d : Document}

/-- Whether a node at a depth has a piece of the printed text. -/
def reaches (p : Printer) (depth : Nat) : Bool := p.maxDepth.all (depth ≤ · + 1)

/-- Whether that is more than an ellipsis. -/
def shows (p : Printer) (depth : Nat) : Bool := p.maxDepth.all (depth ≤ ·)

/-- The nodes that have a piece, with their depths. -/
def rows (p : Printer) (t : Tree) : List (Nat × Tree.Span) :=
  (t.preorder 0).filter (p.reaches ·.1)

/-- The piece of a node. -/
def piece (p : Printer) (g : Grammar κ) (d : Document) (row : Nat × Tree.Span) : String :=
  p.margin row.1 ++ if p.shows row.1 then p.entry g d row.2 else "..."

theorem any_lt_eq_not_shows (p : Printer) (depth : Nat) :
    p.maxDepth.any (· < depth) = !p.shows depth := by
  rw [shows]
  cases p.maxDepth with
  | none => rfl
  | some limit => simp [← decide_not]

/-- Right below the nodes that are shown the printed text stops. -/
theorem reaches_succ (p : Printer) (depth : Nat) : p.reaches (depth + 1) = p.shows depth := by
  rw [reaches, shows]
  cases p.maxDepth with
  | none => rfl
  | some limit => simp

theorem reaches_mono {depth depth' : Nat} (h : p.reaches depth' = true) (hle : depth ≤ depth') :
    p.reaches depth = true := by
  rw [reaches] at h ⊢
  cases hmax : p.maxDepth with
  | none => rfl
  | some limit =>
    simp only [hmax, Option.all_some, decide_eq_true_eq] at h ⊢
    omega

mutual

/-- The lines of a tree are the pieces of its nodes, as far down as the printer reaches. -/
theorem lines_eq {depth : Nat} (h : p.reaches depth = true) :
    ∀ t : Tree, p.lines g d depth t =
      ((t.preorder depth).filter (p.reaches ·.1)).map (p.piece g d)
  | .node parser start stop children => by
    simp only [lines, any_lt_eq_not_shows, Tree.preorder, List.filter_cons_of_pos, h,
      List.map_cons, piece]
    cases hshows : p.shows depth with
    | true =>
      have hreaches : p.reaches (depth + 1) = true := by rw [reaches_succ, hshows]
      rw [linesAll_eq hreaches children]
      rfl
    | false =>
      have hbelow : (Tree.preorderAll (depth + 1) children).filter (p.reaches ·.1) = [] := by
        refine List.filter_eq_nil_iff.2 fun row hrow hreaches => ?_
        have := reaches_mono hreaches (Tree.le_of_mem_preorderAll children hrow)
        rw [reaches_succ, hshows] at this
        cases this
      rw [hbelow]
      rfl

theorem linesAll_eq {depth : Nat} (h : p.reaches depth = true) :
    ∀ ts : List Tree, p.linesAll g d depth ts =
      ((Tree.preorderAll depth ts).filter (p.reaches ·.1)).map (p.piece g d)
  | [] => rfl
  | t :: ts => by
    rw [linesAll, Tree.preorderAll, List.filter_append, List.map_append, lines_eq h t,
      linesAll_eq h ts]

end

theorem newline_not_mem_margin (hi : '\n' ∉ p.indent.toList) (depth : Nat) :
    '\n' ∉ (p.margin depth).toList := by
  induction depth with
  | zero => simp [margin]
  | succ n ih => simp [margin, hi, ih]

/-- A line break in the line of a node is one in its description. -/
theorem newline_mem_entry_iff (p : Printer) (g : Grammar κ) (d : Document) (row : Tree.Span) :
    '\n' ∈ (p.entry g d row).toList ↔ '\n' ∈ (g.describe row.parser).toList := by
  simp [entry, newline_not_mem_toDigits, Text.newline_not_mem_quote]

theorem newline_not_mem_piece_iff (hi : '\n' ∉ p.indent.toList) (row : Nat × Tree.Span) :
    '\n' ∉ (p.piece g d row).toList ↔
      (p.shows row.1 = true → '\n' ∉ (g.describe row.2.parser).toList) := by
  rw [piece, String.toList_append, List.mem_append, not_or, ← newline_mem_entry_iff p g d]
  have hmargin := newline_not_mem_margin hi row.1
  cases p.shows row.1 <;> simp [hmargin]

/-- A tree is printed as the pieces of its nodes, each ended by a line break. -/
theorem toList_print (t : Tree) :
    (p.print g d t).toList = joinLines ((p.rows t).map fun row => (p.piece g d row).toList) := by
  have hreaches : p.reaches 0 = true := by
    rw [reaches]
    cases p.maxDepth <;> simp
  rw [print, lines_eq hreaches, String.toList_join, joinLines, rows]
  simp [List.flatMap_map]

/-- Without a limit all nodes have a piece. -/
theorem rows_eq_preorder (h : p.maxDepth = none) (t : Tree) : p.rows t = t.preorder 0 := by
  simp [rows, reaches, h]

end Printer

/-- A printed tree has a piece for each node down to the greatest depth and an ellipsis for each right
below, in the order of the tree, indented and ended by a line break. Of an indentation without line
breaks, the pieces are all lines of the text exactly if the description of no node that is shown has a
line break in it; and without a limit there are as many lines as nodes exactly if no description of a
node has. -/
theorem print_has_a_line_per_node {p : Printer} (hi : '\n' ∉ p.indent.toList) (g : Grammar κ)
    (d : Document) (t : Tree) :
    let pieces := (p.rows t).map fun row => (p.piece g d row).toList
    (p.print g d t).toList = joinLines pieces ∧
    ((p.print g d t).toList.splitOn '\n' = pieces ++ [[]] ↔
      ∀ row ∈ p.rows t, p.shows row.1 = true → '\n' ∉ (g.describe row.2.parser).toList) ∧
    (p.maxDepth = none → ((p.print g d t).toList.count '\n' = t.size ↔
      ∀ row ∈ t.preorder 0, '\n' ∉ (g.describe row.2.parser).toList)) := by
  intro pieces
  have hpieces : (∀ l ∈ pieces, '\n' ∉ l) ↔ ∀ row ∈ p.rows t,
      p.shows row.1 = true → '\n' ∉ (g.describe row.2.parser).toList := by
    simp only [pieces, List.forall_mem_map, Printer.newline_not_mem_piece_iff hi]
  have hprint : (p.print g d t).toList = joinLines pieces := Printer.toList_print t
  refine ⟨hprint, ?_, fun hmax => ?_⟩
  · rw [hprint, splitOn_joinLines_iff, hpieces]
  · have hrows := Printer.rows_eq_preorder hmax t
    have hlength : pieces.length = t.size := by
      rw [List.length_map, hrows, Tree.length_preorder]
    rw [hprint, ← hlength, count_joinLines_eq_iff, hpieces, hrows]
    simp [Printer.shows, hmax]

namespace Addition

def grammar : Grammar Empty :=
  ⟨#[⟨some "digit", .literal "1"⟩, ⟨none, .literal "+"⟩, ⟨some "sum", .sequence [0, 1, 0]⟩]⟩

def tree : Tree := .join 2 0 [.leaf 0 0 1, .leaf 1 1 2, .leaf 0 2 3]

end Addition

/-- A node and its three parts are printed on four lines. -/
theorem print_has_a_line_per_node_sum :
    let text := (({} : Printer).print Addition.grammar (.ofString "1+1") Addition.tree).toList
    text.splitOn '\n' = ["sum [0..3) \"1+1\"", "  digit [0..1) \"1\"", "  '+' [1..2) \"+\"",
      "  digit [2..3) \"1\"", ""].map String.toList ∧ text.count '\n' = 4 := by
  obtain ⟨-, hlines, hcount⟩ := print_has_a_line_per_node (p := {}) (by decide) Addition.grammar
    (.ofString "1+1") Addition.tree
  exact ⟨(hlines.2 (by decide)).trans (by decide +kernel), (hcount rfl).2 (by decide)⟩

/-- The label of a literal has the line breaks of its text, so the one node of this tree is printed on
two lines. -/
theorem print_breaks_line :
    let g : Grammar Empty := ⟨#[⟨none, .literal "\n"⟩]⟩
    let text := (({} : Printer).print g (.ofString "\n") (.leaf 0 0 1)).toList
    Draft.build ⟨#[⟨none, some (.literal "\n")⟩]⟩ = .ok g ∧ (Tree.leaf 0 0 1).size = 1 ∧
      text.splitOn '\n' = ["'", "' [0..1) \"\\n\"", ""].map String.toList ∧
      text.count '\n' = 2 := by
  refine ⟨rfl, by decide, by decide +kernel, by decide +kernel⟩

end PushParsing
