import Mathlib.Algebra.GroupWithZero.Nat
import Mathlib.Data.List.Induction
import Mathlib.Data.Prod.Lex
import Mathlib.Order.Monotone.Basic
import PushParsing.Place
import PushParsing.Proofs.Boundary

/-!
# Lines and places

The line number of an offset leads to the line around it, wherever the offset falls. Between
characters the column counts those since the line began, and places are in order as the offsets are.
-/
namespace PushParsing

/-- The lines of a document, without their line breaks. -/
def Document.lines (d : Document) : List (List Char) := d.chars.splitOn '\n'

/-- The offset at which a line starts. Lines are numbered from 0 here. -/
def Document.lineStart (d : Document) (n : Nat) : Nat :=
  ((d.lines.take n).map (byteLength · + 1)).sum

section Splitting

/-- The first line of a text ends before its first line break. -/
theorem head_splitOn (cs : List Char) :
    (cs.splitOn '\n')[0]? = some (cs.takeWhile (· ≠ '\n')) := by
  induction cs with
  | nil => rfl
  | cons c cs ih =>
    rw [List.splitOn_cons_eq_if_modifyHead]
    by_cases hc : c = '\n'
    · simp [hc]
    · rw [if_neg (by simpa using hc), List.getElem?_modifyHead, ih]
      simp [hc]

theorem length_splitOn (cs : List Char) : (cs.splitOn '\n').length = cs.count '\n' + 1 := by
  induction cs with
  | nil => rfl
  | cons c cs ih =>
    rw [List.splitOn_cons_eq_if_modifyHead]
    by_cases hc : c = '\n'
    · simp [hc, ih]
    · simp [hc, ih]

/-- If each line had its line break, there would be one more than in the text. -/
theorem sum_splitOn (cs : List Char) :
    ((cs.splitOn '\n').map (byteLength · + 1)).sum = byteLength cs + 1 := by
  induction cs with
  | nil => rfl
  | cons c cs ih =>
    rw [List.splitOn_cons_eq_if_modifyHead]
    by_cases hc : c = '\n'
    · have hsize : c.utf8Size = 1 := by rw [hc]; rfl
      rw [if_pos (by simpa using hc), List.map_cons, List.sum_cons, ih]
      simp only [byteLength]
      omega
    · obtain ⟨l, ls, hsplit⟩ := List.exists_cons_of_ne_nil (List.splitOn_ne_nil '\n' cs)
      rw [hsplit, List.map_cons, List.sum_cons] at ih
      rw [if_neg (by simpa using hc), hsplit, List.modifyHead_cons, List.map_cons, List.sum_cons]
      simp only [byteLength]
      omega

end Splitting

section Walking

/-- Line and column behind some characters. -/
def Place.pass : List Char → Nat × Nat → Nat × Nat
  | [], place => place
  | c :: cs, (line, column) => pass cs (if c = '\n' then (line + 1, 1) else (line, column + 1))

theorem Place.advance_zero (cs : List Char) (place : Nat × Nat) : advance cs 0 place = place := by
  cases cs <;> rfl

theorem Place.pass_append (as bs : List Char) (place : Nat × Nat) :
    pass (as ++ bs) place = pass bs (pass as place) := by
  induction as generalizing place with
  | nil => rfl
  | cons a as ih => exact ih _

/-- Whole characters are passed. -/
theorem Place.advance_append (as bs : List Char) (place : Nat × Nat) :
    advance (as ++ bs) (byteLength as) place = pass as place := by
  induction as generalizing place with
  | nil => exact advance_zero bs place
  | cons a as ih =>
    have ha := a.utf8Size_pos
    obtain ⟨k, hk⟩ : ∃ k, byteLength (a :: as) = k + 1 :=
      ⟨byteLength (a :: as) - 1, by simp only [byteLength]; omega⟩
    have hsub : k + 1 - a.utf8Size = byteLength as := by simp only [byteLength] at hk; omega
    rw [hk, List.cons_append, advance, hsub, ih]
    rfl

/-- Beyond the end nothing is passed. -/
theorem Place.advance_min (cs : List Char) (n : Nat) (place : Nat × Nat) :
    advance cs (min n (byteLength cs)) place = advance cs n place := by
  induction cs generalizing n place with
  | nil => rfl
  | cons c cs ih =>
    have hc := c.utf8Size_pos
    cases n with
    | zero => rw [Nat.zero_min]
    | succ n =>
      obtain ⟨k, hk⟩ : ∃ k, min (n + 1) (byteLength (c :: cs)) = k + 1 :=
        ⟨min (n + 1) (byteLength (c :: cs)) - 1, by simp only [byteLength]; omega⟩
      have hsub : k + 1 - c.utf8Size = min (n + 1 - c.utf8Size) (byteLength cs) := by
        simp only [byteLength] at hk
        omega
      rw [hk, advance, advance, hsub, ih]

/-- The line that is reached after some bytes is the one around them. -/
theorem exists_lineAround (before cs : List Char) (n line column : Nat) (hb : '\n' ∉ before) :
    ∃ k, (Place.advance cs n (line, column)).1 = line + k ∧
      ((before.reverse ++ cs).splitOn '\n')[k]? = some (lineAround before cs n) := by
  have hfirst {before : List Char} (hb : '\n' ∉ before) (cs : List Char) :
      ((before.reverse ++ cs).splitOn '\n')[0]? =
        some (before.reverse ++ cs.takeWhile (· ≠ '\n')) := by
    rw [head_splitOn, List.takeWhile_append_of_pos]
    intro c hc
    exact decide_eq_true fun he => hb (he ▸ List.mem_reverse.1 hc)
  induction before, cs, n using lineAround.induct generalizing line column with
  | case1 before cs => exact ⟨0, by rw [Place.advance_zero]; rfl, by rw [hfirst hb, lineAround]⟩
  | case2 before n => exact ⟨0, rfl, by rw [hfirst hb, lineAround]; simp⟩
  | case3 before c cs n hle ih =>
    rw [lineAround, if_pos hle, Place.advance]
    by_cases hc : c = '\n'
    · subst hc
      obtain ⟨k, hline, hk⟩ := ih (line + 1) 1 (by simp)
      refine ⟨k + 1, hline.trans (Nat.succ_add_eq_add_succ line k), ?_⟩
      rw [List.splitOn_append_cons_self_of_not_mem (by simpa using hb)]
      exact hk
    · simp only [if_neg hc] at ih ⊢
      obtain ⟨k, hline, hk⟩ := ih line (column + 1) (by simp [hb, Ne.symm hc])
      refine ⟨k, hline, ?_⟩
      rwa [List.reverse_cons, List.append_assoc] at hk
  | case4 before c cs n hlt =>
    -- The offset is inside the character, so that is no line break.
    have hc : c ≠ '\n' := by
      rintro rfl
      exact hlt (Nat.succ_le_succ n.zero_le)
    have hsub : n + 1 - c.utf8Size = 0 := by omega
    refine ⟨0, ?_, by rw [hfirst hb, lineAround, if_neg hlt]⟩
    rw [Place.advance, hsub, Place.advance_zero, if_neg hc]
    rfl

end Walking

section Columns

variable {d : Document} {i : Nat}

/-- Whether a text is made of lines that all end with their line break. -/
def WholeLines (cs : List Char) : Prop := cs = [] ∨ ∃ text, cs = text ++ ['\n']

/-- A text is made of whole lines and a piece of one more. -/
theorem exists_lastLine (cs : List Char) :
    ∃ whole piece, cs = whole ++ piece ∧ '\n' ∉ piece ∧ WholeLines whole := by
  induction cs using List.reverseRecOn with
  | nil => exact ⟨[], [], rfl, by simp, .inl rfl⟩
  | append_singleton cs c ih =>
    by_cases hc : c = '\n'
    · exact ⟨cs ++ [c], [], by simp, by simp, .inr ⟨cs, by rw [hc]⟩⟩
    · obtain ⟨whole, piece, rfl, hpiece, hwhole⟩ := ih
      exact ⟨whole, piece ++ [c], by simp, by simp [hpiece, Ne.symm hc], hwhole⟩

/-- On one line only the column changes. -/
theorem Place.pass_of_not_mem {cs : List Char} (h : '\n' ∉ cs) (line column : Nat) :
    pass cs (line, column) = (line, column + cs.length) := by
  induction cs generalizing column with
  | nil => rfl
  | cons c cs ih =>
    rw [List.mem_cons, not_or] at h
    rw [pass, if_neg (Ne.symm h.1), ih h.2, List.length_cons, Nat.add_assoc, Nat.add_comm 1]

/-- A line is counted for each line break. -/
theorem Place.line_pass (cs : List Char) (place : Nat × Nat) :
    (pass cs place).1 = place.1 + cs.count '\n' := by
  induction cs generalizing place with
  | nil => rfl
  | cons c cs ih =>
    rw [pass, ih]
    by_cases hc : c = '\n'
    · simp [hc]
      omega
    · simp [hc]

/-- Behind whole lines a new one begins. -/
theorem Place.column_pass {whole : List Char} (hwhole : WholeLines whole) :
    (pass whole (1, 1)).2 = 1 := by
  rcases hwhole with rfl | ⟨text, rfl⟩
  · rfl
  · rw [pass_append]
    rfl

/-- Between two characters a place is that behind the characters before it. -/
theorem Place.ofOffset_eq {before after : List Char} (hd : d.chars = before ++ after) :
    (Place.ofOffset d (byteLength before)).line = (pass before (1, 1)).1 ∧
      (Place.ofOffset d (byteLength before)).column = (pass before (1, 1)).2 := by
  have hle : byteLength before ≤ d.size := by
    rw [d.size_eq, hd, byteLength_append]
    exact Nat.le_add_right ..
  rw [ofOffset, Nat.min_eq_left hle, hd, advance_append]
  exact ⟨rfl, rfl⟩

/-- Whole lines take as many bytes as the lines that follow them start behind. -/
theorem Document.lineStart_eq {whole rest : List Char} (hd : d.chars = whole ++ rest)
    (hwhole : WholeLines whole) : d.lineStart (whole.count '\n') = byteLength whole := by
  rcases hwhole with rfl | ⟨text, rfl⟩
  · rfl
  · have hlines : d.lines = text.splitOn '\n' ++ rest.splitOn '\n' := by
      rw [lines, hd, List.append_assoc, List.singleton_append, List.splitOn_append_cons_self]
    have hcount : (text ++ ['\n']).count '\n' = (text.splitOn '\n').length := by
      rw [length_splitOn, List.count_append, List.count_singleton_self]
    rw [lineStart, hlines, hcount, List.take_left, sum_splitOn, byteLength_append]
    rfl

/-- Between the start of its line and an offset there are as many characters as its column says. -/
theorem Document.IsBoundary.column (hi : d.IsBoundary i) :
    ∃ cs, d.Between (d.lineStart ((Place.ofOffset d i).line - 1)) i cs ∧
      (Place.ofOffset d i).column = cs.length + 1 := by
  obtain ⟨before, after, hd, rfl⟩ := isBoundary_iff.1 hi
  obtain ⟨hline, hcolumn⟩ := Place.ofOffset_eq hd
  obtain ⟨whole, piece, rfl, hpiece, hwhole⟩ := exists_lastLine before
  have hcount : (whole ++ piece).count '\n' = whole.count '\n' := by
    rw [List.count_append, List.count_eq_zero.2 hpiece, Nat.add_zero]
  rw [Place.line_pass, hcount] at hline
  rw [Place.pass_append] at hcolumn
  have hstart := lineStart_eq (hd.trans (List.append_assoc ..)) hwhole
  refine ⟨piece, ⟨whole, after, hd, ?_, ?_⟩, ?_⟩
  · rw [hline, Nat.add_sub_cancel_left, hstart]
  · rw [hline, Nat.add_sub_cancel_left, hstart, byteLength_append]
  · rw [hcolumn, Place.pass_of_not_mem hpiece, Place.column_pass hwhole, Nat.add_comm]

end Columns

section Order

/-- Line and column, compared by the line first. -/
def Place.key (p : Place) : Nat ×ₗ Nat := toLex (p.line, p.column)

/-- Every character leads on. -/
theorem Place.lt_pass {cs : List Char} (h : cs ≠ []) (place : Nat × Nat) :
    toLex place < toLex (pass cs place) := by
  have hstep (c : Char) (line column : Nat) :
      toLex (line, column) < toLex (if c = '\n' then (line + 1, 1) else (line, column + 1)) := by
    rw [Prod.Lex.toLex_lt_toLex]
    split
    · exact .inl (Nat.lt_succ_self line)
    · exact .inr ⟨rfl, Nat.lt_succ_self column⟩
  induction cs generalizing place with
  | nil => exact absurd rfl h
  | cons c cs ih =>
    obtain ⟨line, column⟩ := place
    rw [pass]
    by_cases hcs : cs = []
    · subst hcs
      exact hstep c line column
    · exact (hstep c line column).trans (ih hcs _)

/-- Places are in order as the offsets are. -/
theorem Place.strictMonoOn_key (d : Document) :
    StrictMonoOn (fun i => (ofOffset d i).key) {i | d.IsBoundary i} := by
  intro i hi j hj hij
  obtain ⟨cs, before, after, hd, rfl, hstop⟩ := Document.exists_between hi hj (Nat.le_of_lt hij)
  have hcs : cs ≠ [] := by
    rintro rfl
    exact absurd hstop (Nat.ne_of_lt hij)
  obtain ⟨hline, hcolumn⟩ := ofOffset_eq (hd.trans (List.append_assoc ..))
  obtain ⟨hline', hcolumn'⟩ := ofOffset_eq hd
  rw [byteLength_append, hstop] at hline' hcolumn'
  have hlt := lt_pass hcs (pass before (1, 1))
  rw [← pass_append] at hlt
  show toLex ((ofOffset d _).line, (ofOffset d _).column) <
    toLex ((ofOffset d j).line, (ofOffset d j).column)
  rw [hline, hcolumn, hline', hcolumn']
  exact hlt

end Order

/-- Whatever the offset, the line around it is the one that its place names by number. Between two
characters its column counts those since that line began, and of two such offsets the earlier one has
the smaller place, by line first and column second, so that no two have the same. -/
theorem places_lead_to_lines (d : Document) :
    (∀ offset, 0 < (Place.ofOffset d offset).line ∧
      (d.lines.map String.ofList)[(Place.ofOffset d offset).line - 1]? = some (d.lineAt offset)) ∧
    (∀ i, d.IsBoundary i →
      ∃ cs, d.slice? (d.lineStart ((Place.ofOffset d i).line - 1)) i = some cs ∧
        (Place.ofOffset d i).column = cs.length + 1) ∧
    ∀ i j, d.IsBoundary i → d.IsBoundary j →
      (i < j ↔ (Place.ofOffset d i).key < (Place.ofOffset d j).key) ∧
      ((Place.ofOffset d i).key = (Place.ofOffset d j).key → i = j) := by
  refine ⟨fun offset => ?_, fun i hi => ?_, fun i j hi hj => ⟨?_, ?_⟩⟩
  · obtain ⟨k, hline, hk⟩ := exists_lineAround [] d.chars offset 1 1 (by simp)
    have hoffset : (Place.ofOffset d offset).line = 1 + k := by
      rw [← hline, ← Place.advance_min, ← d.size_eq]
      rfl
    rw [hoffset]
    refine ⟨Nat.le_add_right .., ?_⟩
    rw [List.reverse_nil, List.nil_append] at hk
    rw [Nat.add_sub_cancel_left, List.getElem?_map, Document.lines, hk]
    rfl
  · obtain ⟨cs, hbetween, hcolumn⟩ := hi.column
    exact ⟨cs, hbetween.slice?, hcolumn⟩
  · exact ((Place.strictMonoOn_key d).lt_iff_lt hi hj).symm
  · exact (Place.strictMonoOn_key d).injOn hi hj

/-- An offset inside a letter leads to the letter's line, and a line break belongs to the line that it
ends. -/
theorem places_lead_to_lines_accent :
    let d := Document.ofString "é\nb"
    (d.lines.map String.ofList)[0]? = some (d.lineAt 1) ∧
    (∃ cs, d.slice? 3 4 = some cs ∧ (Place.ofOffset d 4).column = cs.length + 1) ∧
    (Place.ofOffset d 2).key < (Place.ofOffset d 3).key := by
  intro d
  obtain ⟨hlines, hcolumns, horder⟩ := places_lead_to_lines d
  exact ⟨(hlines 1).2, hcolumns 4 (by decide), (horder 2 3 (by decide) (by decide)).1.1 (by decide)⟩

end PushParsing
