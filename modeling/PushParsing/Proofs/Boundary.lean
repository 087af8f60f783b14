import PushParsing.Proofs.Derivation

/-!
# Whole characters

Parsers take whole characters: a match that begins at a boundary between two characters ends at one.
So it is of a piece of the document, and pieces that adjoin make up a longer one.
-/
namespace PushParsing

section Pieces

variable {d : Document} {i j k : Nat} {as bs cs : List Char}

/-- The characters stand between two offsets of a document. -/
def Document.Between (d : Document) (i j : Nat) (cs : List Char) : Prop :=
  ∃ before after, d.chars = before ++ cs ++ after ∧ byteLength before = i ∧ i + byteLength cs = j

theorem Document.isBoundary_iff :
    d.IsBoundary i ↔ ∃ before after, d.chars = before ++ after ∧ byteLength before = i := by
  rw [IsBoundary, Option.isSome_iff_exists]
  constructor
  · rintro ⟨after, h⟩
    obtain ⟨before, hd, hi⟩ := dropBytes_eq_some_iff.1 h
    exact ⟨before, after, hd, hi⟩
  · rintro ⟨before, after, hd, hi⟩
    exact ⟨after, dropBytes_eq_some_iff.2 ⟨before, hd, hi⟩⟩

/-- What the rest of a document begins with stands behind the offset. -/
theorem Document.Between.of_rest? {rest : List Char} (hr : d.rest? i = some rest)
    (h : cs <+: rest) : d.Between i (i + byteLength cs) cs := by
  obtain ⟨before, hd, hi⟩ := dropBytes_eq_some_iff.1 hr
  obtain ⟨after, rfl⟩ := h
  exact ⟨before, after, by rw [hd, List.append_assoc], hi, rfl⟩

theorem Document.Between.isBoundary_stop (h : d.Between i j cs) : d.IsBoundary j := by
  obtain ⟨before, after, hd, rfl, rfl⟩ := h
  exact isBoundary_iff.2 ⟨before ++ cs, after, hd, byteLength_append before cs⟩

theorem Document.Between.slice? (h : d.Between i j cs) : d.slice? i j = some cs := by
  obtain ⟨before, after, hd, rfl, rfl⟩ := h
  rw [Document.slice?, if_pos (Nat.le_add_right ..), rest?, hd, List.append_assoc,
    dropBytes_append, Option.bind_some, Nat.add_sub_cancel_left, takeBytes_append]

theorem Document.Between.slice (h : d.Between i j cs) : d.slice i j = String.ofList cs := by
  rw [Document.slice, h.slice?, Option.getD_some]

theorem Document.Between.nothing (h : d.IsBoundary i) : d.Between i i [] := by
  obtain ⟨before, after, hd, hi⟩ := isBoundary_iff.1 h
  exact ⟨before, after, by rw [hd, List.append_nil], hi, rfl⟩

theorem eq_nil_of_byteLength (h : byteLength cs = 0) : cs = [] := by
  cases cs with
  | nil => rfl
  | cons c cs =>
    have hc := c.utf8Size_pos
    rw [byteLength] at h
    omega

/-- Of two beginnings of a text the one with fewer bytes is a beginning of the other. -/
theorem isPrefix_of_byteLength_le (ha : as <+: cs) (hb : bs <+: cs)
    (h : byteLength as ≤ byteLength bs) : as <+: bs := by
  rcases List.prefix_or_prefix_of_prefix ha hb with hab | ⟨x, rfl⟩
  · exact hab
  · rw [byteLength_append] at h
    have hx := eq_nil_of_byteLength (show byteLength x = 0 by omega)
    exact ⟨[], by rw [hx, List.append_nil, List.append_nil]⟩

/-- Between two boundaries there are whole characters. -/
theorem Document.exists_between (hi : d.IsBoundary i) (hj : d.IsBoundary j) (h : i ≤ j) :
    ∃ cs, d.Between i j cs := by
  obtain ⟨before, after, hd, rfl⟩ := isBoundary_iff.1 hi
  obtain ⟨before', after', hd', rfl⟩ := isBoundary_iff.1 hj
  obtain ⟨cs, rfl⟩ := isPrefix_of_byteLength_le ⟨after, hd.symm⟩ ⟨after', hd'.symm⟩ h
  exact ⟨cs, before, after', hd', rfl, (byteLength_append before cs).symm⟩

/-- Pieces that adjoin make up one piece. -/
theorem Document.Between.append (h : d.Between i j as) (h' : d.Between j k bs) :
    d.Between i k (as ++ bs) := by
  obtain ⟨before, after, hd, rfl, rfl⟩ := h
  obtain ⟨before', after', hd', hj, rfl⟩ := h'
  have hlen : byteLength before' = byteLength (before ++ as) := by rw [byteLength_append, hj]
  have hp : before' <+: d.chars := ⟨bs ++ after', by rw [hd', List.append_assoc]⟩
  have hp' : before ++ as <+: d.chars := ⟨after, hd.symm⟩
  have he : before' = before ++ as := by
    obtain ⟨x, hx⟩ := isPrefix_of_byteLength_le hp hp' (Nat.le_of_eq hlen)
    have hzero : byteLength x = 0 := by
      rw [← hx, byteLength_append] at hlen
      omega
    rw [← hx, eq_nil_of_byteLength hzero, List.append_nil]
  refine ⟨before, after', ?_, rfl, ?_⟩
  · rw [hd', he, List.append_assoc before]
  · rw [byteLength_append]
    omega

end Pieces

section Derivations

variable {g : Grammar Empty} {d : Document}

mutual

/-- A derivation that begins between two characters ends between two. -/
theorem Derives.boundary {p : ParserId} {i j : Nat} :
    Derives g d p i j → d.IsBoundary i → d.IsBoundary j
  | .literal _ hr ht, _ => (Document.Between.of_rest? hr ht).isBoundary_stop
  | .pattern _ hr he, _ => by
    obtain ⟨taken, hp, rfl⟩ := Pattern.find?_stop he
    exact (Document.Between.of_rest? hr hp).isBoundary_stop
  | .sequence _ h, hi => h.boundary hi
  | .choice _ _ h, hi => h.boundary hi
  | .nothing _, hi => hi
  | .optional _ h, hi => h.boundary hi

theorem DerivesAll.boundary {es : List ParserId} {i j : Nat} :
    DerivesAll g d es i j → d.IsBoundary i → d.IsBoundary j
  | .nil, hi => hi
  | .cons h hs, hi => hs.boundary (h.boundary hi)

end

/-- What is made use of from a boundary on lies at a boundary. -/
theorem Requests.boundary {x y : ParserId × Nat} (h : Requests g d x y) (hx : d.IsBoundary x.2) :
    d.IsBoundary y.2 := by
  cases h with
  | pass _ _ => exact hx
  | sequence _ _ hb => exact hb.boundary hx

end Derivations

end PushParsing
