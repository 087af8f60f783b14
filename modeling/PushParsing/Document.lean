/-!
# Documents

A document is a list of characters addressed by byte offsets into its UTF-8 form. Offsets inside a
character or beyond the end address nothing: `rest?` and `slice?` answer `none` there.
-/
namespace PushParsing

/-- Bytes that a text takes in UTF-8. -/
def byteLength : List Char → Nat
  | [] => 0
  | c :: cs => c.utf8Size + byteLength cs

/-- The text after its first `n` bytes, if those are whole characters. -/
def dropBytes : List Char → Nat → Option (List Char)
  | cs, 0 => some cs
  | [], _ + 1 => none
  | c :: cs, n + 1 => if c.utf8Size ≤ n + 1 then dropBytes cs (n + 1 - c.utf8Size) else none

/-- The first `n` bytes of a text, if those are whole characters. -/
def takeBytes : List Char → Nat → Option (List Char)
  | _, 0 => some []
  | [], _ + 1 => none
  | c :: cs, n + 1 =>
    if c.utf8Size ≤ n + 1 then (takeBytes cs (n + 1 - c.utf8Size)).map (c :: ·) else none

/-- A text together with its size in bytes. -/
structure Document where
  chars : List Char
  size : Nat := byteLength chars
  size_eq : size = byteLength chars := by rfl

namespace Document

/-- A document with the characters of a string. -/
def ofString (s : String) : Document :=
  { chars := s.toList }

/-- The document from a byte offset on; `none` inside a character or beyond the end. -/
def rest? (d : Document) (offset : Nat) : Option (List Char) :=
  dropBytes d.chars offset

/-- Whether an offset lies between two characters or at an end of the document. -/
def IsBoundary (d : Document) (offset : Nat) : Prop :=
  (d.rest? offset).isSome

instance (d : Document) (offset : Nat) : Decidable (d.IsBoundary offset) :=
  inferInstanceAs (Decidable ((d.rest? offset).isSome = true))

/-- The characters between two offsets, if both are boundaries and in order. -/
def slice? (d : Document) (start stop : Nat) : Option (List Char) :=
  if start ≤ stop then (d.rest? start).bind (takeBytes · (stop - start)) else none

/-- The text between two offsets, empty where `slice?` finds none. -/
def slice (d : Document) (start stop : Nat) : String :=
  String.ofList ((d.slice? start stop).getD [])

end Document

theorem dropBytes_append_add (p r : List Char) (i : Nat) :
    dropBytes (p ++ r) (i + byteLength p) = dropBytes r i := by
  induction p with
  | nil => rfl
  | cons c p ih =>
    have hc := c.utf8Size_pos
    obtain ⟨k, hk⟩ : ∃ k, i + byteLength (c :: p) = k + 1 :=
      ⟨i + byteLength (c :: p) - 1, by simp only [byteLength]; omega⟩
    have hle : c.utf8Size ≤ k + 1 := by simp only [byteLength] at hk; omega
    have hsub : k + 1 - c.utf8Size = i + byteLength p := by simp only [byteLength] at hk; omega
    rw [hk, List.cons_append, dropBytes, if_pos hle, hsub, ih]

theorem dropBytes_append (p r : List Char) : dropBytes (p ++ r) (byteLength p) = some r := by
  have h := dropBytes_append_add p r 0
  rw [Nat.zero_add] at h
  rw [h]
  cases r <;> rfl

theorem takeBytes_append (p r : List Char) : takeBytes (p ++ r) (byteLength p) = some p := by
  induction p with
  | nil => cases r <;> rfl
  | cons c p ih =>
    have hc := c.utf8Size_pos
    obtain ⟨k, hk⟩ : ∃ k, byteLength (c :: p) = k + 1 :=
      ⟨byteLength (c :: p) - 1, by simp only [byteLength]; omega⟩
    have hle : c.utf8Size ≤ k + 1 := by simp only [byteLength] at hk; omega
    have hsub : k + 1 - c.utf8Size = byteLength p := by simp only [byteLength] at hk; omega
    rw [hk, List.cons_append, takeBytes, if_pos hle, hsub, ih]
    rfl

/-- An offset leaves a rest exactly when the bytes before it are whole characters. -/
theorem dropBytes_eq_some_iff {cs r : List Char} {n : Nat} :
    dropBytes cs n = some r ↔ ∃ p, cs = p ++ r ∧ byteLength p = n := by
  constructor
  · intro h
    fun_induction dropBytes cs n with
    | case1 cs => exact ⟨[], by simpa using h, rfl⟩
    | case2 n => simp at h
    | case3 c cs n hle ih =>
      obtain ⟨p, rfl, hp⟩ := ih h
      exact ⟨c :: p, rfl, by simp only [byteLength]; omega⟩
    | case4 c cs n hle => simp at h
  · rintro ⟨p, rfl, rfl⟩
    exact dropBytes_append p r

end PushParsing
