import PushParsing.Pattern.CharSet

/-!
# Characters as bytes

A range of characters is split into blocks, each of which is all sequences of bytes that take their
first byte from one range, their second byte from another one, and so on.
-/
namespace PushParsing.Pattern

/-- The bytes of a code point in UTF-8. -/
def utf8Bytes (n : Nat) : List Nat :=
  if n < 0x80 then [n]
  else if n < 0x800 then [0xC0 + n / 0x40, 0x80 + n % 0x40]
  else if n < 0x10000 then [0xE0 + n / 0x1000, 0x80 + n / 0x40 % 0x40, 0x80 + n % 0x40]
  else [0xF0 + n / 0x40000, 0x80 + n / 0x1000 % 0x40, 0x80 + n / 0x40 % 0x40, 0x80 + n % 0x40]

/-- The ranges of code points that have encodings of one length. -/
def encodedAlike : List (Nat × Nat) :=
  [(0, 0x7F), (0x80, 0x7FF), (0x800, 0xD7FF), (0xE000, 0xFFFF), (0x10000, 0x10FFFF)]

/-- Split a range where it leaves blocks of the given sizes, the smaller ones first. -/
def splitBlocks : List Nat → Nat → Nat → List (Nat × Nat)
  | [], low, high => [(low, high)]
  | size :: sizes, low, high =>
    if low / size = high / size then [(low, high)]
    else
      let first := (low + size - 1) / size * size
      let last := (high + 1) / size * size
      (if low < first then [(low, first - 1)] else []) ++
        (if first < last then splitBlocks sizes first (last - 1) else []) ++
          if last ≤ high then [(last, high)] else []

/-- The blocks of a range, each as the range of every byte. -/
def byteBlocks (r : Nat × Nat) : List (List (Nat × Nat)) :=
  (encodedAlike.filterMap (CharSet.overlap? r)).flatMap fun (low, high) =>
    (splitBlocks [0x40, 0x1000, 0x40000] low high).map fun (a, b) =>
      (utf8Bytes a).zip (utf8Bytes b)

end PushParsing.Pattern
