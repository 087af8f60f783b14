import PushParsing.Text.Digit
import PushParsing.Text.Blank
import PushParsing.Text.Word
import PushParsing.Text.Fold

/-!
# Sets of characters

A set of characters is a list of closed ranges of code points, in order and with gaps between them,
so that each set is written in one way only.
-/
namespace PushParsing.Pattern

open Text

structure CharSet where
  ranges : List (Nat × Nat)
  deriving DecidableEq, Repr

namespace CharSet

def lastCode : Nat := 0x10FFFF

/-- The code point after another one. There are none from 0xD800 to 0xDFFF. -/
def nextCode (n : Nat) : Nat := if n = 0xD7FF then 0xE000 else n + 1

/-- The code point before another one. -/
def prevCode (n : Nat) : Nat := if n = 0xE000 then 0xD7FF else n - 1

def contains (s : CharSet) (n : Nat) : Bool := inRanges s.ranges n

/-- A range among others. Ranges that meet become one. -/
def insertRange (r : Nat × Nat) : List (Nat × Nat) → List (Nat × Nat)
  | [] => [r]
  | x :: xs =>
    if r.2 + 1 < x.1 then r :: x :: xs
    else if x.2 + 1 < r.1 then x :: insertRange r xs
    else insertRange (min r.1 x.1, max r.2 x.2) xs

/-- The code points from the one after `low` to the one before `high`. -/
def gap (low high : Nat) : Nat × Nat :=
  (min (nextCode low) (prevCode high), max (nextCode low) (prevCode high))

/-- The gaps between the ranges of a list and behind them, after a range that ends with `high`. -/
def gapsAfter (high : Nat) : List (Nat × Nat) → List (Nat × Nat)
  | [] => if high < lastCode then [(nextCode high, lastCode)] else []
  | (a, b) :: rs => gap high a :: gapsAfter b rs

/-- What two ranges have in common. -/
def overlap? (r x : Nat × Nat) : Option (Nat × Nat) :=
  if max r.1 x.1 ≤ min r.2 x.2 then some (max r.1 x.1, min r.2 x.2) else none

/-- What the ranges of a list leave of a range. -/
def cut (r : Nat × Nat) : List (Nat × Nat) → List (Nat × Nat)
  | [] => [r]
  | x :: xs =>
    if x.2 < r.1 then cut r xs
    else if r.2 < x.1 then [r]
    else
      (if r.1 < x.1 then [(r.1, prevCode x.1)] else []) ++
        if x.2 < r.2 then cut (nextCode x.2, r.2) xs else []

/-- Ranges that may overlap and stand in any order, as a set. -/
def ofRanges (rs : List (Nat × Nat)) : CharSet := ⟨rs.foldr insertRange []⟩

def union (a b : CharSet) : CharSet := ⟨b.ranges.foldr insertRange a.ranges⟩

def inter (a b : CharSet) : CharSet :=
  ⟨a.ranges.flatMap fun r => b.ranges.filterMap (overlap? r)⟩

def diff (a b : CharSet) : CharSet := ⟨a.ranges.flatMap (cut · b.ranges)⟩

def symmDiff (a b : CharSet) : CharSet := (a.union b).diff (a.inter b)

def compl (s : CharSet) : CharSet :=
  match s.ranges with
  | [] => ⟨[(0, lastCode)]⟩
  | (a, b) :: rs => ⟨(if 0 < a then [(0, prevCode a)] else []) ++ gapsAfter b rs⟩

/-- The variants in letter case that a row finds for the members of a set. -/
def imagesIn (s : CharSet) : Nat × Nat × Nat × Nat → List (Nat × Nat)
  | (low, high, step, image) =>
    if s.ranges.any fun r => r.1 ≤ high && low ≤ r.2 then
      (List.range ((high - low) / step + 1)).filterMap fun k =>
        if s.contains (low + k * step) then some (image + k * step, image + k * step) else none
    else []

/-- The set together with all characters that differ from a member in letter case only. -/
def folded (s : CharSet) : CharSet :=
  ⟨(caseRows.flatMap s.imagesIn).foldr insertRange s.ranges⟩

def none : CharSet := ⟨[]⟩
def char (c : Char) : CharSet := ⟨[(c.toNat, c.toNat)]⟩
def range (low high : Char) : CharSet := ⟨[(low.toNat, high.toNat)]⟩
def any : CharSet := compl none
def notLineBreak : CharSet := compl (char '\n')
def digit : CharSet := ⟨digits⟩
def blank : CharSet := ⟨blanks⟩
def word : CharSet := ⟨words⟩

/-- Whether all members take one byte. -/
def isAscii (s : CharSet) : Bool := s.ranges.all (·.2 < 128)

/-- The only member of a set of one. -/
def only? (s : CharSet) : Option Char :=
  match s.ranges with
  | [(a, b)] => if a = b then some (Char.ofNat a) else Option.none
  | _ => Option.none

/-- The sets of ASCII characters that have names of their own inside brackets. -/
def named? (name : List Char) : Option CharSet :=
  match String.ofList name with
  | "alnum" => some ⟨[(48, 57), (65, 90), (97, 122)]⟩
  | "alpha" => some ⟨[(65, 90), (97, 122)]⟩
  | "ascii" => some ⟨[(0, 127)]⟩
  | "blank" => some ⟨[(9, 9), (32, 32)]⟩
  | "cntrl" => some ⟨[(0, 31), (127, 127)]⟩
  | "digit" => some ⟨[(48, 57)]⟩
  | "graph" => some ⟨[(33, 126)]⟩
  | "lower" => some ⟨[(97, 122)]⟩
  | "print" => some ⟨[(32, 126)]⟩
  | "punct" => some ⟨[(33, 47), (58, 64), (91, 96), (123, 126)]⟩
  | "space" => some ⟨[(9, 13), (32, 32)]⟩
  | "upper" => some ⟨[(65, 90)]⟩
  | "word" => some ⟨[(48, 57), (65, 90), (95, 95), (97, 122)]⟩
  | "xdigit" => some ⟨[(48, 57), (65, 70), (97, 102)]⟩
  | _ => Option.none

end CharSet

end PushParsing.Pattern
