/-!
# Tables of code points

A class of characters is an increasing list of closed ranges of code points. A search stops at the first
range that lies behind.
-/
namespace PushParsing.Text

/-- Whether a code point is in one of the ranges of an increasing list. -/
def inRanges : List (Nat × Nat) → Nat → Bool
  | [], _ => false
  | (low, high) :: rest, n => if n < low then false else n ≤ high || inRanges rest n

end PushParsing.Text
