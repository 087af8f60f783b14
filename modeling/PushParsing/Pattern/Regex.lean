import PushParsing.Pattern.CharSet

/-!
# Regular expressions

What a pattern means once it has been read: characters, anchors, and the ways to combine them. Flags
are gone. The constructors of this module write an expression as short as may be: rows of characters
are joined, alternatives that are single characters become a set, and what all alternatives begin
with stands in front of them once.
-/
namespace PushParsing.Pattern

/-- A condition on the two characters around an offset. -/
inductive Anchor where
  | textStart | textEnd
  | lineStart | lineEnd
  | wordEdge | notWordEdge
  | wordStart | wordEnd
  | notAfterWord | notBeforeWord
  deriving DecidableEq, Repr

def isWord : Option Char → Bool
  | some c => CharSet.word.contains c.toNat
  | none => false

/-- Whether the anchor holds between the characters `before` and `after`. -/
def Anchor.holds (before after : Option Char) : Anchor → Bool
  | textStart => before.isNone
  | textEnd => after.isNone
  | lineStart => before.isNone || before == some '\n'
  | lineEnd => after.isNone || after == some '\n'
  | wordEdge => isWord before != isWord after
  | notWordEdge => isWord before == isWord after
  | wordStart => !isWord before && isWord after
  | wordEnd => isWord before && !isWord after
  | notAfterWord => !isWord before
  | notBeforeWord => !isWord after

inductive Regex where
  | empty
  /-- Characters in a row. -/
  | text (cs : List Char)
  | oneOf (set : CharSet)
  | anchor (a : Anchor)
  /-- At least `least` and at most `most` rounds, as many as possible first if greedy. -/
  | rounds (body : Regex) (least : Nat) (most : Option Nat) (greedy : Bool)
  /-- A group that stands in parentheses of its own, numbered through the pattern. -/
  | group (number : Nat) (body : Regex)
  | seq (parts : List Regex)
  | alt (branches : List Regex)

namespace Regex

mutual

/-- Whether two expressions are written alike. -/
def same : Regex → Regex → Bool
  | empty, empty => true
  | text cs, text ds => cs == ds
  | oneOf s, oneOf t => s == t
  | anchor a, anchor b => a == b
  | rounds r least most greedy, rounds r' least' most' greedy' =>
    r.same r' && least == least' && most == most' && greedy == greedy'
  | group n r, group n' r' => n == n' && r.same r'
  | seq rs, seq rs' => sameAll rs rs'
  | alt rs, alt rs' => sameAll rs rs'
  | _, _ => false

def sameAll : List Regex → List Regex → Bool
  | [], [] => true
  | r :: rs, r' :: rs' => r.same r' && sameAll rs rs'
  | _, _ => false

end

mutual

/-- The least number of characters in a match. Unknown if a part never matches. -/
def shortest : Regex → Option Nat
  | empty | anchor _ => some 0
  | text cs => some cs.length
  | oneOf s => if s.ranges.isEmpty then none else some 1
  | rounds body least _ _ => body.shortest.map (· * least)
  | group _ body => body.shortest
  | seq parts => shortestRow parts
  | alt branches => shortestBranch branches

def shortestRow : List Regex → Option Nat
  | [] => some 0
  | r :: rs => do return (← r.shortest) + (← shortestRow rs)

def shortestBranch : List Regex → Option Nat
  | [] => none
  | [r] => r.shortest
  | r :: rs => do return min (← r.shortest) (← shortestBranch rs)

end

mutual

/-- The greatest number of characters in a match, if there is one. -/
def longest : Regex → Option Nat
  | empty | anchor _ => some 0
  | text cs => some cs.length
  | oneOf s => if s.ranges.isEmpty then none else some 1
  | rounds body _ most _ => do return (← body.longest) * (← most)
  | group _ body => body.longest
  | seq parts => longestRow parts
  | alt branches => longestBranch branches

def longestRow : List Regex → Option Nat
  | [] => some 0
  | r :: rs => do return (← r.longest) + (← longestRow rs)

def longestBranch : List Regex → Option Nat
  | [] => none
  | [r] => r.longest
  | r :: rs => do return max (← r.longest) (← longestBranch rs)

end

/-- Whether every match is known to consume a character. -/
def consumes (r : Regex) : Bool := r.shortest.any (0 < ·)

/-- Whether no match consumes a character. -/
def hollow (r : Regex) : Bool := r.longest == some 0

mutual

/-- Whether every match begins with the anchor. -/
def opensWith (a : Anchor) : Regex → Bool
  | anchor b => a == b
  | empty | text _ | oneOf _ => false
  | rounds body least _ _ => 0 < least && body.opensWith a
  | group _ body => body.opensWith a
  | seq parts => rowOpensWith a parts
  | alt branches => allOpenWith a branches

def rowOpensWith (a : Anchor) : List Regex → Bool
  | [] => false
  | r :: rs => r.opensWith a || (r.hollow && rowOpensWith a rs)

def allOpenWith (a : Anchor) : List Regex → Bool
  | [] => true
  | r :: rs => r.opensWith a && allOpenWith a rs

end

mutual

/-- Whether every match ends with the anchor. -/
def closesWith (a : Anchor) : Regex → Bool
  | anchor b => a == b
  | empty | text _ | oneOf _ => false
  | rounds body least _ _ => 0 < least && body.closesWith a
  | group _ body => body.closesWith a
  | seq parts => rowClosesWith a parts
  | alt branches => allCloseWith a branches

def rowClosesWith (a : Anchor) : List Regex → Bool
  | [] => false
  | r :: rs => rowClosesWith a rs || (r.closesWith a && longestRow rs == some 0)

def allCloseWith (a : Anchor) : List Regex → Bool
  | [] => true
  | r :: rs => r.closesWith a && allCloseWith a rs

end

/-- One character of a set. A set of one is that character. -/
def ofSet (s : CharSet) : Regex :=
  match s.only? with
  | some c => text [c]
  | none => oneOf s

/-- Rounds of a body. More than one round of a body that consumes nothing is idle. -/
def repeated (body : Regex) (least : Nat) (most : Option Nat) (greedy : Bool) : Regex :=
  let (least, most) :=
    if body.hollow then (min least 1, some ((most.map (min · 1)).getD 1)) else (least, most)
  if least = 0 ∧ most = some 0 then empty
  else if least = 1 ∧ most = some 1 then body
  else rounds body least most greedy

/-- The parts of an expression that is a row. -/
def parts : Regex → List Regex
  | empty => []
  | seq rs => rs
  | r => [r]

/-- The branches of an expression that is a choice. -/
def branches : Regex → List Regex
  | alt rs => rs
  | r => [r]

/-- Parts in a row, where characters that follow each other are joined. -/
def join : List Regex → List Regex
  | [] => []
  | r :: rs =>
    match r, join rs with
    | text cs, text ds :: rest => text (cs ++ ds) :: rest
    | r, rest => r :: rest

/-- Expressions one after another. -/
def row (rs : List Regex) : Regex :=
  match join (rs.flatMap parts) with
  | [] => empty
  | [r] => r
  | rs => seq rs

/-- The characters, if all expressions are single ones. -/
def singles? : List Regex → Option CharSet
  | [] => some .none
  | text [c] :: rs => (singles? rs).map (CharSet.char c).union
  | _ => none

/-- The union of all expressions, if all are sets. -/
def sets? : List Regex → Option CharSet
  | [] => some .none
  | oneOf s :: rs => (sets? rs).map s.union
  | _ => none

/-- The rows that all expressions are, if they are. -/
def rows? : List Regex → Option (List (List Regex))
  | [] => some []
  | seq ps :: rs => (rows? rs).map (ps :: ·)
  | _ => none

/-- How many parts two rows have in common at their beginning. -/
def agreement : List Regex → List Regex → Nat
  | r :: rs, r' :: rs' => if r.same r' then agreement rs rs' + 1 else 0
  | _, _ => 0

/-- How many parts all rows have in common at their beginning. -/
def agreementAll : List (List Regex) → Nat
  | [] => 0
  | r :: rs => rs.foldl (fun n r' => min n (agreement r r')) r.length

mutual

/-- The number of choices in an expression. -/
def choices : Regex → Nat
  | empty | text _ | oneOf _ | anchor _ => 0
  | rounds body _ _ _ | group _ body => body.choices
  | seq rs => choicesAll rs
  | alt rs => choicesAll rs + 1

def choicesAll : List Regex → Nat
  | [] => 0
  | r :: rs => r.choices + choicesAll rs

end

/-- Expressions as alternatives. What all begin with comes to the front; if a choice comes to light
behind it, its branches join the others and may have more in common with them. Every further round
opens a choice, so the fuel is their number. -/
def choose : Nat → List Regex → Regex
  | fuel, rs =>
    match rs.flatMap branches with
    | [r] => r
    | rs =>
      match singles? rs, sets? rs with
      | some s, _ | none, some s => ofSet s
      | none, none =>
        match fuel, rows? rs with
        | fuel + 1, some ps =>
          match agreementAll ps with
          | 0 => alt rs
          | n =>
            row ((ps.head?.getD []).take n ++ [choose fuel (ps.map fun p => row (p.drop n))])
        | _, _ => alt rs

/-- Expressions as alternatives, the earlier ones preferred. -/
def either (rs : List Regex) : Regex := choose (choicesAll rs + 1) rs

end Regex

end PushParsing.Pattern
