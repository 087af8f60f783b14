import PushParsing.Pattern.Class
import PushParsing.Pattern.Size
import PushParsing.Text.Letter
import PushParsing.Text.Numeral

/-!
# Reading patterns

From the text of a pattern to the expression it stands for. The reader goes through the text once
and keeps the open groups in a list, so the depth of the text costs nothing until it is checked.
-/
namespace PushParsing.Pattern

/-- What the letters in a group's head switch on and off. -/
structure Flags where
  ignoreCase : Bool := false
  multiLine : Bool := false
  dotAll : Bool := false
  swapGreed : Bool := false
  verbose : Bool := false
  deriving DecidableEq, Repr

/-- Switch the flag of a letter. -/
def Flags.set? (flags : Flags) (letter : Char) (value : Bool) : Option Flags :=
  match letter with
  | 'i' => some { flags with ignoreCase := value }
  | 'm' => some { flags with multiLine := value }
  | 's' => some { flags with dotAll := value }
  | 'U' => some { flags with swapGreed := value }
  | 'x' => some { flags with verbose := value }
  | _ => none

/-- A part read so far, with the depth to which its own parts are nested. A switch of flags matches
nothing and cannot be repeated. -/
structure Item where
  regex : Regex
  depth : Nat := 0
  isSwitch : Bool := false

namespace Item

/-- The items of a reversed list put together. One item stays as it is. -/
def combine (f : List Regex → Regex) : List Item → Item
  | [] => { regex := .empty }
  | [m] => { m with isSwitch := false }
  | ms =>
    { regex := f (ms.reverse.map (·.regex))
      depth := (ms.map (·.depth)).foldl max 0 + 1 }

/-- The items of a reversed list one after another. -/
def inRow : List Item → Item := combine .row

/-- The items of a reversed list as alternatives. -/
def anyOf : List Item → Item := combine .either

end Item

/-- An open group: its number if it has one, what was read before it, and the flags to go back to
behind it. -/
structure Frame where
  number : Option Nat
  branches : List Item
  items : List Item
  flags : Flags

/-- The reader between two parts: the flags in force, how many groups were numbered, the names of
groups met, the open groups, and of the present group the finished alternatives and the items of the
last one, latest first. -/
structure State where
  flags : Flags := {}
  numbered : Nat := 0
  names : List (List Char) := []
  frames : List Frame := []
  branches : List Item := []
  items : List Item := []

namespace State

def push (s : State) (r : Regex) (depth : Nat) : State :=
  { s with items := { regex := r, depth } :: s.items }

/-- The expression of the present group. -/
def group (s : State) : Item := Item.anyOf (Item.inRow s.items :: s.branches)

/-- Open a group without a number. -/
def openGroup (s : State) (flags : Flags) : State :=
  { s with
    flags, frames := ⟨none, s.branches, s.items, s.flags⟩ :: s.frames, branches := [], items := [] }

/-- Open a group that gets the next number. -/
def openNumbered (s : State) : State :=
  let number := s.numbered + 1
  { s with
    numbered := number, frames := ⟨some number, s.branches, s.items, s.flags⟩ :: s.frames
    branches := [], items := [] }

def closeGroup (s : State) : Reading State :=
  match s.frames with
  | [] => throw .groupNotOpened
  | frame :: frames =>
    let g := s.group
    let regex := match frame.number with
      | some n => .group n g.regex
      | none => g.regex
    pure { s with
      flags := frame.flags, frames, branches := frame.branches,
      items := { regex, depth := g.depth + 1 } :: frame.items }

def nextBranch (s : State) : State :=
  { s with branches := Item.inRow s.items :: s.branches, items := [] }

/-- Put rounds of the last item in its place. -/
def repeatLast (s : State) (least : Nat) (most : Option Nat) (greedy : Bool) : Reading State :=
  match s.items with
  | m :: ms =>
    if m.isSwitch then throw .nothingToRepeat
    else
      let greedy := greedy != s.flags.swapGreed
      pure { s with
        items := { regex := .repeated m.regex least most greedy, depth := m.depth + 1 } :: ms }
  | [] => throw .nothingToRepeat

def pushSet (s : State) (set : CharSet) : State :=
  s.push (.ofSet set) 0

def pushChar (s : State) (c : Char) : State :=
  if s.flags.ignoreCase then s.pushSet (CharSet.char c).folded else s.push (.text [c]) 0

def pushAtom (s : State) : Atom → State
  | .char c => s.pushChar c
  | .set set => s.pushSet set
  | .anchor a => s.push (.anchor a) 0

end State

/-- Counts of rounds are smaller than this. -/
def countLimit : Nat := 4294967296

/-- A count in decimal digits, which blanks may surround. Answers no count if there is no digit. -/
def readCount (verbose : Bool) :
    Nat → Option Nat → List Char → Reading (Option Nat × List Char)
  | fuel + 1, value, c :: cs =>
    if c.isDigit then
      readCount verbose fuel (some (10 * value.getD 0 + (c.toNat - 48))) (dropBlanks verbose cs)
    else finish value (c :: cs)
  | _, value, cs => finish value cs
where
  finish (value : Option Nat) (cs : List Char) : Reading (Option Nat × List Char) :=
    if value.getD 0 < countLimit then pure (value, dropBlanks verbose (cs.dropWhile isBlank))
    else throw .count

def readDecimal (verbose : Bool) (cs : List Char) : Reading (Option Nat × List Char) :=
  readCount verbose (cs.length + 1) none (cs.dropWhile isBlank)

/-- The upper bound of a repetition after the lower one, which it is if no comma follows. -/
def readMost (verbose : Bool) (least : Nat) : List Char → Reading (Option Nat × List Char)
  | ',' :: cs =>
    match dropBlanks verbose cs with
    | '\x7d' :: cs => pure (none, '\x7d' :: cs)
    | cs => do
      let (most, cs) ← readDecimal verbose cs
      match most with
      | some most => pure (some most, cs)
      | none => throw .count
  | cs => pure (some least, cs)

/-- Whether a repetition is greedy. -/
def readGreed : List Char → Bool × List Char
  | '?' :: cs => (false, cs)
  | cs => (true, cs)

/-- The bounds of a repetition after its opening brace, and whether it is greedy. -/
def readBounds (verbose : Bool) (cs : List Char) :
    Reading ((Nat × Option Nat × Bool) × List Char) := do
  let (least, cs) ← readDecimal verbose (dropBlanks verbose cs)
  match least with
  | none => throw .count
  | some least => do
    let (most, cs) ← readMost verbose least cs
    match cs with
    | '\x7d' :: cs =>
      if most.all (least ≤ ·) then
        let (greedy, cs) := readGreed (dropBlanks verbose cs)
        pure ((least, most, greedy), cs)
      else throw .count
    | _ => throw .count

/-- The letters of a group's head up to a colon or the closing parenthesis. A hyphen switches off
what follows it; it stands once, and not last. -/
def readFlags : List Char → List Char → Bool → Flags → Reading ((Flags × Bool) × List Char)
  | [], _, _, _ => throw .flags
  | c :: cs, seen, value, flags =>
    if c = ':' ∨ c = ')' then
      if seen.head? = some '-' then throw .flags
      else if c = ')' ∧ seen.isEmpty then throw .nothingToRepeat
      else pure ((flags, c = ':'), cs)
    else if c ∈ seen then throw .flags
    else if c = '-' then readFlags cs (c :: seen) false flags
    else
      match flags.set? c value with
      | some flags => readFlags cs (c :: seen) value flags
      | none => throw .flags

/-- Whether a character may stand in a group's name, at its beginning if `first`. -/
def isNameChar (first : Bool) (c : Char) : Bool :=
  c == '_' || Text.inRanges Text.letters c.toNat ||
    !first && (c == '.' || c == '[' || c == ']' || Text.inRanges Text.numerals c.toNat)

/-- The name of a group up to its closing angle bracket. -/
def readName (cs : List Char) : Reading (List Char × List Char) :=
  let name := cs.takeWhile (· ≠ '>')
  match cs.dropWhile (· ≠ '>'), name with
  | _ :: rest, c :: tail =>
    if isNameChar true c && tail.all (isNameChar false) then pure (name, rest)
    else throw .groupName
  | _, _ => throw .groupName

/-- A group whose name is to be read. -/
def openNamed (s : State) (cs : List Char) : Reading (State × List Char) := do
  let (name, cs) ← readName cs
  if name ∈ s.names then throw .duplicateName
  else return ({ s with names := name :: s.names }.openNumbered, cs)

/-- A group whose flags are to be read, or flags for the rest of the group around. -/
def openFlagged (s : State) (cs : List Char) : Reading (State × List Char) := do
  let ((flags, isGroup), cs) ← readFlags cs [] true s.flags
  if isGroup then return (s.openGroup flags, cs)
  else return ({ s with flags, items := { regex := .empty, isSwitch := true } :: s.items }, cs)

/-- The head of a group after its opening parenthesis. -/
def readHead (s : State) (cs : List Char) : Reading (State × List Char) :=
  match dropBlanks s.flags.verbose cs with
  | '?' :: '=' :: _ | '?' :: '!' :: _ | '?' :: '<' :: '=' :: _ | '?' :: '<' :: '!' :: _ =>
    throw .lookaround
  | '?' :: 'P' :: '<' :: cs => openNamed s cs
  | '?' :: '<' :: cs => openNamed s cs
  | '?' :: cs => openFlagged s cs
  | cs => pure (s.openNumbered, cs)

/-- One part at the beginning of a text that is not empty. The fuel is greater than the number of
characters behind the first one. -/
def readPart (fuel : Nat) (s : State) (c : Char) (cs : List Char) :
    Reading (State × List Char) :=
  let verbose := s.flags.verbose
  let rounds (least : Nat) (most : Option Nat) : Reading (State × List Char) := do
    let (greedy, cs) := readGreed cs
    return (← s.repeatLast least most greedy, cs)
  match c with
  | '(' => readHead s cs
  | ')' => return (← s.closeGroup, cs)
  | '|' => pure (s.nextBranch, cs)
  | '?' => rounds 0 (some 1)
  | '*' => rounds 0 none
  | '+' => rounds 1 none
  | '\x7b' => do
    let ((least, most, greedy), cs) ← readBounds verbose cs
    return (← s.repeatLast least most greedy, cs)
  | '[' => do
    let (m, cs) ← readClass s.flags.ignoreCase verbose fuel cs
    return (s.push (.ofSet m.set) m.depth, cs)
  | '\\' => do
    let (atom, cs) ← readEscape verbose cs
    return (s.pushAtom atom, cs)
  | '.' => pure (s.pushSet (if s.flags.dotAll then .any else .notLineBreak), cs)
  | '^' => pure (s.push (.anchor (if s.flags.multiLine then .lineStart else .textStart)) 0, cs)
  | '$' => pure (s.push (.anchor (if s.flags.multiLine then .lineEnd else .textEnd)) 0, cs)
  | c => pure (s.pushChar c, cs)

/-- All parts of a text. Every round reads at least one character; the fuel is greater than their
number. -/
def readParts : Nat → State → List Char → Reading State
  | 0, s, _ => pure s
  | fuel + 1, s, cs =>
    match dropBlanks s.flags.verbose cs with
    | [] => pure s
    | c :: cs => do
      let (s, cs) ← readPart fuel s c cs
      readParts fuel s cs

/-- How deeply the parts of a pattern may be nested. -/
def depthLimit : Nat := 250

/-- The expression that a text stands for. -/
def Regex.read (text : List Char) : Reading Regex := do
  let s ← readParts (text.length + 1) {} text
  if s.frames.isEmpty then
    let m := s.group
    if depthLimit < m.depth then throw .tooDeep
    else if m.regex.fits then return m.regex
    else throw .tooLarge
  else throw .groupNotClosed

end PushParsing.Pattern
