import PushParsing.Pattern.Regex

/-!
# Reading character classes

The parts of a pattern that stand for single characters or anchors: escapes and bracketed classes.
Readers take the characters that are left and answer what they read with what is left after it. In
verbose patterns blanks and comments may stand between the parts.
-/
namespace PushParsing.Pattern

/-- Why a text is not a pattern. -/
inductive SyntaxError where
  | groupNotClosed
  | groupNotOpened
  | groupName
  | duplicateName
  | lookaround
  | flags
  | nothingToRepeat
  | count
  | escape
  | backreference
  | codePoint
  | classNotClosed
  | classRange
  | tooDeep
  | tooLarge
  deriving DecidableEq, Repr

def SyntaxError.message : SyntaxError → String
  | groupNotClosed => "a group is not closed"
  | groupNotOpened => "a closing parenthesis has no group"
  | groupName => "a group has no proper name"
  | duplicateName => "two groups have one name"
  | lookaround => "looking around is not supported"
  | flags => "the flags of a group are malformed"
  | nothingToRepeat => "there is nothing to repeat"
  | count => "a repetition count is malformed"
  | escape => "an escape is not known"
  | backreference => "references to groups are not supported"
  | codePoint => "a code point is malformed"
  | classNotClosed => "a character class is not closed"
  | classRange => "a range in a character class is malformed"
  | tooDeep => "the parts are nested too deeply"
  | tooLarge => "the program is too large"

abbrev Reading (α : Type) := Except SyntaxError α

def isBlank (c : Char) : Bool := CharSet.blank.contains c.toNat

/-- Leave out blanks, and comments from a number sign to the end of the line; `inside` says that a
comment has begun. -/
def dropComments (inside : Bool) : List Char → List Char
  | [] => []
  | c :: cs =>
    if inside then dropComments (c ≠ '\n') cs
    else if isBlank c then dropComments false cs
    else if c = '#' then dropComments true cs
    else c :: cs

/-- In verbose patterns, leave out blanks and comments. -/
def dropBlanks (verbose : Bool) (cs : List Char) : List Char :=
  if verbose then dropComments false cs else cs

/-- One part of a pattern that stands for itself. -/
inductive Atom where
  | char (c : Char)
  | set (s : CharSet)
  | anchor (a : Anchor)

def hexValue? (c : Char) : Option Nat :=
  if '0' ≤ c ∧ c ≤ '9' then some (c.toNat - 48)
  else if 'a' ≤ c ∧ c ≤ 'f' then some (c.toNat - 87)
  else if 'A' ≤ c ∧ c ≤ 'F' then some (c.toNat - 55)
  else none

/-- The character with a code point, if there is one. -/
def charOf (n : Nat) : Reading Char :=
  if n.isValidChar then pure (Char.ofNat n) else throw .codePoint

/-- A code point in exactly `n` more hexadecimal digits. -/
def readHexDigits (verbose : Bool) : Nat → Nat → List Char → Reading (Char × List Char)
  | 0, value, cs => return (← charOf value, cs)
  | n + 1, value, cs =>
    match cs with
    | [] => throw .codePoint
    | c :: cs =>
      match hexValue? c with
      | some digit => readHexDigits verbose n (16 * value + digit) (dropBlanks verbose cs)
      | none => throw .codePoint

/-- A code point in hexadecimal digits up to a closing brace. The fuel is the number of characters
left. -/
def readHexBraced (verbose : Bool) :
    Nat → Option Nat → List Char → Reading (Char × List Char)
  | 0, _, _ => throw .codePoint
  | _ + 1, _, [] => throw .codePoint
  | fuel + 1, value, c :: cs =>
    if c = '\x7d' then
      match value with
      | some value => return (← charOf value, dropBlanks verbose cs)
      | none => throw .codePoint
    else
      match hexValue? c with
      | some digit =>
        readHexBraced verbose fuel (some (16 * value.getD 0 + digit)) (dropBlanks verbose cs)
      | none => throw .codePoint

def readHex (verbose : Bool) (digits : Nat) (cs : List Char) : Reading (Char × List Char) :=
  match dropBlanks verbose cs with
  | '\x7b' :: cs => readHexBraced verbose (cs.length + 1) none (dropBlanks verbose cs)
  | cs => readHexDigits verbose digits 0 cs

/-- The letters of a special word anchor, up to what is no letter or hyphen. -/
def readWordKind (verbose : Bool) : Nat → List Char → List Char → List Char × List Char
  | 0, kind, cs => (kind.reverse, cs)
  | _ + 1, kind, [] => (kind.reverse, [])
  | fuel + 1, kind, c :: cs =>
    if c.isAlpha || c == '-' then readWordKind verbose fuel (c :: kind) (dropBlanks verbose cs)
    else (kind.reverse, c :: cs)

/-- The word anchor of a kind. -/
def wordAnchor (kind : List Char) : Reading Anchor :=
  if kind = "start".toList then pure .wordStart
  else if kind = "end".toList then pure .wordEnd
  else if kind = "start-half".toList then pure .notAfterWord
  else if kind = "end-half".toList then pure .notBeforeWord
  else throw .escape

/-- The rest of a word anchor, whose kind may follow in braces. Braces that do not begin with a
letter are left to be a repetition. -/
def readWordAnchor (verbose : Bool) (cs : List Char) : Reading (Anchor × List Char) :=
  match cs with
  | '\x7b' :: inner =>
    match readWordKind verbose (inner.length + 1) [] (dropBlanks verbose inner) with
    | ([], []) => throw .escape
    | ([], _) => pure (.wordEdge, cs)
    | (kind, '\x7d' :: rest) => return (← wordAnchor kind, rest)
    | _ => throw .escape
  | _ => pure (.wordEdge, cs)

/-- What follows a backslash. ASCII characters other than letters, digits and angle brackets stand
for themselves. -/
def readEscape (verbose : Bool) : List Char → Reading (Atom × List Char)
  | [] => throw .escape
  | c :: cs =>
    match c with
    | 'x' => do let (c, cs) ← readHex verbose 2 cs; return (.char c, cs)
    | 'u' => do let (c, cs) ← readHex verbose 4 cs; return (.char c, cs)
    | 'U' => do let (c, cs) ← readHex verbose 8 cs; return (.char c, cs)
    | 'd' => pure (.set .digit, cs)
    | 'D' => pure (.set (.compl .digit), cs)
    | 's' => pure (.set .blank, cs)
    | 'S' => pure (.set (.compl .blank), cs)
    | 'w' => pure (.set .word, cs)
    | 'W' => pure (.set (.compl .word), cs)
    | 'a' => pure (.char '\x07', cs)
    | 'f' => pure (.char '\x0c', cs)
    | 't' => pure (.char '\t', cs)
    | 'n' => pure (.char '\n', cs)
    | 'r' => pure (.char '\r', cs)
    | 'v' => pure (.char '\x0b', cs)
    | 'A' => pure (.anchor .textStart, cs)
    | 'z' => pure (.anchor .textEnd, cs)
    | 'B' => pure (.anchor .notWordEdge, cs)
    | '<' => pure (.anchor .wordStart, cs)
    | '>' => pure (.anchor .wordEnd, cs)
    | 'b' => do let (a, cs) ← readWordAnchor verbose cs; return (.anchor a, cs)
    | c =>
      if c.isDigit then throw .backreference
      else if c.toNat < 128 && !c.isAlpha then pure (.char c, cs)
      else throw .escape

/-- A set inside brackets with the depth to which its parts are nested. -/
structure Member where
  set : CharSet
  depth : Nat

namespace Member

/-- The sets of a reversed list together. -/
def unite : List Member → Member
  | [] => ⟨.none, 0⟩
  | [m] => m
  | m :: ms =>
    ms.foldl (fun acc m => ⟨m.set.union acc.set, max acc.depth (m.depth + 1)⟩) ⟨m.set, m.depth + 1⟩

end Member

/-- What is done with the sets before and after a double sign inside brackets. -/
inductive SetOp where
  | inter | diff | symmDiff

/-- What a closing bracket or a double sign inside brackets comes back to. -/
inductive ClassFrame where
  /-- An open bracket, and the sets read before it in the bracket around it. -/
  | opened (negated : Bool) (outer : List Member)
  | pending (op : SetOp) (left : Member)

/-- A set with the variants in letter case of its members, if case is ignored. -/
def foldIf (ignoreCase : Bool) (s : CharSet) : CharSet := if ignoreCase then s.folded else s

/-- The complement of a set, if it is negated. Case is folded before. -/
def foldAndNegate (ignoreCase negated : Bool) (s : CharSet) : CharSet :=
  let s := foldIf ignoreCase s
  if negated then s.compl else s

/-- Settle the operation that waits for its right side, if there is one. -/
def closeOp (ignoreCase : Bool) : List ClassFrame → Member → List ClassFrame × Member
  | .pending op left :: frames, right =>
    let a := foldIf ignoreCase left.set
    let b := foldIf ignoreCase right.set
    let set := match op with
      | .inter => a.inter b
      | .diff => a.diff b
      | .symmDiff => a.symmDiff b
    (frames, ⟨set, 1 + max left.depth right.depth⟩)
  | frames, right => (frames, right)

/-- Hyphens at the beginning of a class stand for themselves. -/
def readHyphens (verbose : Bool) : Nat → List Member → List Char → List Member × List Char
  | fuel + 1, ms, '-' :: cs =>
    readHyphens verbose fuel (⟨.char '-', 0⟩ :: ms) (dropBlanks verbose cs)
  | _, ms, cs => (ms, cs)

/-- Whether a caret comes first, and what follows it. -/
def readCaret (verbose : Bool) : List Char → Bool × List Char
  | '^' :: cs => (true, dropBlanks verbose cs)
  | cs => (false, cs)

/-- The beginning of a class after its bracket: whether it is negated, and the hyphens or the
closing bracket that stand for themselves there. The fuel bounds the number of characters left. -/
def openClass (verbose : Bool) (fuel : Nat) (cs : List Char) : Bool × List Member × List Char :=
  let (negated, cs) := readCaret verbose (dropBlanks verbose cs)
  match readHyphens verbose fuel [] cs with
  | ([], ']' :: cs) => (negated, [⟨.char ']', 0⟩], dropBlanks verbose cs)
  | (ms, cs) => (negated, ms, cs)

/-- A named set after its opening bracket, such as `:alpha:]`. -/
def readNamed? (ignoreCase : Bool) (cs : List Char) : Option (CharSet × List Char) :=
  match cs with
  | ':' :: cs =>
    let (negated, cs) := readCaret false cs
    match cs.dropWhile (· ≠ ':') with
    | ':' :: ']' :: rest =>
      (CharSet.named? (cs.takeWhile (· ≠ ':'))).map fun set =>
        (foldAndNegate ignoreCase negated set, rest)
    | _ => none
  | _ => none

/-- One character or escape inside brackets. -/
def readItem (verbose : Bool) : List Char → Reading (Atom × List Char)
  | [] => throw .classNotClosed
  | '\\' :: cs => readEscape verbose cs
  | c :: cs => pure (.char c, dropBlanks verbose cs)

/-- What follows a hyphen inside brackets, as far as it decides whether the hyphen makes a range. In
verbose patterns that is the next character which is no blank, not counting one number sign; what a
comment says is not passed over. -/
def afterHyphen (verbose : Bool) (cs : List Char) : Option Char :=
  if verbose then
    let ahead := match cs.dropWhile isBlank with
      | '#' :: cs => cs.dropWhile isBlank
      | cs => cs
    ahead.head?.or cs.head?
  else cs.head?

/-- What stands for itself inside brackets. -/
def Atom.member : Atom → Reading Member
  | .char c => pure ⟨.char c, 0⟩
  | .set s => pure ⟨s, 0⟩
  | .anchor _ => throw .escape

/-- One character, escape or range inside brackets. -/
def readRange (verbose : Bool) (cs : List Char) : Reading (Member × List Char) := do
  let (low, cs) ← readItem verbose cs
  match dropBlanks verbose cs with
  | [] => throw .classNotClosed
  | '-' :: cs =>
    if afterHyphen verbose cs = some ']' ∨ afterHyphen verbose cs = some '-' then
      return (← low.member, '-' :: cs)
    else
      match dropBlanks verbose cs with
      | [] => throw .classNotClosed
      | cs =>
        let (high, cs) ← readItem verbose cs
        match low, high with
        | .char a, .char b =>
          if a ≤ b then return (⟨.range a b, 0⟩, cs) else throw .classRange
        | _, _ => throw .classRange
  | cs => return (← low.member, cs)

/-- Read on inside brackets until the outermost one is closed. Every round reads at least one
character; the fuel is their number. -/
def readMembers (ignoreCase verbose : Bool) :
    Nat → List ClassFrame → List Member → List Char → Reading (Member × List Char)
  | 0, _, _, _ => throw .classNotClosed
  | fuel + 1, frames, ms, cs =>
    let operator (op : SetOp) (cs : List Char) : Reading (Member × List Char) :=
      let (frames, left) := closeOp ignoreCase frames (Member.unite ms)
      readMembers ignoreCase verbose fuel (.pending op left :: frames) [] cs
    match dropBlanks verbose cs with
    | [] => throw .classNotClosed
    | '[' :: cs =>
      match readNamed? ignoreCase cs with
      | some (set, cs) => readMembers ignoreCase verbose fuel frames (⟨set, 0⟩ :: ms) cs
      | none =>
        let (negated, inner, cs) := openClass verbose fuel cs
        readMembers ignoreCase verbose fuel (.opened negated ms :: frames) inner cs
    | ']' :: cs =>
      match closeOp ignoreCase frames (Member.unite ms) with
      | (.opened negated outer :: frames, m) =>
        let m : Member := ⟨foldAndNegate ignoreCase negated m.set, m.depth + 1⟩
        if frames.isEmpty then pure (m, cs)
        else readMembers ignoreCase verbose fuel frames (m :: outer) cs
      | _ => throw .classNotClosed
    | '&' :: '&' :: cs => operator .inter cs
    | '-' :: '-' :: cs => operator .diff cs
    | '~' :: '~' :: cs => operator .symmDiff cs
    | cs => do
      let (m, cs) ← readRange verbose cs
      readMembers ignoreCase verbose fuel frames (m :: ms) cs

/-- A class after its opening bracket. The fuel is greater than the number of characters left. -/
def readClass (ignoreCase verbose : Bool) (fuel : Nat) (cs : List Char) :
    Reading (Member × List Char) :=
  let (negated, ms, cs) := openClass verbose fuel cs
  readMembers ignoreCase verbose fuel [.opened negated []] ms cs

end PushParsing.Pattern
