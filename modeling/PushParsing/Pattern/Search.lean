import PushParsing.Pattern.Program
import PushParsing.Document

/-!
# Leftmost-first search

All paths through a program advance together over the text, one character at a time, in order of
preference. An instruction that a preferred path has reached at an offset is closed to the others.
A path begun further left comes first; once a path accepts, those after it are dropped.
-/
namespace PushParsing.Pattern

/-- A path on its way: the instruction it stands at and the offset where it began. -/
structure Thread where
  place : Nat
  origin : Nat
  deriving DecidableEq, Repr

/-- Carry the given threads, in order, through forks and anchors up to the instructions that consume
or accept; those that are there already come before them, in reverse. What follows an accepting
thread is dropped. Each instruction is entered once: `seen` holds the last round in which it was
entered, and is handed on for the rounds to come. -/
def settle (code : Code) (before after : Option Char) (round : Nat) :
    Nat → List Thread → Array Nat → List Thread → List Thread × Array Nat
  | 0, _, seen, done => (done.reverse, seen)
  | _ + 1, [], seen, done => (done.reverse, seen)
  | fuel + 1, t :: ts, seen, done =>
    if seen[t.place]?.getD round = round then settle code before after round fuel ts seen done
    else
      let seen := seen.setIfInBounds t.place round
      match code[t.place]? with
      | some (.consume _ _) => settle code before after round fuel ts seen (t :: done)
      | some (.check anchor next) =>
        if anchor.holds before after then
          settle code before after round fuel ({ t with place := next } :: ts) seen done
        else settle code before after round fuel ts seen done
      | some (.fork preferred other) =>
        settle code before after round fuel
          ({ t with place := preferred } :: { t with place := other } :: ts) seen done
      | some .accept => ((t :: done).reverse, seen)
      | none => settle code before after round fuel ts seen done

namespace Program

/-- The threads that wait for a character or accept in the present round. Entering each instruction
once adds at most one thread to the ones given. -/
def ready (p : Program) (before after : Option Char) (round : Nat) (ts : List Thread)
    (seen : Array Nat) : List Thread × Array Nat :=
  settle p.code before after round (ts.length + 2 * p.code.size + 1) ts seen []

/-- The thread after it consumed a character, if it can. -/
def move (p : Program) (c : Char) (t : Thread) : Option Thread :=
  match p.code[t.place]? with
  | some (.consume set next) => if set.contains c.toNat then some { t with place := next } else none
  | _ => none

def accepts (p : Program) (t : Thread) : Bool :=
  match p.code[t.place]? with
  | some .accept => true
  | _ => false

/-- The threads of an offset, with one that begins there, behind all others. None begins once a
match is found, and none behind the beginning of the text if it could not come past its first check.
-/
def join (p : Program) (before : Option Char) (offset : Nat) (ts : List Thread)
    (found : Option (Nat × Nat)) : List Thread :=
  if found.isNone && (before.isNone || !p.anchored) then ts ++ [⟨p.start, offset⟩] else ts

/-- The search from an offset on, one round for each character left and one for the end. `found` is
the preferred match so far. -/
def searchFrom (p : Program) (before : Option Char) (offset round : Nat) (ts : List Thread)
    (seen : Array Nat) (found : Option (Nat × Nat)) : List Char → Option (Nat × Nat)
  | [] =>
    match (p.ready before none round (p.join before offset ts found) seen).1.find? p.accepts with
    | some t => some (t.origin, offset)
    | none => found
  | c :: cs =>
    let ts := p.join before offset ts found
    if ts.isEmpty then found
    else
      let (ts, seen) := p.ready before (some c) round ts seen
      let found := match ts.find? p.accepts with
        | some t => some (t.origin, offset)
        | none => found
      searchFrom p (some c) (offset + c.utf8Size) (round + 1) (ts.filterMap (p.move c)) seen found
        cs

/-- The byte offsets between which the preferred match of a text lies. -/
def find? (p : Program) (text : List Char) : Option (Nat × Nat) :=
  searchFrom p none 0 1 [] (Array.replicate p.code.size 0) none text

end Program

end PushParsing.Pattern
