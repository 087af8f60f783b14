/-!
# Hashes

The hash of a list of numbers, as it finds a first slot in tables of a fixed size.
-/
namespace PushParsing

/-- All numbers are mixed in, one after the other, each by an exclusive or and a multiplication of
64-bit words. -/
def hashOf (ns : List Nat) : UInt64 :=
  let basis : UInt64 := 0xcbf29ce484222325
  let prime : UInt64 := 0x100000001b3
  ns.foldl (fun h n => (h ^^^ .ofNat n) * prime) basis

end PushParsing
