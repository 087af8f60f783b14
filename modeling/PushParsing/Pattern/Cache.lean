import PushParsing.Pattern.Standard

/-!
# Compiled patterns kept for reuse

What a library compiled, by the text that it was compiled from. Texts that do not compile are not kept.
-/
namespace PushParsing.Pattern

structure Cache where
  library : Library := .standard
  expressions : List (List Char × Expression) := []

namespace Cache

def size (cache : Cache) : Nat := cache.expressions.length

def find? (cache : Cache) (text : List Char) : Option Expression :=
  (cache.expressions.find? (·.1 == text)).map (·.2)

/-- The expression of a text, compiled unless it is kept already. -/
def compile (cache : Cache) (text : List Char) : Except Rejection Expression × Cache :=
  match cache.find? text with
  | some expression => (.ok expression, cache)
  | none =>
    match cache.library.compile text with
    | .ok expression =>
      (.ok expression, { cache with expressions := (text, expression) :: cache.expressions })
    | .error e => (.error e, cache)

/-- A pattern, by way of the cache. -/
def pattern (cache : Cache) (source : String) : Except Rejection Pattern × Cache :=
  let (expression, cache) := cache.compile (anchored source.toList)
  (expression.map fun expression => { source, expression }, cache)

end Cache

end PushParsing.Pattern
