/-! Sets of characters, as tables. A table lists the numbers at which a set begins
and ends in turn, so a long run of characters takes two entries. -/
namespace SchemaLang

/-- A set of characters, given by the numbers at which it begins and ends, in
ascending order: a character belongs to it if an odd number of them has been
passed. -/
structure CharSet where
  bounds : List Nat

namespace CharSet

/-- Whether a character belongs to a set. -/
def contains (set : CharSet) (char : Char) : Bool :=
  (set.bounds.takeWhile (· ≤ char.toNat)).length % 2 == 1

end CharSet

end SchemaLang
