/-!
# Code ranges — sets of characters given by their code points

A set of characters is a list of ranges in ascending order, so a search for a character can stop
at the first range that lies behind it.
-/

namespace LetLang

namespace Text

/-- A range of code points, both ends included. -/
structure CodeRange where
  /-- The least code point of the range. -/
  first : Nat
  /-- The greatest code point of the range. -/
  last : Nat
deriving DecidableEq, Repr

namespace CodeRange

/-- Whether a character's code point lies in the range. -/
def contains (r : CodeRange) (c : Char) : Bool :=
  r.first ≤ c.toNat && c.toNat ≤ r.last

/-- Whether a character lies in one of these ranges, which ascend. -/
def covers : List CodeRange → Char → Bool
  | [], _ => false
  | r :: rest, c => r.first ≤ c.toNat && (c.toNat ≤ r.last || covers rest c)

/-- Whether every range ends before the next one begins. -/
def ascending : List CodeRange → Bool
  | r :: s :: rest => r.last < s.first && ascending (s :: rest)
  | _ => true

end CodeRange

end Text

end LetLang
