/-!
# Decimal literals — the number a run of digits spells

A literal is a non-empty run of the digits `0` to `9`; leading zeros change nothing.  Its value is
kept as a signed word of 64 bits, so it may be `2 ^ 63 - 1` at most.
-/

namespace LetLang

namespace Text

namespace Decimal

/-- The value of one digit. -/
def digit (c : Char) : Nat :=
  c.toNat - '0'.toNat

/-- The number that a run of digits spells, most significant digit first. -/
def value (digits : List Char) : Nat :=
  digits.foldl (fun n c => 10 * n + digit c) 0

/-- Whether a text is a non-empty run of digits. -/
def isNumeral (literal : String) : Bool :=
  literal.toList ≠ [] && literal.toList.all Char.isDigit

/-- The number a literal spells, if it is a numeral and the number fits the word. -/
def int64? (literal : String) : Option Int64 :=
  if isNumeral literal ∧ value literal.toList < 0x8000000000000000 then
    some (Int64.ofNat (value literal.toList))
  else
    none

/-- A literal has a value exactly if it is a numeral below `2 ^ 63`, and then it is that number. -/
theorem int64?_eq_some_iff {literal : String} {v : Int64} :
    int64? literal = some v ↔
      isNumeral literal = true ∧ value literal.toList < 0x8000000000000000 ∧
        v.toInt = value literal.toList := by
  unfold int64?
  by_cases hfits : isNumeral literal = true ∧ value literal.toList < 0x8000000000000000
  · rw [if_pos hfits, Option.some_inj]
    have hvalue : (Int64.ofNat (value literal.toList)).toInt = value literal.toList :=
      Int64.toInt_ofNat_of_lt hfits.2
    constructor
    · rintro rfl
      exact ⟨hfits.1, hfits.2, hvalue⟩
    · exact fun h => Int64.toInt_inj.mp (hvalue.trans h.2.2.symm)
  · rw [if_neg hfits]
    exact ⟨fun h => absurd h (Option.some_ne_none v).symm, fun h => absurd ⟨h.1, h.2.1⟩ hfits⟩

end Decimal

end Text

end LetLang
