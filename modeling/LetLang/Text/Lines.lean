/-!
# Lines — cutting a stream of bytes at its line feeds

A line reaches up to and including a line feed; only the last line may lack one.  Before a line is
used its line feed is dropped, and one carriage return just before it, and what is left has to be
UTF-8.
-/

namespace LetLang

namespace Text

/-- The byte that ends a line. -/
def lineFeed : UInt8 := 10

/-- The byte that may stand before the end of a line. -/
def carriageReturn : UInt8 := 13

/-- The lines of a stream, each with its line feed. -/
def lines : List UInt8 → List (List UInt8)
  | [] => []
  | b :: bs =>
    if b = lineFeed then
      [b] :: lines bs
    else
      match lines bs with
      | [] => [[b]]
      | line :: rest => (b :: line) :: rest

/-- Nothing is lost: the lines one after the other are the stream. -/
theorem flatten_lines (bs : List UInt8) : (lines bs).flatten = bs := by
  induction bs with
  | nil => rfl
  | cons b bs ih =>
    by_cases h : b = lineFeed
    · simp [lines, h, ih]
    · cases hlines : lines bs <;> simp_all [lines]

/-- After a line feed a new line begins, whatever follows. -/
theorem lines_append_lineFeed (xs ys : List UInt8) :
    lines (xs ++ lineFeed :: ys) = lines (xs ++ [lineFeed]) ++ lines ys := by
  induction xs with
  | nil => simp [lines]
  | cons b xs ih =>
    by_cases h : b = lineFeed
    · simp [lines, h, ih]
    · have hne : lines (xs ++ [lineFeed]) ≠ [] := fun hempty => by
        have := flatten_lines (xs ++ [lineFeed])
        simp [hempty] at this
      obtain ⟨line, rest, hline⟩ := List.exists_cons_of_ne_nil hne
      simp [lines, h, ih, hline]

/-- A line without its line feed and the carriage return just before that. -/
def chomp (line : List UInt8) : List UInt8 :=
  if line.getLast? = some lineFeed then
    if line.dropLast.getLast? = some carriageReturn then
      line.dropLast.dropLast
    else
      line.dropLast
  else
    line

/-- The text that bytes spell, if they are UTF-8. -/
def decode? (bytes : List UInt8) : Option String :=
  String.fromUTF8? ⟨bytes.toArray⟩

end Text

end LetLang
