import LetLang.Text.ByteOffset

/-!
# Cursors — a place in a source, one character at a time

A cursor stands on a character of a source, or at its end, and knows where it stands as a byte
offset.  It moves only forward: `next` steps over one character, `skipWhile` over a run of them,
and `textTo` cuts out the text between two cursors of one source.

`Cursor.Splits` is the view of a cursor: the characters it has passed and those still ahead.
Each operation has one lemma that says what it does to them.
-/

namespace LetLang

namespace Text

/-- A place in a source. -/
structure Cursor where
  source : String
  /-- The byte offset at which the cursor stands. -/
  position : Nat
  char? : Option Char
deriving DecidableEq, Repr

namespace Cursor

/-! ## 1. Reading and stepping -/

/-- The cursor at a byte offset of a source. -/
def atOffset (source : String) (offset : Nat) : Cursor :=
  ⟨source, offset, characterAt? source offset⟩

def start (source : String) : Cursor :=
  .atOffset source 0

/-- The number of bytes of the character under the cursor; zero at the end. -/
def width (c : Cursor) : Nat :=
  match c.char? with
  | some x => x.utf8Size
  | none => 0

/-- The byte offset just past the character under the cursor. -/
def readPosition (c : Cursor) : Nat :=
  c.position + c.width

/-- The cursor one character further; at the end it stays where it is. -/
def next (c : Cursor) : Cursor :=
  .atOffset c.source c.readPosition

def peek? (c : Cursor) : Option Char :=
  characterAt? c.source c.readPosition

/-- The text from one cursor up to a later one. -/
def textTo (c stop : Cursor) : String :=
  slice c.source c.position stop.position

theorem width_of_char? {c : Cursor} {x : Char} (h : c.char? = some x) :
    c.width = x.utf8Size := by
  simp [width, h]

/-! ## 2. What is left to read -/

/-- The number of bytes from the cursor on, and one more while a character is under it. -/
def unread (c : Cursor) : Nat :=
  (c.source.utf8ByteSize - c.position) + (if c.char?.isSome then 1 else 0)

theorem unread_next_lt {c : Cursor} {x : Char} (h : c.char? = some x) :
    c.next.unread < c.unread := by
  have hpos := x.utf8Size_pos
  have hread : c.readPosition = c.position + x.utf8Size := by
    rw [readPosition, width_of_char? h]
  simp only [unread, next, Cursor.atOffset, hread, h, Option.isSome_some, if_true]
  by_cases hin : c.position < c.source.utf8ByteSize
  · split <;> omega
  · rw [characterAt?_eq_none (by omega), Option.isSome_none, if_neg Bool.false_ne_true]
    omega

/-! ## 3. Runs of characters -/

/-- The cursor on the first character from here on that is not of the class `p`. -/
def skipWhile (p : Char → Bool) (c : Cursor) : Cursor :=
  match _h : c.char? with
  | some x => if p x then c.next.skipWhile p else c
  | none => c
termination_by c.unread
decreasing_by exact unread_next_lt _h

theorem skipWhile_of_pos {p : Char → Bool} {c : Cursor} {x : Char} (h : c.char? = some x)
    (hx : p x = true) : c.skipWhile p = c.next.skipWhile p := by
  rw [skipWhile]
  split
  · next y hy =>
    obtain rfl : x = y := Option.some.inj (h.symm.trans hy)
    rw [if_pos hx]
  · next hn => simp [hn] at h

theorem skipWhile_of_neg {p : Char → Bool} {c : Cursor} (h : ∀ x, c.char? = some x → p x = false) :
    c.skipWhile p = c := by
  rw [skipWhile]
  split
  · next y hy => simp [h y hy]
  · rfl

theorem unread_skipWhile_le (p : Char → Bool) (c : Cursor) :
    (c.skipWhile p).unread ≤ c.unread := by
  induction c using skipWhile.induct p with
  | case1 c x h hx ih =>
    rw [skipWhile_of_pos h hx]
    exact Nat.le_trans ih (Nat.le_of_lt (unread_next_lt h))
  | case2 c x h hx =>
    exact Nat.le_of_eq (congrArg unread (skipWhile_of_neg fun y hy => by simp_all))
  | case3 c h =>
    exact Nat.le_of_eq (congrArg unread (skipWhile_of_neg fun y hy => by simp_all))

theorem char?_skipWhile {p : Char → Bool} {c : Cursor} {x : Char}
    (h : (c.skipWhile p).char? = some x) : p x = false := by
  induction c using skipWhile.induct p with
  | case1 c y hy hp ih => exact ih (skipWhile_of_pos hy hp ▸ h)
  | case2 c y hy hp =>
    rw [skipWhile_of_neg (fun z hz => by simp_all)] at h
    simp_all
  | case3 c hn =>
    rw [skipWhile_of_neg (fun z hz => by simp_all)] at h
    simp_all

/-! ## 4. The view: what is passed, what is ahead -/

/-- A cursor splits its source into the characters passed and those ahead. -/
structure Splits (c : Cursor) (passed ahead : List Char) : Prop where
  source_eq : c.source.toList = passed ++ ahead
  position_eq : c.position = byteLength passed
  char?_eq : c.char? = ahead.head?

theorem splits_atOffset {source : String} {passed ahead : List Char}
    (h : source.toList = passed ++ ahead) :
    (Cursor.atOffset source (byteLength passed)).Splits passed ahead :=
  ⟨h, rfl, characterAt?_byteLength h⟩

theorem splits_start (source : String) : (start source).Splits [] source.toList :=
  @splits_atOffset source [] source.toList rfl

theorem Splits.next {c : Cursor} {passed ahead : List Char} {x : Char}
    (h : c.Splits passed (x :: ahead)) : c.next.Splits (passed ++ [x]) ahead := by
  have hread : c.readPosition = byteLength (passed ++ [x]) := by
    simp [readPosition, width_of_char? h.char?_eq, h.position_eq]
  rw [Cursor.next, hread]
  exact splits_atOffset (by simp [h.source_eq])

theorem Splits.next_eq_self {c : Cursor} {passed : List Char} (h : c.Splits passed []) :
    c.next = c := by
  have hchar : c.char? = none := h.char?_eq
  have hread : c.readPosition = c.position := by simp [readPosition, width, hchar]
  have hend : characterAt? c.source c.position = none := by
    rw [h.position_eq]
    exact characterAt?_byteLength h.source_eq
  cases c
  simp_all [Cursor.next, Cursor.atOffset]

theorem Splits.peek?_eq {c : Cursor} {passed ahead : List Char} {x : Char}
    (h : c.Splits passed (x :: ahead)) : c.peek? = ahead.head? :=
  h.next.char?_eq

/-- Skipping passes the longest run of the class. -/
theorem Splits.skipWhile {c : Cursor} {passed ahead : List Char} (h : c.Splits passed ahead)
    (p : Char → Bool) :
    (c.skipWhile p).Splits (passed ++ ahead.takeWhile p) (ahead.dropWhile p) := by
  induction ahead generalizing c passed with
  | nil =>
    rw [skipWhile_of_neg (fun x hx => by simp [h.char?_eq] at hx)]
    simpa using h
  | cons y ahead ih =>
    by_cases hy : p y = true
    · rw [skipWhile_of_pos h.char?_eq hy, List.takeWhile_cons_of_pos hy,
        List.dropWhile_cons_of_pos hy]
      simpa using ih h.next
    · rw [skipWhile_of_neg (fun x hx => by simp_all [h.char?_eq]),
        List.takeWhile_cons_of_neg hy, List.dropWhile_cons_of_neg hy]
      simpa using h

/-- The text between two cursors is what the later one has passed beyond the other. -/
theorem Splits.textTo_eq {c stop : Cursor} {passed mid ahead : List Char}
    (h : c.Splits passed (mid ++ ahead)) (hstop : stop.Splits (passed ++ mid) ahead) :
    c.textTo stop = String.ofList mid := by
  rw [textTo, h.position_eq, hstop.position_eq]
  exact slice_byteLength (by rw [h.source_eq, List.append_assoc])

end Cursor

end Text

end LetLang
