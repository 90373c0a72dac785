import LetLang.Text.Cursor
import LetLang.Token.Basic

/-!
# The lexer — from characters to tokens

`Cursor.scan` reads one token: it skips blanks, takes the longest lexeme that begins there, and
leaves the cursor just past it.  Scanning never fails; a character that begins no lexeme is an
illegal token by itself.  The character U+0000 reads as an end of the tokens, after which scanning
can go on.

A `Lexer` hands the tokens out one by one, either without end or up to the first end;
`tokenize` is the list up to the first end, `tokens` the list of everything in a source.
-/

namespace LetLang

open Text

namespace Token

/-! ## 1. Classes of characters -/

/-- Whether a character may stand in a word: a letter of the English alphabet or `_`. -/
def isLetter (x : Char) : Bool :=
  x.isAlpha || x = '_'

/-- The kind of the token that consists of this one character. -/
def Kind.ofChar : Char → Kind
  | '=' => .assignment
  | '!' => .not
  | '<' => .less
  | '>' => .greater
  | '+' => .plus
  | '-' => .dash
  | '/' => .slash
  | '*' => .star
  | ',' => .comma
  | ';' => .semicolon
  | '(' => .openParen
  | ')' => .closeParen
  | '{' => .openCurly
  | '}' => .closeCurly
  | _ => .illegal

/-- The kind of the token that consists of this character and `=`, if there is one. -/
def Kind.ofCharAndEquals? : Char → Option Kind
  | '=' => some .equals
  | '!' => some .notEquals
  | _ => none

def ofWord (word : String) : Token :=
  ⟨Kind.ofWord word, word⟩

def ofChar (x : Char) : Token :=
  ⟨Kind.ofChar x, String.singleton x⟩

end Token

/-! ## 2. One token -/

namespace Text.Cursor

open Token

/-- The cursor past the blanks that begin here. -/
def skipBlanks (c : Cursor) : Cursor :=
  c.skipWhile Char.isWhitespace

/-- The token that begins with the character `x` under the cursor, and the cursor past it. -/
def lexeme (x : Char) (c : Cursor) : Token × Cursor :=
  if x = '\x00' then
    (Token.eof, c.next)
  else if isLetter x then
    let stop := c.skipWhile isLetter
    (Token.ofWord (c.textTo stop), stop)
  else if x.isDigit then
    let stop := c.skipWhile Char.isDigit
    (⟨.integer, c.textTo stop⟩, stop)
  else
    -- the longer lexeme wins
    match Kind.ofCharAndEquals? x, c.peek? with
    | some pair, some '=' => (⟨pair, String.ofList [x, '=']⟩, c.next.next)
    | _, _ => (Token.ofChar x, c.next)

/-- The next token, and the cursor past it; at the end of the source, the end of the tokens. -/
def scan (c : Cursor) : Token × Cursor :=
  match c.skipBlanks.char? with
  | some x => c.skipBlanks.lexeme x
  | none => (Token.eof, c.skipBlanks)

/-! ## 3. Scanning moves forward -/

theorem unread_skipWhile_lt {p : Char → Bool} {c : Cursor} {x : Char} (h : c.char? = some x)
    (hx : p x = true) : (c.skipWhile p).unread < c.unread := by
  rw [skipWhile_of_pos h hx]
  exact Nat.lt_of_le_of_lt (unread_skipWhile_le p c.next) (unread_next_lt h)

theorem unread_lexeme_lt {c : Cursor} {x : Char} (h : c.char? = some x) :
    (c.lexeme x).2.unread < c.unread := by
  unfold lexeme
  split
  · exact unread_next_lt h
  · split
    · next hletter => exact unread_skipWhile_lt h hletter
    · split
      · next hdigit => exact unread_skipWhile_lt h hdigit
      · split
        · next hpeek =>
          exact Nat.lt_trans (unread_next_lt hpeek) (unread_next_lt h)
        · exact unread_next_lt h

theorem unread_scan_lt {c : Cursor} (h : c.skipBlanks.char? ≠ none) :
    c.scan.2.unread < c.unread := by
  unfold scan
  split
  · next x hx =>
    exact Nat.lt_of_lt_of_le (unread_lexeme_lt hx) (unread_skipWhile_le _ c)
  · next hnone => exact absurd hnone h

theorem scan_of_end {c : Cursor} (h : c.skipBlanks.char? = none) :
    c.scan = (Token.eof, c.skipBlanks) := by
  simp [scan, h]

/-! ## 4. Nothing is lost -/

/-- A lexeme passes at least one character, and its literal is what it passed; only U+0000, the
end of the tokens, leaves no literal. -/
theorem Splits.lexeme {c : Cursor} {passed ahead : List Char} {x : Char}
    (h : c.Splits passed (x :: ahead)) :
    ∃ mid rest, x :: ahead = mid ++ rest ∧ mid ≠ [] ∧
      (c.lexeme x).2.Splits (passed ++ mid) rest ∧
      (c.lexeme x).1.literal = if x = '\x00' then "" else String.ofList mid := by
  have run : ∀ p : Char → Bool, p x = true →
      ∃ mid rest, x :: ahead = mid ++ rest ∧ mid ≠ [] ∧
        (c.skipWhile p).Splits (passed ++ mid) rest ∧
        c.textTo (c.skipWhile p) = String.ofList mid := by
    intro p hp
    have hstop := h.skipWhile p
    have hsplit : x :: ahead = (x :: ahead).takeWhile p ++ (x :: ahead).dropWhile p :=
      List.takeWhile_append_dropWhile.symm
    refine ⟨_, _, hsplit, ?_, hstop, ?_⟩
    · rw [List.takeWhile_cons_of_pos hp]
      exact List.cons_ne_nil _ _
    · exact Splits.textTo_eq (hsplit ▸ h) hstop
  unfold Cursor.lexeme
  split
  · exact ⟨[x], ahead, rfl, List.cons_ne_nil _ _, h.next, rfl⟩
  · split
    · next hletter =>
      obtain ⟨mid, rest, hsplit, hne, hstop, htext⟩ := run isLetter hletter
      exact ⟨mid, rest, hsplit, hne, hstop, htext⟩
    · split
      · next hdigit =>
        obtain ⟨mid, rest, hsplit, hne, hstop, htext⟩ := run Char.isDigit hdigit
        exact ⟨mid, rest, hsplit, hne, hstop, htext⟩
      · split
        · next hpeek =>
          obtain ⟨rest, rfl⟩ : ∃ rest, ahead = '=' :: rest := by
            rw [h.peek?_eq] at hpeek
            exact List.head?_eq_some_iff.mp hpeek
          refine ⟨[x, '='], rest, rfl, List.cons_ne_nil _ _, ?_, rfl⟩
          have hnext := h.next.next
          rwa [List.append_assoc] at hnext
        · exact ⟨[x], ahead, rfl, List.cons_ne_nil _ _, h.next, String.singleton_eq_ofList⟩

/-! ## 5. All tokens -/

/-- All tokens from the cursor to the end of the source, U+0000 being an end of the tokens each
time; the end of the source itself is left out. -/
def tokens (c : Cursor) : List Token :=
  if _h : c.skipBlanks.char? = none then [] else c.scan.1 :: c.scan.2.tokens
termination_by c.unread
decreasing_by exact unread_scan_lt _h

end Text.Cursor

/-! ## 6. Lexers -/

/-- A source that is being read token by token. -/
structure Lexer where
  cursor : Cursor
  /-- Whether the tokens handed out by `next?` have ended. -/
  finished : Bool
deriving DecidableEq, Repr

namespace Lexer

def start (source : String) : Lexer :=
  ⟨Cursor.start source, false⟩

/-- The next token, whether or not the tokens have ended before. -/
def nextToken (l : Lexer) : Token × Lexer :=
  (l.cursor.scan.1, { l with cursor := l.cursor.scan.2 })

/-- The next token up to and including the first end, and none after that. -/
def next? (l : Lexer) : Option Token × Lexer :=
  if l.finished then
    (none, l)
  else
    (some l.cursor.scan.1, ⟨l.cursor.scan.2, l.cursor.scan.1.is .eof⟩)

/-- All tokens that `next?` still gives, and the lexer after them. -/
def rest (l : Lexer) : List Token × Lexer :=
  if l.finished then
    ([], l)
  else if _h : l.cursor.scan.1.is .eof then
    ([l.cursor.scan.1], ⟨l.cursor.scan.2, true⟩)
  else
    let (ts, last) := rest ⟨l.cursor.scan.2, false⟩
    (l.cursor.scan.1 :: ts, last)
termination_by l.cursor.unread
decreasing_by
  refine Cursor.unread_scan_lt fun hend => _h ?_
  rw [Cursor.scan_of_end hend]
  rfl

end Lexer

/-- The tokens of a source up to and including the first end. -/
def tokenize (source : String) : List Token :=
  (Lexer.start source).rest.1

end LetLang
