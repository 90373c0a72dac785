import LetLang.Text.DefaultIgnorable
import LetLang.Text.GraphemeExtend
import LetLang.Text.Unprintable

/-!
# Quoted text — a string between quotation marks, every character visible

Quoting works character by character.  Six characters have a short escape of their own, the
characters without a shape are written by their code point, and all others stand for themselves.
-/

namespace LetLang

namespace Text

/-! ## 1. One character -/

/-- The letter after the backslash, for the characters that have a short escape. -/
def shortEscape? : Char → Option Char
  | '\x00' => some '0'
  | '\t' => some 't'
  | '\n' => some 'n'
  | '\r' => some 'r'
  | '"' => some '"'
  | '\\' => some '\\'
  | _ => none

/-- Whether a character has to be written by its code point to be seen: nothing, or nothing but a
blank, is displayed for it, or it attaches to the character before it and fills no cell. -/
def needsCodePoint (c : Char) : Bool :=
  isUnprintable c || isDefaultIgnorable c || (isGraphemeExtend c && !isHalfwidthSoundMark c)

/-- A character written by its code point, in lower-case hexadecimal without leading zeros. -/
def codePointEscape (c : Char) : List Char :=
  ['\\', 'u', '{'] ++ Nat.toDigits 16 c.toNat ++ ['}']

/-- The written form of one character of a quoted string. -/
def escape (c : Char) : List Char :=
  match shortEscape? c with
  | some letter => ['\\', letter]
  | none => if needsCodePoint c then codePointEscape c else [c]

/-! ## 2. Whole strings -/

/-- A string between quotation marks, written character by character. -/
def quoted (s : String) : String :=
  "\"" ++ String.ofList (s.toList.flatMap escape) ++ "\""

example : quoted "a\tb\"" = "\"a\\tb\\\"\"" := by decide +kernel

example : quoted "e\u0301é\u200b" = "\"e\\u\x7b301\x7dé\\u\x7b200b\x7d\"" := by decide +kernel

example : quoted "\u3164ﾊ\uff9f" = "\"\\u\x7b3164\x7dﾊ\uff9f\"" := by decide +kernel

end Text

end LetLang
