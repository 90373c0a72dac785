import LetLang.Text.Quoted
import LetLang.Token.Kind

/-!
# Tokens — a kind with the lexeme it was read from

A token has two written forms: the full one, with its literal quoted, and the one-line form of a
token dump, which shows the literal only where the kind does not already fix it.
-/

namespace LetLang

/-- A token: its kind and the text it was read from. -/
structure Token where
  /-- The class of the lexeme. -/
  kind : Token.Kind
  /-- The lexeme itself. -/
  literal : String
deriving DecidableEq, Repr, Inhabited

namespace Token

/-- The token at the end, which has no text. -/
def eof : Token := ⟨.eof, ""⟩

/-- Whether a token is of a given kind. -/
def is (t : Token) (k : Kind) : Bool :=
  t.kind == k

@[simp] theorem is_eq_true_iff {t : Token} {k : Kind} : t.is k = true ↔ t.kind = k := by
  simp [is]

theorem is_eq_false_iff {t : Token} {k : Kind} : t.is k = false ↔ t.kind ≠ k := by
  rw [← Bool.not_eq_true, is_eq_true_iff]

/-- Whether tokens of this kind differ in their literals. -/
def Kind.varies : Kind → Bool
  | .identifier | .integer | .illegal => true
  | _ => false

/-- The full written form of a token. -/
def text (t : Token) : String :=
  "Token \x7b kind: " ++ t.kind.text ++ ", literal: " ++ Text.quoted t.literal ++ " \x7d"

/-- The form of a token in a dump: the name of its kind, and its literal if that can differ. -/
def dump (t : Token) : String :=
  t.kind.name ++ " (" ++ (if t.kind.varies then t.literal else "") ++ ")"

end Token

end LetLang
