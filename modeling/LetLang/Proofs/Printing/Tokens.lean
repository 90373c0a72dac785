import LetLang.Proofs.Lexing.Layouts
import LetLang.Proofs.Tree.WellFormed
import LetLang.Tree.Printer

/-!
# Lexing printed trees — the tokens of the text of an expression

The text of a well-formed expression lexes to the tokens from which it was printed: every literal
stands between characters at which lexemes end, and the only literal that a text follows without
a blank, the operator of a unary operation, is not followed by `=`.  These tokens derive the
expression again, with as many levels as the parentheses around the operations take.
-/

namespace LetLang

open Token Lexing

/-! ## 1. Printed tokens and their nesting -/

namespace Expr

mutual

/-- The tokens of the text of an expression. -/
def printed : Expr → List Token
  | identifier name => [name.token]
  | integer token _ => [token]
  | boolean token _ => [token]
  | unary token _ right => Token.ofChar '(' :: token :: (right.printed ++ [Token.ofChar ')'])
  | binary token _ left right =>
    Token.ofChar '(' :: (left.printed ++ token :: right.printed ++ [Token.ofChar ')'])
  | call token function arguments =>
    function.printed ++ token :: (argumentsPrinted arguments ++ [Token.ofChar ')'])

/-- The tokens of the text of arguments. -/
def argumentsPrinted : List Expr → List Token
  | [] => []
  | [argument] => argument.printed
  | argument :: arguments => argument.printed ++ Token.ofChar ',' :: argumentsPrinted arguments

end

mutual

/-- How many expressions are open at once when the text of an expression is read. -/
def nesting : Expr → Nat
  | identifier _ => 1
  | integer _ _ => 1
  | boolean _ _ => 1
  | unary _ _ right => 2 + right.nesting
  | binary _ _ left right => max (1 + left.nesting) (2 + right.nesting)
  | call _ function arguments => max function.nesting (argumentsNesting arguments)

/-- How many expressions are open at once in the arguments of a call, which is open as well. -/
def argumentsNesting : List Expr → Nat
  | [] => 0
  | argument :: arguments => max (1 + argument.nesting) (argumentsNesting arguments)

end

end Expr

/-! ## 2. Printed tokens derive the expression -/

namespace Stratum

/-- An expression in parentheses, which may stand anywhere. -/
theorem Derives.inParentheses {s : Stratum} {ts : List Token} {e : Expr} {n : Nat}
    (h : s.Derives ts e n) :
    Stratum.call.Derives (Token.ofChar '(' :: (ts ++ [Token.ofChar ')'])) e (n + 1) := by
  have hloose : equality.rank ≤ s.rank := by cases s <;> decide
  exact .tighter (.group rfl rfl (h.loosen hloose))

theorem rank_tighter_le_call {s : Stratum} {k : Kind} (h : k ∈ s.operators) :
    s.rank ≤ call.rank ∧ s.tighter.rank ≤ call.rank := by
  cases s <;> first | exact absurd h List.not_mem_nil | exact ⟨by decide, by decide⟩

end Stratum

open Stratum

mutual

/-- The tokens of a printed expression derive it, on as many levels as it nests. -/
theorem Expr.WellFormed.derives {e : Expr} :
    e.WellFormed → Stratum.call.Derives e.printed e e.nesting
  | .identifier kind _ => .tighter (.identifier kind)
  | .integer (v := v) kind spelled value =>
    .tighter (.integer kind (spelled.isNumeral kind)
      (by have hlt := v.toInt_lt; omega) value)
  | .true kind _ => .tighter (.true kind)
  | .false kind _ => .tighter (.false kind)
  | .unary (r := r) kind _ right => by
    -- one level for the operand, one for the parentheses
    have hunary := Derives.unary kind (right.derives.loosen (by decide))
    rw [Expr.nesting, show 2 + r.nesting = r.nesting + 1 + 1 by omega]
    exact hunary.inParentheses
  | .binary (l := l) (r := r) kind _ left right => by
    obtain ⟨hleft, hright⟩ := rank_tighter_le_call kind
    have hbinary := Derives.binary kind (left.derives.loosen hleft) (right.derives.loosen hright)
    rw [Expr.nesting, show max (1 + l.nesting) (2 + r.nesting) =
      max l.nesting (r.nesting + 1) + 1 by omega]
    exact hbinary.inParentheses
  | .call kind _ function .nil => by
    rw [Expr.nesting, Expr.argumentsNesting, Nat.max_zero]
    exact .emptyCall kind rfl function.derives
  | @Expr.WellFormed.call _ _ (e :: es) kind _ function arguments =>
    .call kind rfl function.derives (arguments.derives (List.cons_ne_nil e es))

theorem Expr.AllWellFormed.derives {es : List Expr} :
    Expr.AllWellFormed es → es ≠ [] →
      Arguments (Expr.argumentsPrinted es) es (Expr.argumentsNesting es)
  | .cons first .nil, _ => by
    rw [Expr.argumentsNesting, Expr.argumentsNesting, Nat.max_zero, Nat.add_comm]
    exact .one (first.derives.loosen (by decide))
  | @Expr.AllWellFormed.cons _ (e :: es) first others, _ => by
    rw [Expr.argumentsNesting, Nat.add_comm]
    exact .more (first.derives.loosen (by decide)) rfl (others.derives (List.cons_ne_nil e es))

end

/-! ## 3. The text of an expression lexes to its printed tokens -/

namespace Lexing

variable {x : Char} {t : Token} {ts : List Token} {ahead : List Char}

/-- Text that lexes to the beginning of an expression does not begin with `=`. -/
theorem head?_ne_equals {rule : StartRule} (htokens : tokens ahead = t :: ts)
    (hstart : Rules.standard.start? t.kind = some rule) : ahead.head? ≠ some '=' := by
  intro hhead
  obtain ⟨rest, rfl⟩ := List.head?_eq_some_iff.mp hhead
  rw [tokens_cons rfl] at htokens
  obtain ⟨rfl, -⟩ := List.cons.inj htokens
  have hlexeme : (lexeme '=' rest).1.kind = .equals ∨ (lexeme '=' rest).1.kind = .assignment := by
    rw [lexeme, if_neg (by decide), if_neg (by decide), if_neg (by decide)]
    split
    · next pair hpair =>
      unfold pair? at hpair
      split at hpair <;> cases hpair
      exact .inl rfl
    · exact .inr rfl
  rcases hlexeme with hkind | hkind <;> rw [hkind] at hstart <;> cases hstart

theorem tokens_not (h : ahead.head? ≠ some '=') :
    tokens ('!' :: ahead) = Token.ofChar '!' :: tokens ahead :=
  tokens_cons_of_single rfl (by decide) rfl rfl (if_neg h)

end Lexing

mutual

/-- **Lexing.**  The text of a well-formed expression lexes to its printed tokens. -/
theorem Expr.WellFormed.tokens_text {e : Expr} :
    e.WellFormed → tokens e.text.toList = e.printed
  | .identifier kind spelled => tokens_literal spelled (by rw [kind]; decide)
  | .integer kind spelled _ => tokens_literal spelled (by rw [kind]; decide)
  | .true kind spelled => tokens_literal spelled (by rw [kind]; decide)
  | .false kind spelled => tokens_literal spelled (by rw [kind]; decide)
  | @Expr.WellFormed.unary operator r kind spelled right => by
    obtain ⟨t, ts, rule, hprinted, hstart⟩ := right.derives.starts
    have hright : tokens (r.text.toList ++ [')']) = r.printed ++ [Token.ofChar ')'] := by
      rw [tokens_append_cons (by decide), right.tokens_text, tokens_cons_of_mark (by decide),
        tokens_nil]
    have htext : (Expr.unary operator operator.literal r).text.toList =
        '(' :: (operator.literal.toList ++ (r.text.toList ++ [')'])) := by
      simp [Expr.text]
    rw [htext, tokens_cons_of_mark (by decide), Expr.printed, ← hright]
    -- `!` and a following `=` would be one token
    rcases kind with hnot | hdash
    · have hhead := head?_ne_equals (hright.trans (by rw [hprinted]; rfl)) hstart
      rw [spelled.eq_mk hnot rfl]
      exact congrArg (_ :: ·) (tokens_not hhead)
    · rw [spelled.eq_mk hdash rfl]
      exact congrArg (_ :: ·) (tokens_cons_of_mark (by decide) _)
  | @Expr.WellFormed.binary operator s l r kind spelled left right => by
    have hoperator : tokens operator.literal.toList = [operator] := by
      apply tokens_literal spelled
      intro heof
      rw [heof] at kind
      cases s <;> exact absurd kind (by decide)
    have htext : (Expr.binary operator operator.literal l r).text.toList =
        '(' :: (l.text.toList ++ ' ' :: (operator.literal.toList ++
          ' ' :: (r.text.toList ++ [')']))) := by
      simp [Expr.text]
    rw [htext, tokens_cons_of_mark (by decide), tokens_append_cons (by decide), left.tokens_text,
      tokens_cons_of_blank rfl, tokens_append_cons (by decide), hoperator, tokens_cons_of_blank rfl,
      tokens_append_cons (by decide), right.tokens_text, tokens_cons_of_mark (by decide),
      tokens_nil]
    simp [Expr.printed]
  | @Expr.WellFormed.call opening f es kind spelled function arguments => by
    have htext : (Expr.call opening f es).text.toList =
        f.text.toList ++ '(' :: ((Expr.argumentsText es).toList ++ [')']) := by
      simp [Expr.text]
    rw [htext, tokens_append_cons (by decide), function.tokens_text,
      tokens_cons_of_mark (by decide), tokens_append_cons (by decide), arguments.tokens_text,
      tokens_cons_of_mark (by decide), tokens_nil, Expr.printed, spelled.eq_mk kind rfl]
    rfl

theorem Expr.AllWellFormed.tokens_text {es : List Expr} :
    Expr.AllWellFormed es → tokens (Expr.argumentsText es).toList = Expr.argumentsPrinted es
  | .nil => tokens_nil
  | .cons first .nil => first.tokens_text
  | @Expr.AllWellFormed.cons e (e' :: es) first others => by
    have htext : (Expr.argumentsText (e :: e' :: es)).toList =
        e.text.toList ++ ',' :: ' ' :: (Expr.argumentsText (e' :: es)).toList := by
      simp [Expr.argumentsText]
    rw [htext, tokens_append_cons (by decide), first.tokens_text, tokens_cons_of_mark (by decide),
      tokens_cons_of_blank rfl, others.tokens_text]
    rfl

end

end LetLang
