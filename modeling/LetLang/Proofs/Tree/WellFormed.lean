import LetLang.Proofs.Grammar.Statements
import LetLang.Proofs.Lexing.Lexemes

/-!
# Well-formed trees — trees that sources have

In a well-formed tree every node agrees with its token, and every token is one that the lexer can
hand out.  Whatever a source holds, the program that is read from it is well-formed: the tokens of
a source are spelled as their kinds allow, and a derivation makes each node from its own token.
-/

namespace LetLang

open Token

/-! ## 1. Well-formed expressions, statements and programs -/

mutual

/-- Every node of the expression agrees with its token, which is spelled as its kind allows. -/
inductive Expr.WellFormed : Expr → Prop
  | identifier {t : Token} (kind : t.kind = .identifier) (spelled : t.Spelled) :
      WellFormed (.identifier (.ofToken t))
  | integer {t : Token} {v : Int64} (kind : t.kind = .integer) (spelled : t.Spelled)
      (value : v.toInt = Text.Decimal.value t.literal.toList) : WellFormed (.integer t v)
  | true {t : Token} (kind : t.kind = .kwTrue) (spelled : t.Spelled) :
      WellFormed (.boolean t true)
  | false {t : Token} (kind : t.kind = .kwFalse) (spelled : t.Spelled) :
      WellFormed (.boolean t false)
  | unary {operator : Token} {r : Expr}
      (kind : operator.kind = .not ∨ operator.kind = .dash) (spelled : operator.Spelled)
      (right : WellFormed r) : WellFormed (.unary operator operator.literal r)
  | binary {operator : Token} {s : Stratum} {l r : Expr} (kind : operator.kind ∈ s.operators)
      (spelled : operator.Spelled) (left : WellFormed l) (right : WellFormed r) :
      WellFormed (.binary operator operator.literal l r)
  | call {opening : Token} {f : Expr} {es : List Expr} (kind : opening.kind = .openParen)
      (spelled : opening.Spelled) (function : WellFormed f) (arguments : AllWellFormed es) :
      WellFormed (.call opening f es)

inductive Expr.AllWellFormed : List Expr → Prop
  | nil : AllWellFormed []
  | cons {e : Expr} {es : List Expr} (first : WellFormed e) (others : AllWellFormed es) :
      AllWellFormed (e :: es)

end

/-- A well-formed statement; nothing is asked of the token of an expression by itself. -/
inductive Statement.WellFormed : Statement → Prop
  | letStatement {keyword name : Token} {e : Expr} (keyword_kind : keyword.kind = .kwLet)
      (keyword_spelled : keyword.Spelled) (name_kind : name.kind = .identifier)
      (name_spelled : name.Spelled) (value : e.WellFormed) :
      WellFormed (.letStatement keyword (.ofToken name) (some e))
  | returnNothing {keyword : Token} (keyword_kind : keyword.kind = .kwReturn)
      (keyword_spelled : keyword.Spelled) : WellFormed (.returnStatement keyword none)
  | returnValue {keyword : Token} {e : Expr} (keyword_kind : keyword.kind = .kwReturn)
      (keyword_spelled : keyword.Spelled) (value : e.WellFormed) :
      WellFormed (.returnStatement keyword (some e))
  | expression {t : Token} {e : Expr} (value : e.WellFormed) : WellFormed (.expression t e)

def Program.WellFormed (p : Program) : Prop :=
  ∀ s ∈ p.statements, s.WellFormed

namespace Statement

/-- The expression of a statement, if it has one. -/
def value? : Statement → Option Expr
  | letStatement _ _ value? => value?
  | returnStatement _ value? => value?
  | expression _ value => some value

/-- The statement without the token of an expression by itself. -/
def withoutToken : Statement → Statement
  | expression _ value => expression Token.eof value
  | s => s

end Statement

/-! ## 2. Derivations make well-formed trees -/

namespace Stratum

mutual

/-- From tokens spelled as their kinds allow only well-formed trees derive. -/
theorem Derives.wellFormed {s : Stratum} {ts : List Token} {e : Expr} {n : Nat} :
    Derives s ts e n → (∀ t ∈ ts, t.Spelled) → e.WellFormed
  | .tighter inner, h => inner.wellFormed h
  | .binary kind left right, h => by
    rw [List.forall_mem_append, List.forall_mem_cons] at h
    exact .binary kind h.2.1 (left.wellFormed h.1) (right.wellFormed h.2.2)
  | .unary kind right, h => by
    rw [List.forall_mem_cons] at h
    exact .unary kind h.1 (right.wellFormed h.2)
  | .emptyCall opening_kind _ function, h => by
    rw [List.forall_mem_append, List.forall_mem_cons] at h
    exact .call opening_kind h.2.1 (function.wellFormed h.1) .nil
  | .call opening_kind _ function arguments, h => by
    rw [List.forall_mem_append, List.forall_mem_cons, List.forall_mem_append] at h
    exact .call opening_kind h.2.1 (function.wellFormed h.1) (arguments.wellFormed h.2.2.1)
  | .identifier kind, h => .identifier kind (h _ List.mem_cons_self)
  | .integer kind _ _ value, h => .integer kind (h _ List.mem_cons_self) value
  | .true kind, h => .true kind (h _ List.mem_cons_self)
  | .false kind, h => .false kind (h _ List.mem_cons_self)
  | .group _ _ inner, h => by
    rw [List.forall_mem_cons, List.forall_mem_append] at h
    exact inner.wellFormed h.2.1

theorem Arguments.wellFormed {ts : List Token} {es : List Expr} {n : Nat} :
    Arguments ts es n → (∀ t ∈ ts, t.Spelled) → Expr.AllWellFormed es
  | .one argument, h => .cons (argument.wellFormed h) .nil
  | .more argument _ others, h => by
    rw [List.forall_mem_append, List.forall_mem_cons] at h
    exact .cons (argument.wellFormed h.1) (others.wellFormed h.2.2)

end

end Stratum

/-! ## 3. What is read is well-formed -/

namespace Parser

variable {p q : Parser} {e : Expr} {s : Statement}

theorem ReadsValue.wellFormed (h : p.ReadsValue e q) (hspelled : ∀ t ∈ p.ahead, t.Spelled) :
    e.WellFormed := by
  obtain ⟨ts, n, honto, hderives, -⟩ := h
  exact hderives.wellFormed fun t ht => hspelled t (honto.begins.subset ht)

theorem spelled_current (h : ∀ t ∈ p.ahead, t.Spelled) : p.current.Spelled := by
  rw [current]
  cases hahead : p.ahead with
  | nil => exact rfl
  | cons t rest => exact h t (hahead ▸ List.mem_cons_self)

theorem spelled_advanced (h : ∀ t ∈ p.ahead, t.Spelled) : ∀ t ∈ p.advanced.ahead, t.Spelled :=
  fun t ht => h t (List.mem_of_mem_tail ht)

theorem Reads.wellFormed (h : p.Reads s q) (hspelled : ∀ t ∈ p.ahead, t.Spelled) :
    s.WellFormed := by
  have hcurrent := spelled_current hspelled
  have hnext := spelled_advanced hspelled
  cases h with
  | letStatement keyword name sign value =>
    have hvalue := value.wellFormed (spelled_advanced (spelled_advanced hnext))
    exact .letStatement keyword hcurrent name (spelled_current hnext) hvalue
  | returnNothing keyword ends => exact .returnNothing keyword hcurrent
  | returnValue keyword value => exact .returnValue keyword hcurrent (value.wellFormed hnext)
  | expression value => exact .expression (value.wellFormed hspelled)

end Parser

/-- Whatever stands in a source, the program read from it is well-formed. -/
theorem wellFormed_parse (source : String) : (parse source).1.WellFormed := by
  intro s hs
  rw [parse_eq] at hs
  obtain ⟨k, q, hturn⟩ := Parser.exists_turn_of_mem_statements hs
  have hread := (Parser.turn_eq_statement_iff rfl).mp hturn
  refine hread.wellFormed fun t ht => ?_
  have hmem : t ∈ (Text.Cursor.start source).tokens := List.mem_of_mem_drop ht
  rw [tokens_start] at hmem
  exact Lexing.spelled_of_mem_tokens hmem

end LetLang
