import LetLang.Proofs.Grammar.Programs
import LetLang.Proofs.Lexing.Pieces
import LetLang.Proofs.Tree.Traversals
import LetLang.Proofs.Tree.WellFormed

/-!
# Heights of trees — what the nesting limit bounds, and what it does not

The limit is on expressions that are open at once, and the loop that goes on behind an operand
opens none for what stands on its left.  So two numbers of a tree have to be told apart.  Its
levels grow on the right and in arguments only, and the limit bounds them.  Its height grows with
every node, and a traversal that comes to every node is that deep; a chain of operations or of
calls is as high as it is long, and only the length of the source bounds it.
-/

namespace LetLang

open Token

/-! ## 1. Levels -/

namespace Expr

mutual

/-- How many expressions are open at once in a tree, parentheses apart. -/
def levels : Expr → Nat
  | identifier _ => 1
  | integer _ _ => 1
  | boolean _ _ => 1
  | unary _ _ right => right.levels + 1
  | binary _ _ left right => max left.levels (right.levels + 1)
  | call _ function arguments => max function.levels (argumentsLevels arguments)

/-- How many expressions are open at once in the arguments of a call, each one being open in it. -/
def argumentsLevels : List Expr → Nat
  | [] => 0
  | argument :: arguments => max (argument.levels + 1) (argumentsLevels arguments)

end

end Expr

/-! ## 2. Levels and heights of what is read -/

namespace Stratum

mutual

/-- The levels of a tree are open at once in every text that it has. -/
theorem Derives.levels_le {s : Stratum} {ts : List Token} {e : Expr} {n : Nat} :
    Derives s ts e n → e.levels ≤ n
  | .tighter inner => inner.levels_le
  | .binary _ left right => by
    have hleft := left.levels_le
    have hright := right.levels_le
    rw [Expr.levels]
    omega
  | .unary _ right => by
    have hright := right.levels_le
    rw [Expr.levels]
    omega
  | .emptyCall _ _ function => by
    have hfunction := function.levels_le
    rw [Expr.levels, Expr.argumentsLevels]
    omega
  | .call _ _ function arguments => by
    have hfunction := function.levels_le
    have harguments := arguments.levels_le
    rw [Expr.levels]
    omega
  | .identifier _ => Nat.le_refl 1
  | .integer _ _ _ _ => Nat.le_refl 1
  | .true _ => Nat.le_refl 1
  | .false _ => Nat.le_refl 1
  | .group _ _ inner => Nat.le_succ_of_le inner.levels_le

theorem Arguments.levels_le {ts : List Token} {es : List Expr} {n : Nat} :
    Arguments ts es n → Expr.argumentsLevels es ≤ n
  | .one argument => by
    have hargument := argument.levels_le
    rw [Expr.argumentsLevels, Expr.argumentsLevels]
    omega
  | .more argument _ others => by
    have hargument := argument.levels_le
    have hothers := others.levels_le
    rw [Expr.argumentsLevels]
    omega

end

mutual

/-- Every node on a way down has a token of its own. -/
theorem Derives.height_le {s : Stratum} {ts : List Token} {e : Expr} {n : Nat} :
    Derives s ts e n → e.height ≤ ts.length
  | .tighter inner => inner.height_le
  | .binary _ left right => by
    have hleft := left.height_le
    have hright := right.height_le
    rw [Expr.height, List.length_append, List.length_cons]
    omega
  | .unary _ right => Nat.succ_le_succ right.height_le
  | .emptyCall _ _ function => by
    have hfunction := function.height_le
    rw [Expr.height, Expr.argumentsHeight, List.length_append, List.length_cons]
    omega
  | .call _ _ function arguments => by
    have hfunction := function.height_le
    have harguments := arguments.height_le
    rw [Expr.height, List.length_append, List.length_cons, List.length_append]
    omega
  | .identifier _ => Nat.le_refl 1
  | .integer _ _ _ _ => Nat.le_refl 1
  | .true _ => Nat.le_refl 1
  | .false _ => Nat.le_refl 1
  | .group _ _ inner => by
    have hinner := inner.height_le
    rw [List.length_cons, List.length_append]
    omega

theorem Arguments.height_le {ts : List Token} {es : List Expr} {n : Nat} :
    Arguments ts es n → Expr.argumentsHeight es ≤ ts.length
  | .one argument => by
    have hargument := argument.height_le
    rw [Expr.argumentsHeight, Expr.argumentsHeight]
    omega
  | .more argument _ others => by
    have hargument := argument.height_le
    have hothers := others.height_le
    rw [Expr.argumentsHeight, List.length_append, List.length_cons]
    omega

end

end Stratum

namespace Parser

variable {p q : Parser} {s : Statement} {e : Expr}

/-- The value of a statement is read from one of its tokens on. -/
theorem Reads.readsValue (h : p.Reads s q) (he : e ∈ s.value?) :
    ∃ p' q' : Parser, p'.ReadsValue e q' ∧ p'.ahead <:+ p.ahead := by
  cases h with
  | letStatement keyword name sign value =>
    cases he
    exact ⟨_, _, value, p.advanced.advanced.ahead.tail_suffix.trans
      (p.advanced.ahead.tail_suffix.trans p.ahead.tail_suffix)⟩
  | returnNothing keyword ends => cases he
  | returnValue keyword value =>
    cases he
    exact ⟨_, _, value, p.ahead.tail_suffix⟩
  | expression value =>
    cases he
    exact ⟨_, _, value, List.suffix_rfl⟩

end Parser

/-- What the limit and the length of a source bound in every tree that is read. -/
theorem levels_and_height_le {source : String} {s : Statement} {e : Expr}
    (hs : s ∈ (parse source).1.statements) (he : e ∈ s.value?) :
    e.levels ≤ maxNesting ∧ e.height ≤ source.length := by
  rw [parse_eq] at hs
  obtain ⟨k, q, hturn⟩ := Parser.exists_turn_of_mem_statements hs
  have hread := (Parser.turn_eq_statement_iff rfl).mp hturn
  obtain ⟨p', q', ⟨ts, n, honto, hderives, hn, -⟩, hsuffix⟩ := hread.readsValue he
  have hlevels := hderives.levels_le
  have hheight := hderives.height_le
  -- the tokens of the value are tokens of the source, and each of those takes a character
  have hts := honto.begins.length_le
  have hahead := hsuffix.length_le
  have htokens : ((Parser.start source).skip k).ahead.length ≤
      (Text.Cursor.start source).tokens.length :=
    (List.drop_suffix k _).length_le
  rw [tokens_start] at htokens
  have hsource := Lexing.length_tokens_le source.toList
  rw [String.length_toList] at hsource
  omega

/-! ## 3. Statements whose values nest too deep -/

/-- The tokens of a statement with a value, those behind it, the statement, and how many
expressions are open at once in its value. -/
inductive ValueItem : List Token → List Token → Statement → Nat → Prop
  | letStatement {keyword name sign : Token} {ts rest : List Token} {e : Expr} {n : Nat}
      (keyword_kind : keyword.kind = .kwLet) (name_kind : name.kind = .identifier)
      (sign_kind : sign.kind = .assignment) (value : Stratum.equality.Derives ts e n)
      (ends : EndsValue rest) :
      ValueItem (keyword :: name :: sign :: ts) rest
        (.letStatement keyword (.ofToken name) (some e)) n
  | returnStatement {keyword : Token} {ts rest : List Token} {e : Expr} {n : Nat}
      (keyword_kind : keyword.kind = .kwReturn) (value : Stratum.equality.Derives ts e n)
      (ends : EndsValue rest) :
      ValueItem (keyword :: ts) rest (.returnStatement keyword (some e)) n
  | expression {t : Token} {ts rest : List Token} {e : Expr} {n : Nat}
      (value : Stratum.equality.Derives (t :: ts) e n) (ends : EndsValue rest) :
      ValueItem (t :: ts) rest (.expression t e) n

namespace ValueItem

variable {ts rest : List Token} {s : Statement} {n : Nat}

/-- Within the limit it is an item like others. -/
theorem item (h : ValueItem ts rest s n) (hn : n ≤ maxNesting) : Item ts rest s := by
  cases h with
  | letStatement keyword name sign value ends =>
    exact .letStatement keyword name sign ⟨n, hn, value⟩ ends
  | returnStatement keyword value ends => exact .returnValue keyword ⟨n, hn, value⟩ ends
  | expression value ends => exact .expression ⟨n, hn, value⟩ ends

theorem levels_le (h : ValueItem ts rest s n) : ∀ e ∈ s.value?, e.levels ≤ n := by
  intro e he
  cases h <;> cases he <;> exact Stratum.Derives.levels_le ‹_›

end ValueItem

namespace Parser

variable {p : Parser} {ts rest : List Token} {s : Statement} {n : Nat}

/-- A statement whose value fits is read, and one whose value does not fails for this reason. -/
theorem turn_of_valueItem (h : ValueItem ts rest s n) (hp : p.Ready)
    (hahead : p.ahead = ts ++ rest) :
    (n ≤ maxNesting →
      ∃ q, p.turn = (.statement s, q) ∧ q.advanced.ahead = afterSemicolon rest) ∧
    (maxNesting < n → ∃ q, p.turn = (.failed (.nestingTooDeep maxNesting), q)) := by
  have hrules := hp.rules_eq
  refine ⟨fun hfits => ?_, fun hdeep => ?_⟩
  · obtain ⟨q, hread, hq⟩ := reads_of_item (h.item hfits) hahead hp.depth_eq
    exact ⟨q, (turn_eq_statement_iff hrules).mpr hread, hq⟩
  · cases h with
    | letStatement keyword_kind name_kind sign_kind value ends =>
      obtain ⟨rfl, hname⟩ := current_of_ahead_eq_cons hahead
      obtain ⟨rfl, hsign⟩ := current_of_ahead_eq_cons hname
      obtain ⟨rfl, hvalue⟩ := current_of_ahead_eq_cons hsign
      obtain ⟨q, hq⟩ := ended_of_deep value hdeep ends hp.advanced.advanced.advanced hvalue
        fun e => .letStatement p.current (.ofToken p.peek) (some e)
      rw [turn_of_let hrules keyword_kind name_kind sign_kind, hq]
      exact ⟨q, rfl⟩
    | returnStatement keyword_kind value ends =>
      obtain ⟨rfl, hvalue⟩ := current_of_ahead_eq_cons hahead
      obtain ⟨q, hq⟩ := ended_of_deep value hdeep ends hp.advanced hvalue
        fun e => .returnStatement p.current (some e)
      obtain ⟨t, us, rule, rfl, hstart⟩ := value.starts
      obtain ⟨rfl, -⟩ := current_of_ahead_eq_cons hvalue
      rw [turn_of_return hrules keyword_kind hstart, hq]
      exact ⟨q, rfl⟩
    | expression value ends =>
      obtain ⟨q, hq⟩ := ended_of_deep value hdeep ends hp hahead fun e => .expression p.current e
      obtain ⟨t, us, rule, htokens, hstart⟩ := value.starts
      obtain ⟨rfl, -⟩ := List.cons.inj htokens
      obtain ⟨rfl, -⟩ := current_of_ahead_eq_cons hahead
      rw [turn_of_expression hrules hstart, hq]
      exact ⟨q, rfl⟩

end Parser

/-! ## 4. Chains of calls and of signs -/

namespace CallChain

/-- The name `f`, called so many times. -/
def text : Nat → List Char
  | 0 => ['f']
  | n + 1 => text n ++ ['(', ')']

/-- The tree of the chain, which leans to the left. -/
def tree : Nat → Expr
  | 0 => .identifier (.ofToken ⟨.identifier, "f"⟩)
  | n + 1 => .call (Token.ofChar '(') (tree n) []

def source (n : Nat) : String :=
  String.ofList (text n)

theorem height_tree (n : Nat) : (tree n).height = n + 1 := by
  induction n with
  | zero => rfl
  | succ n ih => rw [tree, Expr.height, ih, Expr.argumentsHeight, Nat.max_zero]

theorem tokens_text_succ (n : Nat) :
    Lexing.tokens (text (n + 1)) =
      Lexing.tokens (text n) ++ [Token.ofChar '(', Token.ofChar ')'] := by
  rw [text, Lexing.tokens_append_cons (by decide), Lexing.tokens_cons_of_mark (by decide),
    Lexing.tokens_cons_of_mark (by decide), Lexing.tokens_nil]

/-- However long the chain is, one expression is open. -/
theorem derives_tree (n : Nat) :
    Stratum.call.Derives (Lexing.tokens (text n)) (tree n) 1 := by
  induction n with
  | zero =>
    have htokens : Lexing.tokens (text 0) = [⟨.identifier, "f"⟩] := by decide +kernel
    rw [htokens]
    exact .tighter (.identifier rfl)
  | succ n ih =>
    -- one call more is one step of the loop behind the function, which opens nothing
    rw [tokens_text_succ]
    exact .emptyCall rfl rfl ih

theorem exists_tokens_text (n : Nat) :
    ∃ ts, Lexing.tokens (text n) = ⟨.identifier, "f"⟩ :: ts := by
  induction n with
  | zero => exact ⟨[], by decide +kernel⟩
  | succ n ih =>
    obtain ⟨ts, hts⟩ := ih
    exact ⟨_, by rw [tokens_text_succ, hts, List.cons_append]⟩

theorem nul_not_mem_text (n : Nat) : '\x00' ∉ text n := by
  induction n with
  | zero => decide
  | succ n ih => simp [text, ih]

/-- A chain of calls is a program, whatever its length. -/
theorem parse_source (n : Nat) :
    parse (source n) = (⟨[.expression ⟨.identifier, "f"⟩ (tree n)]⟩, []) := by
  obtain ⟨ts, hts⟩ := exists_tokens_text n
  have hderives := derives_tree n
  rw [hts] at hderives
  have hvalue : IsValue (⟨.identifier, "f"⟩ :: ts) (tree n) :=
    ⟨1, by decide, hderives.loosen (by decide)⟩
  have hends : EndsValue [] := fun _ ht => (nomatch ht)
  have hitems := Items.statement (.expression hvalue hends) .nil
  have hahead : (Parser.start (source n)).ahead = Lexing.tokens (text n) := by
    rw [← String.toList_ofList (l := text n)]
    exact tokens_start (source n)
  have htokens : ∀ t ∈ (Parser.start (source n)).ahead, t.kind ≠ .eof := by
    rw [hahead]
    exact fun t ht => Lexing.ne_eof_of_mem_tokens (nul_not_mem_text n) ht
  rw [List.append_nil, ← hts, ← hahead] at hitems
  obtain ⟨hstatements, hfaults⟩ :=
    Parser.statements_of_items hitems (Parser.ready_start _) htokens rfl
  rw [parse_eq, hstatements, hfaults]

theorem mem_statements (n : Nat) :
    .expression ⟨.identifier, "f"⟩ (tree n) ∈ (parse (source n)).1.statements := by
  rw [parse_source]
  exact List.mem_cons_self

end CallChain

/-- Every sign before an operand opens one expression more. -/
theorem Stratum.Derives.negated {ts : List Token} {e : Expr} {n : Nat}
    (h : Stratum.unary.Derives ts e n) (k : Nat) :
    ∃ e', Stratum.unary.Derives (List.replicate k (Token.ofChar '-') ++ ts) e' (n + k) := by
  induction k with
  | zero => exact ⟨e, h⟩
  | succ k ih =>
    obtain ⟨e', he'⟩ := ih
    exact ⟨_, .unary (.inr rfl) he'⟩

/-! ## 5. What the limit bounds -/

/-- **The nesting limit.**  It bounds the levels of every tree that is read, but not its height,
which only the length of the source bounds.  To print, copy or release a tree takes as many calls
inside each other as it is high; to compare it takes at most as many as the lower tree is high, and
as many as that if the trees are equal.  A statement is read as long as its value needs no more
levels than there are, parentheses counted, and otherwise it fails for needing more. -/
theorem nesting_limit_bounds_levels :
    (∀ source, ∀ s ∈ (parse source).1.statements, ∀ e ∈ s.value?,
      e.levels ≤ maxNesting ∧ e.height ≤ source.length) ∧
    (∀ e : Expr,
      Calls.Needs e.height e.printing e.text ∧
      Calls.Needs e.height e.copying e ∧
      Calls.Needs e.height e.releasing e.tokens ∧
      Calls.Needs e.height (e.comparing e) true ∧
      ∀ e', ∃ n, n ≤ min e.height e'.height ∧ Calls.Needs n (e.comparing e') (e.same e')) ∧
    ∀ (p : Parser) (ts rest : List Token) (s : Statement) (n : Nat), p.Ready →
      ValueItem ts rest s n → p.ahead = ts ++ rest →
      (∀ e ∈ s.value?, e.levels ≤ n) ∧
      (n ≤ maxNesting →
        ∃ q, p.turn = (.statement s, q) ∧ q.advanced.ahead = afterSemicolon rest) ∧
      (maxNesting < n → ∃ q, p.turn = (.failed (.nestingTooDeep maxNesting), q)) := by
  refine ⟨fun source s hs e he => levels_and_height_le hs he, fun e => ?_, ?_⟩
  · refine ⟨e.needs_printing, e.needs_copying, e.needs_releasing, e.needs_comparing_self,
      fun e' => ?_⟩
    obtain ⟨n, hleft, hright, -, hneeds⟩ := e.tests_comparing e'
    exact ⟨n, Nat.le_min.mpr ⟨hleft, hright⟩, hneeds⟩
  · intro p ts rest s n hp h hahead
    exact ⟨h.levels_le, Parser.turn_of_valueItem h hp hahead⟩

/-- A chain of 256 calls is within the limit; so are 255 signs before a name, but not 256. -/
theorem nesting_limit_bounds_levels_sharply :
    let sign := Token.ofChar '-'
    let name : Token := ⟨.identifier, "x"⟩
    let signed (k : Nat) : Parser := ⟨List.replicate k sign ++ [name], [], 0, .standard⟩
    (CallChain.tree maxNesting).levels ≤ maxNesting ∧
      (∃ s q, (signed 255).turn = (.statement s, q)) ∧
      (∃ q, (signed 256).turn = (.failed (.nestingTooDeep maxNesting), q)) := by
  intro sign name signed
  obtain ⟨hbound, -, hturn⟩ := nesting_limit_bounds_levels
  have hname : Stratum.unary.Derives [name] (.identifier (.ofToken name)) 1 :=
    .tighter (.tighter (.identifier rfl))
  have hends : EndsValue [] := fun _ ht => (nomatch ht)
  obtain ⟨fitting, hfitting⟩ := hname.negated 255
  obtain ⟨deep, hdeep⟩ := hname.negated 256
  refine ⟨?_, ?_, ?_⟩
  · exact (hbound _ _ (CallChain.mem_statements maxNesting) _ rfl).1
  · obtain ⟨q, hq, -⟩ := (hturn (signed 255) _ [] _ _ ⟨rfl, rfl⟩
      (.expression (hfitting.loosen (by decide)) hends) (List.append_nil _).symm).2.1 (by decide)
    exact ⟨_, q, hq⟩
  · exact (hturn (signed 256) _ [] _ _ ⟨rfl, rfl⟩
      (.expression (hdeep.loosen (by decide)) hends) (List.append_nil _).symm).2.2 (by decide)

/-- The tree of 256 calls in a chain is read without an error and is higher than the limit. -/
theorem chain_of_calls_higher_than_limit :
    ¬ ∀ source, ∀ s ∈ (parse source).1.statements, ∀ e ∈ s.value?, e.height ≤ maxNesting := by
  intro h
  have hheight := h _ _ (CallChain.mem_statements 256) _ rfl
  rw [CallChain.height_tree] at hheight
  exact absurd hheight (by decide)

end LetLang
