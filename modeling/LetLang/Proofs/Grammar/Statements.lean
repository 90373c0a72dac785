import LetLang.Proofs.Grammar.Recognition
import LetLang.Proofs.Parser.Turns

/-!
# Statements — what one turn reads

Under the rules of the language a turn ends in one of three ways, and each is told by the tokens:
`Parser.Reads` says which statements are read from where to where, and a token that is skipped
begins neither a statement nor an expression.  Every other turn fails.
-/

namespace LetLang

open Token ParseM

/-! ## 1. Values -/

/-- An expression goes on with a token of this kind: it opens a call or is an operator between
two operands. -/
def Token.Kind.Continues (k : Kind) : Prop :=
  k = .openParen ∨ ∃ s : Stratum, k ∈ s.operators

theorem Token.Kind.not_continues_iff {k : Kind} :
    ¬ k.Continues ↔ Rules.standard.power k ≤ .lowest := by
  constructor
  · intro hnot
    unfold Rules.power
    split
    · next power rule hfollow =>
      apply absurd _ hnot
      cases rule with
      | binary =>
        obtain ⟨s, hop, -⟩ := Stratum.exists_mem_operators hfollow
        exact .inr ⟨s, hop⟩
      | call => exact .inl (Stratum.follow?_call_iff.mp hfollow).1
    · exact Nat.le_refl _
  · rintro hpower (rfl | ⟨s, hop⟩)
    · exact absurd hpower (by decide)
    · rw [Rules.power_of_follow? (Stratum.follow?_of_mem_operators hop).1] at hpower
      have hgrip : ¬ s.grip ≤ .lowest := by cases s <;> decide
      exact hgrip hpower

namespace Parser

variable {p q : Parser} {e : Expr} {s : Statement}

/-- The tokens from `p` to `q` are an expression that the levels left can hold, and no expression
goes on behind it. -/
def ReadsValue (p : Parser) (e : Expr) (q : Parser) : Prop :=
  ∃ ts n, p.Onto ts q ∧ Stratum.equality.Derives ts e n ∧ p.depth + n ≤ maxNesting ∧
    ¬ q.peek.kind.Continues

theorem expression_lowest_iff (hrules : p.rules = .standard) :
    ParseM.expression .lowest p = .ok e q ↔ p.ReadsValue e q := by
  constructor
  · intro hread
    obtain ⟨ts, n, honto, hderives, hn, hpower⟩ := expression_sound hrules (by decide) hread
    rw [honto.rules_eq, hrules, ← Kind.not_continues_iff] at hpower
    exact ⟨ts, n, honto, hderives, hn, hpower⟩
  · rintro ⟨ts, n, honto, hderives, hn, hends⟩
    rw [Kind.not_continues_iff, ← hrules, ← honto.rules_eq] at hends
    have hderives : Power.lowest.stratum.Derives ts e n := hderives
    exact (expression_fitsOrFails hrules (by omega) hderives honto hends).fits (by omega)

theorem ended_value_iff (hrules : p.rules = .standard) (finish : Expr → Statement) :
    ended (ParseM.expression .lowest) finish p = .ok s q ↔
      ∃ e mid, p.ReadsValue e mid ∧ s = finish e ∧ q = mid.pastSemicolon := by
  constructor
  · intro hread
    obtain ⟨e, mid, hvalue, rfl, rfl⟩ := ended_eq_ok hread
    exact ⟨e, mid, (expression_lowest_iff hrules).mp hvalue, rfl, rfl⟩
  · rintro ⟨e, mid, hvalue, rfl, rfl⟩
    exact ended_of_ok ((expression_lowest_iff hrules).mpr hvalue) finish

theorem ReadsValue.starts (h : p.ReadsValue e q) :
    ∃ rule, Rules.standard.start? p.current.kind = some rule := by
  obtain ⟨ts, n, honto, hderives, -⟩ := h
  obtain ⟨t, rest, rule, rfl, hstart⟩ := hderives.starts
  rw [honto.current_eq]
  exact ⟨rule, hstart⟩

/-! ## 2. Turns that read a statement -/

/-- The statement `s` is read from `p` on, and `q` stands on its last token. -/
inductive Reads (p : Parser) : Statement → Parser → Prop
  | letStatement {e : Expr} {q : Parser} (keyword : p.current.kind = .kwLet)
      (name : p.peek.kind = .identifier) (sign : p.advanced.peek.kind = .assignment)
      (value : p.advanced.advanced.advanced.ReadsValue e q) :
      Reads p (.letStatement p.current (.ofToken p.peek) (some e)) q.pastSemicolon
  | returnNothing (keyword : p.current.kind = .kwReturn)
      (ends : p.peek.kind = .semicolon ∨ p.peek.kind = .eof) :
      Reads p (.returnStatement p.current none) p.advanced.pastSemicolon
  | returnValue {e : Expr} {q : Parser} (keyword : p.current.kind = .kwReturn)
      (value : p.advanced.ReadsValue e q) :
      Reads p (.returnStatement p.current (some e)) q.pastSemicolon
  | expression {e : Expr} {q : Parser} (value : p.ReadsValue e q) :
      Reads p (.expression p.current e) q.pastSemicolon

end Parser

theorem Rules.statement?_eq_none {k : Kind} (hlet : k ≠ .kwLet) (hreturn : k ≠ .kwReturn) :
    Rules.standard.statement? k = none := by
  cases k <;> first | rfl | contradiction

/-- A kind that begins neither a statement nor an expression, and is not illegal. -/
structure Token.Kind.Stray (k : Kind) : Prop where
  not_illegal : k ≠ .illegal
  not_let : k ≠ .kwLet
  not_return : k ≠ .kwReturn
  not_start : Rules.standard.start? k = none

namespace Parser

variable {p q : Parser} {s : Statement}

theorem ofResult_eq_statement {r : EStateM.Result SyntaxError Parser Statement}
    (h : Turn.ofResult r = (.statement s, q)) : r = .ok s q := by
  cases r <;> cases h
  rfl

theorem turn_cases (hrules : p.rules = .standard) :
    (p.current.kind = .kwLet ∧
      p.turn = Turn.ofResult (letStatement (ParseM.expression .lowest) p)) ∨
    (p.current.kind = .kwReturn ∧
      p.turn = Turn.ofResult (returnStatement (ParseM.expression .lowest) p)) ∨
    (p.current.kind = .illegal ∧ p.turn = (.failed (.illegalToken p.current.literal), p)) ∨
    ((∃ rule, Rules.standard.start? p.current.kind = some rule) ∧
      p.turn = Turn.ofResult (expressionStatement (ParseM.expression .lowest) p)) ∨
    (p.current.kind.Stray ∧ p.turn = (.skipped, p)) := by
  by_cases hlet : p.current.kind = .kwLet
  · exact .inl ⟨hlet, turn_of_rule .letStatement (by rw [hrules, hlet]; rfl)⟩
  by_cases hreturn : p.current.kind = .kwReturn
  · exact .inr (.inl ⟨hreturn, turn_of_rule .returnStatement (by rw [hrules, hreturn]; rfl)⟩)
  have hrule : p.rules.statement? p.current.kind = none :=
    hrules ▸ Rules.statement?_eq_none hlet hreturn
  by_cases hillegal : p.current.kind = .illegal
  · exact .inr (.inr (.inl ⟨hillegal, turn_of_illegal hrule hillegal⟩))
  cases hstart : Rules.standard.start? p.current.kind with
  | some rule =>
    exact .inr (.inr (.inr (.inl ⟨⟨rule, rfl⟩, turn_of_start hrule hillegal (hrules ▸ hstart)⟩)))
  | none =>
    exact .inr (.inr (.inr (.inr ⟨⟨hillegal, hlet, hreturn, hstart⟩,
      turn_of_stray hrule hillegal (hrules ▸ hstart)⟩)))

theorem turn_of_let (hrules : p.rules = .standard) (hlet : p.current.kind = .kwLet)
    (hname : p.peek.kind = .identifier) (hsign : p.advanced.peek.kind = .assignment) :
    p.turn = Turn.ofResult (ended (ParseM.expression .lowest)
      (fun value => .letStatement p.current (.ofToken p.peek) (some value))
      p.advanced.advanced.advanced) := by
  rw [turn_of_rule .letStatement (by rw [hrules, hlet]; rfl), StatementRule.read,
    StatementRule.readOf, letStatement_apply hname hsign]

theorem turn_of_return {rule : StartRule} (hrules : p.rules = .standard)
    (hreturn : p.current.kind = .kwReturn)
    (hstart : Rules.standard.start? p.peek.kind = some rule) :
    p.turn = Turn.ofResult (ended (ParseM.expression .lowest)
      (fun value => .returnStatement p.current (some value)) p.advanced) := by
  -- a value starts with neither of the tokens that may stand in its place
  obtain ⟨-, -, hsemi, heof⟩ := Rules.of_start? hstart
  rw [turn_of_rule .returnStatement (by rw [hrules, hreturn]; rfl), StatementRule.read,
    StatementRule.readOf, returnStatement_of_value hsemi heof]

theorem turn_of_expression {rule : StartRule} (hrules : p.rules = .standard)
    (hstart : Rules.standard.start? p.current.kind = some rule) :
    p.turn = Turn.ofResult (ended (ParseM.expression .lowest)
      (fun value => .expression p.current value) p) := by
  obtain ⟨hrule, hillegal, -, -⟩ := Rules.of_start? hstart
  rw [turn_of_start (hrules ▸ hrule) hillegal (hrules ▸ hstart), expressionStatement_apply]

/-- **Statements.**  A turn reads a statement exactly if the tokens say so. -/
theorem turn_eq_statement_iff (hrules : p.rules = .standard) :
    p.turn = (.statement s, q) ↔ p.Reads s q := by
  constructor
  · intro hturn
    rcases turn_cases hrules with ⟨hlet, heq⟩ | ⟨hreturn, heq⟩ | ⟨-, heq⟩ | ⟨-, heq⟩ | ⟨-, heq⟩
    · have hread := ofResult_eq_statement (heq ▸ hturn)
      obtain ⟨hname, hsign⟩ := letStatement_eq_ok hread
      rw [letStatement_apply hname hsign] at hread
      obtain ⟨e, mid, hvalue, rfl, rfl⟩ :=
        (ended_value_iff (p := p.advanced.advanced.advanced) hrules _).mp hread
      exact .letStatement hlet hname hsign hvalue
    · have hread := ofResult_eq_statement (heq ▸ hturn)
      -- the value may be missing only before a semicolon or the end
      by_cases hends : p.peek.kind = .semicolon ∨ p.peek.kind = .eof
      · rw [returnStatement_of_end hends] at hread
        cases hread
        exact .returnNothing hreturn hends
      · obtain ⟨hsemi, heof⟩ := not_or.mp hends
        rw [returnStatement_of_value hsemi heof] at hread
        obtain ⟨e, mid, hvalue, rfl, rfl⟩ := (ended_value_iff (p := p.advanced) hrules _).mp hread
        exact .returnValue hreturn hvalue
    · rw [heq] at hturn
      cases hturn
    · have hread := ofResult_eq_statement (heq ▸ hturn)
      rw [expressionStatement_apply] at hread
      obtain ⟨e, mid, hvalue, rfl, rfl⟩ := (ended_value_iff hrules _).mp hread
      exact .expression hvalue
    · rw [heq] at hturn
      cases hturn
  · rintro (⟨hlet, hname, hsign, hvalue⟩ | ⟨hreturn, hends⟩ | ⟨hreturn, hvalue⟩ | hvalue)
    · rw [turn_of_let hrules hlet hname hsign,
        (ended_value_iff (p := p.advanced.advanced.advanced) hrules _).mpr ⟨_, _, hvalue, rfl, rfl⟩]
      rfl
    · rw [turn_of_rule .returnStatement (by rw [hrules, hreturn]; rfl),
        StatementRule.read, StatementRule.readOf, returnStatement_of_end hends]
      rfl
    · obtain ⟨rule, hstart⟩ := hvalue.starts
      rw [turn_of_return hrules hreturn hstart,
        (ended_value_iff (p := p.advanced) hrules _).mpr ⟨_, _, hvalue, rfl, rfl⟩]
      rfl
    · obtain ⟨rule, hstart⟩ := hvalue.starts
      rw [turn_of_expression hrules hstart,
        (ended_value_iff hrules _).mpr ⟨_, _, hvalue, rfl, rfl⟩]
      rfl

/-- A turn skips its token exactly if that is a stray one. -/
theorem turn_eq_skipped_iff (hrules : p.rules = .standard) :
    p.turn = (.skipped, q) ↔ p.current.kind.Stray ∧ q = p := by
  constructor
  · intro hturn
    -- reading by a rule gives a statement or fails
    have hresult : ∀ r, Turn.ofResult r ≠ (.skipped, q) := by
      intro r
      cases r <;> exact nofun
    rcases turn_cases hrules with ⟨-, heq⟩ | ⟨-, heq⟩ | ⟨-, heq⟩ | ⟨-, heq⟩ | ⟨hstray, heq⟩
    · exact absurd (heq ▸ hturn) (hresult _)
    · exact absurd (heq ▸ hturn) (hresult _)
    · rw [heq] at hturn
      cases hturn
    · exact absurd (heq ▸ hturn) (hresult _)
    · rw [heq] at hturn
      cases hturn
      exact ⟨hstray, rfl⟩
  · rintro ⟨hstray, rfl⟩
    have hrule : q.rules.statement? q.current.kind = none := by
      rw [hrules]
      exact Rules.statement?_eq_none hstray.not_let hstray.not_return
    exact turn_of_stray hrule hstray.not_illegal (hrules ▸ hstray.not_start)

end Parser

end LetLang
