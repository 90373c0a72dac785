import LetLang.Proofs.Grammar.Programs
import LetLang.Proofs.Joining.Expressions

/-!
# Turns before a mark — both runs make the same turn

The tokens of a source are read with nothing behind them, and once more with a mark and other tokens
behind them; the mark is a semicolon or an end.  Turn by turn both runs do the same until the first
comes to the end.  Where they stop differs in two ways only: a semicolon ends the last statement,
or a `return` without a value has taken the mark for the end of its statement.
-/

namespace LetLang

open Token ParseM

/-! ## 1. Behind a statement -/

namespace Parser

variable {p q : Parser} {mark : Token} {ts : List Token}

/-- The parsers on which two runs stop in the same turn. -/
inductive Stops (mark : Token) (ts : List Token) (q q' : Parser) : Prop
  | same (eq : q' = q.before (mark :: ts))
  /-- The second run has taken the semicolon that ends the statement. -/
  | onMark (semicolon : mark.kind = .semicolon) (token : q.ahead ≠ [])
      (last : q.advanced.ahead = []) (eq : q'.advanced = { q with ahead := ts })
  /-- The second run has passed the mark with a `return`, and perhaps a semicolon behind it. -/
  | pastMark (nil : q.ahead = []) (eq : q'.advanced = { q with ahead := afterSemicolon ts })

theorem stops_pastSemicolon (hq : q.Inside) (hmark : mark.Closes) :
    Stops mark ts q.pastSemicolon (q.before (mark :: ts)).pastSemicolon := by
  by_cases hlast : q.advanced.ahead = []
  · obtain ⟨hpeek, hbehind⟩ := peek_of_last hq.ne_nil hlast mark ts
    have hsame : q.pastSemicolon = q := by
      unfold pastSemicolon
      rw [hpeek]
      rfl
    rw [hsame]
    rcases hmark with hsemi | heof
    · refine .onMark hsemi hq.ne_nil hlast ?_
      rw [advanced_pastSemicolon, advanced_before hq.ne_nil, before, before, hlast,
        List.nil_append, afterSemicolon, if_pos hsemi]
    · apply Stops.same
      unfold pastSemicolon
      rw [hbehind, if_neg]
      rw [is_eq_true_iff, heof]
      decide
  · apply Stops.same
    unfold pastSemicolon
    rw [peek_before hq.ne_nil hlast, advanced_before hq.ne_nil]
    split <;> rfl

end Parser

namespace ParseM

variable {p q : Parser} {mark : Token} {ts : List Token} {floor : Power}

theorem isolated_expression (hmark : mark.Closes) (hp : p.Plain) :
    Isolated mark ts (expression floor) p := by
  unfold Isolated
  rw [expression_apply, expression_apply]
  exact isolatedOperand_expressionWithin hmark _ hp

theorem joined_ended {α : Type} {value : ParseM α} {finish : α → Statement}
    (hmark : mark.Closes) (h : Isolated mark ts value p) :
    Joined mark ts (Parser.Stops mark ts) (ended value finish p)
      (ended value finish (p.before (mark :: ts))) := by
  refine Isolated.bind h fun a q _ hq => ?_
  rw [bind_of_ok (skipSemicolon_apply q), bind_of_ok (skipSemicolon_apply _)]
  exact .ok (Parser.stops_pastSemicolon hq hmark)

theorem joined_letStatement (hp : p.Inside) (hmark : mark.Closes) :
    Joined mark ts (Parser.Stops mark ts) (letStatement (expression .lowest) p)
      (letStatement (expression .lowest) (p.before (mark :: ts))) := by
  simp only [letStatement, monadLift_self]
  rw [bind_of_ok (current_apply p), bind_of_ok (current_apply _), Parser.current_before hp.ne_nil]
  refine (isolated_expectPeek hp hmark (by decide) (by decide)).bind fun name q _ hq => ?_
  refine (isolated_expectPeek hq hmark (by decide) (by decide)).bind fun _ q _ hq => ?_
  rw [bind_of_ok (advance_apply q), bind_of_ok (advance_apply _), Parser.advanced_before hq.ne_nil]
  exact joined_ended hmark (isolated_expression hmark hq.advanced)

theorem joined_expressionStatement (hp : p.Inside) (hmark : mark.Closes) :
    Joined mark ts (Parser.Stops mark ts) (expressionStatement (expression .lowest) p)
      (expressionStatement (expression .lowest) (p.before (mark :: ts))) := by
  rw [expressionStatement_apply, expressionStatement_apply, Parser.current_before hp.ne_nil]
  exact joined_ended hmark (isolated_expression hmark hp.toPlain)

theorem joined_returnStatement (hp : p.Inside) (hmark : mark.Closes) :
    Joined mark ts (Parser.Stops mark ts) (returnStatement (expression .lowest) p)
      (returnStatement (expression .lowest) (p.before (mark :: ts))) := by
  have hcurrent := Parser.current_before hp.ne_nil (mark :: ts)
  have hnext := Parser.advanced_before hp.ne_nil (mark :: ts)
  by_cases hlast : p.advanced.ahead = []
  · obtain ⟨hpeek, hbehind⟩ := Parser.peek_of_last hp.ne_nil hlast mark ts
    rw [returnStatement_of_end (.inr (congrArg Token.kind hpeek)),
      returnStatement_of_end (by rw [hbehind]; exact hmark), hcurrent, hnext]
    -- the second run stands on the mark and may take a semicolon behind it
    have hend : p.advanced.pastSemicolon = p.advanced := by
      unfold Parser.pastSemicolon
      rw [Parser.peek, hlast]
      rfl
    rw [hend]
    refine .ok (.pastMark hlast ?_)
    rw [Parser.advanced_pastSemicolon, Parser.before, hlast]
    rfl
  · have hq := hp.advanced.inside hlast
    have hpeek := Parser.peek_before hp.ne_nil hlast (mark :: ts)
    by_cases hends : p.peek.kind = .semicolon
    · rw [returnStatement_of_end (.inl hends), returnStatement_of_end (.inl (hpeek ▸ hends)),
        hcurrent, hnext]
      exact .ok (Parser.stops_pastSemicolon hq hmark)
    · have heof := hq.current_ne_eof
      rw [returnStatement_of_value hends heof,
        returnStatement_of_value (hpeek ▸ hends) (hpeek ▸ heof), hcurrent, hnext]
      exact joined_ended hmark (isolated_expression hmark hp.advanced)

end ParseM

/-! ## 2. Turns -/

namespace Turn

/-- The turn with a token of this kind in the place of the end of the tokens. -/
def endAs (k : Kind) : Turn → Turn
  | failed e => failed (e.endAs k)
  | turn => turn

theorem statement?_endAs (k : Kind) (turn : Turn) :
    (turn.endAs k).statement? = turn.statement? := by
  cases turn <;> rfl

theorem error?_endAs (k : Kind) (turn : Turn) :
    (turn.endAs k).error? = turn.error?.map (SyntaxError.endAs k) := by
  cases turn <;> rfl

end Turn

namespace Parser

variable {p q : Parser} {mark : Token} {ts : List Token}

theorem Plain.after_turn (hp : p.Plain) : p.turn.2.advanced.Plain := by
  have hsuffix := p.ahead_after_turn_suffix
  obtain ⟨k, hk⟩ := p.exists_stop_turn
  rw [hk] at hsuffix ⊢
  exact ⟨hp.rules_eq, fun t ht => hp.no_end t (hsuffix.subset ht)⟩

/-- Two runs that have made the same turn, and whose errors are at the end only where no more
tokens are left. -/
def TurnsMeet (mark : Token) (ts : List Token) (r r' : Turn × Parser) : Prop :=
  r'.1 = r.1.endAs mark.kind ∧ Stops mark ts r.2 r'.2 ∧
    ∀ e, r.1.error? = some e → e.found? = some .eof → r.2.advanced.ahead = []

theorem turnsMeet_ofResult {r r' : EStateM.Result SyntaxError Parser Statement}
    (h : Joined mark ts (Stops mark ts) r r') :
    TurnsMeet mark ts (Turn.ofResult r) (Turn.ofResult r') := by
  cases h with
  | ok related => exact ⟨rfl, related, nofun⟩
  | @error e q at_end =>
    refine ⟨rfl, Stops.same rfl, fun e' he' hfound => ?_⟩
    cases he'
    have hlength := at_end hfound
    apply List.length_eq_zero_iff.mp
    show q.ahead.tail.length = 0
    rw [List.length_tail]
    omega

/-- Both runs make the same turn, up to the end of the tokens. -/
theorem turnsMeet_turn (hp : p.Inside) (hmark : mark.Closes) :
    TurnsMeet mark ts p.turn (p.before (mark :: ts)).turn := by
  have hcurrent := current_before hp.ne_nil (mark :: ts)
  have hrules' : (p.before (mark :: ts)).rules = .standard := hp.rules_eq
  rcases turn_cases hp.rules_eq with ⟨hkind, heq⟩ | ⟨hkind, heq⟩ | ⟨hkind, heq⟩ |
    ⟨⟨rule, hstart⟩, heq⟩ | ⟨hstray, heq⟩
  · rw [heq, turn_of_rule .letStatement (by rw [hcurrent, hkind, hrules']; rfl)]
    exact turnsMeet_ofResult (joined_letStatement hp hmark)
  · rw [heq, turn_of_rule .returnStatement (by rw [hcurrent, hkind, hrules']; rfl)]
    exact turnsMeet_ofResult (joined_returnStatement hp hmark)
  · rw [heq, turn_of_illegal (by rw [hcurrent, hkind, hrules']; rfl) (hcurrent ▸ hkind), hcurrent]
    exact ⟨rfl, Stops.same rfl, fun e he hfound => by cases he; cases hfound⟩
  · obtain ⟨hrule, hillegal, -, -⟩ := Rules.of_start? hstart
    rw [heq, turn_of_start (by rw [hcurrent, hrules', hrule]) (hcurrent ▸ hillegal)
      (by rw [hcurrent, hrules', hstart])]
    exact turnsMeet_ofResult (joined_expressionStatement hp hmark)
  · have hturn := (turn_eq_skipped_iff (q := p.before (mark :: ts)) hrules').mpr
      ⟨hcurrent ▸ hstray, rfl⟩
    rw [heq, hturn]
    exact ⟨rfl, Stops.same rfl, nofun⟩

end Parser

end LetLang
