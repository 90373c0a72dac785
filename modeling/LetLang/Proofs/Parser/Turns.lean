import LetLang.Proofs.Parser.Moves

/-!
# Turns — how a program is read statement by statement

Statements move forward as expressions do, so each turn passes a token and the turns of a program
are the first turn and the turns behind it.  For each kind of statement one lemma says what its
reading comes down to once its first tokens are there.
-/

namespace LetLang

open Token

/-! ## 1. Statements move -/

namespace ParseM

theorem Moves.expression (floor : Power) : (ParseM.expression floor).Moves :=
  .bind .get fun _ => (readsTokens_expressionWithin _).moves floor

theorem Moves.statement? : ParseM.statement?.Moves :=
  simulation_moves.statement? (n := 0) (w := ParseM.expression .lowest) (.expression _) .throw

end ParseM

/-! ## 2. One turn after the other -/

namespace Parser

open ParseM

variable {p q : Parser}

/-- The parser behind an optional semicolon. -/
def pastSemicolon (p : Parser) : Parser :=
  if p.peek.is .semicolon then p.advanced else p

theorem stop_turn (p : Parser) : p.turn.2 = ParseM.statement?.stop p := by
  unfold turn stop
  cases ParseM.statement? p <;> rfl

theorem exists_stop_turn (p : Parser) : ∃ k, p.turn.2 = p.skip k :=
  p.stop_turn ▸ Moves.statement? p

/-- A parser between two statements: it has the rules of the language, and nothing is open. -/
structure Ready (p : Parser) : Prop where
  rules_eq : p.rules = .standard
  depth_eq : p.depth = 0

theorem ready_start (source : String) : (Parser.start source).Ready := ⟨rfl, rfl⟩

theorem Ready.advanced (h : p.Ready) : p.advanced.Ready := ⟨h.rules_eq, h.depth_eq⟩

/-- A turn leaves everything but the tokens ahead as it was. -/
theorem Ready.after_turn (h : p.Ready) : p.turn.2.advanced.Ready := by
  obtain ⟨k, hk⟩ := p.exists_stop_turn
  rw [hk]
  exact ⟨h.rules_eq, h.depth_eq⟩

theorem ahead_after_turn_suffix (p : Parser) : p.turn.2.advanced.ahead <:+ p.ahead := by
  obtain ⟨k, hk⟩ := p.exists_stop_turn
  rw [hk]
  exact (List.tail_suffix _).trans (List.drop_suffix k p.ahead)

/-- A turn passes at least one token. -/
theorem length_ahead_turn_le (p : Parser) :
    p.turn.2.advanced.ahead.length ≤ p.ahead.length - 1 := by
  obtain ⟨k, hk⟩ := p.exists_stop_turn
  rw [hk, advanced_eq_skip, skip_skip, ahead_skip, List.length_drop]
  omega

theorem turnsWithin_of_end (h : p.current.kind = .eof) (rounds : Nat) :
    p.turnsWithin rounds = ([], p) := by
  cases rounds with
  | zero => rfl
  | succ rounds =>
    have hend : p.current.is .eof = true := is_eq_true_iff.mpr h
    show (if p.current.is .eof then pure [] else _ : StateM Parser (List Turn)) p = _
    rw [if_pos hend]
    rfl

theorem turnsWithin_of_token (h : p.current.kind ≠ .eof) (rounds : Nat) :
    p.turnsWithin (rounds + 1) =
      (p.turn.1 :: (p.turn.2.advanced.turnsWithin rounds).1,
        (p.turn.2.advanced.turnsWithin rounds).2) := by
  have hend : ¬ p.current.is .eof = true := fun heof => h (is_eq_true_iff.mp heof)
  show (if p.current.is .eof then pure [] else _ : StateM Parser (List Turn)) p = _
  rw [if_neg hend]
  rfl

theorem turnsWithin_rounds {rounds rounds' : Nat} (hle : p.ahead.length ≤ rounds)
    (hle' : p.ahead.length ≤ rounds') : p.turnsWithin rounds = p.turnsWithin rounds' := by
  induction rounds generalizing p rounds' with
  | zero =>
    have hend := kind_of_ahead_eq_nil (List.length_eq_zero_iff.mp (Nat.le_zero.mp hle))
    rw [turnsWithin_of_end hend, turnsWithin_of_end hend]
  | succ rounds ih =>
    by_cases hend : p.current.kind = .eof
    · rw [turnsWithin_of_end hend, turnsWithin_of_end hend]
    · have hpos := List.length_pos_iff.mpr (ahead_ne_nil_of_current hend)
      obtain ⟨rounds', rfl⟩ : ∃ n, rounds' = n + 1 := ⟨rounds' - 1, by omega⟩
      -- a turn takes a token, so one round less is still enough for the others
      have hturn := p.length_ahead_turn_le
      have hrest : p.turn.2.advanced.turnsWithin rounds = p.turn.2.advanced.turnsWithin rounds' :=
        ih (by omega) (by omega)
      rw [turnsWithin_of_token hend, turnsWithin_of_token hend, hrest]

theorem turnsWithin_eq_turns {rounds : Nat} (hle : p.ahead.length ≤ rounds) :
    p.turnsWithin rounds = p.turns :=
  turnsWithin_rounds hle (Nat.le_succ _)

theorem turns_of_end (h : p.current.kind = .eof) : p.turns = ([], p) :=
  turnsWithin_of_end h _

/-- The turns are the first one and those behind the token on which it stops. -/
theorem turns_of_token (h : p.current.kind ≠ .eof) :
    p.turns = (p.turn.1 :: p.turn.2.advanced.turns.1, p.turn.2.advanced.turns.2) := by
  have hturn := p.length_ahead_turn_le
  have hrest : p.turn.2.advanced.ahead.length ≤ p.ahead.length := by omega
  rw [← turnsWithin_eq_turns hrest]
  exact turnsWithin_of_token h _

theorem exists_last_turnsWithin (rounds : Nat) (p : Parser) :
    ∃ k, (p.turnsWithin rounds).2 = p.skip k := by
  induction rounds generalizing p with
  | zero => exact ⟨0, rfl⟩
  | succ rounds ih =>
    by_cases hend : p.current.kind = .eof
    · exact ⟨0, by rw [turnsWithin_of_end hend, skip_zero]⟩
    · obtain ⟨j, hj⟩ := p.exists_stop_turn
      obtain ⟨k, hk⟩ := ih p.turn.2.advanced
      refine ⟨j + (1 + k), ?_⟩
      rw [turnsWithin_of_token hend]
      show (p.turn.2.advanced.turnsWithin rounds).2 = _
      rw [hk, hj, advanced_eq_skip, skip_skip, skip_skip]

theorem exists_last_turns (p : Parser) : ∃ k, p.turns.2 = p.skip k :=
  exists_last_turnsWithin _ p

/-- The statements that are read to the end of the tokens. -/
def statements (p : Parser) : List Statement :=
  p.turns.1.filterMap Turn.statement?

/-- The errors that are met up to the end of the tokens. -/
def faults (p : Parser) : List SyntaxError :=
  p.turns.1.filterMap Turn.error?

theorem statements_of_end (h : p.current.kind = .eof) : p.statements = [] := by
  rw [statements, turns_of_end h, List.filterMap_nil]

theorem faults_of_end (h : p.current.kind = .eof) : p.faults = [] := by
  rw [faults, turns_of_end h, List.filterMap_nil]

theorem statements_of_token (h : p.current.kind ≠ .eof) :
    p.statements = p.turn.1.statement?.toList ++ p.turn.2.advanced.statements := by
  rw [statements, turns_of_token h, List.filterMap_cons]
  cases p.turn.1.statement? <;> rfl

theorem faults_of_token (h : p.current.kind ≠ .eof) :
    p.faults = p.turn.1.error?.toList ++ p.turn.2.advanced.faults := by
  rw [faults, turns_of_token h, List.filterMap_cons]
  cases p.turn.1.error? <;> rfl

/-- Every turn is one that is read somewhere ahead, before an end. -/
theorem exists_turn_of_mem {t : Turn} (h : t ∈ p.turns.1) :
    ∃ k, (p.skip k).current.kind ≠ .eof ∧ (p.skip k).turn.1 = t := by
  induction hlen : p.ahead.length using Nat.strongRecOn generalizing p with
  | ind n ih =>
    by_cases hend : p.current.kind = .eof
    · rw [turns_of_end hend] at h
      exact absurd h List.not_mem_nil
    · rw [turns_of_token hend] at h
      rcases List.mem_cons.mp h with rfl | h
      · exact ⟨0, hend, rfl⟩
      · -- the turn is one of those behind the first, which are read further on
        obtain ⟨j, hj⟩ := p.exists_stop_turn
        have hturn := p.length_ahead_turn_le
        have hpos := List.length_pos_iff.mpr (ahead_ne_nil_of_current hend)
        obtain ⟨k, htoken, hk⟩ := ih _ (by omega) h rfl
        rw [hj, advanced_eq_skip, skip_skip, skip_skip] at htoken hk
        exact ⟨_, htoken, hk⟩

theorem exists_turn_of_mem_statements {s : Statement} (h : s ∈ p.statements) :
    ∃ k q, (p.skip k).turn = (.statement s, q) := by
  obtain ⟨turn, hmem, hs⟩ := List.mem_filterMap.mp h
  obtain ⟨k, -, hturn⟩ := exists_turn_of_mem hmem
  cases turn <;> cases hs
  exact ⟨k, _, Prod.ext hturn rfl⟩

end Parser

theorem parse_eq (source : String) :
    parse source = (⟨(Parser.start source).statements⟩, (Parser.start source).faults) := by
  -- the turns note no errors in the parser, which had none at the start
  obtain ⟨k, hk⟩ := (Parser.start source).exists_last_turns
  show (_, (Parser.start source).turns.2.errors ++ _) = _
  rw [hk]
  rfl

/-! ## 3. Turns by their first token -/

namespace ParseM

variable {value : ParseM Expr} {p : Parser}

theorem statementOf?_of_rule {rule : StatementRule}
    (h : p.rules.statement? p.current.kind = some rule) :
    statementOf? value p = (rule.readOf value >>= fun s => pure (some s)) p := by
  simp only [statementOf?, monadLift_self, bind_apply, get_apply, h]

theorem statementOf?_of_illegal (hrule : p.rules.statement? p.current.kind = none)
    (h : p.current.kind = .illegal) :
    statementOf? value p = .error (.illegalToken p.current.literal) p := by
  simp only [statementOf?, monadLift_self, bind_apply, get_apply, hrule, is_eq_true_iff.mpr h,
    if_true, throw_apply]

theorem statementOf?_of_start {rule : StartRule}
    (hrule : p.rules.statement? p.current.kind = none) (hillegal : p.current.kind ≠ .illegal)
    (h : p.rules.start? p.current.kind = some rule) :
    statementOf? value p = (expressionStatement value >>= fun s => pure (some s)) p := by
  simp only [statementOf?, monadLift_self, bind_apply, get_apply, hrule,
    is_eq_false_iff.mpr hillegal, Bool.false_eq_true, if_false, h, Option.isSome_some, if_true]

theorem statementOf?_of_stray (hrule : p.rules.statement? p.current.kind = none)
    (hillegal : p.current.kind ≠ .illegal) (h : p.rules.start? p.current.kind = none) :
    statementOf? value p = .ok none p := by
  simp only [statementOf?, monadLift_self, bind_apply, get_apply, hrule,
    is_eq_false_iff.mpr hillegal, Bool.false_eq_true, if_false, h, Option.isSome_none, pure_apply]

end ParseM

/-- What comes of a turn that reads a statement. -/
def Turn.ofResult : EStateM.Result SyntaxError Parser Statement → Turn × Parser
  | .ok s q => (.statement s, q)
  | .error e q => (.failed e, q)

namespace Parser

open ParseM

variable {p q : Parser}

theorem turn_of_statement {read : ParseM Statement}
    (h : ParseM.statement? p = (read >>= fun s => pure (some s)) p) :
    p.turn = Turn.ofResult (read p) := by
  rw [turn, h, bind_apply]
  cases read p <;> rfl

theorem turn_of_rule (rule : StatementRule)
    (h : p.rules.statement? p.current.kind = some rule) : p.turn = Turn.ofResult (rule.read p) :=
  turn_of_statement (statementOf?_of_rule h)

theorem turn_of_illegal (hrule : p.rules.statement? p.current.kind = none)
    (h : p.current.kind = .illegal) :
    p.turn = (.failed (.illegalToken p.current.literal), p) := by
  rw [turn, ParseM.statement?, statementOf?_of_illegal hrule h]
  rfl

theorem turn_of_start {rule : StartRule} (hrule : p.rules.statement? p.current.kind = none)
    (hillegal : p.current.kind ≠ .illegal) (h : p.rules.start? p.current.kind = some rule) :
    p.turn = Turn.ofResult (expressionStatement (expression .lowest) p) :=
  turn_of_statement (statementOf?_of_start hrule hillegal h)

theorem turn_of_stray (hrule : p.rules.statement? p.current.kind = none)
    (hillegal : p.current.kind ≠ .illegal) (h : p.rules.start? p.current.kind = none) :
    p.turn = (.skipped, p) := by
  rw [turn, ParseM.statement?, statementOf?_of_stray hrule hillegal h]
  rfl

end Parser

/-! ## 4. Statements behind their first tokens -/

namespace ParseM

variable {α β : Type} {value : ParseM Expr} {p q : Parser}

theorem skipSemicolon_apply (p : Parser) : skipSemicolon p = .ok () p.pastSemicolon := by
  unfold skipSemicolon Parser.pastSemicolon
  split <;> rfl

/-- A value and the semicolon that may stand behind it. -/
def ended (value : ParseM α) (finish : α → β) : ParseM β := do
  let a ← value
  skipSemicolon
  return finish a

theorem ended_of_ok {value : ParseM α} {a : α} (h : value p = .ok a q) (finish : α → β) :
    ended value finish p = .ok (finish a) q.pastSemicolon := by
  rw [ended, bind_apply, h]
  simp only [bind_apply, skipSemicolon_apply, pure_apply]

theorem ended_of_error {value : ParseM α} {e : SyntaxError} (h : value p = .error e q)
    (finish : α → β) : ended value finish p = .error e q := by
  rw [ended, bind_apply, h]

theorem ended_eq_ok {value : ParseM α} {finish : α → β} {b : β}
    (h : ended value finish p = .ok b q) :
    ∃ a mid, value p = .ok a mid ∧ b = finish a ∧ q = mid.pastSemicolon := by
  cases hvalue : value p with
  | ok a mid =>
    rw [ended_of_ok hvalue] at h
    cases h
    exact ⟨a, mid, rfl, rfl, rfl⟩
  | error e mid =>
    rw [ended_of_error hvalue] at h
    cases h

theorem letStatement_apply (hname : p.peek.kind = .identifier)
    (hassign : p.advanced.peek.kind = .assignment) :
    letStatement value p =
      ended value (fun value => .letStatement p.current (.ofToken p.peek) (some value))
        p.advanced.advanced.advanced := by
  simp only [letStatement, monadLift_self]
  rw [bind_of_ok (current_apply p), bind_of_ok (expectPeek_of_kind hname),
    bind_of_ok (expectPeek_of_kind hassign), bind_of_ok (advance_apply _)]
  rfl

theorem letStatement_eq_ok {s : Statement} (h : letStatement value p = .ok s q) :
    p.peek.kind = .identifier ∧ p.advanced.peek.kind = .assignment := by
  simp only [letStatement, monadLift_self] at h
  rw [bind_of_ok (current_apply p)] at h
  obtain ⟨name, mid, hname, h⟩ := bind_eq_ok h
  obtain ⟨hkind, -, rfl⟩ := expectPeek_eq_ok hname
  obtain ⟨_, _, hassign, -⟩ := bind_eq_ok h
  exact ⟨hkind, (expectPeek_eq_ok hassign).1⟩

theorem returnStatement_of_end
    (h : p.peek.kind = .semicolon ∨ p.peek.kind = .eof) :
    returnStatement value p = .ok (.returnStatement p.current none) p.advanced.pastSemicolon := by
  have hends : (p.peek.is .semicolon || p.peek.is .eof) = true := by
    rw [Bool.or_eq_true, is_eq_true_iff, is_eq_true_iff]
    exact h
  have hvalue : returnValue? value p.advanced = .ok none p.advanced := by
    simp only [returnValue?, monadLift_self, bind_apply, current_apply, Parser.current_advanced,
      hends, if_true, pure_apply]
  exact ended_of_ok hvalue _

theorem returnStatement_of_value (hsemi : p.peek.kind ≠ .semicolon) (heof : p.peek.kind ≠ .eof) :
    returnStatement value p =
      ended value (fun value => .returnStatement p.current (some value)) p.advanced := by
  have hends : (p.peek.is .semicolon || p.peek.is .eof) = false := by
    rw [is_eq_false_iff.mpr hsemi, is_eq_false_iff.mpr heof]
    rfl
  have hvalue : returnValue? value p.advanced =
      (value >>= fun value => pure (some value)) p.advanced := by
    simp only [returnValue?, monadLift_self, bind_apply, current_apply, Parser.current_advanced,
      hends, Bool.false_eq_true, if_false]
  simp only [returnStatement, monadLift_self]
  rw [bind_of_ok (advance_apply p), bind_apply, hvalue]
  cases hread : value p.advanced with
  | ok e q =>
    rw [bind_of_ok hread, ended_of_ok hread]
    simp only [pure_apply, bind_apply, skipSemicolon_apply]
  | error e q => rw [bind_of_error hread, ended_of_error hread]

theorem expressionStatement_apply (p : Parser) :
    expressionStatement value p =
      ended value (fun value => .expression p.current value) p := rfl

end ParseM

/-! ## 5. Errors where they are raised -/

/-- An error, and the parser on which it was raised. -/
structure Raised where
  error : SyntaxError
  parser : Parser

namespace Parser

variable {p : Parser}

/-- The errors up to the end of the tokens, in at most `rounds` turns, each with the parser on
which it was raised: a turn that fails stops there. -/
def raisedWithin (rounds : Nat) (p : Parser) : List Raised :=
  match rounds with
  | 0 => []
  | rounds + 1 =>
    if p.current.is .eof then
      []
    else
      (p.turn.1.error?.map fun e => ⟨e, p.turn.2⟩).toList ++
        raisedWithin rounds p.turn.2.advanced

/-- The errors up to the end of the tokens, each with the parser on which it was raised. -/
def raised (p : Parser) : List Raised :=
  p.raisedWithin p.ahead.length

theorem raisedWithin_of_end (h : p.current.kind = .eof) (rounds : Nat) :
    p.raisedWithin rounds = [] := by
  cases rounds with
  | zero => rfl
  | succ rounds => rw [raisedWithin, if_pos (is_eq_true_iff.mpr h)]

theorem raisedWithin_of_token (h : p.current.kind ≠ .eof) (rounds : Nat) :
    p.raisedWithin (rounds + 1) =
      (p.turn.1.error?.map fun e => ⟨e, p.turn.2⟩).toList ++
        p.turn.2.advanced.raisedWithin rounds := by
  rw [raisedWithin, if_neg fun heof => h (is_eq_true_iff.mp heof)]

theorem map_error_raisedWithin (rounds : Nat) (p : Parser) :
    (p.raisedWithin rounds).map Raised.error =
      (p.turnsWithin rounds).1.filterMap Turn.error? := by
  induction rounds generalizing p with
  | zero => rfl
  | succ rounds ih =>
    by_cases hend : p.current.kind = .eof
    · rw [raisedWithin_of_end hend, turnsWithin_of_end hend]
      rfl
    · rw [raisedWithin_of_token hend, turnsWithin_of_token hend, List.map_append, ih,
        List.filterMap_cons]
      cases p.turn.1.error? <;> rfl

/-- These are the errors that are met, in their order. -/
theorem map_error_raised (p : Parser) : p.raised.map Raised.error = p.faults := by
  rw [raised, map_error_raisedWithin, turnsWithin_eq_turns (Nat.le_refl _), faults]

end Parser

end LetLang
