import LetLang.Proofs.Grammar.Programs
import LetLang.Proofs.Tree.WellFormed

/-!
# Errors — each tells the truth about where reading stopped

An error is raised deep inside a statement, and by the time it is noted every open expression has
been closed.  To look at the parser as it was when the error was raised, statements are read once
more by readers that leave open what is open when an error comes.  They end in the same values and
the same errors as the readers of the parser and stop on the same tokens; only the depth behind an
error is another.  There the error can be held against the current token, the next one and the
number of open expressions.
-/

namespace LetLang

open Token ParseM

/-! ## 1. What an error tells -/

/-- The error is true of the parser `q`, on which it was raised in a turn that began on `begun`. -/
inductive SyntaxError.Tells (begun q : Parser) : SyntaxError → Prop
  | unexpectedToken {expected : Kind} (asked : expected ∈ [.identifier, .assignment, .closeParen])
      (other : q.peek.kind ≠ expected) : Tells begun q (.unexpectedToken expected q.peek.kind)
  | noExpressionStart (unset : Rules.standard.start? q.current.kind = none) :
      Tells begun q (.noExpressionStart q.current.kind)
  | illegalToken {x : Char} (kind : q.current.kind = .illegal)
      (literal : q.current.literal = String.singleton x) (begins : q = begun) :
      Tells begun q (.illegalToken (String.singleton x))
  | numberTooLarge (kind : q.current.kind = .integer)
      (numeral : Text.Decimal.isNumeral q.current.literal = true)
      (large : 2 ^ 63 - 1 < Text.Decimal.value q.current.literal.toList) :
      Tells begun q (.numberTooLarge q.current.literal)
  | nestingTooDeep (full : q.depth = maxNesting) : Tells begun q (.nestingTooDeep maxNesting)

/-! ## 2. Readers that halt where an error is raised -/

namespace Halting

/-- A computation inside one more open expression, which is closed only behind a value. -/
def nested {α : Type} (body : ParseM α) : ParseM α := do
  enterNesting
  let a ← body
  exitNesting
  return a

def expression (floor : Power) : ParseM Expr :=
  expressionIn nested floor

def statement? : ParseM (Option Statement) :=
  statementOf? (expression .lowest)

end Halting

/-! ## 3. Both stop on the same tokens -/

/-- The parser stands in a source, with `d` expressions open. -/
structure Parser.InSource (d : Nat) (p : Parser) : Prop where
  rules_eq : p.rules = .standard
  depth_eq : p.depth = d
  spelled : ∀ t ∈ p.ahead, t.Spelled

theorem Parser.InSource.skip {p : Parser} {d : Nat} (h : p.InSource d) (k : Nat) :
    (p.skip k).InSource d :=
  ⟨h.rules_eq, h.depth_eq, fun t ht => h.spelled t (List.mem_of_mem_drop ht)⟩

variable {α β : Type} {begun p : Parser} {d : Nat}

/-- Both end in the same value on the same parser, or in the same error on the same token; the
error is true of the parser on which the second stops. -/
inductive Halts (begun p : Parser) :
    EStateM.Result SyntaxError Parser α → EStateM.Result SyntaxError Parser α → Prop
  | ok (a : α) (k : Nat) : Halts begun p (.ok a (p.skip k)) (.ok a (p.skip k))
  | error {e : SyntaxError} (k depth : Nat)
      (tells : e.Tells begun { p.skip k with depth := depth }) :
      Halts begun p (.error e (p.skip k)) (.error e { p.skip k with depth := depth })

/-- Both stop on the same tokens wherever `d` expressions are open. -/
structure HaltAlike (d : Nat) (m m' : ParseM α) : Prop where
  halts {begun p : Parser} : p.InSource d → Halts begun p (m p) (m' p)

namespace Halts

theorem error_here {e : SyntaxError} (h : e.Tells begun p) :
    Halts (α := α) begun p (.error e p) (.error e p) :=
  .error 0 p.depth h

theorem from_skip {j : Nat} {r r' : EStateM.Result SyntaxError Parser α}
    (h : Halts begun (p.skip j) r r') : Halts begun p r r' := by
  cases h with
  | ok a k =>
    rw [p.skip_skip]
    exact .ok a (j + k)
  | error k depth tells =>
    rw [p.skip_skip] at tells ⊢
    exact .error (j + k) depth tells

theorem bind {m m' : ParseM α} {f f' : α → ParseM β} (h : Halts begun p (m p) (m' p))
    (hf : ∀ a k, Halts begun (p.skip k) (f a (p.skip k)) (f' a (p.skip k))) :
    Halts begun p ((m >>= f) p) ((m' >>= f') p) := by
  rw [bind_apply, bind_apply]
  cases hm : m p <;> cases hm' : m' p <;> rw [hm, hm'] at h <;> cases h
  case ok.ok a k => exact (hf a k).from_skip
  case error.error e k depth tells => exact .error k depth tells

end Halts

namespace HaltAlike

variable {operand operand' : Power → ParseM Expr} {floor : Power}

theorem bind {m m' : ParseM α} {f f' : α → ParseM β} (h : HaltAlike d m m')
    (hf : ∀ a, HaltAlike d (f a) (f' a)) : HaltAlike d (m >>= f) (m' >>= f') :=
  ⟨fun hp => (h.halts hp).bind fun a k => (hf a).halts (hp.skip k)⟩

theorem pure (a : α) : HaltAlike d (Pure.pure a) (Pure.pure a) := ⟨fun _ => .ok a 0⟩

theorem get : HaltAlike d (MonadState.get : ParseM Parser) MonadState.get := ⟨fun _ => .ok _ 0⟩

theorem advance : HaltAlike d ParseM.advance ParseM.advance := by
  refine ⟨fun {begun p} _ => ?_⟩
  rw [advance_apply, p.advanced_eq_skip]
  exact .ok _ 1

theorem skipSemicolon : HaltAlike d ParseM.skipSemicolon ParseM.skipSemicolon := by
  refine ⟨fun {begun p} _ => ?_⟩
  rw [skipSemicolon_apply, Parser.pastSemicolon]
  split
  · rw [p.advanced_eq_skip]
    exact .ok _ 1
  · exact .ok _ 0

theorem expectPeek {k : Kind} (hk : k ∈ [.identifier, .assignment, .closeParen]) :
    HaltAlike d (ParseM.expectPeek k) (ParseM.expectPeek k) := by
  refine ⟨fun {begun p} _ => ?_⟩
  by_cases hpeek : p.peek.kind = k
  · rw [expectPeek_of_kind hpeek, p.advanced_eq_skip]
    exact .ok _ 1
  · rw [ParseM.expectPeek, if_neg fun his => hpeek (is_eq_true_iff.mp his)]
    exact .error_here (.unexpectedToken hk hpeek)

theorem of_step {m : ParseM α} (h : m.Step) : HaltAlike d m m := by
  cases h with
  | get => exact .get
  | current => exact ⟨fun _ => .ok _ 0⟩
  | peekIs k => exact ⟨fun _ => .ok _ 0⟩
  | advance => exact .advance
  | expectPeek asked => exact .expectPeek asked
  | skipSemicolon => exact .skipSemicolon

theorem boundedSimulation_haltAlike (d : Nat) :
    BoundedSimulation fun α _ (m m' : ParseM α) => HaltAlike d m m' where
  toSimulation := .of_uniform (R := fun α (m m' : ParseM α) => HaltAlike d m m') of_step pure bind
  rounds := ⟨fun _ => .ok _ 0⟩
  usedUp h := h

/-- Both close the expression behind a value; behind an error only the first does. -/
theorem nested {m m' : ParseM α} (hlt : d < maxNesting) (h : HaltAlike (d + 1) m m') :
    HaltAlike d (ParseM.nested m) (Halting.nested m') := by
  refine ⟨fun {begun p} hp => ?_⟩
  obtain ⟨hrules, rfl, hspelled⟩ := hp
  have hsource : Parser.InSource (p.depth + 1) { p with depth := p.depth + 1 } :=
    ⟨hrules, rfl, hspelled⟩
  have hbody : Halts begun { p with depth := p.depth + 1 } (m { p with depth := p.depth + 1 })
    (m' { p with depth := p.depth + 1 }) := h.halts hsource
  rw [nested_of_lt hlt, Halting.nested, bind_of_ok (enterNesting_of_lt hlt), bind_apply]
  cases hm : m { p with depth := p.depth + 1 } <;>
    cases hm' : m' { p with depth := p.depth + 1 } <;> rw [hm, hm'] at hbody <;> cases hbody
  case ok.ok a k => exact .ok a k
  case error.error e k depth tells => exact .error k depth tells

/-- At the limit as many expressions are open as allowed. -/
theorem refused {m m' : ParseM α} : HaltAlike maxNesting (ParseM.nested m) (Halting.nested m') := by
  refine ⟨fun {begun p} hp => ?_⟩
  have hnot : ¬ p.depth < maxNesting := by
    rw [hp.depth_eq]
    exact Nat.lt_irrefl _
  rw [nested_of_not_lt hnot, Halting.nested, bind_of_error (enterNesting_of_not_lt hnot)]
  exact .error_here (.nestingTooDeep hp.depth_eq)

/-! ## 4. Expressions -/

theorem leaf (hp : p.InSource d) (h : Rules.standard.start? p.current.kind = some .leaf) :
    Halts begun p (ParseM.leaf p) (ParseM.leaf p) := by
  have hok : ∀ e : Expr, Halts begun p (.ok e p) (.ok e p) := fun e => .ok e 0
  unfold ParseM.leaf
  rw [bind_apply, current_apply]
  cases hkind : p.current.kind <;> rw [hkind] at h <;> simp only [hkind]
  case identifier | kwTrue | kwFalse => exact hok _
  case integer =>
    cases hvalue : Text.Decimal.int64? p.current.literal with
    | some v => exact hok _
    | none =>
      have hnumeral : Text.Decimal.isNumeral p.current.literal = true := by
        simpa only [Spelled, hkind] using Parser.spelled_current hp.spelled
      have hlarge : 2 ^ 63 - 1 < Text.Decimal.value p.current.literal.toList := by
        unfold Text.Decimal.int64? at hvalue
        split at hvalue
        · cases hvalue
        · next hnot =>
          have hle := Nat.not_lt.mp fun hlt => hnot ⟨hnumeral, hlt⟩
          omega
      exact .error_here (.numberTooLarge hkind hnumeral hlarge)
  -- no other kind is a leaf
  all_goals cases h

theorem start (h : ∀ floor, HaltAlike d (operand floor) (operand' floor)) (hp : p.InSource d)
    {rule : StartRule} (hrule : Rules.standard.start? p.current.kind = some rule) :
    Halts begun p (rule.read operand p) (rule.read operand' p) := by
  cases rule with
  | leaf => exact leaf hp hrule
  | unary =>
    have hunary : HaltAlike d (ParseM.unary operand) (ParseM.unary operand') :=
      .bind .advance fun _ => .bind (h _) fun _ => .pure _
    exact hunary.halts hp
  | group =>
    have hgroup : HaltAlike d (ParseM.group operand) (ParseM.group operand') :=
      .bind .advance fun _ => .bind (h _) fun _ => .bind (.expectPeek (by decide)) fun _ => .pure _
    exact hgroup.halts hp

theorem operation (h : ∀ floor, HaltAlike d (operand floor) (operand' floor)) (floor : Power) :
    HaltAlike d (ParseM.operation operand floor) (ParseM.operation operand' floor) := by
  refine ⟨fun {begun p} hp => ?_⟩
  cases hstart : p.rules.start? p.current.kind with
  | none =>
    rw [operation_of_none hstart, operation_of_none hstart]
    exact .error_here (.noExpressionStart (hp.rules_eq ▸ hstart))
  | some rule =>
    have hclimbing := (boundedSimulation_haltAlike d).climbing (n := 0) h floor
    -- that the rule is the one for this token is known on this parser only
    rw [operation_of_some hstart, operation_of_some hstart]
    exact (start h hp (hp.rules_eq ▸ hstart)).bind fun left k => (hclimbing left).halts (hp.skip k)

/-- With one level more than are left below the limit, a level is refused only there. -/
theorem expressionBy (levels : Nat) (hd : d ≤ maxNesting) (hlevels : maxNesting < d + levels)
    (floor : Power) :
    HaltAlike d (ParseM.expressionWithin levels floor)
      (ParseM.expressionBy Halting.nested levels floor) := by
  -- the last level that is left is the one that the limit refuses
  induction levels generalizing d floor with
  | zero => omega
  | succ levels ih =>
    by_cases hlt : d < maxNesting
    · exact .nested hlt (.operation (ih hlt (by omega)) floor)
    · obtain rfl : d = maxNesting := by omega
      exact .refused

theorem expression (hd : d ≤ maxNesting) (floor : Power) :
    HaltAlike d (ParseM.expression floor) (Halting.expression floor) := by
  refine ⟨fun {begun p} hp => ?_⟩
  have hdepth := hp.depth_eq
  exact (expressionBy (maxNesting - p.depth + 1) hd (by omega) floor).halts hp

/-! ## 5. Statements -/

variable {value value' : ParseM Expr}

/-- A turn that begins with an illegal token stops there. -/
theorem statementOf? (h : HaltAlike d value value') (hp : p.InSource d) :
    Halts p p (ParseM.statementOf? value p) (ParseM.statementOf? value' p) := by
  have hsimulation := (boundedSimulation_haltAlike d).toSimulation
  cases hrule : p.rules.statement? p.current.kind with
  | some rule =>
    have hstatement := hsimulation.statement (n := 0) h rule
    rw [statementOf?_of_rule hrule, statementOf?_of_rule hrule]
    exact (bind hstatement fun _ => .pure _).halts hp
  | none =>
    by_cases hillegal : p.current.kind = .illegal
    · obtain ⟨x, hx, -⟩ : ∃ x, p.current.literal = String.singleton x ∧ BeginsNothing x := by
        simpa only [Spelled, hillegal] using Parser.spelled_current hp.spelled
      rw [statementOf?_of_illegal hrule hillegal, statementOf?_of_illegal hrule hillegal, hx]
      exact .error_here (.illegalToken hillegal hx rfl)
    · cases hstart : p.rules.start? p.current.kind with
      | some rule =>
        have hstatement := hsimulation.expressionStatement (n := 0) h
        rw [statementOf?_of_start hrule hillegal hstart,
          statementOf?_of_start hrule hillegal hstart]
        exact (bind hstatement fun _ => .pure _).halts hp
      | none =>
        rw [statementOf?_of_stray hrule hillegal hstart,
          statementOf?_of_stray hrule hillegal hstart]
        exact .ok none 0

end HaltAlike

/-! ## 6. Failures -/

/-- An error and where it was raised. -/
structure Failure where
  error : SyntaxError
  /-- The parser on which the turn began. -/
  begun : Parser
  /-- The parser on which the error was raised. -/
  parser : Parser

namespace Failure

/-- The parser on which the turn behind the error begins. -/
def resumed (f : Failure) : Parser :=
  f.begun.turn.2.advanced

/-- The place of the token on which the error was raised among the tokens of the source. -/
def position (source : String) (f : Failure) : Nat :=
  (tokenize source).length - 1 - f.parser.ahead.length

/-- The turn ended in the error, on the tokens on which the error was raised, and the error is true
of the parser as it was then. -/
structure Sound (f : Failure) : Prop where
  turn_eq : f.begun.turn = (.failed f.error, { f.parser with depth := f.begun.depth })
  tells : f.error.Tells f.begun f.parser

theorem Sound.ahead_resumed {f : Failure} (h : f.Sound) :
    f.resumed.ahead = f.parser.ahead.tail := by
  rw [resumed, h.turn_eq]
  rfl

theorem Sound.current_resumed {f : Failure} (h : f.Sound) :
    f.resumed.current = f.parser.peek := by
  rw [Parser.current, h.ahead_resumed]
  rfl

end Failure

namespace Parser

variable {p : Parser} {f : Failure}

/-- The error of the turn that begins here, if it ends in one. -/
def failure? (p : Parser) : Option Failure :=
  match Halting.statement? p with
  | .ok _ _ => none
  | .error e q => some ⟨e, p, q⟩

/-- The errors up to the end of the tokens, in at most `rounds` turns, and where they were
raised. -/
def failuresWithin (rounds : Nat) (p : Parser) : List Failure :=
  match rounds with
  | 0 => []
  | rounds + 1 =>
    if p.current.is .eof then
      []
    else
      p.failure?.toList ++ failuresWithin rounds p.turn.2.advanced

/-- The errors up to the end of the tokens, and where they were raised. -/
def failures (p : Parser) : List Failure :=
  p.failuresWithin p.ahead.length

theorem inSource_start (source : String) : (Parser.start source).InSource 0 :=
  ⟨rfl, rfl, fun t (ht : t ∈ (Text.Cursor.start source).tokens) =>
    Lexing.spelled_of_mem_tokens (tokens_start source ▸ ht)⟩

theorem InSource.after_turn {d : Nat} (h : p.InSource d) : p.turn.2.advanced.InSource d := by
  obtain ⟨k, hk⟩ := p.exists_stop_turn
  rw [hk, advanced_eq_skip, skip_skip]
  exact h.skip _

/-- The turn has an error exactly if the reader that halts has one, and it is the same. -/
theorem failure?_spec (hp : p.InSource 0) :
    p.failure?.map Failure.error = p.turn.1.error? ∧
      ∀ f ∈ p.failure?, f.begun = p ∧ f.Sound := by
  have hhalts : Halts p p (ParseM.statement? p) (Halting.statement? p) :=
    HaltAlike.statementOf? (.expression (Nat.zero_le _) _) hp
  unfold failure?
  cases hread : ParseM.statement? p <;> cases hhalt : Halting.statement? p <;>
    rw [hread, hhalt] at hhalts <;> cases hhalts
  case ok.ok statement? k =>
    refine ⟨?_, fun f hf => absurd hf (Option.not_mem_none f)⟩
    rw [turn, hread]
    cases statement? <;> rfl
  case error.error e k depth tells =>
    -- the turn stops on the same tokens, with what it opened closed again
    have hturn : p.turn = (.failed e, p.skip k) := by
      rw [turn, hread]
      rfl
    refine ⟨by rw [hturn]; rfl, fun f hf => ?_⟩
    obtain rfl := Option.some.inj hf
    exact ⟨rfl, hturn, tells⟩

theorem failuresWithin_of_end (h : p.current.kind = .eof) (rounds : Nat) :
    p.failuresWithin rounds = [] := by
  cases rounds with
  | zero => rfl
  | succ rounds => rw [failuresWithin, if_pos (is_eq_true_iff.mpr h)]

theorem failuresWithin_of_token (h : p.current.kind ≠ .eof) (rounds : Nat) :
    p.failuresWithin (rounds + 1) =
      p.failure?.toList ++ p.turn.2.advanced.failuresWithin rounds := by
  rw [failuresWithin, if_neg fun heof => h (is_eq_true_iff.mp heof)]

theorem map_error_failuresWithin (rounds : Nat) (hp : p.InSource 0) :
    (p.failuresWithin rounds).map Failure.error =
      (p.turnsWithin rounds).1.filterMap Turn.error? := by
  induction rounds generalizing p with
  | zero => rfl
  | succ rounds ih =>
    by_cases hend : p.current.kind = .eof
    · rw [failuresWithin_of_end hend, turnsWithin_of_end hend]
      rfl
    · rw [failuresWithin_of_token hend, turnsWithin_of_token hend, List.map_append,
        ih hp.after_turn, List.filterMap_cons, ← (failure?_spec hp).1]
      cases p.failure? <;> rfl

theorem map_error_failures (hp : p.InSource 0) : p.failures.map Failure.error = p.faults := by
  rw [failures, map_error_failuresWithin _ hp, turnsWithin_eq_turns (Nat.le_refl _), faults]

/-- The turns from a failure on are among those of the program, and it is raised on tokens of the
source. -/
theorem of_mem_failuresWithin {rounds : Nat} (hp : p.InSource 0) (h : f ∈ p.failuresWithin rounds) :
    f.Sound ∧ f.parser.ahead <:+ p.ahead ∧
      ∃ before, p.turns.1 = before ++ .failed f.error :: f.resumed.turns.1 := by
  induction rounds generalizing p with
  | zero => exact absurd h List.not_mem_nil
  | succ rounds ih =>
    by_cases hend : p.current.kind = .eof
    · rw [failuresWithin_of_end hend] at h
      exact absurd h List.not_mem_nil
    · rw [failuresWithin_of_token hend] at h
      rw [turns_of_token hend]
      rcases List.mem_append.mp h with h | h
      · obtain ⟨rfl, hsound⟩ := (failure?_spec hp).2 f (Option.mem_toList.mp h)
        obtain ⟨k, hk⟩ := f.begun.exists_stop_turn
        refine ⟨hsound, ?_, [], ?_⟩
        · have hahead : f.parser.ahead = f.begun.ahead.drop k := by
            rw [hsound.turn_eq] at hk
            exact congrArg Parser.ahead hk
          rw [hahead]
          exact List.drop_suffix k _
        · rw [List.nil_append, ← Failure.resumed, hsound.turn_eq]
      · -- the failure is in one of the turns behind the first
        obtain ⟨hsound, hsuffix, before, hturns⟩ := ih hp.after_turn h
        refine ⟨hsound, hsuffix.trans p.ahead_after_turn_suffix, p.turn.1 :: before, ?_⟩
        rw [hturns]
        rfl

/-- Behind a failure fewer tokens are left. -/
theorem failuresWithin_pairwise (rounds : Nat) (hp : p.InSource 0) :
    (p.failuresWithin rounds).Pairwise
      fun f g => g.parser.ahead.length < f.parser.ahead.length := by
  induction rounds generalizing p with
  | zero => exact .nil
  | succ rounds ih =>
    by_cases hend : p.current.kind = .eof
    · rw [failuresWithin_of_end hend]
      exact .nil
    · rw [failuresWithin_of_token hend]
      refine List.pairwise_append.mpr ⟨?_, ih hp.after_turn, fun f hf g hg => ?_⟩
      · cases p.failure? with
        | none => exact .nil
        | some f => exact List.pairwise_singleton _ f
      · obtain ⟨rfl, hsound⟩ := (failure?_spec hp).2 f (Option.mem_toList.mp hf)
        have hsuffix := (of_mem_failuresWithin hp.after_turn hg).2.1
        have hle := hsuffix.length_le
        have hahead := hsound.ahead_resumed
        rw [Failure.resumed] at hahead
        rw [hahead, List.length_tail] at hle
        -- without a token left there is no turn behind the failure
        have hne : f.parser.ahead ≠ [] := by
          intro hnil
          rw [hnil] at hahead
          rw [failuresWithin_of_end (kind_of_ahead_eq_nil hahead)] at hg
          exact absurd hg List.not_mem_nil
        have hpos := List.length_pos_iff.mpr hne
        omega

theorem getElem?_zero_ahead (p : Parser) : (p.ahead ++ [Token.eof])[0]? = some p.current := by
  rw [current]
  cases p.ahead <;> rfl

theorem getElem?_one_ahead (p : Parser) :
    (p.ahead ++ [Token.eof])[1]?.getD Token.eof = p.peek := by
  rw [peek]
  rcases p.ahead with _ | ⟨t, _ | ⟨u, rest⟩⟩ <;> rfl

end Parser

namespace Failure

variable {source : String} {f g : Failure}

/-- From the place of a failure on the tokens of the source are those that were ahead, and the
end. -/
theorem getElem?_position (h : '\x00' ∉ source.toList)
    (hf : f.parser.ahead <:+ (Parser.start source).ahead) (j : Nat) :
    (tokenize source)[f.position source + j]? = (f.parser.ahead ++ [Token.eof])[j]? := by
  have hahead : (Text.Cursor.start source).tokens.drop
      ((Text.Cursor.start source).tokens.length - f.parser.ahead.length) = f.parser.ahead :=
    (List.suffix_iff_eq_drop.mp hf).symm
  rw [position, tokenize_of_no_nul h, List.length_append, List.length_singleton,
    Nat.add_sub_cancel, ← List.getElem?_drop, List.drop_append_of_le_length (Nat.sub_le _ _),
    hahead]

theorem position_lt (h : '\x00' ∉ source.toList)
    (hf : f.parser.ahead <:+ (Parser.start source).ahead)
    (hlt : g.parser.ahead.length < f.parser.ahead.length) :
    f.position source < g.position source := by
  have hle : f.parser.ahead.length ≤ (Text.Cursor.start source).tokens.length := hf.length_le
  rw [position, position, tokenize_of_no_nul h, List.length_append, List.length_singleton]
  omega

end Failure

/-- **Errors tell the truth.**  The errors of a source without U+0000 are raised one for each
failure, and each is true of the parser as it was then.  The next turn begins with the next token,
and there is none if that is the end; and the failures are on tokens further and further on. -/
theorem errors_tell_the_truth {source : String} (h : '\x00' ∉ source.toList) :
    let failures := (Parser.start source).failures
    failures.map Failure.error = (parse source).2 ∧
    (∀ f ∈ failures,
      f.error.Tells f.begun f.parser ∧
      (tokenize source)[f.position source]? = some f.parser.current ∧
      (tokenize source)[f.position source + 1]?.getD Token.eof = f.parser.peek ∧
      f.begun.turn = (.failed f.error, { f.parser with depth := f.begun.depth }) ∧
      f.resumed.current = f.parser.peek ∧
      (∃ before, (Parser.start source).turns.1 = before ++ .failed f.error :: f.resumed.turns.1) ∧
      (f.parser.peek.kind = .eof → f.resumed.turns.1 = [])) ∧
    (failures.map (Failure.position source)).Pairwise (· < ·) := by
  intro failures
  have hsource := Parser.inSource_start source
  have hsuffix : ∀ f ∈ failures, f.parser.ahead <:+ (Parser.start source).ahead :=
    fun f hf => (Parser.of_mem_failuresWithin hsource hf).2.1
  refine ⟨?_, fun f hf => ?_, ?_⟩
  · rw [parse_eq]
    exact Parser.map_error_failures hsource
  · obtain ⟨hsound, -, hturns⟩ := Parser.of_mem_failuresWithin hsource hf
    have htokens := Failure.getElem?_position h (hsuffix f hf)
    refine ⟨hsound.tells, (htokens 0).trans f.parser.getElem?_zero_ahead, ?_, hsound.turn_eq,
      hsound.current_resumed, hturns, fun hend => ?_⟩
    · rw [htokens 1, Parser.getElem?_one_ahead]
    · rw [← hsound.current_resumed] at hend
      rw [Parser.turns_of_end hend]
  · refine List.pairwise_map.mpr ((Parser.failuresWithin_pairwise _ hsource).imp_of_mem ?_)
    exact fun hf _ hlt => Failure.position_lt h (hsuffix _ hf) hlt

/-- A name that is missing, a group that is not closed, an illegal token behind it, and a number
that is too large in spite of its zero. -/
theorem errors_tell_the_truth_everywhere :
    '\x00' ∉ "let = (5 @ 09223372036854775808".toList ∧
      (Parser.start "let = (5 @ 09223372036854775808").failures.map Failure.error =
        [.unexpectedToken .identifier .assignment, .unexpectedToken .closeParen .illegal,
          .illegalToken "@", .numberTooLarge "09223372036854775808"] ∧
      ∀ f ∈ (Parser.start "let = (5 @ 09223372036854775808").failures,
        f.error.Tells f.begun f.parser := by
  have hnul : '\x00' ∉ "let = (5 @ 09223372036854775808".toList := by decide
  obtain ⟨herrors, htells, -⟩ := errors_tell_the_truth hnul
  exact ⟨hnul, herrors.trans (by decide +kernel), fun f hf => (htells f hf).1⟩

end LetLang
