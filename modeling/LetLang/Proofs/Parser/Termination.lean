import LetLang.Proofs.Parser.Turns

/-!
# Termination — reading ends, whatever rules are set

Here the readers run without the bounds of the parser: loops go round as long as their condition
holds, and expressions open expressions as long as the depth allows it.  All that limits them is
a number of calls, which is that of the rounds a loop may take and of the levels that may be opened
inside each other; where the calls are not enough there is no result.  A reader ends if some number
of calls is enough, and every larger number gives the same.  The readers of the parser, which count
levels and rounds, turn out to do exactly what these do, so these always end.

Rules may be set for every kind, the end of the tokens included, so tokens alone are no measure:
past the last one they do not get fewer.  What ends is shown in two layers.  A level is opened only
while the depth is below the limit; within a level each round of a loop has read an operand, and
no operand can be read where no token is left.
-/

namespace LetLang

open Token ParseM

/-! ## 1. Readers that are bounded by calls alone -/

/-- A computation on a parser that has so many calls, and no result where they run out. -/
abbrev Calling := ReaderT Nat (StateT Parser Option)

/-- A computation on a parser that may run out of calls or end in a syntax error. -/
abbrev Unbounded := ExceptT SyntaxError Calling

/-- A loop may take as many rounds as there are calls. -/
instance : Bounds Calling where
  rounds calls := pure calls
  usedUp _ _ _ := none

instance : Bounds Unbounded where
  rounds := ExceptT.lift Bounds.rounds
  usedUp _ _ _ := none

namespace Unbounded

variable {α β : Type}

/-- A computation that takes no calls. -/
def lift (m : ParseM α) : Unbounded α := fun _ p => some (outcome (m p))

instance : MonadLift ParseM Unbounded := ⟨lift⟩

/-- The level is closed whether the body ends in a value or in an error. -/
def closing (body : Unbounded α) : Unbounded α :=
  (do
    let result ← ExceptT.run body
    modify fun p => { p with depth := p.depth - 1 }
    return result : Calling (Except SyntaxError α))

def nested (body : Unbounded α) : Unbounded α := do
  enterNesting
  closing body

/-- The levels that are opened inside each other take a call each. -/
def expression (floor : Power) : Unbounded Expr := do
  expressionBy nested (← Bounds.rounds) floor

def statement? : Unbounded (Option Statement) :=
  statementOf? (expression .lowest)

def turn : Calling Turn :=
  Turn.ofOutcome <$> ExceptT.run statement?

def program : Calling Program :=
  Turn.program (Turn.upToEnd turn)

/-! ## 2. More calls -/

/-- Wherever the first computation has a result, it is that of the second. -/
def Below (v w : Unbounded α) : Prop :=
  ∀ calls p r, v calls p = some r → w calls p = some r

variable {p q : Parser} {v w : Unbounded α} {v' w' : α → Unbounded β}

theorem bind_of_value {calls : Nat} {a : α} (h : w calls p = some (.ok a, q))
    (w' : α → Unbounded β) : (w >>= w') calls p = w' a calls q := by
  show (w calls p).bind _ = _
  rw [h]
  rfl

theorem bind_of_failure {calls : Nat} {e : SyntaxError} (h : w calls p = some (.error e, q))
    (w' : α → Unbounded β) : (w >>= w') calls p = some (.error e, q) := by
  show (w calls p).bind _ = _
  rw [h]
  rfl

theorem Below.refl (w : Unbounded α) : Below w w := fun _ _ _ h => h

theorem below_usedUp (v w : Unbounded α) : Below (Bounds.usedUp v) w :=
  fun _ _ _ h => nomatch h

theorem Below.bind (h : Below v w) (h' : ∀ a, Below (v' a) (w' a)) :
    Below (v >>= v') (w >>= w') := by
  intro calls p r hr
  -- a result of the whole is one of the first part, and one of what follows it
  obtain ⟨⟨result, q⟩, hv, hrest⟩ := Option.bind_eq_some_iff.mp hr
  refine Option.bind_eq_some_iff.mpr ⟨_, h calls p _ hv, ?_⟩
  cases result with
  | ok a => exact h' a calls q r hrest
  | error e => exact hrest

theorem boundedSimulation_below :
    BoundedSimulation fun α _ (v w : Unbounded α) => Below v w where
  toSimulation := .of_uniform (R := fun α (v w : Unbounded α) => Below v w)
    (fun _ => .refl _) (fun _ => .refl _) .bind
  rounds := .refl _
  usedUp _ := below_usedUp _ _

theorem Below.nested (h : Below v w) : Below (Unbounded.nested v) (Unbounded.nested w) := by
  refine .bind (.refl _) fun _ calls p r hr => ?_
  obtain ⟨result, hv, hclosed⟩ := Option.bind_eq_some_iff.mp hr
  exact Option.bind_eq_some_iff.mpr ⟨result, h calls p _ hv, hclosed⟩

section

variable {operand : Power → Unbounded Expr} {floor : Power}

/-- A level more gives the same result, if there is one. -/
theorem below_expressionBy (levels : Nat) (floor : Power) :
    Below (expressionBy nested levels floor) (expressionBy nested (levels + 1) floor) := by
  induction levels generalizing floor with
  | zero => exact below_usedUp _ _
  | succ levels ih =>
    exact .nested (boundedSimulation_below.operation (n := 0) (.refl _) (fun _ => .refl _) ih floor)

theorem below_moreArguments (rounds : Nat) :
    Below (moreArguments operand rounds) (moreArguments operand (rounds + 1)) := by
  induction rounds with
  | zero => exact below_usedUp _ _
  | succ rounds ih =>
    refine .bind (.refl _) fun comma => ?_
    cases comma with
    | false => exact .refl _
    | true =>
      exact .bind (.refl _) fun _ => .bind (.refl _) fun _ => .bind (.refl _) fun _ =>
        .bind ih fun _ => .refl _

theorem below_climb (rounds : Nat) (left : Expr) :
    Below (climb operand floor rounds left) (climb operand floor (rounds + 1) left) := by
  induction rounds generalizing left with
  | zero => exact below_usedUp _ _
  | succ rounds ih =>
    refine .bind (.refl _) fun p => ?_
    cases p.follow? floor with
    | none => exact .refl _
    | some follow => exact .bind (.refl _) fun _ => .bind (.refl _) fun _ => ih _

end

/-! ## 3. Computations that end -/

/-- Some number of calls is enough, and every larger number gives this result. -/
def EndsWith {ρ : Type} (w : Nat → Parser → Option (ρ × Parser)) (p : Parser) (r : ρ × Parser) :
    Prop :=
  ∃ n, ∀ calls ≥ n, w calls p = some r

/-- From `p` on the one computation ends, and as the other does. -/
def EndsAs (w : Unbounded α) (m : ParseM α) (p : Parser) : Prop :=
  EndsWith w p (outcome (m p))

variable {m : ParseM α} {m' : α → ParseM β} {d : Nat}

theorem endsAs_lift (m : ParseM α) (p : Parser) : EndsAs (lift m) m p :=
  ⟨0, fun _ _ => rfl⟩

/-- The second computation has to end only where the first one stops with a value. -/
theorem EndsAs.bind (h : EndsAs w m p)
    (h' : ∀ a q, m p = .ok a q → EndsAs (w' a) (m' a) q) : EndsAs (w >>= w') (m >>= m') p := by
  obtain ⟨n, hn⟩ := h
  cases hm : m p with
  | ok a q =>
    rw [hm] at hn
    -- the larger number is enough for both
    obtain ⟨n', hn'⟩ := h' a q hm
    refine ⟨max n n', fun calls hcalls => ?_⟩
    rw [bind_of_ok hm]
    exact (bind_of_value (hn calls (by omega)) _).trans (hn' calls (by omega))
  | error e q =>
    rw [hm] at hn
    refine ⟨n, fun calls hcalls => ?_⟩
    rw [bind_of_error hm]
    exact bind_of_failure (hn calls hcalls) _

/-- What ends in some number of rounds ends in as many as there are calls, if rounds more make no
difference. -/
theorem EndsAs.of_rounds {w : Nat → Unbounded α}
    (hmore : ∀ rounds, Below (w rounds) (w (rounds + 1))) {k : Nat} (h : EndsAs (w k) m p) :
    EndsAs (Bounds.rounds >>= w) m p := by
  obtain ⟨n, hn⟩ := h
  -- the calls are the rounds, so they have to be enough for both
  have hall : ∀ rounds ≥ k, Below (w k) (w rounds) := by
    intro rounds hrounds
    induction hrounds with
    | refl => exact .refl _
    | step _ ih => exact fun calls p r hr => hmore _ calls p r (ih calls p r hr)
  refine ⟨max n k, fun calls hcalls => ?_⟩
  exact hall calls (by omega) calls p _ (hn calls (by omega))

/-- At depth `d` the one computation ends as the other does, and that only passes tokens. -/
structure Ends (d : Nat) (w : Unbounded α) (m : ParseM α) : Prop where
  moves : m.Moves
  ends {p : Parser} : p.depth = d → EndsAs w m p

theorem Ends.lift (h : m.Moves) : Ends d (lift m) m := ⟨h, fun _ => endsAs_lift m _⟩

theorem Ends.depth_of_ok (h : Ends d w m) {a : α} (hm : m p = .ok a q) (hp : p.depth = d) :
    q.depth = d := by
  obtain ⟨k, rfl⟩ := h.moves.of_ok hm
  exact hp

theorem Ends.bind (h : Ends d w m) (h' : ∀ a, Ends d (w' a) (m' a)) :
    Ends d (w >>= w') (m >>= m') where
  moves := h.moves.bind fun a => (h' a).moves
  ends hp := (h.ends hp).bind fun a _ hm => (h' a).ends (h.depth_of_ok hm hp)

theorem simulation_ends (d : Nat) :
    Simulation fun α _ (w : Unbounded α) (m : ParseM α) => Ends d w m :=
  .of_uniform (R := fun α (w : Unbounded α) (m : ParseM α) => Ends d w m)
    (fun hstep => .lift hstep.moves) (fun a => .lift (.pure a)) .bind

/-! ## 4. Rules and loops -/

/-- What the rules need of the ways to read an operand at depth `d`: the one ends as the other does,
and that reads tokens. -/
structure Operand (d : Nat) (f : Power → Unbounded Expr) (operand : Power → ParseM Expr) :
    Prop extends ReadsTokens operand where
  ends (floor : Power) : Ends d (f floor) (operand floor)

section

variable {f : Power → Unbounded Expr} {operand : Power → ParseM Expr} {floor : Power}

/-- Each comma is a token, so the arguments behind commas end. -/
theorem endsAs_moreArguments (h : Operand d f operand) {rounds : Nat} (hp : p.depth = d)
    (hlt : p.ahead.length < rounds) :
    EndsAs (moreArguments f rounds) (moreArguments operand rounds) p := by
  induction rounds generalizing p with
  | zero => exact absurd hlt (Nat.not_lt_zero _)
  | succ rounds ih =>
    refine (endsAs_lift (peekIs _) p).bind fun comma q hpeek => ?_
    obtain ⟨hcomma, rfl⟩ := EStateM.Result.ok.inj hpeek
    cases comma with
    | false => exact endsAs_lift (pure _) p
    | true =>
      refine (endsAs_lift advance p).bind fun _ _ hfirst => ?_
      cases hfirst
      refine (endsAs_lift advance _).bind fun _ _ hsecond => ?_
      cases hsecond
      refine ((h.ends _).ends (p := p.advanced.advanced) hp).bind fun argument q hread => ?_
      -- the comma was ahead, and now it is passed
      have hne : p.advanced.ahead ≠ [] :=
        Parser.ahead_ne_nil_of_peek (is_eq_true_iff.mp hcomma ▸ by decide)
      have hpos := List.length_pos_iff.mpr hne
      obtain ⟨k, rfl⟩ := (h.moves _).of_ok hread
      have hskip := p.advanced.advanced.length_ahead_skip_le k
      simp only [Parser.ahead_advanced, List.length_tail] at hpos hskip
      refine EndsAs.bind (ih (p := p.advanced.advanced.skip k) hp (by omega)) fun _ q _ => ?_
      exact endsAs_lift (pure _) q

theorem ends_argumentList (h : Operand d f operand) :
    Ends d (argumentList f) (argumentList operand) := by
  refine ⟨.argumentList h.moves, fun hp => ?_⟩
  refine ((h.ends _).ends hp).bind fun argument q hread => ?_
  have hq := (h.ends _).depth_of_ok hread hp
  refine .of_rounds (fun rounds => .bind (below_moreArguments rounds) fun _ => .refl _)
    (k := q.rounds) ?_
  exact (endsAs_moreArguments h hq (Nat.lt_succ_self _)).bind fun _ q _ => endsAs_lift (pure _) q

theorem ends_follow (h : Operand d f operand) (power : Power) (left : Expr) (rule : FollowRule) :
    Ends d (rule.read f power left) (rule.read operand power left) :=
  (simulation_ends d).follow (n := 0) h.ends (ends_argumentList h) power left rule

/-- Each operator that is read to an end takes a token, so a chain of operators ends. -/
theorem endsAs_climb (h : Operand d f operand) {rounds : Nat} (hp : p.depth = d)
    (hlt : p.ahead.length < rounds) (left : Expr) :
    EndsAs (climb f floor rounds left) (climb operand floor rounds left) p := by
  induction rounds generalizing p left with
  | zero => exact absurd hlt (Nat.not_lt_zero _)
  | succ rounds ih =>
    refine (endsAs_lift get p).bind fun _ _ hget => ?_
    cases hget
    cases p.follow? floor with
    | none => exact endsAs_lift (pure _) p
    | some follow =>
      obtain ⟨power, rule⟩ := follow
      refine (endsAs_lift advance p).bind fun _ _ hnext => ?_
      cases hnext
      have hfollow := ends_follow h power left rule
      refine (hfollow.ends (p := p.advanced) hp).bind fun longer q hread => ?_
      have hshorter := length_ahead_lt_of_follow h.toReadsTokens hread
      exact ih (hfollow.depth_of_ok hread hp) (by omega) longer

theorem ends_climbing (h : Operand d f operand) (left : Expr) :
    Ends d (climbing f floor left) (climbing operand floor left) := by
  refine ⟨.climbing h.moves left, fun {p} hp => ?_⟩
  exact .of_rounds (fun rounds => below_climb rounds left) (k := p.rounds)
    (endsAs_climb h hp (Nat.lt_succ_self _) left)

theorem ends_operation (h : Operand d f operand) (floor : Power) :
    Ends d (operation f floor) (operation operand floor) :=
  (simulation_ends d).operation (n := 0) (.lift .leaf) (fun e => .lift (.throw e)) h.ends
    (ends_climbing h)

end

/-! ## 5. Whole expressions -/

/-- Below the limit a level is opened, and closed behind a body that ends. -/
theorem Ends.nested (hlt : d < maxNesting) (h : Ends (d + 1) w m) :
    Ends d (Unbounded.nested w) (ParseM.nested m) := by
  refine ⟨h.moves.nested, fun {p} hp => ?_⟩
  subst hp
  refine (endsAs_lift enterNesting p).bind fun _ q hq => ?_
  rw [enterNesting_of_lt hlt] at hq
  cases hq
  obtain ⟨n, hn⟩ := h.ends (p := { p with depth := p.depth + 1 }) rfl
  refine ⟨n, fun calls hcalls => ?_⟩
  show (w calls _).bind (fun r => some (r.1, { r.2 with depth := r.2.depth - 1 })) = _
  rw [hn calls hcalls]
  simp only [tryFinally, MonadFinally.tryFinally', Functor.map, EStateM.map, exitNesting]
  cases m { p with depth := p.depth + 1 } <;> rfl

/-- At the limit opening the level fails, so the body is not run. -/
theorem Ends.refused (h : m.Moves) : Ends maxNesting (Unbounded.nested w) (ParseM.nested m) := by
  refine ⟨h.nested, fun {p} hp => ?_⟩
  have hnot : ¬ p.depth < maxNesting := hp ▸ Nat.lt_irrefl _
  refine (endsAs_lift enterNesting p).bind fun _ q hq => ?_
  rw [enterNesting_of_not_lt hnot] at hq
  cases hq

/-- With one level more than are left below the limit, expressions end. -/
theorem operand_expressionBy (levels : Nat) (hd : d ≤ maxNesting)
    (hlevels : maxNesting < d + levels) :
    Operand d (expressionBy nested levels) (expressionWithin levels) := by
  -- the levels never run out: where the last one is left, the limit refuses it
  induction levels generalizing d with
  | zero => omega
  | succ levels ih =>
    refine ⟨readsTokens_expressionWithin (levels + 1), fun floor => ?_⟩
    by_cases hlt : d < maxNesting
    · exact .nested hlt (ends_operation (ih hlt (by omega)) floor)
    · obtain rfl : d = maxNesting := by omega
      exact .refused (.operation (readsTokens_expressionWithin levels).moves)

theorem ends_expression (hd : d ≤ maxNesting) (floor : Power) :
    Ends d (expression floor) (ParseM.expression floor) := by
  refine ⟨.expression floor, fun {p} hp => ?_⟩
  subst hp
  have hoperand := operand_expressionBy (maxNesting - p.depth + 1) hd (by omega)
  exact .of_rounds (fun levels => below_expressionBy levels floor)
    ((hoperand.ends floor).ends rfl)

/-! ## 6. Statements and programs -/

theorem ends_statement? (hd : d ≤ maxNesting) : Ends d statement? ParseM.statement? :=
  (simulation_ends d).statement? (n := 0) (ends_expression hd .lowest) fun e => .lift (.throw e)

theorem endsWith_turn (h : p.depth ≤ maxNesting) : EndsWith turn p p.turn := by
  obtain ⟨n, hn⟩ := (ends_statement? h).ends (p := p) rfl
  refine ⟨n, fun calls hcalls => ?_⟩
  show (statement? calls p).bind (fun r => some (Turn.ofOutcome r.1, r.2)) = _
  rw [hn calls hcalls]
  rfl

/-- Every turn passes a token, so the turns end. -/
theorem endsWith_turns (h : p.depth ≤ maxNesting) :
    ∃ n, ∀ calls ≥ n, ∀ rounds ≥ n, Turn.upToEndWithin turn rounds calls p = some p.turns := by
  induction hlen : p.ahead.length using Nat.strongRecOn generalizing p with
  | ind n ih =>
    by_cases hend : p.current.kind = .eof
    · refine ⟨1, fun calls _ rounds hrounds => ?_⟩
      obtain ⟨rounds, rfl⟩ := Nat.exists_eq_succ_of_ne_zero (by omega : rounds ≠ 0)
      show (if p.current.is .eof then pure [] else _ : Calling (List Turn)) calls p = _
      rw [if_pos (is_eq_true_iff.mpr hend), Parser.turns_of_end hend]
      rfl
    · have hpos := List.length_pos_iff.mpr (Parser.ahead_ne_nil_of_current hend)
      have hshorter := p.length_ahead_turn_le
      have hdepth : p.turn.2.advanced.depth ≤ maxNesting := by
        obtain ⟨k, hk⟩ := p.exists_stop_turn
        rw [hk]
        exact h
      obtain ⟨first, hfirst⟩ := endsWith_turn h
      obtain ⟨others, hothers⟩ := ih _ (by omega) hdepth rfl
      refine ⟨max first others + 1, fun calls hcalls rounds hrounds => ?_⟩
      obtain ⟨rounds, rfl⟩ := Nat.exists_eq_succ_of_ne_zero (by omega : rounds ≠ 0)
      show (if p.current.is .eof then pure [] else _ : Calling (List Turn)) calls p = _
      rw [if_neg fun heof => hend (is_eq_true_iff.mp heof), Parser.turns_of_token hend]
      show (turn calls p).bind _ = _
      rw [hfirst calls (by omega)]
      show (Turn.upToEndWithin turn rounds calls p.turn.2.advanced).bind _ = _
      rw [hothers calls (by omega) rounds (by omega)]
      rfl

theorem endsWith_program (h : p.depth ≤ maxNesting) : EndsWith program p p.program := by
  obtain ⟨n, hn⟩ := endsWith_turns h
  refine ⟨n, fun calls hcalls => ?_⟩
  show (Turn.upToEndWithin turn calls calls p).bind _ = _
  rw [hn calls hcalls calls hcalls]
  rfl

end Unbounded

/-! ## 7. Past the last token -/

namespace Parser

variable {p : Parser}

/-- Nothing but ends is ahead; a source may hold some of its own before it is exhausted. -/
def Exhausted (p : Parser) : Prop :=
  ∀ t ∈ p.ahead, t.kind = .eof

theorem Exhausted.current (h : p.Exhausted) : p.current.kind = .eof := by
  unfold Parser.current
  cases hahead : p.ahead with
  | nil => rfl
  | cons t rest => exact h t (hahead ▸ List.mem_cons_self)

theorem Exhausted.advanced (h : p.Exhausted) : p.advanced.Exhausted :=
  fun t ht => h t (List.mem_of_mem_tail ht)

end Parser

namespace ParseM

variable {p q : Parser} {floor : Power} {e : Expr}

theorem start_ne_ok_of_exhausted {operand : Power → ParseM Expr}
    (hoperand : ∀ {floor p e q}, p.Exhausted → operand floor p ≠ .ok e q) (h : p.Exhausted)
    (rule : StartRule) : rule.read operand p ≠ .ok e q := by
  intro hread
  cases rule with
  | leaf =>
    -- the end of the tokens is no leaf, whatever rule is set for it
    simp only [StartRule.read, leaf, monadLift_self, bind_apply, current_apply, h.current,
      throw_apply, reduceCtorEq] at hread
  | unary =>
    rw [StartRule.read, unary_apply] at hread
    obtain ⟨_, _, hright, -⟩ := bind_eq_ok hread
    exact hoperand h.advanced hright
  | group =>
    rw [StartRule.read, group_apply] at hread
    obtain ⟨_, _, hinner, -⟩ := bind_eq_ok hread
    exact hoperand h.advanced hinner

/-- An expression would have to start with a leaf or, one level deeper, with another expression. -/
theorem expressionWithin_ne_ok_of_exhausted (levels : Nat) (h : p.Exhausted) :
    expressionWithin levels floor p ≠ .ok e q := by
  induction levels generalizing floor p q e with
  | zero => exact nofun
  | succ levels ih =>
    intro hread
    rw [expressionWithin_succ] at hread
    by_cases hlt : p.depth < maxNesting
    · rw [nested_of_lt hlt] at hread
      split at hread
      · next e' q' hbody =>
        cases hstart : p.rules.start? p.current.kind with
        | none =>
          rw [operation_of_none (p := { p with depth := p.depth + 1 }) hstart] at hbody
          cases hbody
        | some rule =>
          rw [operation_of_some (p := { p with depth := p.depth + 1 }) hstart] at hbody
          obtain ⟨_, _, hleft, -⟩ := bind_eq_ok hbody
          exact start_ne_ok_of_exhausted ih (p := { p with depth := p.depth + 1 }) h rule hleft
      · cases hread
    · rw [nested_of_not_lt hlt] at hread
      cases hread

end ParseM

/-- **Reading ends.**  Whatever rules are set and whatever is ahead, expressions, statements and
programs that are read without any bound on loops and levels from a parser within the limit come to
an end, and are what the parser reads.  Where nothing but ends is left, no expression is read. -/
theorem reading_terminates {p : Parser} (h : p.depth ≤ maxNesting) :
    (∀ floor, Unbounded.EndsAs (Unbounded.expression floor) (ParseM.expression floor) p) ∧
    Unbounded.EndsAs Unbounded.statement? ParseM.statement? p ∧
    Unbounded.EndsWith Unbounded.program p p.program ∧
    (p.Exhausted → ∀ floor, ∃ e q,
      Unbounded.EndsWith (Unbounded.expression floor) p (.error e, q)) := by
  have hexpression := fun floor => (Unbounded.ends_expression h floor).ends (p := p) rfl
  refine ⟨hexpression, (Unbounded.ends_statement? h).ends rfl, Unbounded.endsWith_program h,
    fun hexhausted floor => ?_⟩
  have hends : Unbounded.EndsWith (Unbounded.expression floor) p
      (outcome (ParseM.expression floor p)) := hexpression floor
  cases hread : ParseM.expression floor p with
  | ok e q => exact absurd hread (ParseM.expressionWithin_ne_ok_of_exhausted _ hexhausted)
  | error e q =>
    rw [hread] at hends
    exact ⟨e, q, hends⟩

/-- With the end of the tokens as an operator before and between operands: each operand opens a
level until the last one is refused. -/
theorem reading_terminates_at_end :
    250 ≤ maxNesting ∧
      Unbounded.EndsAs (Unbounded.expression .lowest) (ParseM.expression .lowest)
        ⟨[⟨.eof, ""⟩], [], 250,
          (Rules.standard.setStart .eof .unary).setFollow .eof .call .binary⟩ := by
  have hdepth : 250 ≤ maxNesting := by decide
  exact ⟨hdepth, (reading_terminates (p := ⟨[⟨.eof, ""⟩], [], 250,
    (Rules.standard.setStart .eof .unary).setFollow .eof .call .binary⟩) hdepth).1 .lowest⟩

end LetLang
