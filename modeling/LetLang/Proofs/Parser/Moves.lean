import LetLang.Parser.Program
import LetLang.Proofs.Parser.Relations

/-!
# Moves — reading only goes forward, and no loop is cut short

A computation of the parser either passes tokens or leaves it as it is: behind it, whether it ends
in a value or in an error, the parser is the one before it some tokens further.  From this the
number of rounds that each loop is given turns out to be more than it can use, so a loop is
described by what one round does.
-/

namespace LetLang

open Token

/-! ## 1. Some tokens further -/

namespace Parser

/-- The parser `k` tokens further. -/
def skip (p : Parser) (k : Nat) : Parser :=
  { p with ahead := p.ahead.drop k }

@[simp] theorem skip_zero (p : Parser) : p.skip 0 = p := rfl

@[simp] theorem ahead_skip (p : Parser) (k : Nat) : (p.skip k).ahead = p.ahead.drop k := rfl

theorem advanced_eq_skip (p : Parser) : p.advanced = p.skip 1 := by
  simp only [advanced, skip, List.drop_one]

theorem skip_skip (p : Parser) (j k : Nat) : (p.skip j).skip k = p.skip (j + k) := by
  simp only [skip, List.drop_drop]

theorem length_ahead_skip_le (p : Parser) (k : Nat) :
    (p.skip k).ahead.length ≤ p.ahead.length := by
  rw [ahead_skip, List.length_drop]
  omega

theorem current_of_ahead_eq_nil {p : Parser} (h : p.ahead = []) : p.current = Token.eof := by
  rw [current, h, List.headD_nil]

theorem kind_of_ahead_eq_nil {p : Parser} (h : p.ahead = []) : p.current.kind = .eof :=
  congrArg Token.kind (current_of_ahead_eq_nil h)

theorem ahead_ne_nil_of_current {p : Parser} (h : p.current.kind ≠ .eof) : p.ahead ≠ [] :=
  fun hend => h (kind_of_ahead_eq_nil hend)

theorem ahead_ne_nil_of_peek {p : Parser} (h : p.peek.kind ≠ .eof) : p.advanced.ahead ≠ [] :=
  ahead_ne_nil_of_current h

theorem peek_of_ahead_eq_nil {p : Parser} (h : p.ahead = []) : p.peek = Token.eof := by
  rw [peek, h, List.tail_nil, List.headD_nil]

theorem two_le_length_of_peek {p : Parser} (h : p.peek ≠ Token.eof) : 2 ≤ p.ahead.length := by
  rcases hp : p.ahead with _ | ⟨t, _ | ⟨u, rest⟩⟩
  · exact absurd (peek_of_ahead_eq_nil hp) h
  · exact absurd (by rw [peek, hp]; rfl) h
  · simp only [List.length_cons]
    omega

theorem advanced_of_ahead_eq_nil {p : Parser} (h : p.ahead = []) : p.advanced = p := by
  cases p
  subst h
  rfl

end Parser

/-! ## 2. Running computations -/

namespace ParseM

variable {α β : Type} {p q : Parser}

theorem bind_apply (m : ParseM α) (k : α → ParseM β) (p : Parser) :
    (m >>= k) p =
      match m p with
      | .ok a q => k a q
      | .error e q => .error e q := by
  show EStateM.bind m k p = _
  unfold EStateM.bind
  cases m p <;> rfl

theorem pure_apply (a : α) (p : Parser) : (pure a : ParseM α) p = .ok a p := rfl

theorem throw_apply (e : SyntaxError) (p : Parser) : (throw e : ParseM α) p = .error e p := rfl

theorem get_apply (p : Parser) : (get : ParseM Parser) p = .ok p p := rfl

theorem current_apply (p : Parser) : current p = .ok p.current p := rfl

theorem advance_apply (p : Parser) : advance p = .ok p.current p.advanced := rfl

theorem peekIs_apply (k : Kind) (p : Parser) : peekIs k p = .ok (p.peek.is k) p := rfl

theorem rounds_apply (p : Parser) : (Bounds.rounds : ParseM Nat) p = .ok p.rounds p := rfl

theorem bind_of_ok {m : ParseM α} {k : α → ParseM β} {a : α} (h : m p = .ok a q) :
    (m >>= k) p = k a q := by
  rw [bind_apply, h]

theorem bind_of_error {m : ParseM α} {k : α → ParseM β} {e : SyntaxError}
    (h : m p = .error e q) : (m >>= k) p = .error e q := by
  rw [bind_apply, h]

theorem enterNesting_of_lt (h : p.depth < maxNesting) :
    enterNesting p = .ok () { p with depth := p.depth + 1 } :=
  if_pos h

theorem enterNesting_of_not_lt (h : ¬ p.depth < maxNesting) :
    enterNesting p = .error (.nestingTooDeep maxNesting) p :=
  if_neg h

theorem expectPeek_of_kind {k : Kind} (h : p.peek.kind = k) :
    expectPeek k p = .ok p.peek p.advanced := by
  rw [expectPeek, if_pos (is_eq_true_iff.mpr h)]

theorem expectPeek_eq_ok {k : Kind} {t : Token} (h : expectPeek k p = .ok t q) :
    p.peek.kind = k ∧ t = p.peek ∧ q = p.advanced := by
  unfold expectPeek at h
  split at h
  · next hk =>
    cases h
    exact ⟨is_eq_true_iff.mp hk, rfl, rfl⟩
  · cases h

theorem bind_eq_ok {m : ParseM α} {k : α → ParseM β} {b : β} (h : (m >>= k) p = .ok b q) :
    ∃ a mid, m p = .ok a mid ∧ k a mid = .ok b q := by
  rw [bind_apply] at h
  cases hm : m p with
  | ok a mid =>
    rw [hm] at h
    exact ⟨a, mid, rfl, h⟩
  | error e mid =>
    rw [hm] at h
    cases h

/-! ## 3. Computations that move forward -/

/-- The parser after a computation, whether it ended in a value or in an error. -/
def stop (m : ParseM α) (p : Parser) : Parser :=
  match m p with
  | .ok _ q => q
  | .error _ q => q

theorem stop_of_ok {m : ParseM α} {a : α} (h : m p = .ok a q) : m.stop p = q := by
  rw [stop, h]

theorem stop_of_error {m : ParseM α} {e : SyntaxError} (h : m p = .error e q) : m.stop p = q := by
  rw [stop, h]

/-- A computation moves if it only passes tokens: nothing else of the parser changes. -/
def Moves (m : ParseM α) : Prop :=
  ∀ p, ∃ k, m.stop p = p.skip k

theorem Moves.of_ok {m : ParseM α} (h : m.Moves) {a : α} (hm : m p = .ok a q) :
    ∃ k, q = p.skip k :=
  stop_of_ok hm ▸ h p

theorem Moves.pure (a : α) : (Pure.pure a : ParseM α).Moves := fun _ => ⟨0, rfl⟩

theorem Moves.throw (e : SyntaxError) : (MonadExcept.throw e : ParseM α).Moves :=
  fun _ => ⟨0, rfl⟩

theorem Moves.current : ParseM.current.Moves := fun _ => ⟨0, rfl⟩

theorem Moves.get : (MonadState.get : ParseM Parser).Moves := fun _ => ⟨0, rfl⟩

theorem Moves.peekIs (k : Kind) : (ParseM.peekIs k).Moves := fun _ => ⟨0, rfl⟩

theorem Moves.rounds : (Bounds.rounds : ParseM Nat).Moves := fun _ => ⟨0, rfl⟩

theorem Moves.advance : ParseM.advance.Moves := fun p => ⟨1, p.advanced_eq_skip⟩

theorem Moves.expectPeek (k : Kind) : (ParseM.expectPeek k).Moves := by
  intro p
  unfold stop ParseM.expectPeek
  by_cases h : p.peek.is k
  · rw [if_pos h]
    exact ⟨1, p.advanced_eq_skip⟩
  · rw [if_neg h]
    exact ⟨0, rfl⟩

theorem Moves.skipSemicolon : ParseM.skipSemicolon.Moves := by
  intro p
  unfold stop ParseM.skipSemicolon
  by_cases h : p.peek.is .semicolon
  · rw [if_pos h]
    exact ⟨1, p.advanced_eq_skip⟩
  · rw [if_neg h]
    exact ⟨0, rfl⟩

theorem Moves.bind {m : ParseM α} {k : α → ParseM β} (hm : m.Moves) (hk : ∀ a, (k a).Moves) :
    (m >>= k).Moves := by
  intro p
  obtain ⟨i, hi⟩ := hm p
  cases hr : m p with
  | ok a mid =>
    -- the second computation goes on where the first stopped
    obtain ⟨j, hj⟩ := hk a mid
    refine ⟨i + j, ?_⟩
    rw [← p.skip_skip, ← hi, stop_of_ok hr, ← hj]
    simp only [stop, bind_apply, hr]
  | error e mid =>
    refine ⟨i, ?_⟩
    rw [← hi]
    simp only [stop, bind_apply, hr]

theorem Moves.nested {m : ParseM α} (hm : m.Moves) : (ParseM.nested m).Moves := by
  intro p
  by_cases h : p.depth < maxNesting
  · obtain ⟨k, hk⟩ := hm { p with depth := p.depth + 1 }
    -- the level is closed behind the body, so the depth is as before
    refine ⟨k, ?_⟩
    rw [stop, nested_of_lt h]
    cases hr : m { p with depth := p.depth + 1 } with
    | ok a q =>
      rw [stop_of_ok hr] at hk
      subst hk
      rfl
    | error e q =>
      rw [stop_of_error hr] at hk
      subst hk
      rfl
  · exact ⟨0, by rw [stop, nested_of_not_lt h, Parser.skip_zero]⟩

/-! ## 4. Rules -/

variable {operand : Power → ParseM Expr} {floor : Power}

/-- What the rules need of the way to read an operand: it moves, and it reads nothing where no
token is left. -/
structure ReadsTokens (operand : Power → ParseM Expr) : Prop where
  moves : ∀ floor, (operand floor).Moves
  ne_ok : ∀ {floor p e q}, p.ahead = [] → operand floor p ≠ .ok e q

theorem Moves.leaf : ParseM.leaf.Moves := by
  refine .bind .current fun token => ?_
  split
  · exact .pure _
  · split
    · exact .pure _
    · exact .throw _
  · exact .pure _
  · exact .pure _
  · exact .throw _

theorem Step.moves {x : ParseM α} (h : x.Step) : x.Moves := by
  cases h with
  | get => exact .get
  | current => exact .current
  | peekIs k => exact .peekIs k
  | advance => exact .advance
  | expectPeek _ => exact .expectPeek _
  | skipSemicolon => exact .skipSemicolon

/-- What moves is related to whatever is written as it is. -/
theorem simulation_moves : BoundedSimulation fun (α : Type) _ (x _ : ParseM α) => x.Moves where
  toSimulation := .of_uniform (R := fun α (x _ : ParseM α) => x.Moves) Step.moves .pure .bind
  rounds := .rounds
  usedUp h := h

theorem Moves.follow (h : ∀ floor, (operand floor).Moves) (power : Power) (left : Expr)
    (rule : FollowRule) : (rule.read operand power left).Moves :=
  simulation_moves.follow (n := 0) (g := operand) h power left rule

theorem Moves.argumentList (h : ∀ floor, (operand floor).Moves) :
    (ParseM.argumentList operand).Moves :=
  simulation_moves.argumentList (n := 0) (g := operand) h

theorem Moves.climbing (h : ∀ floor, (operand floor).Moves) (left : Expr) :
    (ParseM.climbing operand floor left).Moves :=
  simulation_moves.climbing (n := 0) (g := operand) h floor left

theorem Moves.operation (h : ∀ floor, (operand floor).Moves) :
    (ParseM.operation operand floor).Moves :=
  simulation_moves.operation (n := 0) (g := operand) .leaf .throw h floor

theorem unary_apply (operand : Power → ParseM Expr) (p : Parser) :
    unary operand p =
      (operand .unary >>= fun right =>
        pure (.unary p.current p.current.literal right)) p.advanced := rfl

theorem group_apply (operand : Power → ParseM Expr) (p : Parser) :
    group operand p =
      (operand .lowest >>= fun inner =>
        expectPeek .closeParen >>= fun _ => pure inner) p.advanced := rfl

theorem binary_apply (operand : Power → ParseM Expr) (power : Power) (left : Expr) (p : Parser) :
    binary operand power left p =
      (operand power >>= fun right =>
        pure (.binary p.current p.current.literal left right)) p.advanced := rfl

theorem call_apply (operand : Power → ParseM Expr) (function : Expr) (p : Parser) :
    call operand function p =
      (arguments operand >>= fun arguments =>
        pure (.call p.current function arguments)) p := rfl

theorem operation_of_none (h : p.rules.start? p.current.kind = none) :
    operation operand floor p = .error (.noExpressionStart p.current.kind) p := by
  simp only [operation, monadLift_self, bind_apply, get_apply, h, throw_apply]

theorem operation_of_some {rule : StartRule} (h : p.rules.start? p.current.kind = some rule) :
    operation operand floor p = (rule.read operand >>= climbing operand floor) p := by
  simp only [operation, monadLift_self, bind_apply, get_apply, h]

/-- Where no token is left, no expression starts: the end is no leaf, and behind an operator or a
parenthesis an operand is missing. -/
theorem operation_ne_ok (h : ReadsTokens operand) {e : Expr} (hend : p.ahead = []) :
    operation operand floor p ≠ .ok e q := by
  intro hok
  cases hstart : p.rules.start? p.current.kind with
  | none =>
    rw [operation_of_none hstart] at hok
    cases hok
  | some rule =>
    rw [operation_of_some hstart] at hok
    obtain ⟨left, mid, hread, _⟩ := bind_eq_ok hok
    have hnext : p.advanced.ahead = [] := by rw [p.advanced_of_ahead_eq_nil hend, hend]
    cases rule with
    | leaf =>
      simp only [StartRule.read, leaf, monadLift_self, bind_apply, current_apply,
        p.current_of_ahead_eq_nil hend, Token.eof, throw_apply, reduceCtorEq] at hread
    | unary =>
      rw [StartRule.read, unary_apply] at hread
      obtain ⟨_, _, hoperand, _⟩ := bind_eq_ok hread
      exact h.ne_ok hnext hoperand
    | group =>
      rw [StartRule.read, group_apply] at hread
      obtain ⟨_, _, hoperand, _⟩ := bind_eq_ok hread
      exact h.ne_ok hnext hoperand

/-- An expression whose operators all bind tighter than the floor, at most so many levels deep. -/
def expressionWithin (levels : Nat) (floor : Power) : ParseM Expr :=
  expressionBy nested levels floor

theorem expressionWithin_succ (levels : Nat) (floor : Power) :
    expressionWithin (levels + 1) floor = nested (operation (expressionWithin levels) floor) := rfl

theorem expression_apply (floor : Power) (p : Parser) :
    expression floor p = expressionWithin (maxNesting - p.depth + 1) floor p := rfl

theorem readsTokens_expressionWithin (levels : Nat) : ReadsTokens (expressionWithin levels) := by
  induction levels with
  | zero => exact ⟨fun _ => .throw _, fun _ hok => by cases hok⟩
  | succ levels ih =>
    -- the operands of an expression are read with one level less
    refine ⟨fun _ => .nested (.operation ih.moves), fun {floor p e q} hend hok => ?_⟩
    rw [expressionWithin_succ] at hok
    by_cases hlt : p.depth < maxNesting
    · rw [nested_of_lt hlt] at hok
      split at hok
      · next e' q' hbody =>
        exact operation_ne_ok ih (p := { p with depth := p.depth + 1 }) hend hbody
      · cases hok
    · rw [nested_of_not_lt hlt] at hok
      cases hok

/-! ## 5. Loops, one round at a time -/

theorem arguments_of_closed (h : p.peek.is .closeParen = true) :
    arguments operand p = .ok [] p.advanced := by
  simp only [arguments, monadLift_self, bind_apply, peekIs_apply, h, if_true, advance_apply,
    pure_apply]

theorem arguments_of_open (h : p.peek.is .closeParen = false) :
    arguments operand p =
      (argumentList operand >>= fun arguments =>
        expectPeek .closeParen >>= fun _ => pure arguments) p.advanced := by
  simp only [arguments, monadLift_self, bind_apply, peekIs_apply, h, Bool.false_eq_true, if_false,
    advance_apply]

/-- Past the last token an expression does not go on. -/
theorem follow_ne_ok (h : ReadsTokens operand) {power : Power} {left : Expr} {rule : FollowRule}
    {e : Expr} (hend : p.ahead = []) : rule.read operand power left p ≠ .ok e q := by
  intro hok
  have hnext : p.advanced.ahead = [] := by rw [p.advanced_of_ahead_eq_nil hend, hend]
  cases rule with
  | binary =>
    rw [FollowRule.read, binary_apply] at hok
    obtain ⟨_, _, hoperand, _⟩ := bind_eq_ok hok
    exact h.ne_ok hnext hoperand
  | call =>
    rw [FollowRule.read, call_apply] at hok
    obtain ⟨_, _, hok, _⟩ := bind_eq_ok hok
    rw [arguments_of_open (by rw [p.peek_of_ahead_eq_nil hend]; rfl)] at hok
    obtain ⟨_, _, hok, _⟩ := bind_eq_ok hok
    obtain ⟨_, _, hoperand, _⟩ := bind_eq_ok hok
    exact h.ne_ok hnext hoperand

theorem climb_of_none (h : p.follow? floor = none) (rounds : Nat) (left : Expr) :
    climb operand floor rounds left p = .ok left p := by
  cases rounds with
  | zero => rfl
  | succ rounds => simp only [climb, monadLift_self, bind_apply, get_apply, h, pure_apply]

theorem climb_of_some {power : Power} {rule : FollowRule}
    (h : p.follow? floor = some (power, rule)) (rounds : Nat) (left : Expr) :
    climb operand floor (rounds + 1) left p =
      (rule.read operand power left >>= climb operand floor rounds) p.advanced := by
  simp only [climb, monadLift_self, bind_apply, get_apply, h, advance_apply]

/-- A round that comes to an end takes a token. -/
theorem length_ahead_lt_of_follow (h : ReadsTokens operand) {power : Power} {left longer : Expr}
    {rule : FollowRule} (hread : rule.read operand power left p.advanced = .ok longer q) :
    q.ahead.length < p.ahead.length := by
  obtain ⟨k, rfl⟩ := (Moves.follow h.moves _ _ _).of_ok hread
  have hne : p.ahead ≠ [] := fun hend =>
    follow_ne_ok h (by rw [p.advanced_of_ahead_eq_nil hend, hend]) hread
  have hpos := List.length_pos_iff.mpr hne
  have hle := p.advanced.length_ahead_skip_le k
  rw [Parser.ahead_advanced, List.length_tail] at hle
  omega

theorem climb_rounds (h : ReadsTokens operand) {rounds rounds' : Nat} (left : Expr) (p : Parser)
    (hlt : p.ahead.length < rounds) (hlt' : p.ahead.length < rounds') :
    climb operand floor rounds left p = climb operand floor rounds' left p := by
  induction rounds generalizing rounds' left p with
  | zero => omega
  | succ rounds ih =>
    -- both have a round left, and that round takes a token
    obtain ⟨rounds', rfl⟩ : ∃ n, rounds' = n + 1 := ⟨rounds' - 1, by omega⟩
    cases hfollow : p.follow? floor with
    | none => rw [climb_of_none hfollow, climb_of_none hfollow]
    | some follow =>
      rw [climb_of_some hfollow, climb_of_some hfollow, bind_apply, bind_apply]
      cases hread : follow.2.read operand follow.1 left p.advanced with
      | error e q => rfl
      | ok longer q =>
        have hshorter := length_ahead_lt_of_follow h hread
        exact ih longer q (by omega) (by omega)

theorem climbing_of_none (h : p.follow? floor = none) (left : Expr) :
    climbing operand floor left p = .ok left p :=
  climb_of_none h _ left

/-- A token that binds tighter than the floor is read by its rule, and what comes of it goes on. -/
theorem climbing_of_some (hreads : ReadsTokens operand) {power : Power} {rule : FollowRule}
    (h : p.follow? floor = some (power, rule)) (left : Expr) :
    climbing operand floor left p =
      (rule.read operand power left >>= climbing operand floor) p.advanced := by
  show climb operand floor (p.ahead.length + 1) left p = _
  rw [climb_of_some h, bind_apply, bind_apply]
  cases hread : rule.read operand power left p.advanced with
  | error e q => rfl
  | ok longer q =>
    -- `climbing` gives the rest as many rounds as there are tokens now, which are fewer
    have hshorter := length_ahead_lt_of_follow hreads hread
    exact climb_rounds hreads longer q hshorter (Nat.lt_succ_self _)

theorem moreArguments_of_not_comma (h : p.peek.is .comma = false) (rounds : Nat) :
    moreArguments operand rounds p = .ok [] p := by
  cases rounds with
  | zero => rfl
  | succ rounds =>
    simp only [moreArguments, monadLift_self, bind_apply, peekIs_apply, h, Bool.false_eq_true,
      if_false, pure_apply]

theorem moreArguments_of_comma (h : p.peek.is .comma = true) (rounds : Nat) :
    moreArguments operand (rounds + 1) p =
      (operand .lowest >>= fun argument =>
        moreArguments operand rounds >>= fun arguments =>
          pure (argument :: arguments)) p.advanced.advanced := by
  simp only [moreArguments, monadLift_self, bind_apply, peekIs_apply, h, if_true, advance_apply]

theorem moreArguments_rounds (h : ∀ floor, (operand floor).Moves) {rounds rounds' : Nat}
    (hle : p.ahead.length ≤ rounds) (hle' : p.ahead.length ≤ rounds') :
    moreArguments operand rounds p = moreArguments operand rounds' p := by
  induction rounds generalizing rounds' p with
  | zero =>
    cases rounds' with
    | zero => rfl
    | succ rounds' =>
      -- without tokens there is no comma to go on with
      have hend : p.ahead = [] := List.length_eq_zero_iff.mp (by omega)
      exact (moreArguments_of_not_comma (by rw [p.peek_of_ahead_eq_nil hend]; rfl) _).symm
  | succ rounds ih =>
    by_cases hcomma : p.peek.is .comma = true
    · have hlen := p.two_le_length_of_peek (by
        rintro heof
        rw [heof] at hcomma
        cases hcomma)
      obtain ⟨rounds', rfl⟩ : ∃ n, rounds' = n + 1 := ⟨rounds' - 1, by omega⟩
      rw [moreArguments_of_comma hcomma, moreArguments_of_comma hcomma, bind_apply, bind_apply]
      cases hread : operand .lowest p.advanced.advanced with
      | error e q => rfl
      | ok argument q =>
        obtain ⟨k, rfl⟩ := (h _).of_ok hread
        have hskip := p.advanced.advanced.length_ahead_skip_le k
        simp only [Parser.ahead_advanced, List.length_tail] at hskip
        simp only [bind_apply]
        rw [ih (by omega : _ ≤ rounds) (by omega : _ ≤ rounds')]
    · rw [Bool.not_eq_true] at hcomma
      rw [moreArguments_of_not_comma hcomma, moreArguments_of_not_comma hcomma]

theorem argumentList_of_not_comma {argument : Expr} (hread : operand .lowest p = .ok argument q)
    (hcomma : q.peek.is .comma = false) : argumentList operand p = .ok [argument] q := by
  rw [argumentList, bind_apply, hread]
  simp only [bind_apply, rounds_apply, moreArguments_of_not_comma hcomma, pure_apply]

theorem argumentList_of_comma (h : ∀ floor, (operand floor).Moves) {argument : Expr}
    (hread : operand .lowest p = .ok argument q) (hcomma : q.peek.is .comma = true) :
    argumentList operand p =
      (argumentList operand >>= fun arguments => pure (argument :: arguments))
        q.advanced.advanced := by
  have hlen := q.two_le_length_of_peek (by
    rintro heof
    rw [heof] at hcomma
    cases hcomma)
  rw [argumentList, bind_apply, hread]
  simp only [bind_apply, rounds_apply, Parser.rounds, moreArguments_of_comma hcomma]
  cases hnext : operand .lowest q.advanced.advanced with
  | error e r => rfl
  | ok next r =>
    obtain ⟨k, rfl⟩ := (h _).of_ok hnext
    have hskip := q.advanced.advanced.length_ahead_skip_le k
    simp only [Parser.ahead_advanced, List.length_tail] at hskip
    simp only
    rw [moreArguments_rounds h (by omega : _ ≤ q.ahead.length) (Nat.le_succ _)]

end ParseM

/-! ## 6. Passing a run of tokens -/

namespace Parser

/-- The parser `q` stands on the last of the tokens `ts`, with which those ahead of `p` begin. -/
structure Onto (p : Parser) (ts : List Token) (q : Parser) : Prop where
  ne_nil : ts ≠ []
  begins : ts <+: p.ahead
  eq_skip : q = p.skip (ts.length - 1)

variable {p q r : Parser} {t : Token} {ts us : List Token}

theorem onto_singleton (h : p.ahead ≠ []) : p.Onto [p.current] p := by
  obtain ⟨t, rest, hp⟩ := List.exists_cons_of_ne_nil h
  refine ⟨List.cons_ne_nil _ _, ⟨rest, ?_⟩, rfl⟩
  rw [current, hp]
  rfl

theorem Onto.advanced_eq (h : p.Onto ts q) : q.advanced = p.skip ts.length := by
  have hpos := List.length_pos_iff.mpr h.ne_nil
  rw [h.eq_skip, advanced_eq_skip, skip_skip]
  congr 1
  omega

theorem Onto.rules_eq (h : p.Onto ts q) : q.rules = p.rules := by
  rw [h.eq_skip, skip]

theorem Onto.depth_eq (h : p.Onto ts q) : q.depth = p.depth := by
  rw [h.eq_skip, skip]

theorem Onto.ahead_ne_nil (h : p.Onto ts q) : q.ahead ≠ [] := by
  obtain ⟨rest, hrest⟩ := h.begins
  have hpos := List.length_pos_iff.mpr h.ne_nil
  rw [h.eq_skip, ahead_skip, ← hrest, ne_eq, List.drop_eq_nil_iff, List.length_append]
  omega

theorem Onto.ahead_eq (h : p.Onto ts q) : p.ahead = ts ++ q.advanced.ahead := by
  obtain ⟨rest, hrest⟩ := h.begins
  rw [h.advanced_eq, ahead_skip, ← hrest, List.drop_left]

theorem Onto.getLast?_eq {ts : List Token} (h : p.Onto ts q) : ts.getLast? = some q.current := by
  obtain ⟨before, t, rfl⟩ : ∃ before t, ts = before ++ [t] :=
    ⟨_, _, (List.dropLast_concat_getLast h.ne_nil).symm⟩
  obtain ⟨rest, hrest⟩ := h.begins
  rw [List.getLast?_concat, h.eq_skip, current, ahead_skip, ← hrest, List.length_append,
    List.length_singleton, Nat.add_sub_cancel, List.append_assoc, List.drop_left]
  rfl

theorem onto_of_ahead_eq (hne : ts ≠ []) (h : p.ahead = ts ++ us) :
    ∃ q, p.Onto ts q ∧ q.advanced.ahead = us := by
  have honto : p.Onto ts (p.skip (ts.length - 1)) := ⟨hne, ⟨us, h.symm⟩, rfl⟩
  refine ⟨_, honto, ?_⟩
  rw [honto.advanced_eq, ahead_skip, h, List.drop_left]

theorem Onto.append (h : p.Onto ts q) (h' : q.advanced.Onto us r) : p.Onto (ts ++ us) r := by
  have hpos := List.length_pos_iff.mpr h'.ne_nil
  refine ⟨List.append_ne_nil_of_left_ne_nil h.ne_nil us, ?_, ?_⟩
  · rw [h.ahead_eq]
    exact (List.prefix_append_right_inj ts).mpr h'.begins
  · rw [h'.eq_skip, h.advanced_eq, skip_skip, List.length_append]
    congr 1
    omega

theorem Onto.cons (hne : p.ahead ≠ []) (h : p.advanced.Onto ts q) :
    p.Onto (p.current :: ts) q :=
  (onto_singleton hne).append h

theorem Onto.current_eq (h : p.Onto (t :: ts) q) : p.current = t := by
  rw [current, h.ahead_eq]
  rfl

theorem Onto.split (hts : ts ≠ []) (hus : us ≠ []) (h : p.Onto (ts ++ us) r) :
    ∃ q, p.Onto ts q ∧ q.advanced.Onto us r := by
  obtain ⟨rest, hrest⟩ := h.begins
  rw [List.append_assoc] at hrest
  obtain ⟨q, hq, hahead⟩ := onto_of_ahead_eq hts hrest.symm
  refine ⟨q, hq, hus, ⟨rest, hahead.symm⟩, ?_⟩
  have hpos := List.length_pos_iff.mpr hus
  rw [h.eq_skip, hq.advanced_eq, skip_skip, List.length_append]
  congr 1
  omega

theorem Onto.of_cons (hts : ts ≠ []) (h : p.Onto (t :: ts) q) : p.advanced.Onto ts q := by
  obtain ⟨m, hm, hq⟩ := Onto.split (List.cons_ne_nil t []) hts h
  have hself : m = p := by rw [hm.eq_skip]; rfl
  exact hself ▸ hq

end Parser

end LetLang
