import Mathlib.Logic.Function.Iterate
import LetLang.Proofs.Parser.Turns

/-!
# Depth — every level that is opened is closed again

Reading opens a level for each expression and closes it however the expression ends.  To say that
of a run as a whole, the readers are run once more with a list on which every opening and every
closing notes its depth.  The list changes nothing: values, errors and parsers are those of the
readers without it.  What it shows is that no level is opened past the limit, and that none is
closed where none is open.
-/

namespace LetLang

open Token ParseM

/-! ## 1. Watched readers -/

/-- What is noted of a run. -/
inductive Level where
  /-- A level was opened; the depth behind it. -/
  | opened (depth : Nat)
  /-- A level was closed; the depth before it. -/
  | closed (depth : Nat)

/-- The depth is within the limit, and what is closed was open. -/
def Level.Allowed : Level → Prop
  | opened depth => depth ≤ maxNesting
  | closed depth => 0 < depth ∧ depth ≤ maxNesting

/-- A computation on a parser and the levels noted so far. -/
abbrev Watch := EStateM SyntaxError (Parser × List Level)

namespace Watch

/-- The result with these levels beside the parser. -/
def noting {α : Type} (levels : List Level) :
    EStateM.Result SyntaxError Parser α → EStateM.Result SyntaxError (Parser × List Level) α
  | .ok a q => .ok a (q, levels)
  | .error e q => .error e (q, levels)

/-- A computation that notes nothing. -/
def lift {α : Type} (m : ParseM α) : Watch α := fun (p, levels) => noting levels (m p)

instance : MonadLift ParseM Watch := ⟨lift⟩

def enter : Watch Unit := fun (p, levels) =>
  match enterNesting p with
  | .ok () q => .ok () (q, levels ++ [.opened q.depth])
  | .error e q => .error e (q, levels)

def exit : Watch Unit := fun (p, levels) =>
  noting (levels ++ [.closed p.depth]) (exitNesting p)

def nested {α : Type} (body : Watch α) : Watch α := do
  enter
  tryFinally body exit

instance : Bounds Watch where
  rounds := lift Bounds.rounds
  usedUp left := left

/-! The readers are those of the parser: only opening and closing a level is noted besides. -/

def expression (floor : Power) : Watch Expr :=
  expressionIn nested floor

def statement? : Watch (Option Statement) :=
  statementOf? (expression .lowest)

/-! Turns do not fail, so they run on a parser and the levels noted so far without an error. -/

instance : MonadStateOf Parser (StateM (Parser × List Level)) where
  get s := (s.1, s)
  set p s := ((), (p, s.2))
  modifyGet f s := ((f s.1).1, ((f s.1).2, s.2))

instance : Bounds (StateM (Parser × List Level)) where
  rounds s := (s.1.rounds, s)
  usedUp left := left

def turn : StateM (Parser × List Level) Turn := fun s =>
  (outcome (statement? s)).map Turn.ofOutcome id

def turnsWithin (rounds : Nat) : StateM (Parser × List Level) (List Turn) :=
  Turn.upToEndWithin turn rounds

def program : StateM (Parser × List Level) Program :=
  Turn.program (Turn.upToEnd turn)

/-! ## 2. Computations that close what they open -/

variable {α β : Type} {d : Nat}

theorem bind_apply (w : Watch α) (w' : α → Watch β) (s : Parser × List Level) :
    (w >>= w') s =
      match w s with
      | .ok a t => w' a t
      | .error e t => .error e t := by
  show EStateM.bind w w' s = _
  unfold EStateM.bind
  cases w s <;> rfl

/-- At depth `d` the watched computation does what the other does, and notes allowed levels only;
both only pass tokens. -/
structure Follows (d : Nat) (w : Watch α) (m : ParseM α) : Prop where
  moves : m.Moves
  same : ∀ p : Parser, p.depth = d → ∃ levels : List Level, (∀ level ∈ levels, level.Allowed) ∧
    ∀ noted, w (p, noted) = noting (noted ++ levels) (m p)

theorem Follows.lift {m : ParseM α} (h : m.Moves) : Follows d (Watch.lift m) m := by
  refine ⟨h, fun p _ => ⟨[], nofun, fun noted => ?_⟩⟩
  rw [List.append_nil]
  rfl

theorem Follows.pure (a : α) : Follows d (Pure.pure a) (Pure.pure a) := Follows.lift (.pure a)

theorem Follows.bind {w : Watch α} {m : ParseM α} {w' : α → Watch β} {m' : α → ParseM β}
    (h : Follows d w m) (h' : ∀ a, Follows d (w' a) (m' a)) :
    Follows d (w >>= w') (m >>= m') := by
  refine ⟨h.moves.bind fun a => (h' a).moves, fun p hp => ?_⟩
  obtain ⟨levels, hallowed, hsame⟩ := h.same p hp
  cases hm : m p with
  | ok a q =>
    -- the second computation goes on at the same depth
    obtain ⟨k, rfl⟩ := h.moves.of_ok hm
    obtain ⟨levels', hallowed', hsame'⟩ := (h' a).same (p.skip k) hp
    refine ⟨levels ++ levels', List.forall_mem_append.mpr ⟨hallowed, hallowed'⟩, fun noted => ?_⟩
    rw [bind_apply, hsame, hm, bind_of_ok hm, ← List.append_assoc, ← hsame']
    rfl
  | error e q =>
    refine ⟨levels, hallowed, fun noted => ?_⟩
    rw [bind_apply, hsame, hm, bind_of_error hm]
    rfl

theorem nested_of_lt {w : Watch α} {p : Parser} (h : p.depth < maxNesting) (noted : List Level) :
    Watch.nested w (p, noted) =
      match w ({ p with depth := p.depth + 1 }, noted ++ [.opened (p.depth + 1)]) with
      | .ok a s => .ok a ({ s.1 with depth := s.1.depth - 1 }, s.2 ++ [.closed s.1.depth])
      | .error e s =>
        .error e ({ s.1 with depth := s.1.depth - 1 }, s.2 ++ [.closed s.1.depth]) := by
  simp only [Watch.nested, Bind.bind, EStateM.bind, enter, enterNesting, if_pos h, tryFinally,
    MonadFinally.tryFinally', Functor.map, EStateM.map, exit, exitNesting, noting]
  cases w ({ p with depth := p.depth + 1 }, noted ++ [.opened (p.depth + 1)]) <;> rfl

theorem nested_of_not_lt {w : Watch α} {p : Parser} (h : ¬ p.depth < maxNesting)
    (noted : List Level) :
    Watch.nested w (p, noted) = .error (.nestingTooDeep maxNesting) (p, noted) := by
  simp only [Watch.nested, Bind.bind, EStateM.bind, enter, enterNesting, if_neg h]

/-- Below the limit a level is opened, and closed behind the body in every case. -/
theorem Follows.nested {w : Watch α} {m : ParseM α} (hlt : d < maxNesting)
    (h : Follows (d + 1) w m) : Follows d (Watch.nested w) (ParseM.nested m) := by
  refine ⟨h.moves.nested, fun p hp => ?_⟩
  subst hp
  obtain ⟨levels, hallowed, hsame⟩ := h.same { p with depth := p.depth + 1 } rfl
  obtain ⟨k, hstop⟩ := h.moves { p with depth := p.depth + 1 }
  refine ⟨.opened (p.depth + 1) :: levels ++ [.closed (p.depth + 1)], ?_, fun noted => ?_⟩
  · refine List.forall_mem_append.mpr ⟨List.forall_mem_cons.mpr ⟨hlt, hallowed⟩, ?_⟩
    exact List.forall_mem_singleton.mpr ⟨Nat.succ_pos _, hlt⟩
  · rw [Watch.nested_of_lt hlt, ParseM.nested_of_lt hlt, hsame]
    -- behind the body the depth is as it was at its start
    cases hm : m { p with depth := p.depth + 1 } with
    | ok a q =>
      rw [stop_of_ok hm] at hstop
      subst hstop
      simp [noting, Parser.skip]
    | error e q =>
      rw [stop_of_error hm] at hstop
      subst hstop
      simp [noting, Parser.skip]

/-- At the limit no level is opened. -/
theorem Follows.refused {w : Watch α} {m : ParseM α} (h : m.Moves) :
    Follows maxNesting (Watch.nested w) (ParseM.nested m) := by
  refine ⟨h.nested, fun p hp => ⟨[], List.forall_mem_nil _, fun noted => ?_⟩⟩
  have hnot : ¬ p.depth < maxNesting := by
    rw [hp]
    exact Nat.lt_irrefl _
  rw [Watch.nested_of_not_lt hnot, ParseM.nested_of_not_lt hnot, List.append_nil]
  rfl

/-! ## 3. Readers -/

theorem boundedSimulation_follows (d : Nat) :
    BoundedSimulation fun α _ (w : Watch α) (m : ParseM α) => Follows d w m where
  toSimulation := .of_uniform (R := fun α (w : Watch α) (m : ParseM α) => Follows d w m)
    (fun hstep => .lift hstep.moves) .pure .bind
  rounds := .lift .rounds
  usedUp h := h

/-- Within the limit every level that is opened is allowed. -/
theorem Follows.expressionBy (levels : Nat) (hd : d ≤ maxNesting) (floor : Power) :
    Follows d (ParseM.expressionBy Watch.nested levels floor)
      (ParseM.expressionWithin levels floor) := by
  -- how many levels reading is prepared for plays no part: at the limit `nested` refuses
  induction levels generalizing d floor with
  | zero => exact .lift (.throw _)
  | succ levels ih =>
    have hreads := readsTokens_expressionWithin levels
    by_cases hlt : d < maxNesting
    · refine .nested hlt ?_
      exact (boundedSimulation_follows (d + 1)).operation (n := 0) (.lift .leaf)
        (fun e => .lift (.throw e)) (ih hlt) floor
    · obtain rfl : d = maxNesting := by omega
      exact .refused (.operation hreads.moves)

theorem Follows.expression (hd : d ≤ maxNesting) (floor : Power) :
    Follows d (Watch.expression floor) (ParseM.expression floor) :=
  .bind (.lift .get) fun _ => .expressionBy _ hd floor

theorem Follows.statement (hd : d ≤ maxNesting) (rule : StatementRule) :
    Follows d (rule.readOf (Watch.expression .lowest)) rule.read :=
  (boundedSimulation_follows d).statement (n := 0) (.expression hd .lowest) rule

theorem Follows.statement? (hd : d ≤ maxNesting) :
    Follows d Watch.statement? ParseM.statement? :=
  (boundedSimulation_follows d).statement? (n := 0) (.expression hd .lowest)
    fun e => .lift (.throw e)

/-! ## 4. Programs -/

variable {p : Parser}

theorem turn_eq (hp : p.depth ≤ maxNesting) :
    ∃ levels : List Level, (∀ level ∈ levels, level.Allowed) ∧
      ∀ noted, turn (p, noted) = (p.turn.1, (p.turn.2, noted ++ levels)) := by
  obtain ⟨levels, hallowed, hsame⟩ := (Follows.statement? hp).same p rfl
  refine ⟨levels, hallowed, fun noted => ?_⟩
  rw [turn, hsame, Parser.turn]
  cases ParseM.statement? p <;> rfl

theorem turnsWithin_of_end (h : p.current.kind = .eof) (rounds : Nat) (noted : List Level) :
    turnsWithin rounds (p, noted) = ([], (p, noted)) := by
  cases rounds with
  | zero => rfl
  | succ rounds =>
    show (if p.current.is .eof then pure [] else _ : StateM _ (List Turn)) (p, noted) = _
    rw [if_pos (is_eq_true_iff.mpr h)]
    rfl

theorem turnsWithin_of_token (h : p.current.kind ≠ .eof) (rounds : Nat) (noted : List Level) :
    turnsWithin (rounds + 1) (p, noted) =
      let (first, stop) := turn (p, noted)
      let (others, last) := turnsWithin rounds (stop.1.advanced, stop.2)
      (first :: others, last) := by
  have hend : ¬ p.current.is .eof = true := fun heof => h (is_eq_true_iff.mp heof)
  show (if p.current.is .eof then pure [] else _ : StateM _ (List Turn)) (p, noted) = _
  rw [if_neg hend]
  rfl

theorem turnsWithin_eq (rounds : Nat) (hp : p.depth ≤ maxNesting) :
    ∃ levels : List Level, (∀ level ∈ levels, level.Allowed) ∧
      ∀ noted, turnsWithin rounds (p, noted) =
        ((p.turnsWithin rounds).1, ((p.turnsWithin rounds).2, noted ++ levels)) := by
  induction rounds generalizing p with
  | zero => exact ⟨[], nofun, fun noted => by rw [List.append_nil]; rfl⟩
  | succ rounds ih =>
    by_cases hend : p.current.kind = .eof
    · refine ⟨[], nofun, fun noted => ?_⟩
      rw [Parser.turnsWithin_of_end hend, turnsWithin_of_end hend, List.append_nil]
    · obtain ⟨levels, hallowed, hturn⟩ := turn_eq hp
      -- a turn leaves the depth as it was
      have hstop : p.turn.2.advanced.depth ≤ maxNesting := by
        obtain ⟨k, hk⟩ := p.exists_stop_turn
        rw [hk]
        exact hp
      obtain ⟨levels', hallowed', hturns⟩ := ih hstop
      refine ⟨levels ++ levels', List.forall_mem_append.mpr ⟨hallowed, hallowed'⟩,
        fun noted => ?_⟩
      rw [Parser.turnsWithin_of_token hend, turnsWithin_of_token hend, hturn]
      simp only [hturns, List.append_assoc]

theorem program_apply (s : Parser × List Level) :
    program s =
      let (turns, last) := Turn.upToEnd turn s
      (⟨turns.filterMap Turn.statement?⟩,
        ({ last.1 with errors := last.1.errors ++ turns.filterMap Turn.error? }, last.2)) := rfl

theorem program_eq (hp : p.depth ≤ maxNesting) :
    ∃ levels : List Level, (∀ level ∈ levels, level.Allowed) ∧
      ∀ noted, program (p, noted) = (p.program.1, (p.program.2, noted ++ levels)) := by
  obtain ⟨levels, hallowed, hturns⟩ := turnsWithin_eq p.rounds hp
  refine ⟨levels, hallowed, fun noted => ?_⟩
  have hall : Turn.upToEnd turn (p, noted) = (p.turns.1, (p.turns.2, noted ++ levels)) :=
    hturns noted
  rw [program_apply, hall]
  rfl

example :
    (Watch.expression .lowest (⟨[⟨.dash, "-"⟩, ⟨.identifier, "x"⟩], [], 0, .standard⟩, [])) =
      .ok (.unary ⟨.dash, "-"⟩ "-" (.identifier (.ofToken ⟨.identifier, "x"⟩)))
        (⟨[⟨.identifier, "x"⟩], [], 0, .standard⟩,
          [.opened 1, .opened 2, .closed 2, .closed 1]) := by
  rfl

end Watch

theorem Parser.skip_eq_iterate (p : Parser) (k : Nat) : p.skip k = Parser.advanced^[k] p := by
  induction k with
  | zero => rfl
  | succ k ih => rw [Function.iterate_succ_apply', ← ih, advanced_eq_skip, skip_skip]

/-- From `p` on the computation leaves the parser as it was but for some tokens passed, and as it
runs only allowed levels are noted. -/
def MovesForward {α : Type} (p : Parser) (w : Watch α) (m : ParseM α) : Prop :=
  ∃ k levels, m.stop p = Parser.advanced^[k] p ∧ (∀ level ∈ levels, Level.Allowed level) ∧
    ∀ noted, w (p, noted) = Watch.noting (noted ++ levels) (m p)

theorem Watch.Follows.movesForward {α : Type} {p : Parser} {w : Watch α} {m : ParseM α}
    (h : Watch.Follows p.depth w m) : MovesForward p w m := by
  obtain ⟨k, hk⟩ := h.moves p
  obtain ⟨levels, hallowed, hsame⟩ := h.same p rfl
  exact ⟨k, levels, hk.trans (p.skip_eq_iterate k), hallowed, hsame⟩

/-- **Reading moves forward.**  Whatever rules are set, expressions, statements, an expected token
and every rule by itself leave a parser within the limit as it was but for some tokens passed; a
program notes its errors besides.  As they run the depth stays within the limit, and no level is
closed that is not open. -/
theorem reading_moves_forward {p : Parser} (h : p.depth ≤ maxNesting) :
    (∀ floor, MovesForward p (Watch.expression floor) (ParseM.expression floor)) ∧
    MovesForward p Watch.statement? ParseM.statement? ∧
    (∀ k, MovesForward p (Watch.lift (expectPeek k)) (expectPeek k)) ∧
    (∀ rule : StartRule,
      MovesForward p (rule.read Watch.expression) (rule.read ParseM.expression)) ∧
    (∀ (rule : FollowRule) (power : Power) (left : Expr),
      MovesForward p (rule.read Watch.expression power left)
        (rule.read ParseM.expression power left)) ∧
    (∀ rule : StatementRule,
      MovesForward p (rule.readOf (Watch.expression .lowest)) rule.read) ∧
    ∃ k levels,
      p.program.2 = { Parser.advanced^[k] p with errors := p.errors ++ p.faults } ∧
      (∀ level ∈ levels, Level.Allowed level) ∧
      ∀ noted, Watch.program (p, noted) = (p.program.1, (p.program.2, noted ++ levels)) := by
  have hfollows := Watch.boundedSimulation_follows p.depth
  have hexpression := fun floor => Watch.Follows.expression h floor
  refine ⟨fun floor => (hexpression floor).movesForward, (Watch.Follows.statement? h).movesForward,
    fun k => (Watch.Follows.lift (.expectPeek k)).movesForward,
    fun rule => Watch.Follows.movesForward (hfollows.start (n := 0) (.lift .leaf) hexpression rule),
    fun rule power left =>
      Watch.Follows.movesForward (hfollows.follow (n := 0) hexpression power left rule),
    fun rule => (Watch.Follows.statement h rule).movesForward, ?_⟩
  obtain ⟨k, hk⟩ := p.exists_last_turns
  obtain ⟨levels, hallowed, hsame⟩ := Watch.program_eq h
  refine ⟨k, levels, ?_, hallowed, hsame⟩
  rw [← p.skip_eq_iterate]
  show { p.turns.2 with errors := p.turns.2.errors ++ p.faults } = _
  rw [hk]
  rfl

/-- A comma as an operator on the last level: its operand is refused, and the level is closed. -/
theorem reading_moves_forward_last_level :
    255 ≤ maxNesting ∧
      ∃ levels, (∀ level ∈ levels, Level.Allowed level) ∧
        ∀ noted,
          Watch.expression .lowest
              (⟨[⟨.comma, ","⟩, ⟨.identifier, "x"⟩], [.illegalToken "@"], 255,
                Rules.standard.setStart .comma .unary⟩, noted) =
            .error (.nestingTooDeep 256)
              (⟨[⟨.identifier, "x"⟩], [.illegalToken "@"], 255,
                Rules.standard.setStart .comma .unary⟩, noted ++ levels) := by
  have hdepth : 255 ≤ maxNesting := by decide
  obtain ⟨-, levels, -, hallowed, hsame⟩ :=
    (reading_moves_forward (p := ⟨[⟨.comma, ","⟩, ⟨.identifier, "x"⟩], [.illegalToken "@"], 255,
      Rules.standard.setStart .comma .unary⟩) hdepth).1 .lowest
  exact ⟨hdepth, levels, hallowed, hsame⟩

end LetLang
