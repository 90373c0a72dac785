import LetLang.Parser.Statement

/-!
# Relations — what every step keeps, every reader keeps

The readers run in every monad to which computations on a parser lift.  So a relation between the
computations of two such monads goes up from the readers of operands to all the others, if the
steps of the parser are in it and it goes through sequences: there is one lemma for each reader,
whatever the relation says.  Where a relation says more of a reader than its steps do, that part is
left to it: how a leaf is read, what an error is about, and how long a loop goes on.
-/

namespace LetLang

open Token ParseM

/-! ## 1. Steps and sequences -/

/-- The steps of a parser that readers take. -/
inductive ParseM.Step : {α : Type} → ParseM α → Prop
  | get : Step MonadState.get
  | current : Step current
  | peekIs (k : Kind) : Step (peekIs k)
  | advance : Step advance
  | expectPeek {k : Kind} (asked : k ∈ [.identifier, .assignment, .closeParen]) :
      Step (expectPeek k)
  | skipSemicolon : Step skipSemicolon

variable {m m' : Type → Type} [Monad m] [MonadLiftT ParseM m] [Monad m'] [MonadLiftT ParseM m']

/-- A relation between computations on parsers with at most so many tokens ahead: every step of the
parser is in it, it goes through sequences, and behind a token that is passed one token less is
ahead. -/
structure Simulation (R : (α : Type) → Nat → m α → m' α → Prop) : Prop where
  step {α : Type} {n : Nat} {x : ParseM α} : x.Step → R α n (liftM x) (liftM x)
  pure {α : Type} {n : Nat} (a : α) : R α n (Pure.pure a) (Pure.pure a)
  bind {α β : Type} {n : Nat} {w : m α} {w' : m' α} {f : α → m β} {f' : α → m' β} :
    R α n w w' → (∀ a, R β n (f a) (f' a)) → R β n (w >>= f) (w' >>= f')
  advance {β : Type} {n : Nat} {f : Token → m β} {f' : Token → m' β} :
    (∀ t, R β (n - 1) (f t) (f' t)) →
      R β n (liftM ParseM.advance >>= f) (liftM ParseM.advance >>= f')

/-- A relation that has nothing to do with the number of tokens ahead. -/
theorem Simulation.of_uniform {R : (α : Type) → m α → m' α → Prop}
    (step : ∀ {α : Type} {x : ParseM α}, x.Step → R α (liftM x) (liftM x))
    (pure : ∀ {α : Type} (a : α), R α (Pure.pure a) (Pure.pure a))
    (bind : ∀ {α β : Type} {w : m α} {w' : m' α} {f : α → m β} {f' : α → m' β},
      R α w w' → (∀ a, R β (f a) (f' a)) → R β (w >>= f) (w' >>= f')) :
    Simulation fun α _ => R α where
  step := step
  pure := pure
  bind := bind
  advance h := bind (step .advance) h

namespace Simulation

variable {R : (α : Type) → Nat → m α → m' α → Prop} {f : Power → m Expr} {g : Power → m' Expr}
  {n : Nat}

/-! ## 2. Rules -/

/-- Operands are read behind a token, so they need to be related for one token less. -/
theorem start (hR : Simulation R) (hleaf : R Expr n (liftM leaf) (liftM leaf))
    (h : ∀ floor, R Expr (n - 1) (f floor) (g floor)) (rule : StartRule) :
    R Expr n (rule.read f) (rule.read g) := by
  cases rule with
  | leaf => exact hleaf
  | unary => exact hR.advance fun _ => hR.bind (h _) fun _ => hR.pure _
  | group =>
    exact hR.advance fun _ => hR.bind (h _) fun _ =>
      hR.bind (hR.step (.expectPeek (by decide))) fun _ => hR.pure _

variable [Bounds m] [Bounds m']

theorem arguments (hR : Simulation R)
    (h : R (List Expr) (n - 1) (argumentList f) (argumentList g)) :
    R (List Expr) n (ParseM.arguments f) (ParseM.arguments g) := by
  refine hR.bind (hR.step (.peekIs _)) fun closed => ?_
  cases closed with
  | true => exact hR.bind (hR.step .advance) fun _ => hR.pure _
  | false =>
    exact hR.advance fun _ => hR.bind h fun _ =>
      hR.bind (hR.step (.expectPeek (by decide))) fun _ => hR.pure _

theorem follow (hR : Simulation R) (h : ∀ floor, R Expr (n - 1) (f floor) (g floor))
    (harguments : R (List Expr) (n - 1) (argumentList f) (argumentList g)) (power : Power)
    (left : Expr) (rule : FollowRule) :
    R Expr n (rule.read f power left) (rule.read g power left) := by
  cases rule with
  | binary => exact hR.advance fun _ => hR.bind (h _) fun _ => hR.pure _
  | call =>
    exact hR.bind (hR.step .current) fun _ => hR.bind (hR.arguments harguments) fun _ => hR.pure _

theorem operation (hR : Simulation R) (hleaf : R Expr n (liftM leaf) (liftM leaf))
    (hraise : ∀ e, R Expr n (liftM (throw e : ParseM Expr)) (liftM (throw e : ParseM Expr)))
    (h : ∀ floor, R Expr (n - 1) (f floor) (g floor)) {floor : Power}
    (hclimbing : ∀ left, R Expr n (climbing f floor left) (climbing g floor left)) :
    R Expr n (ParseM.operation f floor) (ParseM.operation g floor) := by
  refine hR.bind (hR.step .get) fun p => ?_
  cases p.rules.start? p.current.kind with
  | none => exact hraise _
  | some rule => exact hR.bind (hR.start hleaf h rule) hclimbing

end Simulation

/-! ## 3. Loops -/

section

variable [Bounds m] [Bounds m']

/-- A relation between two monads that bound loops alike. -/
structure BoundedSimulation (R : (α : Type) → Nat → m α → m' α → Prop) : Prop
    extends Simulation R where
  rounds {n : Nat} : R Nat n Bounds.rounds Bounds.rounds
  usedUp {α : Type} {n : Nat} {w : m α} {w' : m' α} :
    R α n w w' → R α n (Bounds.usedUp w) (Bounds.usedUp w')

namespace BoundedSimulation

variable {R : (α : Type) → Nat → m α → m' α → Prop} {f : Power → m Expr} {g : Power → m' Expr}
  {n : Nat}

theorem moreArguments (hR : BoundedSimulation R) (h : ∀ floor, R Expr n (f floor) (g floor))
    (rounds : Nat) :
    R (List Expr) n (ParseM.moreArguments f rounds) (ParseM.moreArguments g rounds) := by
  induction rounds with
  | zero => exact hR.usedUp (hR.pure _)
  | succ rounds ih =>
    refine hR.bind (hR.step (.peekIs _)) fun comma => ?_
    cases comma with
    | false => exact hR.pure _
    | true =>
      exact hR.bind (hR.step .advance) fun _ => hR.bind (hR.step .advance) fun _ =>
        hR.bind (h _) fun _ => hR.bind ih fun _ => hR.pure _

theorem argumentList (hR : BoundedSimulation R) (h : ∀ floor, R Expr n (f floor) (g floor)) :
    R (List Expr) n (ParseM.argumentList f) (ParseM.argumentList g) :=
  hR.bind (h _) fun _ => hR.bind hR.rounds fun _ => hR.bind (hR.moreArguments h _) fun _ =>
    hR.pure _

theorem follow (hR : BoundedSimulation R) (h : ∀ floor, R Expr (n - 1) (f floor) (g floor))
    (power : Power) (left : Expr) (rule : FollowRule) :
    R Expr n (rule.read f power left) (rule.read g power left) :=
  hR.toSimulation.follow h (hR.argumentList h) power left rule

theorem climb (hR : BoundedSimulation R) (h : ∀ floor, R Expr (n - 1) (f floor) (g floor))
    (floor : Power) (rounds : Nat) (left : Expr) :
    R Expr n (ParseM.climb f floor rounds left) (ParseM.climb g floor rounds left) := by
  induction rounds generalizing left with
  | zero => exact hR.usedUp (hR.pure _)
  | succ rounds ih =>
    refine hR.bind (hR.step .get) fun p => ?_
    cases p.follow? floor with
    | none => exact hR.pure _
    | some follow =>
      exact hR.bind (hR.step .advance) fun _ => hR.bind (hR.follow h _ _ _) fun _ => ih _

theorem climbing (hR : BoundedSimulation R) (h : ∀ floor, R Expr (n - 1) (f floor) (g floor))
    (floor : Power) (left : Expr) :
    R Expr n (ParseM.climbing f floor left) (ParseM.climbing g floor left) :=
  hR.bind hR.rounds fun _ => hR.climb h _ _ _

theorem operation (hR : BoundedSimulation R) (hleaf : R Expr n (liftM leaf) (liftM leaf))
    (hraise : ∀ e, R Expr n (liftM (throw e : ParseM Expr)) (liftM (throw e : ParseM Expr)))
    (h : ∀ floor, R Expr (n - 1) (f floor) (g floor)) (floor : Power) :
    R Expr n (ParseM.operation f floor) (ParseM.operation g floor) :=
  hR.toSimulation.operation hleaf hraise h fun _ => hR.climbing h _ _

end BoundedSimulation

end

/-! ## 4. Statements -/

namespace Simulation

variable {R : (α : Type) → Nat → m α → m' α → Prop} {v : m Expr} {w : m' Expr} {n : Nat}

theorem expressionStatement (hR : Simulation R) (h : R Expr n v w) :
    R Statement n (ParseM.expressionStatement v) (ParseM.expressionStatement w) :=
  hR.bind (hR.step .current) fun _ => hR.bind h fun _ => hR.bind (hR.step .skipSemicolon) fun _ =>
    hR.pure _

theorem statement (hR : Simulation R) (h : R Expr n v w) (rule : StatementRule) :
    R Statement n (rule.readOf v) (rule.readOf w) := by
  cases rule with
  | letStatement =>
    exact hR.bind (hR.step .current) fun _ => hR.bind (hR.step (.expectPeek (by decide))) fun _ =>
      hR.bind (hR.step (.expectPeek (by decide))) fun _ => hR.bind (hR.step .advance) fun _ =>
        hR.bind h fun _ => hR.bind (hR.step .skipSemicolon) fun _ => hR.pure _
  | returnStatement =>
    refine hR.bind (hR.step .advance) fun _ => hR.bind ?_ fun _ =>
      hR.bind (hR.step .skipSemicolon) fun _ => hR.pure _
    refine hR.bind (hR.step .current) fun token => ?_
    cases token.is .semicolon || token.is .eof with
    | true => exact hR.pure _
    | false => exact hR.bind h fun _ => hR.pure _
  | expression => exact hR.expressionStatement h

theorem statement? (hR : Simulation R) (h : R Expr n v w)
    (hraise : ∀ e, R (Option Statement) n (liftM (throw e : ParseM (Option Statement)))
      (liftM (throw e : ParseM (Option Statement)))) :
    R (Option Statement) n (statementOf? v) (statementOf? w) := by
  refine hR.bind (hR.step .get) fun p => ?_
  cases p.rules.statement? p.current.kind with
  | some rule => exact hR.bind (hR.statement h rule) fun _ => hR.pure _
  | none =>
    cases p.current.is .illegal with
    | true => exact hraise _
    | false =>
      cases (p.rules.start? p.current.kind).isSome with
      | true => exact hR.bind (hR.expressionStatement h) fun _ => hR.pure _
      | false => exact hR.pure _

end Simulation

end LetLang
