import LetLang.Proofs.Parser.Depth

/-!
# Limit — nothing is seen of it until it is passed

Here the expression reader runs once more with levels that open however many are open.  What it
notes on the list of levels shows how deep it went.  Where that is never past the limit the limited
reader does the same; where it is, the limited reader ends at the limit, whatever the other one
would have made of the tokens.

The two are one reader with different ways to open a level, so what relates them goes up from the
operands to the operations.
-/

namespace LetLang

open Token ParseM

namespace Watch

variable {α β : Type}

/-! ## 1. Levels without a limit -/

/-- Opens one more level, however many are open. -/
def enterFreely : Watch Unit := fun (p, levels) =>
  .ok () ({ p with depth := p.depth + 1 }, levels ++ [.opened (p.depth + 1)])

/-- A computation inside one more level, which is closed however the computation ends. -/
def freely (body : Watch α) : Watch α := do
  enterFreely
  tryFinally body exit

/-- An expression whose operators all bind tighter than the floor, with at most so many calls
inside each other. -/
def unlimitedWithin (calls : Nat) (floor : Power) : Watch Expr :=
  expressionBy freely calls floor

/-- An expression whose operators all bind tighter than the floor, as deep as it goes.  Each
operand has a token before it, so there are never more calls inside each other than tokens and
one. -/
def unlimited (floor : Power) : Watch Expr := do
  unlimitedWithin ((← (get : ParseM Parser)).ahead.length + 1) floor

/-! ## 2. Runs -/

/-- The result of a computation with this outcome that stops in this state. -/
def ending {σ : Type} (outcome : Except SyntaxError α) (stop : σ) :
    EStateM.Result SyntaxError σ α :=
  match outcome with
  | .ok a => .ok a stop
  | .error e => .error e stop

/-- Levels that are opened from depth `d` on, each of them closed behind those opened in it. -/
inductive Nests : Nat → List Level → Prop
  | nil {d : Nat} : Nests d []
  | cons {d : Nat} {inner rest : List Level} (inside : Nests (d + 1) inner)
      (behind : Nests d rest) : Nests d (.opened (d + 1) :: (inner ++ .closed (d + 1) :: rest))

/-- From `p` on the computation has this outcome `k` tokens further, and notes these levels. -/
structure Run (w : Watch α) (p : Parser) (outcome : Except SyntaxError α) (k : Nat)
    (levels : List Level) : Prop where
  nests : Nests p.depth levels
  same : ∀ noted, w (p, noted) = ending outcome (p.skip k, noted ++ levels)

theorem Nests.append {d : Nat} {levels levels' : List Level} (h : Nests d levels)
    (h' : Nests d levels') : Nests d (levels ++ levels') := by
  induction h with
  | nil => exact h'
  | cons inside behind _ ih =>
    rw [List.cons_append, List.append_assoc, List.cons_append]
    exact .cons inside (ih h')

variable {v w : Watch α} {v' w' : α → Watch β} {p : Parser} {outcome : Except SyntaxError α}
  {outcome' : Except SyntaxError β} {j k n d : Nat} {levels levels' : List Level}

theorem exists_run_lift {m : ParseM α} (h : m.Moves) (p : Parser) :
    ∃ outcome k, Run (Watch.lift m) p outcome k [] := by
  obtain ⟨k, hk⟩ := h p
  cases hm : m p with
  | ok a q =>
    rw [stop_of_ok hm] at hk
    subst hk
    exact ⟨.ok a, k, .nil,
      fun noted => by simp only [Watch.lift, hm, noting, ending, List.append_nil]⟩
  | error e q =>
    rw [stop_of_error hm] at hk
    subst hk
    exact ⟨.error e, k, .nil,
      fun noted => by simp only [Watch.lift, hm, noting, ending, List.append_nil]⟩

theorem Run.bind_ok {a : α} (h : Run w p (.ok a) j levels)
    (h' : Run (w' a) (p.skip j) outcome' k levels') :
    Run (w >>= w') p outcome' (j + k) (levels ++ levels') := by
  refine ⟨h.nests.append h'.nests, fun noted => ?_⟩
  rw [bind_apply, h.same noted]
  show w' a (p.skip j, noted ++ levels) = _
  rw [h'.same, p.skip_skip, List.append_assoc]

theorem Run.bind_error {e : SyntaxError} (h : Run w p (.error e) k levels) :
    Run (w >>= w') p (.error e) k levels := by
  refine ⟨h.nests, fun noted => ?_⟩
  rw [bind_apply, h.same noted]
  rfl

theorem freely_apply (w : Watch α) (p : Parser) (noted : List Level) :
    freely w (p, noted) =
      match w ({ p with depth := p.depth + 1 }, noted ++ [.opened (p.depth + 1)]) with
      | .ok a s => .ok a ({ s.1 with depth := s.1.depth - 1 }, s.2 ++ [.closed s.1.depth])
      | .error e s =>
        .error e ({ s.1 with depth := s.1.depth - 1 }, s.2 ++ [.closed s.1.depth]) := by
  simp only [freely, Bind.bind, EStateM.bind, enterFreely, tryFinally, MonadFinally.tryFinally',
    Functor.map, EStateM.map, exit, exitNesting, noting]
  cases w ({ p with depth := p.depth + 1 }, noted ++ [.opened (p.depth + 1)]) <;> rfl

/-- Below the limit there is no difference in how a level is opened. -/
theorem nested_eq_freely (h : p.depth < maxNesting) (w : Watch α) (noted : List Level) :
    Watch.nested w (p, noted) = freely w (p, noted) :=
  (nested_of_lt h noted).trans (freely_apply w p noted).symm

theorem Run.freely (h : Run w { p with depth := p.depth + 1 } outcome k levels) :
    Run (Watch.freely w) p outcome k
      (.opened (p.depth + 1) :: (levels ++ [.closed (p.depth + 1)])) := by
  refine ⟨.cons h.nests .nil, fun noted => ?_⟩
  rw [freely_apply, h.same]
  cases outcome <;> simp [ending, Parser.skip]

theorem Run.nested (hp : p.depth < maxNesting)
    (h : Run w { p with depth := p.depth + 1 } outcome k levels) :
    Run (Watch.nested w) p outcome k
      (.opened (p.depth + 1) :: (levels ++ [.closed (p.depth + 1)])) :=
  ⟨h.freely.nests, fun noted => (nested_eq_freely hp w noted).trans (h.freely.same noted)⟩

/-! ## 3. As many calls as there are tokens -/

/-- The two computations run alike where the rules are those of the language and at most `n`
tokens are ahead. -/
def Agree (n : Nat) (v w : Watch α) : Prop :=
  ∀ p : Parser, p.rules = .standard → p.ahead.length ≤ n →
    ∃ outcome k levels, Run v p outcome k levels ∧ Run w p outcome k levels

theorem Agree.bind (h : Agree n v w) (h' : ∀ a, Agree n (v' a) (w' a)) :
    Agree n (v >>= v') (w >>= w') := by
  intro p hrules hlength
  obtain ⟨outcome, k, levels, hv, hw⟩ := h p hrules hlength
  cases outcome with
  | error e => exact ⟨.error e, k, levels, hv.bind_error, hw.bind_error⟩
  | ok a =>
    obtain ⟨outcome', k', levels', hv', hw'⟩ :=
      h' a (p.skip k) hrules (Nat.le_trans (p.length_ahead_skip_le k) hlength)
    exact ⟨outcome', k + k', levels ++ levels', hv.bind_ok hv', hw.bind_ok hw'⟩

theorem Agree.lift {m : ParseM α} (h : m.Moves) : Agree n (Watch.lift m) (Watch.lift m) := by
  intro p _ _
  obtain ⟨outcome, k, hrun⟩ := exists_run_lift h p
  exact ⟨outcome, k, [], hrun, hrun⟩

theorem Agree.advance {v' w' : Token → Watch β} (h : ∀ a, Agree (n - 1) (v' a) (w' a)) :
    Agree n (Watch.lift ParseM.advance >>= v') (Watch.lift ParseM.advance >>= w') := by
  intro p hrules hlength
  have hless : (p.skip 1).ahead.length ≤ n - 1 := by
    rw [p.ahead_skip, List.length_drop]
    omega
  have hadvance : Run (Watch.lift ParseM.advance) p (.ok p.current) 1 [] := by
    refine ⟨.nil, fun noted => ?_⟩
    rw [← p.advanced_eq_skip, List.append_nil]
    rfl
  obtain ⟨outcome', k', levels', hv', hw'⟩ := h p.current (p.skip 1) hrules hless
  exact ⟨outcome', 1 + k', [] ++ levels', hadvance.bind_ok hv', hadvance.bind_ok hw'⟩

theorem boundedSimulation_agree : BoundedSimulation fun α => Agree (α := α) where
  step h := .lift h.moves
  pure a := .lift (.pure a)
  bind := Agree.bind
  advance := Agree.advance
  rounds := .lift .rounds
  usedUp h := h

theorem Agree.operation {f g : Power → Watch Expr}
    (h : ∀ floor, Agree (n - 1) (f floor) (g floor)) (floor : Power) :
    Agree n (ParseM.operation f floor) (ParseM.operation g floor) :=
  boundedSimulation_agree.operation (.lift .leaf) (fun e => .lift (.throw e)) h floor

theorem Agree.freely (h : Agree n v w) : Agree n (Watch.freely v) (Watch.freely w) := by
  intro p hrules hlength
  obtain ⟨outcome, k, levels, hv, hw⟩ := h { p with depth := p.depth + 1 } hrules hlength
  exact ⟨outcome, k, _, hv.freely, hw.freely⟩

theorem run_operation_of_none {f : Power → Watch Expr} {floor : Power}
    (h : p.rules.start? p.current.kind = none) :
    Run (operation f floor) p (.error (.noExpressionStart p.current.kind)) 0 [] := by
  refine ⟨.nil, fun noted => ?_⟩
  have hget : (liftM (get : ParseM Parser) : Watch Parser) (p, noted) = .ok p (p, noted) := rfl
  rw [operation, bind_apply, hget]
  simp only [h, List.append_nil]
  rfl

/-- Where no token is left no operand is read. -/
theorem agree_operation_zero (f g : Power → Watch Expr) (floor : Power) :
    Agree 0 (operation f floor) (operation g floor) := by
  intro p hrules hlength
  have hend : p.current.kind = .eof :=
    Parser.kind_of_ahead_eq_nil (List.eq_nil_of_length_eq_zero (Nat.le_zero.mp hlength))
  have hstart : p.rules.start? p.current.kind = none := by
    rw [hrules, hend]
    rfl
  exact ⟨_, _, _, run_operation_of_none hstart, run_operation_of_none hstart⟩

/-- Every number of calls above the number of tokens gives the same. -/
theorem agree_unlimitedWithin {calls calls' : Nat} (h : n ≤ calls) (h' : n ≤ calls')
    (floor : Power) :
    Agree n (unlimitedWithin (calls + 1) floor) (unlimitedWithin (calls' + 1) floor) := by
  induction n generalizing calls calls' floor with
  | zero => exact .freely (agree_operation_zero _ _ floor)
  | succ n ih =>
    obtain ⟨calls, rfl⟩ := Nat.exists_eq_add_of_le' h
    obtain ⟨calls', rfl⟩ := Nat.exists_eq_add_of_le' h'
    refine .freely (.operation (fun floor => ?_) floor)
    exact ih (Nat.le_add_left n calls) (Nat.le_add_left n calls') floor

theorem agree_unlimited {calls : Nat} (h : n ≤ calls) (floor : Power) :
    Agree n (unlimitedWithin (calls + 1) floor) (unlimited floor) := by
  intro p hrules hlength
  -- on this parser there are as many calls as tokens ahead, and one
  obtain ⟨outcome, k, levels, hv, hw⟩ :=
    agree_unlimitedWithin (Nat.le_trans hlength h) (Nat.le_refl _) floor p hrules (Nat.le_refl _)
  exact ⟨outcome, k, levels, hv, hw.nests, hw.same⟩

theorem agree_operation_unlimited (n : Nat) (floor : Power) :
    Agree n (operation (unlimitedWithin n) floor) (operation unlimited floor) := by
  cases n with
  | zero => exact agree_operation_zero _ _ floor
  | succ n =>
    -- an operand has one token less ahead, and for those there are calls enough
    have hoperands : ∀ floor, Agree n (unlimitedWithin (n + 1) floor) (unlimited floor) :=
      fun floor => agree_unlimited (Nat.le_refl n) floor
    exact .operation (n := n + 1) hoperands floor

/-- The reader without a limit reads an operation in one more level, and the operands again
without a limit: the calls that it is given are never used up. -/
theorem unlimited_eq {s : Parser × List Level} (h : s.1.rules = .standard) (floor : Power) :
    unlimited floor s = freely (operation unlimited floor) s := by
  obtain ⟨outcome, k, levels, hv, hw⟩ :=
    (agree_operation_unlimited s.1.ahead.length floor).freely s.1 h (Nat.le_refl _)
  exact (hv.same s.2).trans (hw.same s.2).symm

/-! ## 4. The limit -/

/-- The greatest number of levels that are open at once, when `now` are open before these. -/
def mostOpen (now : Nat) : List Level → Nat
  | [] => now
  | .opened _ :: levels => mostOpen (now + 1) levels
  | .closed _ :: levels => max now (mostOpen (now - 1) levels)

/-- The depths that are noted count the levels that are open. -/
theorem Nests.mostOpen_append_le_iff {now : Nat} (h : Nests d levels) :
    mostOpen now (levels ++ levels') ≤ n ↔
      (∀ depth, Level.opened depth ∈ levels → now + (depth - d) ≤ n) ∧
        mostOpen now levels' ≤ n := by
  induction h generalizing now levels' with
  | nil => simp
  | @cons d inner rest inside behind ih ih' =>
    have hopen : mostOpen now (.opened (d + 1) :: (inner ++ .closed (d + 1) :: rest) ++ levels') =
        mostOpen (now + 1) (inner ++ .closed (d + 1) :: (rest ++ levels')) := by
      rw [List.cons_append, List.append_assoc]
      rfl
    have hclose : mostOpen (now + 1) (.closed (d + 1) :: (rest ++ levels')) ≤ n ↔
        now + 1 ≤ n ∧ mostOpen now (rest ++ levels') ≤ n := Nat.max_le
    rw [hopen, ih, hclose, ih']
    simp only [List.mem_cons, List.mem_append, Level.opened.injEq, reduceCtorEq, false_or]
    -- the level itself is one more than those open now, and its depth one more than `d`
    constructor
    · rintro ⟨hinner, hnow, hrest, hbehind⟩
      refine ⟨?_, hbehind⟩
      rintro depth (rfl | hmem | hmem)
      · omega
      · have := hinner depth hmem
        omega
      · exact hrest depth hmem
    · rintro ⟨hall, hbehind⟩
      have hnow := hall (d + 1) (.inl rfl)
      refine ⟨fun depth hmem => ?_, by omega, fun depth hmem => hall depth (.inr (.inr hmem)),
        hbehind⟩
      have := hall depth (.inr (.inl hmem))
      omega

/-- No level was opened past the limit. -/
def Within (levels : List Level) : Prop :=
  ∀ depth, Level.opened depth ∈ levels → depth ≤ maxNesting

theorem within_append : Within (levels ++ levels') ↔ Within levels ∧ Within levels' := by
  simp only [Within, List.mem_append, or_imp, forall_and]

theorem within_nested {depth depth' : Nat} :
    Within (.opened depth :: (levels ++ [.closed depth'])) ↔
      depth ≤ maxNesting ∧ Within levels := by
  simp [Within]

/-- Counted from depth `d` on, as many levels are open at once as the limit leaves exactly if no
depth is past the limit. -/
theorem Nests.mostOpen_le_iff (h : Nests d levels) (hd : d ≤ maxNesting) :
    mostOpen 0 levels ≤ maxNesting - d ↔ Within levels := by
  have hcount : mostOpen 0 (levels ++ []) ≤ maxNesting - d ↔ _ := h.mostOpen_append_le_iff
  rw [levels.append_nil] at hcount
  rw [hcount]
  constructor
  · rintro ⟨hall, -⟩ depth hmem
    have := hall depth hmem
    omega
  · intro hwithin
    refine ⟨fun depth hmem => ?_, Nat.zero_le _⟩
    have := hwithin depth hmem
    omega

/-- From depth `d` on, under the rules of the language, the second computation does what the first
does as long as that opens no level past the limit, and is refused a level where it does. -/
def Cut (d : Nat) (v w : Watch α) : Prop :=
  ∀ p : Parser, p.rules = .standard → p.depth = d → ∃ outcome k levels, Run v p outcome k levels ∧
    (Within levels → Run w p outcome k levels) ∧
    (¬ Within levels → ∃ k' levels', Run w p (.error (.nestingTooDeep maxNesting)) k' levels')

theorem Cut.bind (h : Cut d v w) (h' : ∀ a, Cut d (v' a) (w' a)) :
    Cut d (v >>= v') (w >>= w') := by
  intro p hrules hp
  obtain ⟨outcome, k, levels, hrun, hsame, hrefused⟩ := h p hrules hp
  cases outcome with
  | error e =>
    refine ⟨.error e, k, levels, hrun.bind_error, fun hwithin => (hsame hwithin).bind_error,
      fun hpast => ?_⟩
    obtain ⟨k', levels', hw⟩ := hrefused hpast
    exact ⟨k', levels', hw.bind_error⟩
  | ok a =>
    obtain ⟨outcome', k', levels', hrun', hsame', hrefused'⟩ := h' a (p.skip k) hrules hp
    refine ⟨outcome', k + k', levels ++ levels', hrun.bind_ok hrun', fun hwithin => ?_,
      fun hpast => ?_⟩
    · obtain ⟨hwithin, hwithin'⟩ := within_append.mp hwithin
      exact (hsame hwithin).bind_ok (hsame' hwithin')
    · -- the level that is refused is opened in the first part or in the second
      by_cases hwithin : Within levels
      · obtain ⟨k'', levels'', hw'⟩ :=
          hrefused' fun hwithin' => hpast (within_append.mpr ⟨hwithin, hwithin'⟩)
        exact ⟨k + k'', levels ++ levels'', (hsame hwithin).bind_ok hw'⟩
      · obtain ⟨k'', levels'', hw⟩ := hrefused hwithin
        exact ⟨k'', levels'', hw.bind_error⟩

theorem Cut.lift {m : ParseM α} (h : m.Moves) : Cut d (Watch.lift m) (Watch.lift m) := by
  intro p _ _
  obtain ⟨outcome, k, hrun⟩ := exists_run_lift h p
  exact ⟨outcome, k, [], hrun, fun _ => hrun, fun hpast => absurd nofun hpast⟩

theorem boundedSimulation_cut (d : Nat) :
    BoundedSimulation fun α _ (v w : Watch α) => Cut d v w where
  toSimulation := .of_uniform (R := fun α (v w : Watch α) => Cut d v w)
    (fun hstep => .lift hstep.moves) (fun a => .lift (.pure a)) .bind
  rounds := .lift .rounds
  usedUp h := h

/-- Below the limit one more level is opened by both. -/
theorem Cut.nested (hlt : d < maxNesting) (h : Cut (d + 1) v w) :
    Cut d (Watch.freely v) (Watch.nested w) := by
  intro p hrules hp
  subst hp
  obtain ⟨outcome, k, levels, hrun, hsame, hrefused⟩ :=
    h { p with depth := p.depth + 1 } hrules rfl
  refine ⟨outcome, k, _, hrun.freely,
    fun hwithin => (hsame (within_nested.mp hwithin).2).nested hlt, fun hpast => ?_⟩
  obtain ⟨k', levels', hw⟩ := hrefused fun hwithin => hpast (within_nested.mpr ⟨hlt, hwithin⟩)
  exact ⟨k', _, hw.nested hlt⟩

/-- At the limit the level that the first opens is refused to the second. -/
theorem Cut.refused (h : ∀ p : Parser, p.rules = .standard → ∃ outcome k levels,
      Run v p outcome k levels) :
    Cut maxNesting (Watch.freely v) (Watch.nested w) := by
  intro p hrules hp
  obtain ⟨outcome, k, levels, hrun⟩ := h { p with depth := p.depth + 1 } hrules
  refine ⟨outcome, k, _, hrun.freely, fun hwithin => ?_, fun _ => ⟨0, [], ?_⟩⟩
  · have := (within_nested.mp hwithin).1
    omega
  · -- the level is not opened, so the body is not even begun
    refine ⟨.nil, fun noted => ?_⟩
    have hnot : ¬ p.depth < maxNesting := by omega
    rw [nested_of_not_lt hnot, List.append_nil]
    rfl

theorem Cut.of_operation {floor : Power} {w : Watch Expr}
    (h : Cut d (Watch.freely (operation unlimited floor)) w) : Cut d (unlimited floor) w := by
  intro p hrules hp
  obtain ⟨outcome, k, levels, hrun, hrest⟩ := h p hrules hp
  have hsame := fun noted => (unlimited_eq hrules floor).trans (hrun.same noted)
  exact ⟨outcome, k, levels, ⟨hrun.nests, hsame⟩, hrest⟩

/-- With one level more than are left below the limit, the limit is what the two differ by. -/
theorem cut_expressionBy (levels : Nat) (hd : d + levels = maxNesting) (floor : Power) :
    Cut d (unlimited floor) (expressionBy Watch.nested (levels + 1) floor) := by
  induction levels generalizing d floor with
  | zero =>
    obtain rfl : d = maxNesting := hd
    refine .of_operation (.refused fun p hrules => ?_)
    obtain ⟨outcome, k, opened, -, hrun⟩ :=
      agree_operation_unlimited p.ahead.length floor p hrules (Nat.le_refl _)
    exact ⟨outcome, k, opened, hrun⟩
  | succ levels ih =>
    have hoperation := (boundedSimulation_cut (d + 1)).operation (n := 0) (.lift .leaf)
      (fun e => .lift (.throw e)) (ih (by omega)) floor
    exact .of_operation (.nested (by omega) hoperation)

theorem eq_ending_of_noting {r : EStateM.Result SyntaxError Parser α} {q : Parser}
    (h : noting levels r = ending outcome (q, levels')) : r = ending outcome q := by
  cases r <;> cases outcome <;> cases h <;> rfl

theorem noting_ending (outcome : Except SyntaxError α) (q : Parser) (levels : List Level) :
    noting levels (ending outcome q) = ending outcome (q, levels) := by
  cases outcome <;> rfl

/-- Below the limit the parser does what a run of the watched reader says. -/
theorem expression_eq_ending {floor : Power} (hp : p.depth ≤ maxNesting)
    {outcome : Except SyntaxError Expr}
    (h : Run (expressionBy Watch.nested (maxNesting - p.depth + 1) floor) p outcome k levels) :
    ParseM.expression floor p = ending outcome (p.skip k) := by
  obtain ⟨levels', -, hsame⟩ := (Follows.expression hp floor).same p rfl
  exact eq_ending_of_noting ((hsame []).symm.trans (h.same []))

end Watch

/-- **The limit is transparent until it is passed.**  The reader without a limit is the reader of
expressions but for how it opens levels.  From a parser within the limit, and whatever the tokens
are: if it never has more expressions open at once than are left below the limit, the reader of
expressions gives the same value or error and the same parser; and if it has, the reader of
expressions is refused a level. -/
theorem nesting_limit_transparent :
    (∀ floor (s : Parser × List Level), s.1.rules = .standard →
      Watch.unlimited floor s = Watch.freely (ParseM.operation Watch.unlimited floor) s) ∧
    ∀ floor (p : Parser), p.rules = .standard → p.depth ≤ maxNesting →
      ∃ r levels, (∀ noted, Watch.unlimited floor (p, noted) = Watch.noting (noted ++ levels) r) ∧
        (Watch.mostOpen 0 levels ≤ maxNesting - p.depth → ParseM.expression floor p = r) ∧
        (maxNesting - p.depth < Watch.mostOpen 0 levels →
          ∃ q, ParseM.expression floor p = .error (.nestingTooDeep maxNesting) q) := by
  refine ⟨fun floor s h => Watch.unlimited_eq h floor, fun floor p hrules hp => ?_⟩
  obtain ⟨outcome, k, levels, hrun, hsame, hrefused⟩ :=
    Watch.cut_expressionBy (maxNesting - p.depth) (Nat.add_sub_cancel' hp) floor p hrules rfl
  have hwithin : Watch.mostOpen 0 levels ≤ maxNesting - p.depth ↔ Watch.Within levels :=
    hrun.nests.mostOpen_le_iff hp
  refine ⟨Watch.ending outcome (p.skip k), levels,
    fun noted => (hrun.same noted).trans (Watch.noting_ending _ _ _).symm, fun hopen => ?_,
    fun hopen => ?_⟩
  · exact Watch.expression_eq_ending hp (hsame (hwithin.mp hopen))
  · obtain ⟨k', levels', hw⟩ := hrefused fun h => Nat.not_le.mpr hopen (hwithin.mpr h)
    exact ⟨p.skip k', Watch.expression_eq_ending hp hw⟩

/-- A negated number that is too large: the number is what is wrong where two levels are left, and
where one is left it is never looked at. -/
theorem nesting_limit_transparent_number :
    254 ≤ maxNesting ∧ 255 ≤ maxNesting ∧
      (∃ q, ParseM.expression .lowest
          ⟨[⟨.dash, "-"⟩, ⟨.integer, "9223372036854775808"⟩], [], 254, .standard⟩ =
        .error (.numberTooLarge "9223372036854775808") q) ∧
      ∃ q, ParseM.expression .lowest
          ⟨[⟨.dash, "-"⟩, ⟨.integer, "9223372036854775808"⟩], [], 255, .standard⟩ =
        .error (.nestingTooDeep 256) q := by
  have hbelow : 254 ≤ maxNesting := by decide
  have hlast : 255 ≤ maxNesting := by decide
  refine ⟨hbelow, hlast, ?_, ?_⟩
  · obtain ⟨r, levels, hrun, hsame, -⟩ := nesting_limit_transparent.2 .lowest
      ⟨[⟨.dash, "-"⟩, ⟨.integer, "9223372036854775808"⟩], [], 254, .standard⟩ rfl hbelow
    have hfree : Watch.noting levels r = .error (.numberTooLarge "9223372036854775808")
        (⟨[⟨.integer, "9223372036854775808"⟩], [], 254, .standard⟩,
          [.opened 255, .opened 256, .closed 256, .closed 255]) := (hrun []).symm.trans rfl
    cases r <;> cases hfree
    exact ⟨_, hsame (by decide)⟩
  · obtain ⟨r, levels, hrun, -, hrefused⟩ := nesting_limit_transparent.2 .lowest
      ⟨[⟨.dash, "-"⟩, ⟨.integer, "9223372036854775808"⟩], [], 255, .standard⟩ rfl hlast
    have hfree : Watch.noting levels r = .error (.numberTooLarge "9223372036854775808")
        (⟨[⟨.integer, "9223372036854775808"⟩], [], 255, .standard⟩,
          [.opened 256, .opened 257, .closed 257, .closed 256]) := (hrun []).symm.trans rfl
    cases r <;> cases hfree
    exact hrefused (by decide)

end LetLang
