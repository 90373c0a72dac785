import Mathlib.Data.List.Forall2
import Mathlib.Data.List.Infix
import LetLang.Proofs.Grammar.Programs

/-!
# Illegal tokens — each has an error of its own

A character that begins no lexeme is an illegal token.  No rule of the language is set for it, so it
can become current in two ways only: a turn begins on it, or an expression should start with it.
Both end the turn with an error on that token, and the next turn begins behind it.  So no illegal
token is passed without an error, and no two of them share one.
-/

namespace LetLang

open Token ParseM

/-! ## 1. Errors on illegal tokens -/

/-- What an error on an illegal token may be. -/
inductive SyntaxError.Blames (t : Token) : SyntaxError → Prop
  /-- No statement begins with it. -/
  | illegalToken : Blames t (.illegalToken t.literal)
  /-- No expression starts with it. -/
  | noExpressionStart : Blames t (.noExpressionStart .illegal)
  /-- An expression that should start with it is not even begun. -/
  | nestingTooDeep : Blames t (.nestingTooDeep maxNesting)

namespace Parser

variable {p q r : Parser}

/-- The parser `q` is `p` some tokens further, none of them illegal; its current token may be. -/
def Clears (p q : Parser) : Prop :=
  ∃ k, q = p.skip k ∧ ∀ t ∈ p.ahead.take k, t.kind ≠ .illegal

theorem Clears.refl (p : Parser) : p.Clears p := ⟨0, rfl, nofun⟩

theorem Clears.trans (h : p.Clears q) (h' : q.Clears r) : p.Clears r := by
  obtain ⟨j, rfl, hj⟩ := h
  obtain ⟨k, rfl, hk⟩ := h'
  refine ⟨j + k, p.skip_skip j k, ?_⟩
  rw [List.take_add, List.forall_mem_append]
  exact ⟨hj, hk⟩

theorem clears_advanced (h : p.current.kind ≠ .illegal) : p.Clears p.advanced := by
  refine ⟨1, p.advanced_eq_skip, fun t ht => ?_⟩
  cases hahead : p.ahead with
  | nil =>
    rw [hahead] at ht
    exact absurd ht List.not_mem_nil
  | cons u rest =>
    rw [hahead, List.take_succ_cons, List.take_zero, List.mem_singleton] at ht
    rw [ht, ← (current_of_ahead_eq_cons hahead).1]
    exact h

theorem Clears.rules_eq (h : p.Clears q) : q.rules = p.rules := by
  obtain ⟨k, rfl, -⟩ := h
  rfl

end Parser

/-! ## 2. Computations that mind illegal tokens -/

variable {α β : Type} {p q : Parser}

/-- From `p` on the computation passes no illegal token: it stops on one only with an error, which
is about it. -/
inductive Minds (p : Parser) : EStateM.Result SyntaxError Parser α → Prop
  | ok {a : α} {q : Parser} (clears : p.Clears q) (legal : q.current.kind ≠ .illegal) :
      Minds p (.ok a q)
  | error {e : SyntaxError} {q : Parser} (clears : p.Clears q)
      (blames : q.current.kind = .illegal → e.Blames q.current) : Minds p (.error e q)

namespace Minds

theorem from_clears {r : EStateM.Result SyntaxError Parser α} (h : p.Clears q) (hr : Minds q r) :
    Minds p r := by
  cases hr with
  | ok clears legal => exact .ok (h.trans clears) legal
  | error clears blames => exact .error (h.trans clears) blames

/-- The next token is looked at from a current one that is not illegal. -/
theorem from_advanced {r : EStateM.Result SyntaxError Parser α} (h : p.current.kind ≠ .illegal)
    (hr : Minds p.advanced r) : Minds p r :=
  hr.from_clears (Parser.clears_advanced h)

theorem bind {m : ParseM α} {k : α → ParseM β} (h : Minds p (m p))
    (hk : ∀ a q, m p = .ok a q → p.Clears q → q.current.kind ≠ .illegal → Minds q (k a q)) :
    Minds p ((m >>= k) p) := by
  cases hm : m p with
  | ok a q =>
    rw [hm] at h
    cases h with
    | ok clears legal =>
      rw [bind_of_ok hm]
      exact (hk a q hm clears legal).from_clears clears
  | error e q =>
    rw [hm] at h
    cases h with
    | error clears blames =>
      rw [bind_of_error hm]
      exact .error clears blames

theorem pure (a : α) (h : p.current.kind ≠ .illegal) : Minds p ((Pure.pure a : ParseM α) p) :=
  .ok (.refl p) h

theorem expectPeek {k : Kind} (hk : k ≠ .illegal) (h : p.current.kind ≠ .illegal) :
    Minds p (ParseM.expectPeek k p) := by
  unfold ParseM.expectPeek
  by_cases hpeek : p.peek.is k = true
  · rw [if_pos hpeek]
    refine .ok (Parser.clears_advanced h) ?_
    rw [Parser.current_advanced, is_eq_true_iff.mp hpeek]
    exact hk
  · -- the token that is met instead stays where it is
    rw [if_neg hpeek]
    exact .error (.refl p) fun hillegal => absurd hillegal h

theorem skipSemicolon (h : p.current.kind ≠ .illegal) : Minds p (ParseM.skipSemicolon p) := by
  unfold ParseM.skipSemicolon
  by_cases hpeek : p.peek.is .semicolon = true
  · rw [if_pos hpeek]
    refine .ok (Parser.clears_advanced h) ?_
    rw [Parser.current_advanced, is_eq_true_iff.mp hpeek]
    decide
  · rw [if_neg hpeek]
    exact .ok (.refl p) h

theorem nested {m : ParseM α}
    (h : Minds { p with depth := p.depth + 1 } (m { p with depth := p.depth + 1 })) :
    Minds p (ParseM.nested m p) := by
  by_cases hlt : p.depth < maxNesting
  · rw [nested_of_lt hlt]
    cases hm : m { p with depth := p.depth + 1 } with
    | ok a q =>
      rw [hm] at h
      cases h with
      | ok clears legal =>
        obtain ⟨k, rfl, hk⟩ := clears
        exact .ok ⟨k, rfl, hk⟩ legal
    | error e q =>
      rw [hm] at h
      cases h with
      | error clears blames =>
        obtain ⟨k, rfl, hk⟩ := clears
        exact .error ⟨k, rfl, hk⟩ blames
  · rw [nested_of_not_lt hlt]
    exact .error (.refl p) fun _ => .nestingTooDeep

/-! ## 3. Rules -/

theorem leaf (h : p.current.kind ≠ .illegal) : Minds p (ParseM.leaf p) := by
  unfold ParseM.leaf
  rw [bind_apply, current_apply]
  -- a leaf stays on its token
  have hok : ∀ e : Expr, Minds p (.ok e p) := fun e => .ok (.refl p) h
  have herror : ∀ e : SyntaxError, Minds (α := Expr) p (.error e p) :=
    fun e => .error (.refl p) fun hillegal => absurd hillegal h
  cases hkind : p.current.kind <;> simp only [hkind]
  case identifier | kwTrue | kwFalse => exact hok _
  case integer =>
    cases Text.Decimal.int64? p.current.literal with
    | none => exact herror _
    | some v => exact hok _
  all_goals exact herror _

/-- Operands may be read wherever the rules are those of the language. -/
def Operand (operand : Power → ParseM Expr) : Prop :=
  ∀ {floor p}, p.rules = .standard → Minds p (operand floor p)

section

variable {operand : Power → ParseM Expr} {floor : Power}

theorem start (hoperand : Operand operand) (hrules : p.rules = .standard) {rule : StartRule}
    (hstart : p.rules.start? p.current.kind = some rule) : Minds p (rule.read operand p) := by
  rw [hrules] at hstart
  have hlegal := (Rules.of_start? hstart).2.1
  have hrules' : p.advanced.rules = .standard := hrules
  cases rule with
  | leaf => exact leaf hlegal
  | unary =>
    rw [StartRule.read, unary_apply]
    exact from_advanced hlegal ((hoperand hrules').bind fun _ q _ _ hq => .pure _ hq)
  | group =>
    rw [StartRule.read, group_apply]
    refine from_advanced hlegal ((hoperand hrules').bind fun _ q _ _ hq => ?_)
    exact (expectPeek (by decide) hq).bind fun _ q _ _ hq => .pure _ hq

theorem argumentList (hreads : ReadsTokens operand) (hoperand : Operand operand)
    (hrules : p.rules = .standard) : Minds p (ParseM.argumentList operand p) := by
  induction hlen : p.ahead.length using Nat.strongRecOn generalizing p with
  | ind n ih =>
    have hfirst : Minds p (operand .lowest p) := hoperand hrules
    cases hread : operand .lowest p with
    | error e q =>
      rw [hread] at hfirst
      rw [ParseM.argumentList, bind_of_error hread]
      cases hfirst with
      | error clears blames => exact .error clears blames
    | ok argument q =>
      rw [hread] at hfirst
      cases hfirst with
      | ok clears legal =>
        by_cases hcomma : q.peek.is .comma = true
        · have hkind := is_eq_true_iff.mp hcomma
          have hne : q.advanced.ahead ≠ [] := Parser.ahead_ne_nil_of_peek (hkind ▸ by decide)
          have hnext : q.advanced.current.kind ≠ .illegal := by
            rw [Parser.current_advanced, hkind]
            decide
          -- behind the comma fewer tokens are left
          have hshorter : q.advanced.advanced.ahead.length < n := by
            obtain ⟨k, rfl⟩ := (hreads.moves _).of_ok hread
            have hskip := p.length_ahead_skip_le k
            have hpos := List.length_pos_iff.mpr hne
            simp only [Parser.ahead_advanced, List.length_tail] at hpos ⊢
            omega
          have hrules' : q.advanced.advanced.rules = .standard := clears.rules_eq.trans hrules
          rw [argumentList_of_comma hreads.moves hread hcomma]
          refine from_clears clears (from_advanced legal (from_advanced hnext ?_))
          exact (ih _ hshorter hrules' rfl).bind fun _ q _ _ hq => .pure _ hq
        · rw [Bool.not_eq_true] at hcomma
          rw [argumentList_of_not_comma hread hcomma]
          exact .ok clears legal

theorem arguments (hreads : ReadsTokens operand) (hoperand : Operand operand)
    (hrules : p.rules = .standard) (h : p.current.kind ≠ .illegal) :
    Minds p (ParseM.arguments operand p) := by
  by_cases hclosed : p.peek.is .closeParen = true
  · rw [arguments_of_closed hclosed]
    refine .ok (Parser.clears_advanced h) ?_
    rw [Parser.current_advanced, is_eq_true_iff.mp hclosed]
    decide
  · rw [Bool.not_eq_true] at hclosed
    have hlist := argumentList hreads hoperand (p := p.advanced) hrules
    rw [arguments_of_open hclosed]
    refine from_advanced h (hlist.bind fun _ q _ _ hq => ?_)
    exact (expectPeek (by decide) hq).bind fun _ q _ _ hq => .pure _ hq

theorem follow (hreads : ReadsTokens operand) (hoperand : Operand operand)
    (hrules : p.rules = .standard) (h : p.current.kind ≠ .illegal) (power : Power) (left : Expr)
    (rule : FollowRule) : Minds p (rule.read operand power left p) := by
  cases rule with
  | binary =>
    rw [FollowRule.read, binary_apply]
    have hright : Minds p.advanced (operand power p.advanced) := hoperand hrules
    exact from_advanced h (hright.bind fun _ q _ _ hq => .pure _ hq)
  | call =>
    rw [FollowRule.read, call_apply]
    exact (arguments hreads hoperand hrules h).bind fun _ q _ _ hq => .pure _ hq

theorem climbing (hreads : ReadsTokens operand) (hoperand : Operand operand)
    (hrules : p.rules = .standard) (h : p.current.kind ≠ .illegal) (left : Expr) :
    Minds p (ParseM.climbing operand floor left p) := by
  induction hlen : p.ahead.length using Nat.strongRecOn generalizing p left with
  | ind n ih =>
    cases hfollow : p.follow? floor with
    | none =>
      -- an illegal token behind an expression ends it and is left for the next turn
      rw [climbing_of_none hfollow]
      exact .ok (.refl p) h
    | some follow =>
      obtain ⟨power, rule⟩ := follow
      have hpeek := (p.follow?_eq_some hfollow).1
      rw [hrules] at hpeek
      have hnext : p.advanced.current.kind ≠ .illegal := by
        rw [Parser.current_advanced]
        rintro hillegal
        rw [hillegal] at hpeek
        cases hpeek
      rw [climbing_of_some hreads hfollow]
      have hlonger := Minds.follow hreads hoperand (p := p.advanced) hrules hnext power left rule
      refine from_advanced h (hlonger.bind fun longer q hread hclears hq => ?_)
      have hshorter := length_ahead_lt_of_follow hreads hread
      exact ih _ (by omega) (hclears.rules_eq.trans hrules) hq longer rfl

theorem operation (hreads : ReadsTokens operand) (hoperand : Operand operand)
    (hrules : p.rules = .standard) : Minds p (ParseM.operation operand floor p) := by
  cases hstart : p.rules.start? p.current.kind with
  | none =>
    rw [operation_of_none hstart]
    refine .error (.refl p) fun hillegal => ?_
    rw [hillegal]
    exact .noExpressionStart
  | some rule =>
    rw [operation_of_some hstart]
    refine (start hoperand hrules hstart).bind fun left q _ hclears hq => ?_
    exact climbing hreads hoperand (hclears.rules_eq.trans hrules) hq left

end

/-! ## 4. Expressions and statements -/

theorem expressionWithin (levels : Nat) : Operand (ParseM.expressionWithin levels) := by
  induction levels with
  | zero =>
    intro floor p _
    exact .error (.refl p) fun _ => .nestingTooDeep
  | succ levels ih =>
    intro floor p hrules
    exact nested (operation (readsTokens_expressionWithin levels) ih hrules)

theorem expression (hrules : p.rules = .standard) (floor : Power) :
    Minds p (ParseM.expression floor p) :=
  expressionWithin _ hrules

theorem ended {value : ParseM α} {finish : α → Statement} (h : Minds p (value p)) :
    Minds p (ParseM.ended value finish p) :=
  h.bind fun _ _ _ _ hq => (skipSemicolon hq).bind fun _ _ _ _ hq => .pure _ hq

theorem letStatement (hrules : p.rules = .standard) (h : p.current.kind ≠ .illegal) :
    Minds p (ParseM.letStatement (ParseM.expression .lowest) p) := by
  simp only [ParseM.letStatement, monadLift_self]
  rw [bind_of_ok (current_apply p)]
  refine (expectPeek (by decide) h).bind fun name q _ hq hlegal => ?_
  refine (expectPeek (by decide) hlegal).bind fun _ r _ hr hlegal => ?_
  rw [bind_of_ok (advance_apply r)]
  refine from_advanced hlegal (ended (expression ?_ _))
  exact hr.rules_eq.trans (hq.rules_eq.trans hrules)

theorem returnStatement (hrules : p.rules = .standard) (h : p.current.kind ≠ .illegal) :
    Minds p (ParseM.returnStatement (ParseM.expression .lowest) p) := by
  by_cases hends : p.peek.kind = .semicolon ∨ p.peek.kind = .eof
  · have hnext : p.advanced.current.kind ≠ .illegal := by
      rw [Parser.current_advanced]
      rcases hends with hsemi | heof
      · rw [hsemi]
        decide
      · rw [heof]
        decide
    rw [returnStatement_of_end hends]
    refine from_advanced h ?_
    have hskip := skipSemicolon hnext
    rw [skipSemicolon_apply] at hskip
    cases hskip with
    | ok clears legal => exact .ok clears legal
  · obtain ⟨hsemi, heof⟩ := not_or.mp hends
    rw [returnStatement_of_value hsemi heof]
    exact from_advanced h (ended (expression (p := p.advanced) hrules _))

theorem expressionStatement (hrules : p.rules = .standard) :
    Minds p (ParseM.expressionStatement (ParseM.expression .lowest) p) := by
  rw [expressionStatement_apply]
  exact ended (expression hrules _)

end Minds

/-! ## 5. Turns -/

namespace Parser

variable {p q : Parser}

/-- The turn passes no illegal token; if it stops on one, it failed there. -/
def MindsTurn (p : Parser) (r : Turn × Parser) : Prop :=
  p.Clears r.2 ∧ (r.2.current.kind = .illegal → ∃ e, r.1 = .failed e ∧ e.Blames r.2.current)

theorem mindsTurn_ofResult {r : EStateM.Result SyntaxError Parser Statement} (h : Minds p r) :
    p.MindsTurn (Turn.ofResult r) := by
  cases h with
  | ok clears legal => exact ⟨clears, fun hillegal => absurd hillegal legal⟩
  | @error e q clears blames => exact ⟨clears, fun hillegal => ⟨e, rfl, blames hillegal⟩⟩

theorem mindsTurn (hrules : p.rules = .standard) : p.MindsTurn p.turn := by
  rcases turn_cases hrules with ⟨hkind, heq⟩ | ⟨hkind, heq⟩ | ⟨hkind, heq⟩ | ⟨-, heq⟩ |
    ⟨hstray, heq⟩
  · rw [heq]
    exact mindsTurn_ofResult (.letStatement hrules (by rw [hkind]; decide))
  · rw [heq]
    exact mindsTurn_ofResult (.returnStatement hrules (by rw [hkind]; decide))
  · rw [heq]
    exact ⟨.refl p, fun _ => ⟨_, rfl, .illegalToken⟩⟩
  · rw [heq]
    exact mindsTurn_ofResult (.expressionStatement hrules)
  · rw [heq]
    exact ⟨.refl p, fun hillegal => absurd hillegal hstray.not_illegal⟩

end Parser

/-! ## 6. All turns -/

/-- What is left of the tokens from each illegal one on, in their order. -/
def fromIllegal (ts : List Token) : List (List Token) :=
  ts.tails.filter fun rest => (rest.headD Token.eof).is .illegal

theorem fromIllegal_cons_of_illegal {t : Token} (h : t.kind = .illegal) (ts : List Token) :
    fromIllegal (t :: ts) = (t :: ts) :: fromIllegal ts := by
  unfold fromIllegal
  rw [List.tails_cons, List.filter_cons_of_pos]
  exact is_eq_true_iff.mpr h

theorem fromIllegal_cons_of_legal {t : Token} (h : t.kind ≠ .illegal) (ts : List Token) :
    fromIllegal (t :: ts) = fromIllegal ts := by
  unfold fromIllegal
  rw [List.tails_cons, List.filter_cons_of_neg]
  exact fun hillegal => h (is_eq_true_iff.mp hillegal)

theorem fromIllegal_append {us : List Token} (h : ∀ t ∈ us, t.kind ≠ .illegal) (ts : List Token) :
    fromIllegal (us ++ ts) = fromIllegal ts := by
  induction us with
  | nil => rfl
  | cons u us ih =>
    obtain ⟨hu, hus⟩ := List.forall_mem_cons.mp h
    rw [List.cons_append, fromIllegal_cons_of_legal hu, ih hus]

theorem map_headD_fromIllegal (ts : List Token) :
    (fromIllegal ts).map (List.headD · Token.eof) = ts.filter (Token.is · .illegal) := by
  induction ts with
  | nil => rfl
  | cons t ts ih =>
    by_cases h : t.kind = .illegal
    · rw [fromIllegal_cons_of_illegal h, List.map_cons, ih, List.filter_cons_of_pos]
      · rfl
      · exact is_eq_true_iff.mpr h
    · rw [fromIllegal_cons_of_legal h, ih, List.filter_cons_of_neg]
      exact fun hillegal => h (is_eq_true_iff.mp hillegal)

namespace Parser

variable {p : Parser}

/-- The errors that were raised on an illegal token, among these. -/
def onIllegal (raised : List Raised) : List Raised :=
  raised.filter fun r => r.parser.current.is .illegal

/-- The error with which the turn ends, if it does, and the parser on which it was raised. -/
def raisedInTurn (p : Parser) : List Raised :=
  (p.turn.1.error?.map fun e => ⟨e, p.turn.2⟩).toList

theorem fromIllegal_ahead_of_legal (h : p.current.kind ≠ .illegal) :
    fromIllegal p.ahead = fromIllegal p.advanced.ahead := by
  rw [ahead_advanced]
  cases hahead : p.ahead with
  | nil => rfl
  | cons t rest =>
    rw [(current_of_ahead_eq_cons hahead).1] at h
    exact fromIllegal_cons_of_legal h rest

theorem raisedInTurn_onIllegal (hrules : p.rules = .standard) :
    fromIllegal p.ahead = (onIllegal p.raisedInTurn).map (fun r => r.parser.ahead) ++
        fromIllegal p.turn.2.advanced.ahead ∧
      ∀ r ∈ onIllegal p.raisedInTurn, r.error.Blames r.parser.current := by
  obtain ⟨⟨k, hstop, hlegal⟩, hblames⟩ := mindsTurn hrules
  -- up to the token on which the turn stops none is illegal
  have hahead : fromIllegal p.ahead = fromIllegal p.turn.2.ahead := by
    rw [hstop, ahead_skip, ← List.take_append_drop k p.ahead, fromIllegal_append hlegal,
      List.take_append_drop]
  rw [hahead]
  by_cases hillegal : p.turn.2.current.kind = .illegal
  · obtain ⟨e, hfailed, he⟩ := hblames hillegal
    have htoken := ahead_eq_cons (p := p.turn.2) (by rw [hillegal]; decide)
    have hraised : onIllegal p.raisedInTurn = [⟨e, p.turn.2⟩] := by
      rw [onIllegal, raisedInTurn, hfailed]
      exact List.filter_cons_of_pos (is_eq_true_iff.mpr hillegal)
    rw [hraised, List.map_singleton, List.singleton_append, htoken,
      fromIllegal_cons_of_illegal hillegal]
    exact ⟨rfl, List.forall_mem_singleton.mpr he⟩
  · have hraised : onIllegal p.raisedInTurn = [] := by
      rw [onIllegal, List.filter_eq_nil_iff]
      intro r hr his
      obtain ⟨e, -, rfl⟩ := Option.map_eq_some_iff.mp (Option.mem_toList.mp hr)
      exact hillegal (is_eq_true_iff.mp his)
    rw [hraised, List.map_nil, List.nil_append]
    exact ⟨fromIllegal_ahead_of_legal hillegal, List.forall_mem_nil _⟩

/-- The errors raised on illegal tokens are raised on each of them in turn, and are about it. -/
theorem raisedWithin_onIllegal {rounds : Nat} (hle : p.ahead.length ≤ rounds) (hp : p.Ready)
    (hends : ∀ t ∈ p.ahead, t.kind ≠ .eof) :
    fromIllegal p.ahead = (onIllegal (p.raisedWithin rounds)).map (fun r => r.parser.ahead) ∧
      ∀ r ∈ onIllegal (p.raisedWithin rounds), r.error.Blames r.parser.current := by
  induction rounds generalizing p with
  | zero =>
    rw [List.length_eq_zero_iff.mp (Nat.le_zero.mp hle)]
    exact ⟨rfl, List.forall_mem_nil _⟩
  | succ rounds ih =>
    cases hahead : p.ahead with
    | nil =>
      rw [raisedWithin_of_end (kind_of_ahead_eq_nil hahead)]
      exact ⟨rfl, List.forall_mem_nil _⟩
    | cons t rest =>
      obtain ⟨rfl, -⟩ := current_of_ahead_eq_cons hahead
      have htoken : p.current.kind ≠ .eof := hends _ (hahead ▸ List.mem_cons_self)
      have hshorter := p.length_ahead_turn_le
      have hrest : ∀ t ∈ p.turn.2.advanced.ahead, t.kind ≠ .eof :=
        fun t ht => hends t (p.ahead_after_turn_suffix.subset ht)
      obtain ⟨hfirst, hblames⟩ := raisedInTurn_onIllegal hp.rules_eq
      obtain ⟨hothers, hblames'⟩ := ih (by omega) hp.after_turn hrest
      have hraised : onIllegal (p.raisedWithin (rounds + 1)) =
          onIllegal p.raisedInTurn ++ onIllegal (p.turn.2.advanced.raisedWithin rounds) := by
        rw [raisedWithin_of_token htoken]
        exact List.filter_append _ _
      rw [← hahead, hraised, List.map_append, List.forall_mem_append, hfirst, hothers]
      exact ⟨rfl, hblames, hblames'⟩

end Parser

/-- An illegal token of a source is a single character. -/
theorem exists_singleton_of_illegal {source : String} {t : Token}
    (ht : t ∈ (Parser.start source).ahead) (h : t.kind = .illegal) :
    ∃ x, t.literal = String.singleton x := by
  have hmem : t ∈ (Text.Cursor.start source).tokens := ht
  rw [tokens_start] at hmem
  have hspelled := Lexing.spelled_of_mem_tokens hmem
  simp only [Spelled, h] at hspelled
  obtain ⟨x, hx, -⟩ := hspelled
  exact ⟨x, hx⟩

/-- **No illegal token is swallowed.**  In a source without U+0000 the errors raised on illegal
tokens, which are errors of the source in their order, are one for each illegal token, raised
while that very token is current, and about it. -/
theorem illegal_tokens_are_blamed {source : String} (h : '\x00' ∉ source.toList) :
    let tokens := (tokenize source).takeWhile fun t => !t.is .eof
    let raised := (Parser.start source).raised
    let blamed := Parser.onIllegal raised
    raised.map Raised.error = (parse source).2 ∧
    fromIllegal tokens = blamed.map (fun r => r.parser.ahead) ∧
    (blamed.map Raised.error).Sublist (parse source).2 ∧
    List.Forall₂ (fun t e => SyntaxError.Blames t e ∧ ∃ x, t.literal = String.singleton x)
      (tokens.filter fun t => t.is .illegal) (blamed.map Raised.error) ∧
    (tokens.filter fun t => t.is .illegal).length ≤ (parse source).2.length ∧
    ((parse source).2 = [] → ∀ t ∈ tokens, t.kind ≠ .illegal) := by
  intro tokens raised blamed
  have htokens : tokens = (Parser.start source).ahead := tokens_eq_of_no_nul h
  have hends : ∀ t ∈ (Parser.start source).ahead, t.kind ≠ .eof := by
    intro t ht
    exact Lexing.ne_eof_of_mem_tokens h (tokens_start source ▸ ht)
  have hraised : fromIllegal (Parser.start source).ahead = blamed.map (fun r => r.parser.ahead) ∧
      ∀ r ∈ blamed, r.error.Blames r.parser.current :=
    Parser.raisedWithin_onIllegal (Nat.le_refl _) (Parser.ready_start source) hends
  obtain ⟨hplaces, hblames⟩ := hraised
  rw [← htokens] at hplaces
  have herrors : raised.map Raised.error = (parse source).2 := by
    rw [parse_eq]
    exact Parser.map_error_raised _
  have hsublist : (blamed.map Raised.error).Sublist (parse source).2 :=
    herrors ▸ List.filter_sublist.map Raised.error
  -- the tokens on which the errors were raised are the illegal ones
  have hcurrent : tokens.filter (fun t => t.is .illegal) =
      blamed.map (fun r => r.parser.current) := by
    rw [← map_headD_fromIllegal, hplaces, List.map_map]
    rfl
  have hpaired : List.Forall₂
      (fun t e => SyntaxError.Blames t e ∧ ∃ x, t.literal = String.singleton x)
      (tokens.filter fun t => t.is .illegal) (blamed.map Raised.error) := by
    rw [hcurrent, List.forall₂_map_left_iff, List.forall₂_map_right_iff, List.forall₂_same]
    intro r hr
    have hmem : r.parser.current ∈ tokens.filter fun t => t.is .illegal :=
      hcurrent ▸ List.mem_map_of_mem hr
    obtain ⟨htoken, hkind⟩ := List.mem_filter.mp hmem
    exact ⟨hblames r hr, exists_singleton_of_illegal (htokens ▸ htoken) (is_eq_true_iff.mp hkind)⟩
  have hlength := hpaired.length_eq
  refine ⟨herrors, hplaces, hsublist, hpaired, ?_, fun hnone t ht hillegal => ?_⟩
  · rw [hlength]
    exact hsublist.length_le
  · rw [hnone, List.sublist_nil] at hsublist
    rw [hsublist, List.length_nil, List.length_eq_zero_iff, List.filter_eq_nil_iff] at hlength
    exact hlength t ht (is_eq_true_iff.mpr hillegal)

/-- Where an argument should start, where a name should stand, and where a statement should begin
behind a number. -/
theorem illegal_tokens_are_blamed_everywhere :
    '\x00' ∉ "f(@); let # = 1 é".toList ∧
      [SyntaxError.noExpressionStart .illegal, .illegalToken "#", .illegalToken "é"].Sublist
        (parse "f(@); let # = 1 é").2 := by
  have hnul : '\x00' ∉ "f(@); let # = 1 é".toList := by decide
  obtain ⟨-, -, hsublist, -⟩ := illegal_tokens_are_blamed hnul
  have hblamed : (Parser.onIllegal (Parser.start "f(@); let # = 1 é").raised).map Raised.error =
      [.noExpressionStart .illegal, .illegalToken "#", .illegalToken "é"] := by
    decide +kernel
  rw [hblamed] at hsublist
  exact ⟨hnul, hsublist⟩

end LetLang
