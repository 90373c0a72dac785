import LetLang.Proofs.Grammar.Soundness

/-!
# Expressions before a mark — reading does not see what follows

The tokens of a source are read with nothing behind them, and once more with a mark and other tokens
behind them; the mark is a semicolon or an end.  As long as tokens of the source are left both runs
do the same; where the first meets the end of the tokens, the second meets the mark, and both fail
there.  Neither steps over the end of the source, because every step forward is taken from a token
of it, and an expression that should start behind the last one fails at once.
-/

namespace LetLang

open Token ParseM

/-! ## 1. Parsers with tokens behind them -/

namespace SyntaxError

/-- The error with a token of this kind in the place of the end of the tokens. -/
def endAs (k : Kind) : SyntaxError → SyntaxError
  | unexpectedToken expected found => unexpectedToken expected (if found = .eof then k else found)
  | noExpressionStart found => noExpressionStart (if found = .eof then k else found)
  | e => e

theorem endAs_of_ne {e : SyntaxError} (h : e.found? ≠ some .eof) (k : Kind) : e.endAs k = e := by
  cases e with
  | unexpectedToken expected found => rw [endAs, if_neg fun heof => h (congrArg some heof)]
  | noExpressionStart found => rw [endAs, if_neg fun heof => h (congrArg some heof)]
  | _ => rfl

end SyntaxError

/-- A token at which every expression before it has to end. -/
def Token.Closes (t : Token) : Prop :=
  t.kind = .semicolon ∨ t.kind = .eof

theorem Token.Closes.ne {t : Token} (h : t.Closes) {k : Kind} (hsemi : k ≠ .semicolon)
    (heof : k ≠ .eof) : t.kind ≠ k := by
  rcases h with h | h <;> rw [h]
  · exact hsemi.symm
  · exact heof.symm

theorem Token.Closes.start?_eq_none {t : Token} (h : t.Closes) :
    Rules.standard.start? t.kind = none := by
  rcases h with h | h <;> rw [h] <;> rfl

namespace Parser

/-- The parser with these tokens behind those ahead. -/
def before (p : Parser) (ts : List Token) : Parser :=
  { p with ahead := p.ahead ++ ts }

/-- A parser with the rules of the language and no end among the tokens ahead. -/
structure Plain (p : Parser) : Prop where
  rules_eq : p.rules = .standard
  no_end : ∀ t ∈ p.ahead, t.kind ≠ .eof

/-- A plain parser that stands on a token. -/
structure Inside (p : Parser) : Prop extends p.Plain where
  ne_nil : p.ahead ≠ []

variable {p q : Parser} {mark : Token} {ts : List Token}

theorem Plain.advanced (h : p.Plain) : p.advanced.Plain :=
  ⟨h.rules_eq, fun t ht => h.no_end t (List.mem_of_mem_tail ht)⟩

theorem Plain.inside (h : p.Plain) (hne : p.ahead ≠ []) : p.Inside :=
  { h with ne_nil := hne }

theorem Inside.current_ne_eof (h : p.Inside) : p.current.kind ≠ .eof := by
  obtain ⟨t, rest, hahead⟩ := List.exists_cons_of_ne_nil h.ne_nil
  rw [current, hahead]
  exact h.no_end t (hahead ▸ List.mem_cons_self)

theorem current_before (h : p.ahead ≠ []) (ts : List Token) :
    (p.before ts).current = p.current := by
  obtain ⟨t, rest, hahead⟩ := List.exists_cons_of_ne_nil h
  rw [current, current, before, hahead]
  rfl

theorem advanced_before (h : p.ahead ≠ []) (ts : List Token) :
    (p.before ts).advanced = p.advanced.before ts := by
  obtain ⟨t, rest, hahead⟩ := List.exists_cons_of_ne_nil h
  simp only [advanced, before, hahead, List.cons_append, List.tail_cons]

theorem peek_before (h : p.ahead ≠ []) (hnext : p.advanced.ahead ≠ []) (ts : List Token) :
    (p.before ts).peek = p.peek := by
  rw [← current_advanced, advanced_before h, current_before hnext, current_advanced]

/-- On the last token the end is next, or the token behind. -/
theorem peek_of_last (h : p.ahead ≠ []) (hlast : p.advanced.ahead = []) (t : Token)
    (ts : List Token) : p.peek = Token.eof ∧ (p.before (t :: ts)).peek = t := by
  rw [← current_advanced, ← current_advanced, advanced_before h, current, current, before, hlast]
  exact ⟨rfl, rfl⟩

theorem peek_is_before (h : p.Inside) (hmark : mark.Closes) {k : Kind}
    (heof : k ≠ .eof) (hk : k ≠ .semicolon) (ts : List Token) :
    (p.before (mark :: ts)).peek.is k = p.peek.is k := by
  by_cases hlast : p.advanced.ahead = []
  · obtain ⟨hpeek, hbehind⟩ := peek_of_last h.ne_nil hlast mark ts
    rw [hpeek, hbehind, is_eq_false_iff.mpr (hmark.ne hk heof)]
    exact (beq_false_of_ne heof.symm).symm
  · rw [peek_before h.ne_nil hlast]

theorem follow?_before (h : p.Inside) (hmark : mark.Closes) (floor : Power)
    (ts : List Token) :
    (p.before (mark :: ts)).follow? floor = p.follow? floor := by
  by_cases hlast : p.advanced.ahead = []
  · obtain ⟨hpeek, hbehind⟩ := peek_of_last h.ne_nil hlast mark ts
    have hnone : p.follow? floor = none := by
      unfold follow?
      rw [hpeek, h.rules_eq]
      rfl
    rw [hnone, follow?, hbehind]
    rcases hmark with hsemi | heof
    · rw [if_pos (is_eq_true_iff.mpr hsemi)]
    · rw [heof, show (p.before (mark :: ts)).rules = .standard from h.rules_eq]
      exact ite_self none
  · unfold follow?
    rw [peek_before h.ne_nil hlast]
    rfl

end Parser

namespace ParseM

/-! ## 2. Results that go together -/

variable {α β : Type} {p q : Parser} {mark : Token} {ts : List Token}

/-- Two results go together if both are the same value, with related parsers behind it, or both are
errors at the same place, the end in the one being the mark in the other. -/
inductive Joined (mark : Token) (ts : List Token) (R : Parser → Parser → Prop) :
    EStateM.Result SyntaxError Parser α → EStateM.Result SyntaxError Parser α → Prop
  | ok {a : α} {q q' : Parser} (related : R q q') : Joined mark ts R (.ok a q) (.ok a q')
  | error {e : SyntaxError} {q : Parser} (at_end : e.found? = some .eof → q.ahead.length ≤ 1) :
      Joined mark ts R (.error e q) (.error (e.endAs mark.kind) (q.before (mark :: ts)))

/-- The second parser is the first with more tokens behind, and the first is on a token. -/
def Stays (ts : List Token) (q q' : Parser) : Prop :=
  q.Inside ∧ q' = q.before ts

/-- The computation does the same with the mark and the tokens `ts` behind. -/
def Isolated (mark : Token) (ts : List Token) (m : ParseM α) (p : Parser) : Prop :=
  Joined mark ts (Stays (mark :: ts)) (m p) (m (p.before (mark :: ts)))

theorem isolated_ok {m : ParseM α} {a : α} (hq : q.Inside) (h : m p = .ok a q)
    (h' : m (p.before (mark :: ts)) = .ok a (q.before (mark :: ts))) : Isolated mark ts m p := by
  rw [Isolated, h, h']
  exact .ok ⟨hq, rfl⟩

theorem Isolated.cases {m : ParseM α} (h : Isolated mark ts m p) :
    (∃ a q, m p = .ok a q ∧ q.Inside ∧ m (p.before (mark :: ts)) = .ok a (q.before (mark :: ts))) ∨
    (∃ e q, m p = .error e q ∧ (e.found? = some .eof → q.ahead.length ≤ 1) ∧
      m (p.before (mark :: ts)) = .error (e.endAs mark.kind) (q.before (mark :: ts))) := by
  unfold Isolated at h
  generalize hr : m p = r at h
  generalize hr' : m (p.before (mark :: ts)) = r' at h
  cases h with
  | ok related => exact .inl ⟨_, _, rfl, related.1, by rw [related.2]⟩
  | error at_end => exact .inr ⟨_, _, rfl, at_end, rfl⟩

theorem Isolated.bind {R : Parser → Parser → Prop} {m : ParseM α} {k : α → ParseM β}
    (h : Isolated mark ts m p)
    (hk : ∀ a q, m p = .ok a q → q.Inside →
      Joined mark ts R (k a q) (k a (q.before (mark :: ts)))) :
    Joined mark ts R ((m >>= k) p) ((m >>= k) (p.before (mark :: ts))) := by
  rcases h.cases with ⟨a, q, hm, hq, hm'⟩ | ⟨e, q, hm, hend, hm'⟩
  · rw [bind_of_ok hm, bind_of_ok hm']
    exact hk a q hm hq
  · rw [bind_of_error hm, bind_of_error hm']
    exact .error hend

theorem isolated_pure (hp : p.Inside) (a : α) : Isolated mark ts (pure a) p :=
  isolated_ok hp rfl rfl

theorem joined_error {R : Parser → Parser → Prop} {e : SyntaxError} (h : e.found? ≠ some .eof) :
    Joined (α := α) mark ts R (.error e q) (.error e (q.before (mark :: ts))) := by
  have herror : Joined (α := α) mark ts R (.error e q)
      (.error (e.endAs mark.kind) (q.before (mark :: ts))) :=
    .error fun heof => absurd heof h
  rwa [SyntaxError.endAs_of_ne h] at herror

theorem isolated_expectPeek (hp : p.Inside) (hmark : mark.Closes) {k : Kind}
    (heof : k ≠ .eof) (hk : k ≠ .semicolon) : Isolated mark ts (expectPeek k) p := by
  unfold Isolated expectPeek
  rw [Parser.peek_is_before hp hmark heof hk ts]
  by_cases hlast : p.advanced.ahead = []
  · obtain ⟨hpeek, hbehind⟩ := Parser.peek_of_last hp.ne_nil hlast mark ts
    -- the one run meets the end, the other the mark
    have hnot : Token.eof.is k = false := beq_false_of_ne heof.symm
    rw [hpeek, hbehind, hnot]
    refine .error (e := .unexpectedToken k .eof) fun _ => ?_
    have hlength := congrArg List.length hlast
    rw [Parser.ahead_advanced, List.length_tail, List.length_nil] at hlength
    omega
  · have hnext := hp.advanced.inside hlast
    rw [Parser.peek_before hp.ne_nil hlast, Parser.advanced_before hp.ne_nil]
    split
    · exact .ok ⟨hnext, rfl⟩
    · exact joined_error fun hfound => hnext.current_ne_eof (Option.some.inj hfound)

/-! ## 3. Rules -/

theorem isolated_leaf (hp : p.Inside) : Isolated mark ts leaf p := by
  unfold Isolated leaf
  rw [bind_apply, bind_apply, current_apply, current_apply, Parser.current_before hp.ne_nil]
  have hne := hp.current_ne_eof
  -- a leaf reads its own token and no other
  cases hkind : p.current.kind <;> simp only [hkind]
  case eof => exact absurd hkind hne
  case integer =>
    cases Text.Decimal.int64? p.current.literal with
    | none => exact joined_error nofun
    | some v => exact .ok ⟨hp, rfl⟩
  case identifier | kwTrue | kwFalse => exact .ok ⟨hp, rfl⟩
  all_goals exact joined_error nofun

/-- Operands may be read on any plain parser, also past the last token. -/
def IsolatedOperand (mark : Token) (ts : List Token) (operand : Power → ParseM Expr) : Prop :=
  ∀ {floor p}, p.Plain → Isolated mark ts (operand floor) p

section

variable {operand : Power → ParseM Expr} {floor : Power}

theorem isolated_start (hoperand : IsolatedOperand mark ts operand)
    (hmark : mark.Closes) (hp : p.Inside) (rule : StartRule) :
    Isolated mark ts (rule.read operand) p := by
  cases rule with
  | leaf => exact isolated_leaf hp
  | unary =>
    rw [Isolated, StartRule.read, unary_apply, unary_apply, Parser.current_before hp.ne_nil,
      Parser.advanced_before hp.ne_nil]
    exact (hoperand hp.advanced).bind fun _ _ _ hq => isolated_pure hq _
  | group =>
    rw [Isolated, StartRule.read, group_apply, group_apply, Parser.advanced_before hp.ne_nil]
    refine (hoperand hp.advanced).bind fun _ _ _ hq => ?_
    exact (isolated_expectPeek hq hmark (by decide) (by decide)).bind fun _ _ _ hq =>
      isolated_pure hq _

theorem inside_advanced (hp : p.Inside) {k : Kind} (h : p.peek.is k = true) (hk : k ≠ .eof) :
    p.advanced.Inside := by
  apply hp.advanced.inside
  apply Parser.ahead_ne_nil_of_peek
  rw [is_eq_true_iff.mp h]
  exact hk

theorem isolated_argumentList (hreads : ReadsTokens operand)
    (hoperand : IsolatedOperand mark ts operand) (hmark : mark.Closes)
    (hp : p.Plain) : Isolated mark ts (argumentList operand) p := by
  induction hlen : p.ahead.length using Nat.strongRecOn generalizing p with
  | ind n ih =>
    unfold Isolated
    rcases (hoperand hp).cases with ⟨argument, q, hread, hq, hread'⟩ | ⟨e, q, hread, hend, hread'⟩
    · have hsame := Parser.peek_is_before hq hmark (by decide : Kind.comma ≠ .eof) (by decide) ts
      by_cases hcomma : q.peek.is .comma = true
      · have hnext := inside_advanced hq hcomma (by decide)
        rw [argumentList_of_comma hreads.moves hread hcomma,
          argumentList_of_comma hreads.moves hread' (hsame.trans hcomma),
          Parser.advanced_before hq.ne_nil, Parser.advanced_before hnext.ne_nil]
        -- behind the comma fewer tokens are left
        have hshorter : q.advanced.advanced.ahead.length < n := by
          obtain ⟨k, rfl⟩ := (hreads.moves _).of_ok hread
          have hskip := p.length_ahead_skip_le k
          have hpos := List.length_pos_iff.mpr hnext.ne_nil
          simp only [Parser.ahead_advanced, List.length_tail] at hpos ⊢
          omega
        exact (ih _ hshorter hnext.advanced rfl).bind fun _ _ _ hq => isolated_pure hq _
      · rw [Bool.not_eq_true] at hcomma
        rw [argumentList_of_not_comma hread hcomma,
          argumentList_of_not_comma hread' (hsame.trans hcomma)]
        exact .ok ⟨hq, rfl⟩
    · rw [argumentList, bind_of_error hread, bind_of_error hread']
      exact .error hend

theorem isolated_arguments (hreads : ReadsTokens operand)
    (hoperand : IsolatedOperand mark ts operand) (hmark : mark.Closes)
    (hp : p.Inside) : Isolated mark ts (arguments operand) p := by
  have hsame := Parser.peek_is_before hp hmark (by decide : Kind.closeParen ≠ .eof) (by decide) ts
  unfold Isolated
  by_cases hclosed : p.peek.is .closeParen = true
  · rw [arguments_of_closed hclosed, arguments_of_closed (hsame.trans hclosed),
      Parser.advanced_before hp.ne_nil]
    exact .ok ⟨inside_advanced hp hclosed (by decide), rfl⟩
  · rw [Bool.not_eq_true] at hclosed
    rw [arguments_of_open hclosed, arguments_of_open (hsame.trans hclosed),
      Parser.advanced_before hp.ne_nil]
    refine (isolated_argumentList hreads hoperand hmark hp.advanced).bind fun _ _ _ hq => ?_
    exact (isolated_expectPeek hq hmark (by decide) (by decide)).bind fun _ _ _ hq =>
      isolated_pure hq _

theorem isolated_follow (hreads : ReadsTokens operand)
    (hoperand : IsolatedOperand mark ts operand) (hmark : mark.Closes)
    (hp : p.Inside) (power : Power) (left : Expr) (rule : FollowRule) :
    Isolated mark ts (rule.read operand power left) p := by
  cases rule with
  | binary =>
    rw [Isolated, FollowRule.read, binary_apply, binary_apply, Parser.current_before hp.ne_nil,
      Parser.advanced_before hp.ne_nil]
    exact (hoperand hp.advanced).bind fun _ _ _ hq => isolated_pure hq _
  | call =>
    rw [Isolated, FollowRule.read, call_apply, call_apply, Parser.current_before hp.ne_nil]
    exact (isolated_arguments hreads hoperand hmark hp).bind fun _ _ _ hq => isolated_pure hq _

theorem isolated_climbing (hreads : ReadsTokens operand)
    (hoperand : IsolatedOperand mark ts operand) (hmark : mark.Closes)
    (hp : p.Inside) (left : Expr) : Isolated mark ts (climbing operand floor left) p := by
  induction hlen : p.ahead.length using Nat.strongRecOn generalizing p left with
  | ind n ih =>
    unfold Isolated
    have hsame := Parser.follow?_before hp hmark floor ts
    cases hfollow : p.follow? floor with
    | none =>
      rw [climbing_of_none hfollow, climbing_of_none (hsame.trans hfollow)]
      exact .ok ⟨hp, rfl⟩
    | some follow =>
      have hpeek := (p.follow?_eq_some hfollow).1
      rw [hp.rules_eq] at hpeek
      -- the token with which the expression goes on is one of the source
      have hnext := hp.advanced.inside
        (Parser.ahead_ne_nil_of_peek (Rules.ne_eof_of_follow? hpeek))
      rw [climbing_of_some hreads hfollow, climbing_of_some hreads (hsame.trans hfollow),
        Parser.advanced_before hp.ne_nil]
      refine (isolated_follow hreads hoperand hmark hnext _ _ _).bind fun longer q hread hq => ?_
      have hshorter := length_ahead_lt_of_follow hreads hread
      exact ih _ (by omega) hq longer rfl

theorem isolated_operation (hreads : ReadsTokens operand)
    (hoperand : IsolatedOperand mark ts operand) (hmark : mark.Closes)
    (hp : p.Plain) : Isolated mark ts (operation operand floor) p := by
  unfold Isolated
  by_cases hend : p.ahead = []
  · -- neither the end nor the mark starts an expression
    have hcurrent := Parser.current_of_ahead_eq_nil hend
    have hbehind : (p.before (mark :: ts)).current = mark := by
      rw [Parser.current, Parser.before, hend]
      rfl
    rw [operation_of_none (by rw [hcurrent, hp.rules_eq]; rfl),
      operation_of_none (p := p.before (mark :: ts)) (by
        rw [hbehind]
        show p.rules.start? _ = none
        rw [hp.rules_eq, hmark.start?_eq_none]),
      hcurrent, hbehind]
    exact .error (e := .noExpressionStart .eof) fun _ => by rw [hend]; exact Nat.zero_le 1
  · have hinside := hp.inside hend
    have hcurrent := Parser.current_before hend (mark :: ts)
    cases hstart : p.rules.start? p.current.kind with
    | none =>
      have hstart' : (p.before (mark :: ts)).rules.start?
          (p.before (mark :: ts)).current.kind = none := by
        rw [hcurrent]
        exact hstart
      rw [operation_of_none hstart, operation_of_none hstart', hcurrent]
      exact joined_error fun hfound => hinside.current_ne_eof (Option.some.inj hfound)
    | some rule =>
      have hstart' : (p.before (mark :: ts)).rules.start?
          (p.before (mark :: ts)).current.kind = some rule := by
        rw [hcurrent]
        exact hstart
      rw [operation_of_some hstart, operation_of_some hstart']
      exact (isolated_start hoperand hmark hinside rule).bind fun left _ _ hq =>
        isolated_climbing hreads hoperand hmark hq left

end

/-! ## 4. Whole expressions -/

theorem isolated_nested {m : ParseM α} (h : Isolated mark ts m { p with depth := p.depth + 1 }) :
    Isolated mark ts (nested m) p := by
  unfold Isolated
  by_cases hlt : p.depth < maxNesting
  · -- the depth is the same in both runs and takes no part in how they go together
    rw [nested_of_lt hlt, nested_of_lt (p := p.before (mark :: ts)) hlt]
    rcases h.cases with ⟨a, q, hm, hq, hm'⟩ | ⟨e, q, hm, hend, hm'⟩
    · have hm' : m { p.before (mark :: ts) with depth := (p.before (mark :: ts)).depth + 1 } =
          .ok a (q.before (mark :: ts)) := hm'
      rw [hm, hm']
      exact .ok ⟨⟨⟨hq.rules_eq, hq.no_end⟩, hq.ne_nil⟩, rfl⟩
    · have hm' : m { p.before (mark :: ts) with depth := (p.before (mark :: ts)).depth + 1 } =
          .error (e.endAs mark.kind) (q.before (mark :: ts)) := hm'
      rw [hm, hm']
      exact .error (q := { q with depth := q.depth - 1 }) hend
  · rw [nested_of_not_lt hlt, nested_of_not_lt (p := p.before (mark :: ts)) hlt]
    exact joined_error nofun

/-- **Expressions** are read before a mark as they are read at the end. -/
theorem isolatedOperand_expressionWithin (hmark : mark.Closes) (levels : Nat) :
    IsolatedOperand mark ts (expressionWithin levels) := by
  induction levels with
  | zero =>
    intro floor p _
    exact joined_error nofun
  | succ levels ih =>
    intro floor p hp
    apply isolated_nested
    exact isolated_operation (readsTokens_expressionWithin levels) ih hmark ⟨hp.rules_eq, hp.no_end⟩

end ParseM

end LetLang
