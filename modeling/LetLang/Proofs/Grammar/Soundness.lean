import LetLang.Proofs.Grammar.Strata
import LetLang.Proofs.Parser.Moves

/-!
# Soundness — what is read is derived

An expression that is read above a floor is one of the stratum of that floor: the tokens from the
first to the last one passed derive the tree, within the levels that were left.  The invariant of
the loop is that the token which follows holds no tighter than the expression so far can be
gripped, so that the expression may stand to the left of whatever operator comes next.
-/

namespace LetLang

open Token ParseM

/-! ## 1. One token -/

namespace Parser

variable {p q : Parser} {floor power : Power} {rule : FollowRule}

theorem onto_peek {k : Kind} (h : p.peek.kind = k) (hk : k ≠ .eof) :
    p.advanced.Onto [p.peek] p.advanced :=
  onto_singleton (ahead_ne_nil_of_peek (h ▸ hk))

theorem follow?_eq_some (h : p.follow? floor = some (power, rule)) :
    p.rules.follow? p.peek.kind = some (power, rule) ∧ floor < power := by
  unfold follow? at h
  split at h
  · cases h
  · split at h
    · next power' rule' hfollow =>
      by_cases hlt : floor < power'
      · rw [if_pos hlt] at h
        cases h
        exact ⟨hfollow, hlt⟩
      · rw [if_neg hlt] at h
        cases h
    · cases h

end Parser

namespace Rules

variable {k : Kind} {power : Power} {rule : FollowRule}

theorem power_of_follow? {rules : Rules} (h : rules.follow? k = some (power, rule)) :
    rules.power k = power := by
  rw [Rules.power, h]

theorem ne_eof_of_follow? (h : Rules.standard.follow? k = some (power, rule)) : k ≠ .eof := by
  rintro rfl
  cases h

/-- A kind with which an expression starts has no other meaning at the start of a statement. -/
theorem of_start? {rule : StartRule} (h : Rules.standard.start? k = some rule) :
    Rules.standard.statement? k = none ∧ k ≠ .illegal ∧ k ≠ .semicolon ∧ k ≠ .eof := by
  refine ⟨?_, ?_, ?_, ?_⟩
  · cases k <;> first | rfl | cases h
  · rintro rfl
    cases h
  · rintro rfl
    cases h
  · rintro rfl
    cases h

theorem kind_of_start?_unary (h : Rules.standard.start? k = some .unary) :
    k = .not ∨ k = .dash := by
  cases k <;> cases h
  · exact .inl rfl
  · exact .inr rfl

theorem kind_of_start?_group (h : Rules.standard.start? k = some .group) : k = .openParen := by
  cases k <;> cases h
  rfl

end Rules

namespace Parser

variable {p q : Parser} {floor : Power}

/-- In the language an expression ends exactly where the next token has no power above the floor;
that a semicolon always ends it makes no difference. -/
theorem follow?_eq_none_iff (hrules : p.rules = .standard) :
    p.follow? floor = none ↔ p.rules.power p.peek.kind ≤ floor := by
  unfold follow? Rules.power
  by_cases hsemi : p.peek.is .semicolon = true
  · rw [if_pos hsemi, hrules, is_eq_true_iff.mp hsemi]
    exact ⟨fun _ => Nat.zero_le _, fun _ => rfl⟩
  · rw [if_neg hsemi]
    cases p.rules.follow? p.peek.kind with
    | none => exact ⟨fun _ => Nat.zero_le _, fun _ => rfl⟩
    | some follow =>
      obtain ⟨power, rule⟩ := follow
      show (if floor < power then some (power, rule) else none) = none ↔ power ≤ floor
      by_cases hlt : floor < power
      · rw [if_pos hlt]
        exact ⟨nofun, fun hle => absurd hle (Nat.not_le_of_lt hlt)⟩
      · rw [if_neg hlt]
        exact ⟨fun _ => Nat.le_of_not_lt hlt, fun _ => rfl⟩

end Parser

namespace Power

theorem le_call (power : Power) : power ≤ .call := by
  cases power <;> decide

theorem le_trans {a b c : Power} (hab : a ≤ b) (hbc : b ≤ c) : a ≤ c :=
  Nat.le_trans hab hbc

end Power

namespace ParseM

variable {p q : Parser}

theorem leaf_eq_ok {e : Expr} (h : leaf p = .ok e q) :
    q = p ∧ Stratum.primary.Derives [p.current] e 1 := by
  rw [leaf, bind_apply, current_apply] at h
  cases hkind : p.current.kind <;> simp only [hkind] at h <;> try cases h
  case identifier => exact ⟨rfl, .identifier hkind⟩
  case integer =>
    cases hvalue : Text.Decimal.int64? p.current.literal with
    | none =>
      rw [hvalue] at h
      cases h
    | some v =>
      rw [hvalue] at h
      cases h
      obtain ⟨hnumeral, hfits, hv⟩ := Text.Decimal.int64?_eq_some_iff.mp hvalue
      exact ⟨rfl, .integer hkind hnumeral (by omega) hv⟩
  case kwTrue => exact ⟨rfl, .true hkind⟩
  case kwFalse => exact ⟨rfl, .false hkind⟩

end ParseM

/-! ## 2. Rules -/

/-- The tokens from `p` to `q` are an expression of a stratum within so many levels. -/
def Stratum.ReadAs (s : Stratum) (levels : Nat) (p : Parser) (e : Expr) (q : Parser) : Prop :=
  ∃ ts n, p.Onto ts q ∧ s.Derives ts e n ∧ n ≤ levels

namespace Stratum.ReadAs

variable {s : Stratum} {levels : Nat} {p q : Parser} {e : Expr}

theorem rules_eq (h : s.ReadAs levels p e q) : q.rules = p.rules :=
  let ⟨_, _, honto, _⟩ := h
  honto.rules_eq

theorem depth_eq (h : s.ReadAs levels p e q) : q.depth = p.depth :=
  let ⟨_, _, honto, _⟩ := h
  honto.depth_eq

end Stratum.ReadAs

/-- What is read as an operand, where so many levels may still be opened, is derived within them
and goes on as far as it can. -/
def SoundOperand (levels : Nat) (operand : Power → ParseM Expr) : Prop :=
  ∀ {floor p e q}, floor ≤ .unary → p.rules = .standard → p.depth + levels = maxNesting →
    operand floor p = .ok e q →
    floor.stratum.ReadAs levels p e q ∧ q.rules.power q.peek.kind ≤ floor

section

variable {levels : Nat} {operand : Power → ParseM Expr} {p q : Parser} {floor : Power} {e : Expr}

theorem start_sound (hoperand : SoundOperand levels operand) (hrules : p.rules = .standard)
    (hdepth : p.depth + levels = maxNesting) {rule : StartRule}
    (hstart : p.rules.start? p.current.kind = some rule) (hread : rule.read operand p = .ok e q) :
    ∃ s : Stratum, s.ReadAs (levels + 1) p e q ∧ q.rules.power q.peek.kind ≤ s.grip ∧
      5 ≤ s.rank := by
  rw [hrules] at hstart
  have hne := Parser.ahead_ne_nil_of_current (Rules.of_start? hstart).2.2.2
  have hrules' : p.advanced.rules = .standard := hrules
  cases rule with
  | leaf =>
    obtain ⟨rfl, hderives⟩ := leaf_eq_ok hread
    exact ⟨.primary, ⟨_, _, Parser.onto_singleton hne, hderives, by omega⟩, Power.le_call _,
      by decide⟩
  | unary =>
    rw [StartRule.read, unary_apply] at hread
    obtain ⟨right, mid, hright, hpure⟩ := bind_eq_ok hread
    cases hpure
    obtain ⟨⟨ts, n, honto, hderives, hn⟩, hpower⟩ := hoperand (Nat.le_refl _) hrules' hdepth hright
    have hkind := Rules.kind_of_start?_unary hstart
    exact ⟨.unary, ⟨_, _, honto.cons hne, .unary hkind hderives, by omega⟩, hpower, by decide⟩
  | group =>
    rw [StartRule.read, group_apply] at hread
    obtain ⟨inner, mid, hinner, hclose⟩ := bind_eq_ok hread
    obtain ⟨closing, stop, hclose, hpure⟩ := bind_eq_ok hclose
    cases hpure
    obtain ⟨hclosing, -, rfl⟩ := expectPeek_eq_ok hclose
    obtain ⟨⟨ts, n, honto, hderives, hn⟩, -⟩ := hoperand (Nat.zero_le _) hrules' hdepth hinner
    have hopening := Rules.kind_of_start?_group hstart
    have hlast := Parser.onto_peek hclosing (by decide)
    exact ⟨.primary, ⟨_, _, (honto.append hlast).cons hne, .group hopening hclosing hderives,
      by omega⟩, Power.le_call _, by decide⟩

theorem argumentList_sound (hreads : ReadsTokens operand) (hoperand : SoundOperand levels operand)
    (hrules : p.rules = .standard) (hdepth : p.depth + levels = maxNesting) {es : List Expr}
    (hread : argumentList operand p = .ok es q) :
    ∃ ts n, p.Onto ts q ∧ Stratum.Arguments ts es n ∧ n ≤ levels + 1 := by
  induction hlen : p.ahead.length using Nat.strongRecOn generalizing p es with
  | ind len ih =>
    have hfirst := hread
    rw [argumentList] at hfirst
    obtain ⟨argument, mid, hargument, -⟩ := bind_eq_ok hfirst
    obtain ⟨⟨ts, m, honto, hderives, hm⟩, -⟩ := hoperand (Nat.zero_le _) hrules hdepth hargument
    by_cases hcomma : mid.peek.is .comma = true
    · rw [argumentList_of_comma hreads.moves hargument hcomma] at hread
      obtain ⟨others, stop, hothers, hpure⟩ := bind_eq_ok hread
      cases hpure
      have hkind := is_eq_true_iff.mp hcomma
      have hne : mid.advanced.ahead ≠ [] :=
        Parser.ahead_ne_nil_of_peek (hkind ▸ by decide)
      -- behind the comma fewer tokens are left than there were
      have hshorter : mid.advanced.advanced.ahead.length < len := by
        have hahead := congrArg List.length honto.ahead_eq
        have hpos := List.length_pos_iff.mpr honto.ne_nil
        rw [List.length_append] at hahead
        rw [Parser.ahead_advanced, List.length_tail]
        omega
      have hrules' : mid.advanced.advanced.rules = .standard := honto.rules_eq.trans hrules
      have hdepth' : mid.depth + levels = maxNesting := by rw [honto.depth_eq, hdepth]
      obtain ⟨us, n, honto', hothers', hn⟩ := ih _ hshorter hrules' hdepth' hothers rfl
      exact ⟨_, _, honto.append (honto'.cons hne), .more hderives hkind hothers', by omega⟩
    · rw [Bool.not_eq_true] at hcomma
      rw [argumentList_of_not_comma hargument hcomma] at hread
      cases hread
      exact ⟨ts, m + 1, honto, .one hderives, by omega⟩

/-- An operator that may follow an expression of a stratum makes an expression of its own
stratum. -/
theorem follow_sound (hreads : ReadsTokens operand) (hoperand : SoundOperand levels operand)
    (hrules : p.rules = .standard) (hdepth : p.depth + levels = maxNesting) {power : Power}
    {rule : FollowRule} {left : Expr} {s : Stratum} {ts : List Token} {m : Nat} {start : Parser}
    (honto : start.Onto ts p) (hleft : s.Derives ts left m) (hm : m ≤ levels + 1)
    (hfollow : p.follow? floor = some (power, rule)) (hgrip : power ≤ s.grip)
    (hread : rule.read operand power left p.advanced = .ok e q) :
    ∃ s' : Stratum, s'.ReadAs (levels + 1) start e q ∧ q.rules.power q.peek.kind ≤ s'.grip ∧
      floor.stratum.rank ≤ s'.rank := by
  obtain ⟨hfollow, hlt⟩ := p.follow?_eq_some hfollow
  rw [hrules] at hfollow
  have hrules' : p.advanced.advanced.rules = .standard := hrules
  have hne := Parser.ahead_ne_nil_of_peek (Rules.ne_eof_of_follow? hfollow)
  cases rule with
  | binary =>
    obtain ⟨s', hop, rfl⟩ := Stratum.exists_mem_operators hfollow
    rw [FollowRule.read, binary_apply] at hread
    obtain ⟨right, mid, hright, hpure⟩ := bind_eq_ok hread
    cases hpure
    have hgrip_le : s'.grip ≤ .unary := by
      have hrank := Stratum.rank_grip hop
      rw [Power.le_iff_rank]
      show s'.grip.rank ≤ 5
      omega
    obtain ⟨⟨us, n, honto', hderives, hn⟩, hpower⟩ := hoperand hgrip_le hrules' hdepth hright
    -- the right operand is read above the power of the operator, so it is of the tighter stratum
    rw [(Stratum.follow?_of_mem_operators hop).2] at hderives
    exact ⟨s', ⟨_, _, honto.append (honto'.cons hne),
      .binary hop (hleft.loosen (Stratum.rank_le_of_grip_le hop hgrip)) hderives, by omega⟩,
      hpower, Stratum.rank_stratum_le_of_lt hop hlt⟩
  | call =>
    -- no power is above that of a call, so the loop goes on with whatever follows
    obtain ⟨hopening, rfl⟩ := Stratum.follow?_call_iff.mp hfollow
    have hfunction := hleft.loosen (Stratum.call_rank_le_of_grip hgrip)
    rw [FollowRule.read, call_apply, Parser.current_advanced] at hread
    obtain ⟨arguments, stop, hread, hpure⟩ := bind_eq_ok hread
    cases hpure
    have hrank : floor.stratum.rank ≤ Stratum.call.rank := by
      have hsucc := Stratum.rank_stratum_le_succ floor
      rw [Power.lt_iff_rank] at hlt
      exact Nat.le_trans hsucc hlt
    refine ⟨.call, ?_, Power.le_call _, hrank⟩
    by_cases hclosed : p.advanced.peek.is .closeParen = true
    · rw [arguments_of_closed hclosed] at hread
      cases hread
      have hclosing := is_eq_true_iff.mp hclosed
      have hlast := Parser.onto_peek hclosing (by decide)
      exact ⟨_, _, honto.append (hlast.cons hne), .emptyCall hopening hclosing hfunction, hm⟩
    · rw [Bool.not_eq_true] at hclosed
      rw [arguments_of_open hclosed] at hread
      obtain ⟨arguments, mid, hlist, hclose⟩ := bind_eq_ok hread
      obtain ⟨closing, stop, hclose, hpure⟩ := bind_eq_ok hclose
      cases hpure
      obtain ⟨hclosing, -, rfl⟩ := expectPeek_eq_ok hclose
      obtain ⟨us, n, honto', harguments, hn⟩ :=
        argumentList_sound hreads hoperand hrules' hdepth hlist
      have hlast := Parser.onto_peek hclosing (by decide)
      exact ⟨_, _, honto.append ((honto'.append hlast).cons hne),
        .call hopening hclosing hfunction harguments, by omega⟩

theorem climbing_sound (hreads : ReadsTokens operand) (hoperand : SoundOperand levels operand)
    (hrules : p.rules = .standard) (hdepth : p.depth + levels = maxNesting) {left : Expr}
    {s : Stratum} {start : Parser} (hleft : s.ReadAs (levels + 1) start left p)
    (hgrip : p.rules.power p.peek.kind ≤ s.grip) (hfloor : floor.stratum.rank ≤ s.rank)
    (hread : climbing operand floor left p = .ok e q) :
    floor.stratum.ReadAs (levels + 1) start e q ∧ q.rules.power q.peek.kind ≤ floor := by
  induction hlen : p.ahead.length using Nat.strongRecOn generalizing p left s with
  | ind len ih =>
    obtain ⟨ts, m, honto, hderives, hm⟩ := hleft
    cases hfollow : p.follow? floor with
    | none =>
      -- the loop ends, and what it has is no looser than the stratum of the floor
      rw [climbing_of_none hfollow] at hread
      cases hread
      exact ⟨⟨ts, m, honto, hderives.loosen hfloor, hm⟩,
        (Parser.follow?_eq_none_iff hrules).mp hfollow⟩
    | some follow =>
      obtain ⟨power, rule⟩ := follow
      rw [climbing_of_some hreads hfollow] at hread
      obtain ⟨longer, mid, hlonger, hread⟩ := bind_eq_ok hread
      have hpower := Rules.power_of_follow? (p.follow?_eq_some hfollow).1
      obtain ⟨s', hlonger', hgrip', hfloor'⟩ := follow_sound hreads hoperand hrules hdepth honto
        hderives hm hfollow (hpower ▸ hgrip) hlonger
      have hrules' : mid.rules = .standard := by
        rw [hlonger'.rules_eq, ← honto.rules_eq, hrules]
      have hdepth' : mid.depth + levels = maxNesting := by
        rw [hlonger'.depth_eq, ← honto.depth_eq, hdepth]
      have hshorter := length_ahead_lt_of_follow hreads hlonger
      exact ih _ (by omega) hrules' hdepth' hlonger' hgrip' hfloor' hread rfl

theorem operation_sound (hreads : ReadsTokens operand) (hoperand : SoundOperand levels operand)
    (hrules : p.rules = .standard) (hdepth : p.depth + levels = maxNesting)
    (hfloor : floor ≤ .unary) (hread : operation operand floor p = .ok e q) :
    floor.stratum.ReadAs (levels + 1) p e q ∧ q.rules.power q.peek.kind ≤ floor := by
  cases hstart : p.rules.start? p.current.kind with
  | none =>
    rw [operation_of_none hstart] at hread
    cases hread
  | some rule =>
    rw [operation_of_some hstart] at hread
    obtain ⟨left, mid, hleft, hread⟩ := bind_eq_ok hread
    -- what starts an expression is tighter than any operator between two operands
    obtain ⟨s, hleft, hgrip, hrank⟩ := start_sound hoperand hrules hdepth hstart hleft
    have hrules' : mid.rules = .standard := by rw [hleft.rules_eq, hrules]
    have hdepth' : mid.depth + levels = maxNesting := by rw [hleft.depth_eq, hdepth]
    have hfloor_rank := Stratum.rank_stratum_le hfloor
    exact climbing_sound hreads hoperand hrules' hdepth' hleft hgrip (by omega) hread

end

/-! ## 3. Whole expressions -/

/-- **Soundness.**  What is read above a floor, where `room` levels may still be opened, derives
from the stratum of the floor within so many levels: it is the limit that sees to this, however
many levels reading is prepared for. -/
theorem soundOperand_expressionWithin (levels room : Nat) :
    SoundOperand room (expressionWithin levels) := by
  induction levels generalizing room with
  | zero =>
    intro floor p e q _ _ _ hread
    cases hread
  | succ levels ih =>
    intro floor p e q hfloor hrules hdepth hread
    rw [expressionWithin_succ] at hread
    by_cases hlt : p.depth < maxNesting
    · obtain ⟨room, rfl⟩ : ∃ n, room = n + 1 := ⟨room - 1, by omega⟩
      rw [nested_of_lt hlt] at hread
      split at hread
      · next e' mid hbody =>
        cases hread
        obtain ⟨⟨ts, n, honto, hderives, hn⟩, hpower⟩ :=
          operation_sound (p := { p with depth := p.depth + 1 })
            (readsTokens_expressionWithin levels) (ih room) hrules
            (by show p.depth + 1 + room = maxNesting; omega) hfloor hbody
        -- behind the level the depth is the one before it
        refine ⟨⟨ts, n, ⟨honto.ne_nil, honto.begins, ?_⟩, hderives, hn⟩, hpower⟩
        rw [honto.eq_skip]
        rfl
      · cases hread
    · rw [nested_of_not_lt hlt] at hread
      cases hread

end LetLang
