import LetLang.Proofs.Grammar.Soundness

/-!
# Completeness — what is derived is read, or nests too deep

Where the tokens ahead begin with an expression of a stratum, and the token behind it could not be
part of it, reading gives the tree of the expression and stops on its last token, if as many
levels are left as the expression needs; otherwise the error says that it nests too deep.  The
statement that the induction over derivations carries is about the middle of the reading: an
expression that is the beginning of a longer one hands over to the loop.
-/

namespace LetLang

open Token ParseM

/-! ## 1. Enough levels, or an error -/

/-- A result is the expected one if there are as many levels as are needed, and otherwise the
error for nesting too deep. -/
structure FitsOrFails {α : Type} (needed levels : Nat)
    (result expected : EStateM.Result SyntaxError Parser α) : Prop where
  fits : needed ≤ levels → result = expected
  fails : levels < needed → ∃ q, result = .error (.nestingTooDeep maxNesting) q

namespace FitsOrFails

variable {α β : Type} {m n levels : Nat} {x y z : EStateM.Result SyntaxError Parser α}

theorem of_eq (h : x = y) (hle : n ≤ levels) : FitsOrFails n levels x y :=
  ⟨fun _ => h, fun hlt => absurd hle (Nat.not_le_of_lt hlt)⟩

theorem trans (h : FitsOrFails m levels x y) (h' : FitsOrFails n levels y z) :
    FitsOrFails (max m n) levels x z := by
  constructor
  · intro hle
    rw [h.fits (by omega), h'.fits (by omega)]
  · intro hlt
    by_cases hm : m ≤ levels
    · rw [h.fits hm]
      exact h'.fails (by omega)
    · exact h.fails (by omega)

theorem succ (h : FitsOrFails n levels x y) : FitsOrFails (n + 1) (levels + 1) x y :=
  ⟨fun hle => h.fits (by omega), fun hlt => h.fails (by omega)⟩

theorem bind {a : α} {p q : Parser} {first : ParseM α}
    (h : FitsOrFails n levels (first p) (.ok a q)) (second : α → ParseM β) :
    FitsOrFails n levels ((first >>= second) p) (second a q) := by
  constructor
  · intro hle
    rw [bind_apply, h.fits hle]
  · intro hlt
    obtain ⟨r, hr⟩ := h.fails hlt
    exact ⟨r, by rw [bind_apply, hr]⟩

end FitsOrFails

theorem follow?_of_standard {p : Parser} {floor power : Power} {rule : FollowRule}
    (hrules : p.rules = .standard)
    (hfollow : Rules.standard.follow? p.peek.kind = some (power, rule)) (hlt : floor < power) :
    p.follow? floor = some (power, rule) := by
  unfold Parser.follow?
  have hsemi : ¬ p.peek.is .semicolon = true := by
    intro hsemi
    rw [is_eq_true_iff.mp hsemi] at hfollow
    cases hfollow
  rw [if_neg hsemi, hrules, hfollow]
  exact if_pos hlt

section

variable {p : Parser}

theorem leaf_of_identifier (h : p.current.kind = .identifier) :
    leaf p = .ok (.identifier (.ofToken p.current)) p := by
  rw [leaf, bind_apply, current_apply]
  simp only [h]
  rfl

theorem leaf_of_integer {v : Int64} (h : p.current.kind = .integer)
    (hv : Text.Decimal.int64? p.current.literal = some v) :
    leaf p = .ok (.integer p.current v) p := by
  rw [leaf, bind_apply, current_apply]
  simp only [h, hv]
  rfl

theorem leaf_of_true (h : p.current.kind = .kwTrue) :
    leaf p = .ok (.boolean p.current true) p := by
  rw [leaf, bind_apply, current_apply]
  simp only [h]
  rfl

theorem leaf_of_false (h : p.current.kind = .kwFalse) :
    leaf p = .ok (.boolean p.current false) p := by
  rw [leaf, bind_apply, current_apply]
  simp only [h]
  rfl

end

/-! ## 2. Derivations are met -/

namespace Stratum

/-- Reading above a floor, an expression of the stratum or a tighter one hands its tree over to
the loop on its last token, unless it nests too deep. -/
def Met (s : Stratum) (ts : List Token) (e : Expr) (n : Nat) : Prop :=
  ∀ {levels floor p q}, p.rules = .standard → p.depth + levels = maxNesting →
    floor.stratum.rank ≤ s.rank → p.Onto ts q → q.rules.power q.peek.kind ≤ s.grip →
    FitsOrFails n (levels + 1) (operation (expressionWithin (levels + 1)) floor p)
      (climbing (expressionWithin (levels + 1)) floor e q)

/-- A list of arguments is read up to the parenthesis behind it, unless one nests too deep. -/
def ArgumentsMet (ts : List Token) (es : List Expr) (n : Nat) : Prop :=
  ∀ {levels p q}, p.rules = .standard → p.depth + levels = maxNesting → p.Onto ts q →
    q.peek.kind = .closeParen →
    FitsOrFails n (levels + 1) (argumentList (expressionWithin (levels + 1)) p) (.ok es q)

variable {s : Stratum} {ts us : List Token} {e : Expr} {es : List Expr} {m n levels : Nat}
  {p q : Parser} {floor : Power} {t : Token}

/-- An expression behind which no operator above the floor stands is read as a whole. -/
theorem Met.expressionWithin (h : s.Met ts e n) (floor : Power) (hpos : 0 < n)
    (hrules : p.rules = .standard) (hdepth : p.depth + levels = maxNesting)
    (hfloor : floor.stratum.rank ≤ s.rank) (honto : p.Onto ts q)
    (hpower : q.rules.power q.peek.kind ≤ floor)
    (hgrip : q.rules.power q.peek.kind ≤ s.grip) :
    FitsOrFails n levels (expressionWithin (levels + 1) floor p) (.ok e q) := by
  rw [expressionWithin_succ]
  cases levels with
  | zero =>
    -- as many expressions are open as may be
    exact ⟨fun hle => by omega, fun _ => ⟨p, nested_of_not_lt (by omega)⟩⟩
  | succ levels =>
    have hlt : p.depth < maxNesting := by omega
    have honto' : Parser.Onto { p with depth := p.depth + 1 } ts { q with depth := q.depth + 1 } :=
      ⟨honto.ne_nil, honto.begins, by rw [honto.eq_skip]; rfl⟩
    have hdepth' : p.depth + 1 + levels = maxNesting := by omega
    have hmet := h (p := { p with depth := p.depth + 1 }) hrules hdepth' hfloor honto' hgrip
    have hnone : Parser.follow? { q with depth := q.depth + 1 } floor = none :=
      (Parser.follow?_eq_none_iff (honto'.rules_eq.trans hrules)).mpr hpower
    rw [climbing_of_none hnone] at hmet
    rw [nested_of_lt hlt]
    constructor
    · intro hle
      rw [hmet.fits hle]
      rfl
    · intro hlt
      obtain ⟨r, hr⟩ := hmet.fails hlt
      exact ⟨_, by rw [hr]⟩

/-- An expression in parentheses or in a list of arguments ends before a token that has no
power. -/
theorem Met.enclosed (h : equality.Met ts e n) (hpos : 0 < n) (hrules : p.rules = .standard)
    (hdepth : p.depth + levels = maxNesting) (honto : p.Onto ts q)
    (hpower : Rules.standard.power q.peek.kind ≤ .lowest) :
    FitsOrFails n levels (ParseM.expressionWithin (levels + 1) .lowest p) (.ok e q) := by
  rw [← hrules, ← honto.rules_eq] at hpower
  exact h.expressionWithin .lowest hpos hrules hdepth (Nat.le_refl _) honto hpower
    (Power.le_trans hpower (Nat.zero_le _))

theorem met_tighter (h : s.tighter.Met ts e n) : s.Met ts e n := by
  intro levels floor p q hrules hdepth hfloor honto hgrip
  have hrank : s.rank ≤ s.tighter.rank := by cases s <;> decide
  exact h hrules hdepth (Nat.le_trans hfloor hrank) honto (Power.le_trans hgrip (grip_le_tighter s))

theorem met_leaf (hstart : Rules.standard.start? t.kind = some .leaf)
    (hleaf : ∀ p : Parser, p.current = t → leaf p = .ok e p) : primary.Met [t] e 1 := by
  intro levels floor p q hrules hdepth hfloor honto hgrip
  have hcurrent := honto.current_eq
  have hself : q = p := honto.eq_skip
  subst hself
  rw [operation_of_some (by rw [hrules, hcurrent, hstart])]
  have hread := FitsOrFails.of_eq (hleaf q hcurrent) (by omega : 1 ≤ levels + 1)
  exact hread.bind _

theorem met_unary (hkind : t.kind = .not ∨ t.kind = .dash) (hpos : 0 < n) (hne : ts ≠ [])
    (h : unary.Met ts e n) : unary.Met (t :: ts) (.unary t t.literal e) (n + 1) := by
  intro levels floor p q hrules hdepth hfloor honto hgrip
  have hcurrent := honto.current_eq
  have hstart : p.rules.start? p.current.kind = some .unary := by
    rw [hrules, hcurrent]
    rcases hkind with hkind | hkind <;> rw [hkind] <;> rfl
  have hoperand := h.expressionWithin (p := p.advanced) .unary hpos hrules hdepth
    (Nat.le_refl _) (honto.of_cons hne) hgrip hgrip
  rw [operation_of_some hstart]
  refine FitsOrFails.bind (a := Expr.unary t t.literal e) ?_ _
  rw [StartRule.read, unary_apply, hcurrent]
  exact hoperand.succ.bind _

theorem met_group {opening closing : Token} (hopening : opening.kind = .openParen)
    (hclosing : closing.kind = .closeParen) (hpos : 0 < n) (hne : ts ≠ [])
    (h : equality.Met ts e n) : primary.Met (opening :: (ts ++ [closing])) e (n + 1) := by
  intro levels floor p q hrules hdepth hfloor honto hgrip
  have hcurrent := honto.current_eq
  have hstart : p.rules.start? p.current.kind = some .group := by
    rw [hrules, hcurrent, hopening]
    rfl
  have honto' := honto.of_cons (List.append_ne_nil_of_left_ne_nil hne _)
  obtain ⟨mid, hmid, hlast⟩ := honto'.split hne (List.cons_ne_nil _ _)
  have hpeek : mid.peek.kind = .closeParen := hclosing ▸ congrArg Token.kind hlast.current_eq
  have hself : q = mid.advanced := hlast.eq_skip
  have hinner := h.enclosed (p := p.advanced) hpos hrules hdepth hmid (by rw [hpeek]; decide)
  rw [operation_of_some hstart]
  refine FitsOrFails.bind (a := e) ?_ _
  rw [StartRule.read, group_apply]
  have hclose := hinner.succ.bind fun inner => expectPeek .closeParen >>= fun _ => pure inner
  rw [bind_of_ok (expectPeek_of_kind hpeek), ← hself] at hclose
  exact hclose

theorem met_binary {ls rs : List Token} {l r : Expr} (hkind : t.kind ∈ s.operators) (hpos : 0 < n)
    (hls : ls ≠ []) (hrs : rs ≠ []) (hl : s.Met ls l m) (hr : s.tighter.Met rs r n) :
    s.Met (ls ++ t :: rs) (.binary t t.literal l r) (max m (n + 1)) := by
  intro levels floor p q hrules hdepth hfloor honto hgrip
  obtain ⟨mid, hleft, hright⟩ := honto.split hls (List.cons_ne_nil _ _)
  have hpeek : mid.peek = t := hright.current_eq
  have hrules' : mid.rules = .standard := hleft.rules_eq.trans hrules
  have hdepth' : mid.depth + levels = maxNesting := by rw [hleft.depth_eq, hdepth]
  obtain ⟨hfollow, hstratum⟩ := follow?_of_mem_operators hkind
  have hpower : mid.rules.power mid.peek.kind = s.grip := by
    rw [hrules', hpeek, Rules.power_of_follow? hfollow]
  have hfollow' := follow?_of_standard hrules' (hpeek ▸ hfollow)
    (lt_grip_of_rank_stratum_le hkind hfloor)
  -- the left operand is handed over to the loop, the right one is read by itself
  have hfirst := hl hrules hdepth hfloor hleft (hpower ▸ Nat.le_refl _)
  have hsecond := hr.expressionWithin (p := mid.advanced.advanced) s.grip hpos hrules' hdepth'
    (hstratum ▸ Nat.le_refl _) (hright.of_cons hrs) hgrip
    (Power.le_trans hgrip (grip_le_tighter s))
  refine hfirst.trans ?_
  rw [climbing_of_some (readsTokens_expressionWithin (levels + 1)) hfollow']
  refine FitsOrFails.bind (a := Expr.binary t t.literal l r) ?_ _
  rw [FollowRule.read, binary_apply, Parser.current_advanced, hpeek]
  exact hsecond.succ.bind _

theorem met_call {fs : List Token} {f : Expr} (hkind : t.kind = .openParen) (hfs : fs ≠ [])
    (hus : us ≠ []) (hf : call.Met fs f m)
    (harguments : ∀ {levels : Nat} {p q : Parser}, p.rules = .standard →
      p.depth + levels = maxNesting → p.advanced.Onto us q →
      FitsOrFails n (levels + 1) (arguments (expressionWithin (levels + 1)) p) (.ok es q)) :
    call.Met (fs ++ t :: us) (.call t f es) (max m n) := by
  intro levels floor p q hrules hdepth hfloor honto hgrip
  obtain ⟨mid, hfunction, hlist⟩ := honto.split hfs (List.cons_ne_nil _ _)
  have hpeek : mid.peek = t := hlist.current_eq
  have hrules' : mid.rules = .standard := hfunction.rules_eq.trans hrules
  have hdepth' : mid.depth + levels = maxNesting := by rw [hfunction.depth_eq, hdepth]
  have hfollow := follow?_of_standard hrules' (follow?_call_iff.mpr ⟨hpeek ▸ hkind, rfl⟩)
    (lt_call_of_rank_stratum_le hfloor)
  -- the function is handed over to the loop, which reads the arguments
  have hfirst := hf hrules hdepth hfloor hfunction (Power.le_call _)
  have hsecond := harguments (p := mid.advanced) hrules' hdepth' (hlist.of_cons hus)
  refine hfirst.trans ?_
  rw [climbing_of_some (readsTokens_expressionWithin (levels + 1)) hfollow]
  refine FitsOrFails.bind (a := Expr.call t f es) ?_ _
  rw [FollowRule.read, call_apply, Parser.current_advanced, hpeek]
  exact hsecond.bind _

theorem arguments_met_nil (hclosing : t.kind = .closeParen)
    (honto : p.advanced.Onto [t] q) :
    FitsOrFails 0 (levels + 1) (arguments (expressionWithin (levels + 1)) p) (.ok [] q) := by
  have hself : q = p.advanced := honto.eq_skip
  have hpeek : p.peek = t := honto.current_eq
  rw [arguments_of_closed (is_eq_true_iff.mpr (hpeek ▸ hclosing)), hself]
  exact .of_eq rfl (Nat.zero_le _)

theorem arguments_met (hclosing : t.kind = .closeParen) (hts : Arguments ts es n)
    (h : ArgumentsMet ts es n) (hrules : p.rules = .standard)
    (hdepth : p.depth + levels = maxNesting) (honto : p.advanced.Onto (ts ++ [t]) q) :
    FitsOrFails n (levels + 1) (arguments (expressionWithin (levels + 1)) p) (.ok es q) := by
  obtain ⟨first, rest, rule, rfl, hstart⟩ := hts.starts
  have hpeek : p.peek = first := honto.current_eq
  have hopen : p.peek.is .closeParen = false := by
    rw [is_eq_false_iff, hpeek]
    intro hkind
    rw [hkind] at hstart
    cases hstart
  obtain ⟨mid, hmid, hlast⟩ := honto.split hts.ne_nil (List.cons_ne_nil _ _)
  have hclose : mid.peek.kind = .closeParen := hclosing ▸ congrArg Token.kind hlast.current_eq
  have hself : q = mid.advanced := hlast.eq_skip
  have hlist := h (p := p.advanced) hrules hdepth hmid hclose
  rw [arguments_of_open hopen]
  have hresult := hlist.bind fun arguments =>
    expectPeek .closeParen >>= fun _ => pure arguments
  rw [bind_of_ok (expectPeek_of_kind hclose), ← hself] at hresult
  exact hresult

theorem argumentsMet_one (hpos : 0 < n) (h : equality.Met ts e n) :
    ArgumentsMet ts [e] (n + 1) := by
  intro levels p q hrules hdepth honto hclose
  have hargument := h.enclosed hpos hrules hdepth honto (by rw [hclose]; decide)
  have hcomma : q.peek.is .comma = false := by
    rw [is_eq_false_iff, hclose]
    decide
  constructor
  · intro hle
    exact argumentList_of_not_comma (hargument.fits (by omega)) hcomma
  · intro hlt
    obtain ⟨r, hr⟩ := hargument.fails (by omega)
    exact ⟨r, by rw [argumentList, bind_apply, hr]⟩

theorem argumentsMet_more {comma : Token} (hcomma : comma.kind = .comma) (hpos : 0 < m)
    (hts : ts ≠ []) (hus : us ≠ []) (h : equality.Met ts e m) (hothers : ArgumentsMet us es n) :
    ArgumentsMet (ts ++ comma :: us) (e :: es) (max (m + 1) n) := by
  intro levels p q hrules hdepth honto hclose
  obtain ⟨mid, hfirst, hrest⟩ := honto.split hts (List.cons_ne_nil _ _)
  have hpeek : mid.peek.kind = .comma := hcomma ▸ congrArg Token.kind hrest.current_eq
  have hrules' : mid.rules = .standard := hfirst.rules_eq.trans hrules
  have hdepth' : mid.depth + levels = maxNesting := by rw [hfirst.depth_eq, hdepth]
  have hargument := h.enclosed hpos hrules hdepth hfirst (by rw [hpeek]; decide)
  have hlist := hothers (p := mid.advanced.advanced) hrules' hdepth' (hrest.of_cons hus) hclose
  have hmoves := (readsTokens_expressionWithin (levels + 1)).moves
  constructor
  · intro hle
    rw [argumentList_of_comma hmoves (hargument.fits (by omega)) (is_eq_true_iff.mpr hpeek),
      bind_apply, hlist.fits (by omega)]
    rfl
  · intro hlt
    -- the first argument that nests too deep fails
    by_cases hm : m ≤ levels
    · obtain ⟨r, hr⟩ := hlist.fails (by omega)
      refine ⟨r, ?_⟩
      rw [argumentList_of_comma hmoves (hargument.fits hm) (is_eq_true_iff.mpr hpeek),
        bind_apply, hr]
    · obtain ⟨r, hr⟩ := hargument.fails (by omega)
      exact ⟨r, by rw [argumentList, bind_apply, hr]⟩

mutual

/-- **Completeness.**  Whatever the grammar derives is met by reading. -/
theorem Derives.met {s : Stratum} {ts : List Token} {e : Expr} {n : Nat} :
    Derives s ts e n → s.Met ts e n
  | .tighter inner => met_tighter inner.met
  | .binary kind left right =>
    met_binary kind right.pos left.ne_nil right.ne_nil left.met right.met
  | .unary kind right => met_unary kind right.pos right.ne_nil right.met
  | .emptyCall opening_kind closing_kind function => by
    -- no arguments need no levels
    rw [← Nat.max_zero n]
    exact met_call opening_kind function.ne_nil (List.cons_ne_nil _ _) function.met
      fun _ _ honto => arguments_met_nil closing_kind honto
  | .call opening_kind closing_kind function arguments =>
    met_call opening_kind function.ne_nil
      (List.append_ne_nil_of_left_ne_nil arguments.ne_nil _) function.met
      fun hrules hdepth honto =>
        arguments_met closing_kind arguments arguments.met hrules hdepth honto
  | .identifier kind => met_leaf (by rw [kind]; rfl) fun p hp => hp ▸ leaf_of_identifier (hp ▸ kind)
  | .integer kind numeral fits value =>
    met_leaf (by rw [kind]; rfl) fun p hp => by
      subst hp
      exact leaf_of_integer kind
        (Text.Decimal.int64?_eq_some_iff.mpr ⟨numeral, by omega, value⟩)
  | .true kind => met_leaf (by rw [kind]; rfl) fun p hp => hp ▸ leaf_of_true (hp ▸ kind)
  | .false kind => met_leaf (by rw [kind]; rfl) fun p hp => hp ▸ leaf_of_false (hp ▸ kind)
  | .group opening_kind closing_kind inner =>
    met_group opening_kind closing_kind inner.pos inner.ne_nil inner.met

theorem Arguments.met {ts : List Token} {es : List Expr} {n : Nat} :
    Arguments ts es n → ArgumentsMet ts es n
  | .one argument => argumentsMet_one argument.pos argument.met
  | .more argument comma_kind others =>
    argumentsMet_more comma_kind argument.pos argument.ne_nil others.ne_nil argument.met others.met

end

end Stratum

end LetLang
