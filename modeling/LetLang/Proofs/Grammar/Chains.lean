import LetLang.Proofs.Grammar.Completeness

/-!
# Chains — operators of any powers between operands

The powers of operators may be set freely.  Whatever they are, a chain of operands with operators
between them is grouped by splitting it at its loosest operator, the last one if there are several,
and by doing the same to what stands on either side.  Reading goes through the chain from left to
right instead and opens one level for each right operand; as the floors of these are ever higher,
there are never more than seven at once, however long the chain is.
-/

namespace LetLang

open Token ParseM

/-! ## 1. Chains and their trees -/

/-- The expression that a token is by itself; a number has to fit its word. -/
def Token.leaf? (t : Token) : Option Expr :=
  match t.kind with
  | .identifier => some (.identifier (.ofToken t))
  | .integer => (Text.Decimal.int64? t.literal).map (.integer t)
  | .kwTrue => some (.boolean t true)
  | .kwFalse => some (.boolean t false)
  | _ => none

/-- A kind is an operator between two operands, with a power of its own.  No semicolon is one, as
it always ends an expression. -/
structure Rules.Joins (rules : Rules) (k : Kind) : Prop where
  binary : rules.follow? k = some (rules.power k, .binary)
  above_lowest : .lowest < rules.power k
  not_semicolon : k ≠ .semicolon

/-- The tokens of a chain: an operand, and links of an operator and the operand behind it. -/
def chainTokens (a : Token) (links : List (Token × Token)) : List Token :=
  a :: links.flatMap fun link => [link.1, link.2]

/-- The tree of a chain: it is split at the last one of its loosest operators, and so are the chains
on both sides. -/
inductive Grouped (power : Kind → Power) : Token → List (Token × Token) → Expr → Prop
  | operand {a : Token} {e : Expr} (leaf : a.leaf? = some e) : Grouped power a [] e
  | split {a operator b : Token} {before after : List (Token × Token)} {l r : Expr}
      (loosest : ∀ link ∈ before, power operator.kind ≤ power link.1.kind)
      (last : ∀ link ∈ after, power operator.kind < power link.1.kind)
      (left : Grouped power a before l) (right : Grouped power b after r) :
      Grouped power a (before ++ (operator, b) :: after) (.binary operator operator.literal l r)

variable {a b o : Token} {before after links : List (Token × Token)} {e : Expr}

theorem chainTokens_append :
    chainTokens a (before ++ (o, b) :: after) =
      chainTokens a before ++ o :: chainTokens b after := by
  simp [chainTokens]

theorem length_chainTokens (a : Token) (links : List (Token × Token)) :
    (chainTokens a links).length = 2 * links.length + 1 := by
  induction links with
  | nil => rfl
  | cons link links ih =>
    simp only [chainTokens, List.flatMap_cons, List.length_cons, List.length_append,
      List.length_nil] at ih ⊢
    omega

theorem getLast?_chainTokens (a : Token) (links : List (Token × Token)) :
    (chainTokens a links).getLast? = some ((links.map Prod.snd).getLastD a) := by
  rcases List.eq_nil_or_concat links with rfl | ⟨before, ⟨o, b⟩, rfl⟩
  · rfl
  · rw [List.concat_eq_append, chainTokens_append, List.getLast?_append, List.map_append,
      List.map_singleton, List.getLastD_concat]
    rfl

theorem exists_last_least {α : Type} (rank : α → Nat) {xs : List α} (hne : xs ≠ []) :
    ∃ before x after, xs = before ++ x :: after ∧ (∀ y ∈ before, rank x ≤ rank y) ∧
      ∀ y ∈ after, rank x < rank y := by
  induction xs with
  | nil => exact absurd rfl hne
  | cons y xs ih =>
    by_cases hxs : xs = []
    · subst hxs
      exact ⟨[], y, [], rfl, List.forall_mem_nil _, List.forall_mem_nil _⟩
    · obtain ⟨before, x, after, rfl, hbefore, hafter⟩ := ih hxs
      by_cases hlt : rank y < rank x
      · -- the first one is less than the least behind it
        refine ⟨[], y, before ++ x :: after, rfl, List.forall_mem_nil _, ?_⟩
        rw [List.forall_mem_append, List.forall_mem_cons]
        refine ⟨fun z hz => ?_, hlt, fun z hz => ?_⟩
        · exact Nat.lt_of_lt_of_le hlt (hbefore z hz)
        · exact Nat.lt_trans hlt (hafter z hz)
      · refine ⟨y :: before, x, after, rfl, ?_, hafter⟩
        exact List.forall_mem_cons.mpr ⟨Nat.le_of_not_lt hlt, hbefore⟩

/-- Every chain has a tree. -/
theorem exists_grouped (power : Kind → Power) (hfirst : a.leaf?.isSome)
    (hoperands : ∀ link ∈ links, link.2.leaf?.isSome) : ∃ e, Grouped power a links e := by
  induction hlen : links.length using Nat.strongRecOn generalizing a links with
  | ind n ih =>
    by_cases hlinks : links = []
    · subst hlinks
      obtain ⟨e, he⟩ := Option.isSome_iff_exists.mp hfirst
      exact ⟨e, .operand he⟩
    · obtain ⟨before, ⟨o, b⟩, after, rfl, hbefore, hafter⟩ :=
        exists_last_least (fun link => (power link.1.kind).rank) hlinks
      rw [List.forall_mem_append, List.forall_mem_cons] at hoperands
      obtain ⟨hbefore', hb, hafter'⟩ := hoperands
      rw [List.length_append, List.length_cons] at hlen
      obtain ⟨l, hl⟩ := ih _ (by omega) hfirst hbefore' rfl
      obtain ⟨r, hr⟩ := ih _ (by omega) hb hafter' rfl
      exact ⟨_, .split hbefore hafter hl hr⟩

/-! ## 2. Reading a chain -/

namespace Parser

variable {p q : Parser} {floor : Power}

theorem follow?_of_joins (h : p.rules.Joins p.peek.kind) (hlt : floor < p.rules.power p.peek.kind) :
    p.follow? floor = some (p.rules.power p.peek.kind, .binary) := by
  rw [follow?, if_neg (fun hsemi => h.not_semicolon (is_eq_true_iff.mp hsemi)), h.binary]
  exact if_pos hlt

/-- An expression ends at a token whose power is not above the floor, whatever rules are set. -/
theorem follow?_eq_none_of_le (hle : p.rules.power p.peek.kind ≤ floor) :
    p.follow? floor = none := by
  unfold follow?
  split
  · rfl
  · unfold Rules.power at hle
    split
    · next power rule hfollow =>
      rw [hfollow] at hle
      exact if_neg (Nat.not_lt_of_le hle)
    · rfl

theorem follow?_eq_none_of_semicolon (h : p.peek.kind = .semicolon) : p.follow? floor = none := by
  rw [follow?, if_pos (is_eq_true_iff.mpr h)]

end Parser

theorem leaf_of_leaf? {p : Parser} (h : p.current.leaf? = some e) : leaf p = .ok e p := by
  unfold Token.leaf? at h
  split at h
  · next hkind =>
    rw [leaf_of_identifier hkind, Option.some.inj h]
  · next hkind =>
    obtain ⟨v, hv, rfl⟩ := Option.map_eq_some_iff.mp h
    exact leaf_of_integer hkind hv
  · next hkind =>
    rw [leaf_of_true hkind, Option.some.inj h]
  · next hkind =>
    rw [leaf_of_false hkind, Option.some.inj h]
  · cases h

theorem start?_of_leaf? (h : a.leaf? = some e) : Rules.standard.start? a.kind = some .leaf := by
  unfold Token.leaf? at h
  split at h
  · next hkind => rw [hkind]; rfl
  · next hkind => rw [hkind]; rfl
  · next hkind => rw [hkind]; rfl
  · next hkind => rw [hkind]; rfl
  · cases h

theorem Power.rank_le (power : Power) : power.rank ≤ 6 := by
  cases power <;> decide

/-- Reading above a floor hands the tree of a chain over to the loop on its last token, if all
operators of the chain are above the floor and the token behind it goes on with none of their
operands.  One level is needed for each power above the floor. -/
def ChainMet (rules : Rules) (a : Token) (links : List (Token × Token)) (e : Expr) : Prop :=
  ∀ {levels floor p q}, p.rules = rules → p.depth + levels = maxNesting →
    6 ≤ levels + floor.rank → p.Onto (chainTokens a links) q →
    (∀ link ∈ links, floor < rules.power link.1.kind) →
    (∀ link ∈ links, q.follow? (rules.power link.1.kind) = none) →
    operation (expressionWithin (levels + 1)) floor p =
      climbing (expressionWithin (levels + 1)) floor e q

namespace ChainMet

variable {rules : Rules} {levels : Nat} {floor : Power} {p q : Parser} {l r : Expr}

/-- A chain behind which nothing goes on above the floor is read as a whole. -/
theorem expressionWithin (h : ChainMet rules a links e) (hrules : p.rules = rules)
    (hdepth : p.depth + levels = maxNesting) (hlevels : 7 ≤ levels + floor.rank)
    (honto : p.Onto (chainTokens a links) q)
    (habove : ∀ link ∈ links, floor < rules.power link.1.kind)
    (hends : ∀ link ∈ links, q.follow? (rules.power link.1.kind) = none)
    (hend : q.follow? floor = none) :
    ParseM.expressionWithin (levels + 1) floor p = .ok e q := by
  have hrank := floor.rank_le
  obtain ⟨levels, rfl⟩ : ∃ n, levels = n + 1 := ⟨levels - 1, by omega⟩
  have hlt : p.depth < maxNesting := by omega
  have honto' : Parser.Onto { p with depth := p.depth + 1 } (chainTokens a links)
      { q with depth := q.depth + 1 } :=
    ⟨honto.ne_nil, honto.begins, by rw [honto.eq_skip]; rfl⟩
  have hdepth' : p.depth + 1 + levels = maxNesting := by omega
  have hread := h (p := { p with depth := p.depth + 1 }) hrules hdepth' (by omega) honto' habove
    hends
  have hnone : Parser.follow? { q with depth := q.depth + 1 } floor = none := hend
  rw [climbing_of_none hnone] at hread
  rw [expressionWithin_succ, nested_of_lt hlt, hread]
  rfl

theorem operand (hstart : rules.start? = Rules.standard.start?) (ha : a.leaf? = some e) :
    ChainMet rules a [] e := by
  intro levels floor p q hrules _ _ honto _ _
  have hcurrent : p.current = a := honto.current_eq
  have hself : q = p := honto.eq_skip
  subst hself
  have hleaf : q.rules.start? q.current.kind = some .leaf := by
    rw [hrules, hstart, hcurrent, start?_of_leaf? ha]
  rw [operation_of_some hleaf]
  exact bind_of_ok (leaf_of_leaf? (hcurrent ▸ ha))

theorem split (hjoins : rules.Joins o.kind)
    (hloosest : ∀ link ∈ before, rules.power o.kind ≤ rules.power link.1.kind)
    (hlast : ∀ link ∈ after, rules.power o.kind < rules.power link.1.kind)
    (hl : ChainMet rules a before l) (hr : ChainMet rules b after r) :
    ChainMet rules a (before ++ (o, b) :: after) (.binary o o.literal l r) := by
  intro levels floor p q hrules hdepth hlevels honto habove hends
  rw [List.forall_mem_append, List.forall_mem_cons] at habove hends
  obtain ⟨habove, hlt, -⟩ := habove
  obtain ⟨-, hend, hends⟩ := hends
  rw [chainTokens_append] at honto
  obtain ⟨mid, hleft, hright⟩ := honto.split (List.cons_ne_nil _ _) (List.cons_ne_nil _ _)
  have hpeek : mid.peek = o := hright.current_eq
  have hrules' : mid.rules = rules := hleft.rules_eq.trans hrules
  have hdepth' : mid.depth + levels = maxNesting := by rw [hleft.depth_eq, hdepth]
  -- the operator goes on with no operand on its left, so the left chain is handed over before it
  have hbefore : ∀ link ∈ before, mid.follow? (rules.power link.1.kind) = none := by
    intro link hlink
    apply Parser.follow?_eq_none_of_le
    rw [hrules', hpeek]
    exact hloosest link hlink
  have hfollow : mid.follow? floor = some (rules.power o.kind, .binary) := by
    subst hpeek hrules'
    exact Parser.follow?_of_joins hjoins hlt
  -- the floor of the right operand is higher, so one level less is enough for it
  have hoperand : ParseM.expressionWithin (levels + 1) (rules.power o.kind)
      mid.advanced.advanced = .ok r q := by
    have hrank : floor.rank < (rules.power o.kind).rank := hlt
    exact hr.expressionWithin (p := mid.advanced.advanced) hrules' hdepth' (by omega)
      (hright.of_cons (List.cons_ne_nil _ _)) hlast hends hend
  rw [hl hrules hdepth hlevels hleft habove hbefore,
    climbing_of_some (readsTokens_expressionWithin (levels + 1)) hfollow]
  apply bind_of_ok
  rw [FollowRule.read, binary_apply, bind_of_ok hoperand, Parser.current_advanced, hpeek]
  rfl

end ChainMet

theorem Grouped.met {rules : Rules} (hstart : rules.start? = Rules.standard.start?)
    (h : Grouped rules.power a links e) (hjoins : ∀ link ∈ links, rules.Joins link.1.kind) :
    ChainMet rules a links e := by
  -- the left chain shares the levels of the whole, the right one is an operand
  induction h with
  | operand leaf => exact ChainMet.operand hstart leaf
  | split loosest last left right ihl ihr =>
    rw [List.forall_mem_append, List.forall_mem_cons] at hjoins
    obtain ⟨hbefore, hoperator, hafter⟩ := hjoins
    exact ChainMet.split hoperator loosest last (ihl hbefore) (ihr hafter)

/-- **Chains are grouped by the powers of their operators.**  Whatever kinds of tokens are set as
operators between two operands, and with whatever powers: a chain that a semicolon or a token
without a power ends is read as its tree, which is the only one, up to its last operand.  The depth
at which it is read has to leave seven levels, whatever the length of the chain. -/
theorem expression_chain {p : Parser} {rest : List Token}
    (hstart : p.rules.start? = Rules.standard.start?) (hdepth : p.depth ≤ 249)
    (hahead : p.ahead = chainTokens a links ++ rest) (hfirst : a.leaf?.isSome)
    (hoperands : ∀ link ∈ links, link.2.leaf?.isSome)
    (hjoins : ∀ link ∈ links, p.rules.Joins link.1.kind)
    (hend : (rest.headD Token.eof).kind = .semicolon ∨
      p.rules.power (rest.headD Token.eof).kind = .lowest) :
    ∃ e, (∀ e', Grouped p.rules.power a links e' ↔ e' = e) ∧
      ParseM.expression .lowest p = .ok e (p.skip (2 * links.length)) ∧
      (p.skip (2 * links.length)).current = (links.map Prod.snd).getLastD a := by
  have hne : chainTokens a links ≠ [] := List.cons_ne_nil _ _
  obtain ⟨q, honto, hq⟩ := Parser.onto_of_ahead_eq hne hahead
  have hskip : q = p.skip (2 * links.length) := by
    rw [honto.eq_skip, length_chainTokens, Nat.add_sub_cancel]
  have hnone : ∀ floor, q.follow? floor = none := by
    have hpeek : q.peek = rest.headD Token.eof := by
      rw [← hq]
      rfl
    intro floor
    rw [← hpeek, ← honto.rules_eq] at hend
    rcases hend with hsemi | hlowest
    · exact Parser.follow?_eq_none_of_semicolon hsemi
    · exact Parser.follow?_eq_none_of_le (hlowest ▸ Nat.zero_le _)
  have hread : ∀ e, Grouped p.rules.power a links e → ParseM.expression .lowest p = .ok e q := by
    intro e he
    have hlevels : p.depth + (maxNesting - p.depth) = maxNesting ∧ 7 ≤ maxNesting - p.depth := by
      have hmax : maxNesting = 249 + 7 := rfl
      omega
    exact ChainMet.expressionWithin (he.met hstart hjoins) rfl hlevels.1 hlevels.2 honto
      (fun link hlink => (hjoins link hlink).above_lowest) (fun _ _ => hnone _) (hnone _)
  obtain ⟨e, he⟩ := exists_grouped p.rules.power hfirst hoperands
  refine ⟨e, fun e' => ⟨fun he' => ?_, ?_⟩, hskip ▸ hread e he, ?_⟩
  · have hboth := (hread e' he').symm.trans (hread e he)
    exact (EStateM.Result.ok.inj hboth).1
  · rintro rfl
    exact he
  · rw [← hskip]
    exact Option.some.inj (honto.getLast?_eq.symm.trans (getLast?_chainTokens a links))

/-- A comma that binds as tightly as a call and a name that is an operator of the loosest power, on
the deepest level that leaves seven. -/
theorem expression_chain_loosest_name :
    let rules := (Rules.standard.setFollow .comma .call .binary).setFollow .identifier .equality
      .binary
    let x : Token := ⟨.identifier, "x"⟩
    let comma : Token := ⟨.comma, ","⟩
    let is : Token := ⟨.identifier, "is"⟩
    let yes : Token := ⟨.kwTrue, "true"⟩
    let p : Parser := ⟨[x, comma, x, is, yes, ⟨.semicolon, ";"⟩], [], 249, rules⟩
    p.rules.start? = Rules.standard.start? ∧ p.depth ≤ 249 ∧ x.leaf?.isSome ∧
      (∀ link ∈ [(comma, x), (is, yes)], link.2.leaf?.isSome ∧ p.rules.Joins link.1.kind) ∧
      expression .lowest p =
        .ok (.binary is "is"
          (.binary comma "," (.identifier (.ofToken x)) (.identifier (.ofToken x)))
          (.boolean yes true)) (p.skip 4) := by
  intro rules x comma is yes p
  have hlinks : ∀ link ∈ [(comma, x), (is, yes)],
      link.2.leaf?.isSome ∧ p.rules.Joins link.1.kind := by
    refine List.forall_mem_cons.mpr ⟨⟨rfl, rfl, by decide, nofun⟩, ?_⟩
    exact List.forall_mem_cons.mpr ⟨⟨rfl, rfl, by decide, nofun⟩, List.forall_mem_nil _⟩
  have hdepth : p.depth ≤ 249 := Nat.le_refl _
  have hahead : p.ahead = chainTokens x [(comma, x), (is, yes)] ++ [⟨.semicolon, ";"⟩] := rfl
  obtain ⟨e, hiff, hread, -⟩ := expression_chain rfl hdepth hahead rfl
    (fun link h => (hlinks link h).1) (fun link h => (hlinks link h).2) (.inl rfl)
  refine ⟨rfl, hdepth, rfl, hlinks, ?_⟩
  -- the name is the loosest operator, and the comma stands on its left
  have hleft : Grouped p.rules.power x ([] ++ [(comma, x)])
      (.binary comma "," (.identifier (.ofToken x)) (.identifier (.ofToken x))) :=
    .split (List.forall_mem_nil _) (List.forall_mem_nil _) (.operand rfl) (.operand rfl)
  have hgrouped : Grouped p.rules.power x ([(comma, x)] ++ [(is, yes)]) _ :=
    .split (List.forall_mem_singleton.mpr (by decide)) (List.forall_mem_nil _) hleft (.operand rfl)
  rw [(hiff _).mp hgrouped]
  exact hread

end LetLang
