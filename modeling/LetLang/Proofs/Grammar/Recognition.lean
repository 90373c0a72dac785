import LetLang.Proofs.Grammar.Completeness

/-!
# Recognition — reading is the grammar of expressions

Soundness and completeness together: with the rules of the language, what is read above a floor
are exactly the expressions of its stratum that no further token goes on with and that the levels
left can hold, and the tree is that of the derivation.
-/

namespace LetLang

open Token ParseM

variable {p q : Parser} {floor : Power} {ts : List Token} {e : Expr} {n : Nat}

theorem expression_sound (hrules : p.rules = .standard) (hfloor : floor ≤ .unary)
    (hread : expression floor p = .ok e q) :
    ∃ ts n, p.Onto ts q ∧ floor.stratum.Derives ts e n ∧ p.depth + n ≤ maxNesting ∧
      q.rules.power q.peek.kind ≤ floor := by
  rw [expression_apply] at hread
  by_cases hdepth : p.depth < maxNesting
  · obtain ⟨⟨ts, n, honto, hderives, hn⟩, hpower⟩ :=
      soundOperand_expressionWithin _ (maxNesting - p.depth) hfloor hrules (by omega) hread
    exact ⟨ts, n, honto, hderives, by omega, hpower⟩
  · rw [expressionWithin_succ, nested_of_not_lt hdepth] at hread
    cases hread

theorem expression_fitsOrFails (hrules : p.rules = .standard) (hdepth : p.depth ≤ maxNesting)
    (hderives : floor.stratum.Derives ts e n) (honto : p.Onto ts q)
    (hpower : q.rules.power q.peek.kind ≤ floor) :
    FitsOrFails n (maxNesting - p.depth) (expression floor p) (.ok e q) :=
  Stratum.Met.expressionWithin hderives.met floor hderives.pos hrules (by omega) (Nat.le_refl _)
    honto hpower (Power.le_trans hpower floor.le_grip_stratum)

/-- **Recognition.**  Reading above a floor succeeds on the `k + 1`-th token with a tree exactly if
the first `k + 1` tokens derive the tree from the stratum of the floor, the token behind them has
no power above the floor, and no more expressions are open at once than may be. -/
theorem expression_eq_ok_iff (hrules : p.rules = .standard) (hfloor : floor ≤ .unary) (e : Expr)
    (k : Nat) :
    expression floor p = .ok e (p.skip k) ↔
      ∃ ts n, ts.length = k + 1 ∧ ts <+: p.ahead ∧ floor.stratum.Derives ts e n ∧
        p.rules.power (p.skip k).peek.kind ≤ floor ∧ p.depth + n ≤ maxNesting := by
  constructor
  · intro hread
    obtain ⟨ts, n, honto, hderives, hn, hpower⟩ := expression_sound hrules hfloor hread
    -- the parser stands on a token, so it tells how many have been passed
    have hlen : ts.length - 1 = k := by
      have hahead := congrArg List.length (congrArg Parser.ahead honto.eq_skip)
      have hleft := List.length_pos_iff.mpr honto.ahead_ne_nil
      have hwhole := congrArg List.length honto.ahead_eq
      have hpos := List.length_pos_iff.mpr honto.ne_nil
      simp only [Parser.ahead_skip, List.length_drop, List.length_append] at hahead hleft hwhole
      omega
    have hpos := List.length_pos_iff.mpr honto.ne_nil
    exact ⟨ts, n, by omega, honto.begins, hderives, hpower, hn⟩
  · rintro ⟨ts, n, hlen, hbegins, hderives, hpower, hn⟩
    have honto : p.Onto ts (p.skip k) := by
      refine ⟨hderives.ne_nil, hbegins, ?_⟩
      rw [hlen, Nat.add_sub_cancel]
    exact (expression_fitsOrFails hrules (by omega) hderives honto hpower).fits (by omega)

/-- A difference behind 254 open expressions: its right operand is the 256th, the last. -/
theorem expression_eq_ok_iff_difference :
    let a : Token := ⟨.identifier, "a"⟩
    let dash : Token := ⟨.dash, "-"⟩
    let b : Token := ⟨.identifier, "b"⟩
    let p : Parser := ⟨[a, dash, b, ⟨.semicolon, ";"⟩], [], 254, .standard⟩
    let e : Expr := .binary dash "-" (.identifier (.ofToken a)) (.identifier (.ofToken b))
    p.rules = .standard ∧ Power.lowest ≤ .unary ∧
      ∃ ts n, ts.length = 2 + 1 ∧ ts <+: p.ahead ∧ Stratum.equality.Derives ts e n ∧
        p.rules.power (p.skip 2).peek.kind ≤ .lowest ∧ p.depth + n ≤ maxNesting := by
  intro a dash b p e
  have hfloor : Power.lowest ≤ .unary := by decide
  exact ⟨rfl, hfloor, (expression_eq_ok_iff (p := p) rfl hfloor e 2).mp rfl⟩

end LetLang
