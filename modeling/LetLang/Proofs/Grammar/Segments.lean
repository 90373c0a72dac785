import LetLang.Proofs.Grammar.Programs

/-!
# Segments — what becomes of every token

Every turn passes some tokens, at least one.  These segments follow one another and are all the
tokens of a source, with errors or without.  The segment of a statement is that statement and its
semicolons and nothing else; a segment without a statement and without an error is one stray token.
-/

namespace LetLang

open Token

/-! ## 1. What a segment may be -/

/-- At most `n` tokens, all of them semicolons. -/
structure Semicolons (n : Nat) (ts : List Token) : Prop where
  length_le : ts.length ≤ n
  all : ∀ t ∈ ts, t.kind = .semicolon

theorem semicolons_nil (n : Nat) : Semicolons n [] := ⟨Nat.zero_le n, nofun⟩

/-- The tokens of a statement, with the semicolons behind it. -/
inductive Spans : List Token → Statement → Prop
  | letStatement {keyword name sign : Token} {ts semicolons : List Token} {e : Expr}
      (keyword_kind : keyword.kind = .kwLet) (name_kind : name.kind = .identifier)
      (sign_kind : sign.kind = .assignment) (value : IsValue ts e)
      (ends : Semicolons 1 semicolons) :
      Spans (keyword :: name :: sign :: (ts ++ semicolons))
        (.letStatement keyword (.ofToken name) (some e))
  | returnNothing {keyword : Token} {semicolons : List Token}
      (keyword_kind : keyword.kind = .kwReturn) (ends : Semicolons 2 semicolons) :
      Spans (keyword :: semicolons) (.returnStatement keyword none)
  | returnValue {keyword : Token} {ts semicolons : List Token} {e : Expr}
      (keyword_kind : keyword.kind = .kwReturn) (value : IsValue ts e)
      (ends : Semicolons 1 semicolons) :
      Spans (keyword :: (ts ++ semicolons)) (.returnStatement keyword (some e))
  | expression {t : Token} {ts semicolons : List Token} {e : Expr} (value : IsValue (t :: ts) e)
      (ends : Semicolons 1 semicolons) :
      Spans (t :: (ts ++ semicolons)) (.expression t e)

/-- The tokens that a turn with this outcome may pass. -/
inductive Accounts : List Token → Turn → Prop
  | statement {ts : List Token} {s : Statement} (spans : Spans ts s) : Accounts ts (.statement s)
  | skipped {t : Token} (stray : t.kind.Stray) : Accounts [t] .skipped
  | failed (ts : List Token) (e : SyntaxError) : Accounts ts (.failed e)

variable {ts rest semicolons : List Token} {s : Statement}

/-- An item and the semicolon behind it are the span of its statement. -/
theorem Item.spans (h : Item ts rest s) (ends : Semicolons 1 semicolons) :
    Spans (ts ++ semicolons) s := by
  cases h with
  | letStatement keyword_kind name_kind sign_kind value _ =>
    exact .letStatement keyword_kind name_kind sign_kind value ends
  | returnNothing keyword_kind semicolon_kind =>
    exact .returnNothing keyword_kind
      ⟨Nat.succ_le_succ ends.length_le, List.forall_mem_cons.mpr ⟨semicolon_kind, ends.all⟩⟩
  | returnAtEnd keyword_kind =>
    exact .returnNothing keyword_kind ⟨Nat.le_succ_of_le ends.length_le, ends.all⟩
  | returnValue keyword_kind value _ => exact .returnValue keyword_kind value ends
  | expression value _ => exact .expression value ends

theorem exists_semicolons (ts : List Token) :
    ∃ semicolons, Semicolons 1 semicolons ∧ ts = semicolons ++ afterSemicolon ts := by
  cases ts with
  | nil => exact ⟨[], semicolons_nil 1, rfl⟩
  | cons t ts =>
    by_cases hsemi : t.kind = .semicolon
    · refine ⟨[t], ⟨Nat.le_refl 1, List.forall_mem_singleton.mpr hsemi⟩, ?_⟩
      rw [afterSemicolon, if_pos hsemi]
      rfl
    · refine ⟨[], semicolons_nil 1, ?_⟩
      rw [afterSemicolon, if_neg hsemi]
      rfl

/-! ## 2. The segments of a source -/

namespace Parser

variable {p q : Parser}

/-- The tokens that a turn passes, the one on which it stops included. -/
def passed (p : Parser) : List Token :=
  p.ahead.take (p.ahead.length - p.turn.2.advanced.ahead.length)

/-- The turns up to the end of the tokens, at most `rounds` of them, each with the tokens that it
passes. -/
def segmentsWithin (rounds : Nat) (p : Parser) : List (List Token × Turn) :=
  match rounds with
  | 0 => []
  | rounds + 1 =>
    if p.current.is .eof then
      []
    else
      (p.passed, p.turn.1) :: segmentsWithin rounds p.turn.2.advanced

/-- The turns up to the end of the tokens, each with the tokens that it passes. -/
def segments (p : Parser) : List (List Token × Turn) :=
  p.segmentsWithin p.ahead.length

theorem segmentsWithin_of_end (h : p.current.kind = .eof) (rounds : Nat) :
    p.segmentsWithin rounds = [] := by
  cases rounds with
  | zero => rfl
  | succ rounds => rw [segmentsWithin, if_pos (is_eq_true_iff.mpr h)]

theorem segmentsWithin_of_token (h : p.current.kind ≠ .eof) (rounds : Nat) :
    p.segmentsWithin (rounds + 1) =
      (p.passed, p.turn.1) :: p.turn.2.advanced.segmentsWithin rounds := by
  rw [segmentsWithin, if_neg fun heof => h (is_eq_true_iff.mp heof)]

theorem map_snd_segmentsWithin (rounds : Nat) (p : Parser) :
    (p.segmentsWithin rounds).map Prod.snd = (p.turnsWithin rounds).1 := by
  induction rounds generalizing p with
  | zero => rfl
  | succ rounds ih =>
    by_cases hend : p.current.kind = .eof
    · rw [segmentsWithin_of_end hend, turnsWithin_of_end hend]
      rfl
    · rw [segmentsWithin_of_token hend, turnsWithin_of_token hend, List.map_cons, ih]

theorem map_snd_segments (p : Parser) : p.segments.map Prod.snd = p.turns.1 := by
  rw [segments, map_snd_segmentsWithin, turnsWithin_eq_turns (Nat.le_refl _)]

/-! ## 3. One turn -/

theorem passed_append (p : Parser) : p.passed ++ p.turn.2.advanced.ahead = p.ahead := by
  obtain ⟨ts, hts⟩ := p.ahead_after_turn_suffix
  unfold passed
  rw [← hts, List.length_append, Nat.add_sub_cancel, List.take_left]

theorem passed_eq (h : p.ahead = ts ++ p.turn.2.advanced.ahead) : p.passed = ts := by
  apply List.append_cancel_right
  rw [passed_append, ← h]

theorem passed_ne_nil (h : p.current.kind ≠ .eof) : p.passed ≠ [] := by
  have hpos := List.length_pos_iff.mpr (ahead_ne_nil_of_current h)
  have hshorter := p.length_ahead_turn_le
  intro hnil
  have hsplit := p.passed_append
  rw [hnil, List.nil_append] at hsplit
  rw [hsplit] at hshorter
  omega

/-- The tokens that a turn passes are those of its outcome. -/
theorem accounts_passed (hp : p.Ready) (hends : ∀ t ∈ p.ahead, t.kind ≠ .eof)
    (htoken : p.current.kind ≠ .eof) : Accounts p.passed p.turn.1 := by
  obtain ⟨turn, q, hturn⟩ : ∃ turn q, p.turn = (turn, q) := ⟨_, _, rfl⟩
  cases turn with
  | statement s =>
    have hread := (turn_eq_statement_iff hp.rules_eq).mp hturn
    obtain ⟨ts, rest, hsplit, hitem, hafter⟩ := hread.item hp.depth_eq hends
    obtain ⟨semicolons, hends, hrest⟩ := exists_semicolons rest
    have hpassed : p.passed = ts ++ semicolons := by
      apply passed_eq
      rw [hturn, hafter, hsplit, List.append_assoc, ← hrest]
    rw [hpassed, hturn]
    exact .statement (hitem.spans hends)
  | skipped =>
    obtain ⟨hstray, rfl⟩ := (turn_eq_skipped_iff hp.rules_eq).mp hturn
    have hpassed : q.passed = [q.current] := by
      apply passed_eq
      rw [hturn]
      exact ahead_eq_cons htoken
    rw [hpassed, hturn]
    exact .skipped hstray
  | failed e =>
    rw [hturn]
    exact .failed p.passed e

/-! ## 4. All turns -/

/-- The segments are all the tokens, and each is accounted for. -/
theorem segmentsWithin_account {rounds : Nat} (hle : p.ahead.length ≤ rounds) (hp : p.Ready)
    (hends : ∀ t ∈ p.ahead, t.kind ≠ .eof) :
    (p.segmentsWithin rounds).flatMap Prod.fst = p.ahead ∧
      ∀ segment ∈ p.segmentsWithin rounds, segment.1 ≠ [] ∧ Accounts segment.1 segment.2 := by
  induction rounds generalizing p with
  | zero =>
    have hnil := List.length_eq_zero_iff.mp (Nat.le_zero.mp hle)
    rw [segmentsWithin, hnil]
    exact ⟨rfl, fun segment hmem => absurd hmem List.not_mem_nil⟩
  | succ rounds ih =>
    cases hahead : p.ahead with
    | nil =>
      rw [segmentsWithin_of_end (kind_of_ahead_eq_nil hahead)]
      exact ⟨rfl, fun segment hmem => absurd hmem List.not_mem_nil⟩
    | cons t rest =>
      obtain ⟨rfl, -⟩ := current_of_ahead_eq_cons hahead
      have htoken : p.current.kind ≠ .eof := hends _ (hahead ▸ List.mem_cons_self)
      have hshorter := p.length_ahead_turn_le
      have hrest : ∀ t ∈ p.turn.2.advanced.ahead, t.kind ≠ .eof :=
        fun t ht => hends t (p.ahead_after_turn_suffix.subset ht)
      obtain ⟨hothers, haccounts⟩ := ih (by omega) hp.after_turn hrest
      rw [segmentsWithin_of_token htoken, List.flatMap_cons, hothers, passed_append, hahead]
      refine ⟨rfl, List.forall_mem_cons.mpr ⟨?_, haccounts⟩⟩
      exact ⟨passed_ne_nil htoken, accounts_passed hp hends htoken⟩

end Parser

/-- Every turn is a statement or an error at most. -/
theorem length_statements_add_length_errors_le (turns : List Turn) :
    (turns.filterMap Turn.statement?).length + (turns.filterMap Turn.error?).length ≤
      turns.length := by
  induction turns with
  | nil => exact Nat.le_refl 0
  | cons turn turns ih =>
    cases turn <;>
      simp only [List.filterMap_cons, Turn.statement?, Turn.error?, List.length_cons] <;> omega

theorem length_le_length_flatMap_fst {α : Type} {segments : List (List Token × α)}
    (h : ∀ segment ∈ segments, segment.1 ≠ []) :
    segments.length ≤ (segments.flatMap Prod.fst).length := by
  induction segments with
  | nil => exact Nat.le_refl 0
  | cons segment segments ih =>
    obtain ⟨hne, hothers⟩ := List.forall_mem_cons.mp h
    have hpos := List.length_pos_iff.mpr hne
    have hle := ih hothers
    rw [List.length_cons, List.flatMap_cons, List.length_append]
    omega

/-- **Every token of a source without U+0000 is read once.**  The segments of its turns are all
tokens before the end, each with one outcome; statements and errors come in the order of their
segments. -/
theorem segments_account {source : String} (h : '\x00' ∉ source.toList) :
    (Parser.start source).segments.map Prod.snd = (Parser.start source).turns.1 ∧
    (Parser.start source).segments.flatMap Prod.fst =
      (tokenize source).takeWhile (fun t => !t.is .eof) ∧
    (∀ segment ∈ (Parser.start source).segments,
      segment.1 ≠ [] ∧ Accounts segment.1 segment.2) ∧
    (parse source).1.statements =
      (Parser.start source).segments.filterMap (fun segment => segment.2.statement?) ∧
    (parse source).2 = (Parser.start source).segments.filterMap (fun segment => segment.2.error?) ∧
    (parse source).1.statements.length + (parse source).2.length ≤
      ((tokenize source).takeWhile fun t => !t.is .eof).length ∧
    ((tokenize source).takeWhile fun t => !t.is .eof).length ≤ source.length := by
  have hends : ∀ t ∈ (Parser.start source).ahead, t.kind ≠ .eof := by
    intro t ht
    exact Lexing.ne_eof_of_mem_tokens h (tokens_start source ▸ ht)
  obtain ⟨hall, haccounts⟩ :=
    Parser.segmentsWithin_account (Nat.le_refl _) (Parser.ready_start source) hends
  have hturns := (Parser.start source).map_snd_segments
  have hflat : (Parser.start source).segments.flatMap Prod.fst =
      (tokenize source).takeWhile (fun t => !t.is .eof) := by
    rw [tokens_eq_of_no_nul h]
    exact hall
  have hcount := length_le_length_flatMap_fst fun segment hmem => (haccounts segment hmem).1
  have hturn := length_statements_add_length_errors_le (Parser.start source).turns.1
  rw [← hturns, List.length_map, hturns] at hturn
  refine ⟨hturns, hflat, haccounts, ?_, ?_, ?_, ?_⟩
  · rw [parse_eq, Parser.statements, ← hturns, List.filterMap_map]
    rfl
  · rw [parse_eq, Parser.faults, ← hturns, List.filterMap_map]
    rfl
  · rw [parse_eq, ← hflat]
    exact Nat.le_trans hturn hcount
  · rw [takeWhile_tokenize, ← String.length_toList]
    exact Nat.le_trans (List.takeWhile_sublist _).length_le (Lexing.length_tokens_le _)

/-- A stray comma, a `let` without its value, and a return that takes two semicolons of three. -/
theorem segments_account_malformed :
    '\x00' ∉ ",let x = ; return;;;".toList ∧
      ∀ segment ∈
        [([⟨.comma, ","⟩], Turn.skipped),
          ([⟨.kwLet, "let"⟩, ⟨.identifier, "x"⟩, ⟨.assignment, "="⟩, ⟨.semicolon, ";"⟩],
            .failed (.noExpressionStart .semicolon)),
          ([⟨.kwReturn, "return"⟩, ⟨.semicolon, ";"⟩, ⟨.semicolon, ";"⟩],
            .statement (.returnStatement ⟨.kwReturn, "return"⟩ none)),
          ([⟨.semicolon, ";"⟩], .skipped)],
        segment.1 ≠ [] ∧ Accounts segment.1 segment.2 := by
  have hnul : '\x00' ∉ ",let x = ; return;;;".toList := by decide
  have haccounts := (segments_account hnul).2.2.1
  refine ⟨hnul, fun segment hmem => haccounts segment ?_⟩
  revert segment
  decide +kernel

end LetLang
