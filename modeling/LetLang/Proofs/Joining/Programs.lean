import LetLang.Proofs.Joining.Turns
import LetLang.Proofs.Lexing.Pieces

/-!
# Programs before a semicolon — a semicolon keeps apart what stands around it

A source is read with nothing behind it, and once more with a semicolon and a second source behind
it.  Turn by turn both runs do the same until the first comes to the end.  There the second is on
the semicolon, which begins no statement, or has taken it as the end of a statement, perhaps with
one more that the second source begins with; either way the statements and errors that remain are
those of the second source.
-/

namespace LetLang

open Token ParseM

/-! ## 1. Where two runs go on -/

namespace Parser

variable {p q : Parser} {semicolon : Token} {ts : List Token}

/-- Where two runs go on: both with the rest of the first source, or the one is at the end and the
other at the second source, of which it may have taken a first semicolon. -/
def Meets (semicolon : Token) (ts : List Token) (q q' : Parser) : Prop :=
  q'.advanced = q.advanced.before (semicolon :: ts) ∨
  q.advanced.ahead = [] ∧
    (q'.advanced = { q with ahead := ts } ∨ q'.advanced = { q with ahead := afterSemicolon ts })

theorem meets_before (q : Parser) : Meets semicolon ts q (q.before (semicolon :: ts)) := by
  by_cases hend : q.ahead = []
  · refine .inr ⟨by rw [ahead_advanced, hend]; rfl, .inl ?_⟩
    rw [before, hend]
    rfl
  · exact .inl (advanced_before hend _)

theorem Stops.meets {q' : Parser} (h : Stops semicolon ts q q') : Meets semicolon ts q q' := by
  rcases h with rfl | ⟨-, -, hlast, heq⟩ | ⟨hnil, heq⟩
  · exact meets_before q
  · exact .inr ⟨hlast, .inl heq⟩
  · exact .inr ⟨by rw [ahead_advanced, hnil]; rfl, .inr heq⟩

/-! ## 2. Programs -/

/-- A semicolon that begins a turn is passed. -/
theorem statements_of_semicolon (hrules : p.rules = .standard) (h : p.current.kind = .semicolon) :
    p.statements = p.advanced.statements ∧ p.faults = p.advanced.faults := by
  have htoken : p.current.kind ≠ .eof := by
    rw [h]
    decide
  have hstray : p.current.kind.Stray := by
    rw [h]
    exact ⟨nofun, nofun, nofun, rfl⟩
  have hturn := (turn_eq_skipped_iff hrules).mpr ⟨hstray, rfl⟩
  rw [statements_of_token htoken, faults_of_token htoken, hturn]
  exact ⟨rfl, rfl⟩

/-- A first semicolon makes no difference. -/
theorem statements_afterSemicolon (hrules : p.rules = .standard) :
    statements { p with ahead := afterSemicolon p.ahead } = p.statements ∧
      faults { p with ahead := afterSemicolon p.ahead } = p.faults := by
  cases hahead : p.ahead with
  | nil =>
    rw [afterSemicolon, ← hahead]
    exact ⟨rfl, rfl⟩
  | cons t rest =>
    by_cases hsemi : t.kind = .semicolon
    · obtain ⟨rfl, rfl⟩ := current_of_ahead_eq_cons hahead
      rw [afterSemicolon, if_pos hsemi]
      obtain ⟨hstatements, hfaults⟩ := statements_of_semicolon hrules hsemi
      exact ⟨hstatements.symm, hfaults.symm⟩
    · rw [afterSemicolon, if_neg hsemi, ← hahead]
      exact ⟨rfl, rfl⟩

/-- The second run has the statements and errors of the first and then those of `r`; of the first
run only the last error can be at the end. -/
structure Prolongs (r p p' : Parser) : Prop where
  statements_eq : p'.statements = p.statements ++ r.statements
  faults_eq : p'.faults = p.faults.map (SyntaxError.endAs .semicolon) ++ r.faults
  end_last : ∀ e ∈ p.faults.dropLast, e.found? ≠ some .eof

theorem prolongs_of_end {r p' : Parser} (hend : p.ahead = [])
    (hstatements : p'.statements = r.statements) (hfaults : p'.faults = r.faults) :
    Prolongs r p p' := by
  have hcurrent := kind_of_ahead_eq_nil hend
  have hnone := faults_of_end hcurrent
  constructor
  · rw [hstatements, statements_of_end hcurrent, List.nil_append]
  · rw [hfaults, hnone]
    rfl
  · rw [hnone]
    exact fun e he => (nomatch he)

/-- Where two runs meet, the second prolongs the first. -/
theorem Meets.prolongs {q' : Parser} (h : Meets semicolon ts q q') (hrules : q.rules = .standard)
    (hrest : q'.advanced = q.advanced.before (semicolon :: ts) →
      Prolongs { q with ahead := ts } q.advanced q'.advanced) :
    Prolongs { q with ahead := ts } q.advanced q'.advanced := by
  rcases h with heq | ⟨hend, heq | heq⟩
  · exact hrest heq
  · rw [heq]
    exact prolongs_of_end hend rfl rfl
  · rw [heq]
    have hsame := statements_afterSemicolon (p := { q with ahead := ts }) hrules
    exact prolongs_of_end hend hsame.1 hsame.2

/-- **A turn.**  If the second run prolongs the first behind a turn that both make, it does so
before it. -/
theorem Prolongs.of_turn {r p' : Parser} (htoken : p.current.kind ≠ .eof)
    (htoken' : p'.current.kind ≠ .eof) (hsemi : semicolon.kind = .semicolon)
    (hmeet : TurnsMeet semicolon ts p.turn p'.turn)
    (h : Prolongs r p.turn.2.advanced p'.turn.2.advanced) : Prolongs r p p' := by
  obtain ⟨hturn, -, hend⟩ := hmeet
  -- the turns have the same statement, and the same error but for its place
  have hstatement : p'.turn.1.statement? = p.turn.1.statement? := by
    rw [hturn, Turn.statement?_endAs]
  have herror : p'.turn.1.error? = p.turn.1.error?.map (SyntaxError.endAs .semicolon) := by
    rw [hturn, Turn.error?_endAs, hsemi]
  constructor
  · rw [statements_of_token htoken, statements_of_token htoken', h.statements_eq, hstatement,
      List.append_assoc]
  · rw [faults_of_token htoken, faults_of_token htoken', h.faults_eq, herror, List.map_append,
      List.append_assoc]
    cases p.turn.1.error? <;> rfl
  · rw [faults_of_token htoken]
    cases hfault : p.turn.1.error? with
    | none => exact h.end_last
    | some e =>
      cases hrest : p.turn.2.advanced.faults with
      | nil => exact fun e he => (nomatch he)
      | cons e' rest =>
        have hlast := h.end_last
        rw [hrest] at hlast
        refine List.forall_mem_cons.mpr ⟨fun hfound => ?_, hlast⟩
        -- an error at the end is the last
        rw [faults_of_end (kind_of_ahead_eq_nil (hend e hfault hfound))] at hrest
        cases hrest

/-- **The run.**  Before a semicolon and a second source the first is read as it is alone. -/
theorem prolongs_before (hsemi : semicolon.kind = .semicolon) (hp : p.Plain) :
    Prolongs { p with ahead := ts } p (p.before (semicolon :: ts)) := by
  induction hlen : p.ahead.length using Nat.strongRecOn generalizing p with
  | ind n ih =>
    by_cases hend : p.ahead = []
    · -- of the first source nothing is left, and the second run is on the semicolon
      have hfirst := statements_of_semicolon (p := { p with ahead := semicolon :: ts })
        hp.rules_eq hsemi
      rw [before, hend]
      exact prolongs_of_end hend hfirst.1 hfirst.2
    · have hinside := hp.inside hend
      have hmeet : TurnsMeet semicolon ts p.turn (p.before (semicolon :: ts)).turn :=
        turnsMeet_turn hinside (.inl hsemi)
      have htoken' : (p.before (semicolon :: ts)).current.kind ≠ .eof := by
        rw [current_before hend]
        exact hinside.current_ne_eof
      apply Prolongs.of_turn hinside.current_ne_eof htoken' hsemi hmeet
      -- the turn has only passed tokens
      obtain ⟨k, hstop⟩ := p.exists_stop_turn
      have hplain := hp.after_turn
      have hshorter := p.length_ahead_turn_le
      have hpos := List.length_pos_iff.mpr hend
      have hrest := ih _ (by omega) hplain rfl
      have hmeets := hmeet.2.1.meets
      rw [hstop] at hmeets hrest ⊢
      exact hmeets.prolongs hp.rules_eq fun heq => by rw [heq]; exact hrest

end Parser

/-- **A semicolon keeps sources apart.**  The program of two sources with a semicolon between them
is that of the first and then that of the second, and so are the errors, but that an error at the
end of the first is now at the semicolon; of those only the last can be one. -/
theorem parse_append_semicolon {a : String} (h : '\x00' ∉ a.toList) (b : String) :
    parse (a ++ ";" ++ b) =
        (⟨(parse a).1.statements ++ (parse b).1.statements⟩,
          (parse a).2.map (SyntaxError.endAs .semicolon) ++ (parse b).2) ∧
      ∀ e ∈ (parse a).2.dropLast, e.found? ≠ some .eof := by
  have hplain : (Parser.start a).Plain := by
    refine ⟨rfl, fun t ht => ?_⟩
    exact Lexing.ne_eof_of_mem_tokens h (tokens_start a ▸ ht)
  have hsource : Parser.start (a ++ ";" ++ b) =
      (Parser.start a).before (Token.ofChar ';' :: (Parser.start b).ahead) := by
    have htokens : (Parser.start (a ++ ";" ++ b)).ahead =
        (Parser.start a).ahead ++ Token.ofChar ';' :: (Parser.start b).ahead := by
      have hchars : (a ++ ";" ++ b).toList = a.toList ++ ';' :: b.toList := by simp
      show (Text.Cursor.start (a ++ ";" ++ b)).tokens =
        (Text.Cursor.start a).tokens ++ Token.ofChar ';' :: (Text.Cursor.start b).tokens
      rw [tokens_start, tokens_start, tokens_start, hchars, Lexing.tokens_append_semicolon]
    exact congrArg (fun ahead => Parser.mk ahead [] 0 .standard) htokens
  have hrun : Parser.Prolongs (Parser.start b) (Parser.start a)
      ((Parser.start a).before (Token.ofChar ';' :: (Parser.start b).ahead)) :=
    Parser.prolongs_before rfl hplain
  rw [parse_eq, parse_eq, parse_eq, hsource, hrun.statements_eq, hrun.faults_eq]
  exact ⟨rfl, hrun.end_last⟩

/-- A call that is open at the end, and a leading semicolon behind. -/
theorem parse_append_semicolon_open_call :
    '\x00' ∉ "f(".toList ∧
      parse ("f(" ++ ";" ++ ";x") = (⟨[] ++ (parse ";x").1.statements⟩,
        [.noExpressionStart .semicolon] ++ (parse ";x").2) := by
  have hnul : '\x00' ∉ "f(".toList := by decide
  have hopen : parse "f(" = (⟨[]⟩, [.noExpressionStart .eof]) := by decide +kernel
  refine ⟨hnul, ?_⟩
  rw [(parse_append_semicolon hnul ";x").1, hopen]
  rfl

end LetLang
