import LetLang.Proofs.Joining.Turns
import LetLang.Proofs.Lexing.Layouts

/-!
# Ends inside a source — when the tokens alone decide what is read

U+0000 is read as an end, and the tokens of a source end there.  A parser sees that end too, but it
does not stop on every end: behind each turn it passes the token on which the turn stopped, and if
that is the end, it goes on with what stands behind it.  So the tokens of a source decide what is
read from it exactly if every turn stops on a token before the end.
-/

namespace LetLang

open Token

theorem SyntaxError.endAs_eof (e : SyntaxError) : e.endAs .eof = e := by
  have hfound : ∀ k : Kind, (if k = .eof then .eof else k) = k := by
    intro k
    split
    · next heof => exact heof.symm
    · rfl
  cases e <;> simp only [endAs, hfound]

theorem Turn.endAs_eof (turn : Turn) : turn.endAs .eof = turn := by
  cases turn with
  | failed e => rw [endAs, e.endAs_eof]
  | _ => rfl

namespace Parser

variable {p q q' : Parser} {ts : List Token}

/-! ## 1. Turns that stop before the end -/

/-- Every turn up to the end of the tokens stops on one of them. -/
inductive KeepsInside : Parser → Prop
  | nil {p : Parser} (nil : p.ahead = []) : KeepsInside p
  | turn {p : Parser} (stops : p.turn.2.ahead ≠ []) (others : KeepsInside p.turn.2.advanced) :
      KeepsInside p

theorem Stops.advanced_of_token (h : Stops Token.eof ts q q') (hne : q.ahead ≠ []) :
    q'.advanced = q.advanced.before (Token.eof :: ts) := by
  rcases h with rfl | ⟨hsemi, -⟩ | ⟨hnil, -⟩
  · exact advanced_before hne _
  · exact absurd hsemi (by decide)
  · exact absurd hnil hne

theorem Stops.advanced_of_end (h : Stops Token.eof ts q q') (hnil : q.ahead = []) :
    q'.advanced = { q with ahead := ts } ∨ q'.advanced = { q with ahead := afterSemicolon ts } := by
  rcases h with rfl | ⟨hsemi, -⟩ | ⟨-, heq⟩
  · rw [before, hnil]
    exact .inl rfl
  · exact absurd hsemi (by decide)
  · exact .inr heq

theorem statements_before_of_nil (hnil : p.ahead = []) (ts : List Token) :
    (p.before (Token.eof :: ts)).statements = p.statements ∧
      (p.before (Token.eof :: ts)).faults = p.faults := by
  have hend := kind_of_ahead_eq_nil hnil
  have hend' : (p.before (Token.eof :: ts)).current.kind = .eof := by
    rw [current, before, hnil]
    rfl
  rw [statements_of_end hend, statements_of_end hend', faults_of_end hend, faults_of_end hend']
  exact ⟨rfl, rfl⟩

theorem ne_nil_of_stop (h : p.turn.2.ahead ≠ []) : p.ahead ≠ [] := by
  obtain ⟨k, hk⟩ := p.exists_stop_turn
  rintro hnil
  apply h
  rw [hk, ahead_skip, hnil, List.drop_nil]

/-- Before an end the first turn is the same. -/
theorem turn_before (hp : p.Inside) (ts : List Token) :
    (p.before (Token.eof :: ts)).turn.1 = p.turn.1 ∧
      Stops Token.eof ts p.turn.2 (p.before (Token.eof :: ts)).turn.2 ∧
      (p.before (Token.eof :: ts)).current.kind ≠ .eof := by
  have hclosed : Token.eof.Closes := .inr rfl
  have hmeet : TurnsMeet Token.eof ts p.turn (p.before (Token.eof :: ts)).turn :=
    turnsMeet_turn hp hclosed
  refine ⟨?_, hmeet.2.1, ?_⟩
  · rw [hmeet.1]
    exact Turn.endAs_eof p.turn.1
  · rw [current_before hp.ne_nil]
    exact hp.current_ne_eof

/-- Turns that stop on tokens do not see what stands behind the end. -/
theorem statements_before_of_keepsInside (h : p.KeepsInside) (hp : p.Plain) (ts : List Token) :
    (p.before (Token.eof :: ts)).statements = p.statements ∧
      (p.before (Token.eof :: ts)).faults = p.faults := by
  induction h with
  | nil nil => exact statements_before_of_nil nil ts
  | @turn p stops others ih =>
    have hinside := hp.inside (ne_nil_of_stop stops)
    obtain ⟨hturn, hstops, htoken⟩ := turn_before hinside ts
    obtain ⟨hstatements, hfaults⟩ := ih hp.after_turn
    rw [statements_of_token hinside.current_ne_eof, statements_of_token htoken,
      faults_of_token hinside.current_ne_eof, faults_of_token htoken, hturn,
      hstops.advanced_of_token stops, hstatements, hfaults]
    exact ⟨rfl, rfl⟩

/-- What stands behind the end is read where a turn stops on the end. -/
theorem keepsInside_of_statements_eq (hp : p.Plain) (hready : p.Ready) {t : Token}
    (hkind : t.kind = .kwReturn)
    (h : (p.before [Token.eof, t]).statements = p.statements) : p.KeepsInside := by
  induction hlen : p.ahead.length using Nat.strongRecOn generalizing p with
  | ind n ih =>
    by_cases hnil : p.ahead = []
    · exact .nil hnil
    have hinside := hp.inside hnil
    obtain ⟨hturn, hstops, htoken⟩ := turn_before hinside [t]
    rw [statements_of_token hinside.current_ne_eof, statements_of_token htoken, hturn] at h
    have hrest := List.append_cancel_left h
    by_cases hstop : p.turn.2.ahead = []
    · -- the second run reads one more statement
      have hsame : afterSemicolon [t] = [t] := if_neg (by rw [hkind]; decide)
      have hnext : (p.before [Token.eof, t]).turn.2.advanced = { p.turn.2 with ahead := [t] } := by
        have hmeet := hstops.advanced_of_end hstop
        rw [hsame] at hmeet
        exact or_self_iff.mp hmeet
      have hend : p.turn.2.advanced.ahead = [] := by rw [ahead_advanced, hstop, List.tail_nil]
      have hmore : statements { p.turn.2 with ahead := [t] } = [.returnStatement t none] := by
        have hitems : Items ([t] ++ []) [.returnStatement t none] :=
          .statement (.returnAtEnd hkind) .nil
        have hready : Ready { p.turn.2 with ahead := [t] } :=
          ⟨hready.after_turn.rules_eq, hready.after_turn.depth_eq⟩
        refine (statements_of_items hitems hready ?_ rfl).1
        exact List.forall_mem_singleton.mpr (by rw [hkind]; decide)
      rw [hnext, hmore, statements_of_end (kind_of_ahead_eq_nil hend)] at hrest
      cases hrest
    · have hshorter := p.length_ahead_turn_le
      have hpos := List.length_pos_iff.mpr hnil
      rw [hstops.advanced_of_token hstop] at hrest
      exact .turn hstop (ih _ (by omega) hp.after_turn hready.after_turn hrest rfl)

/-! ## 2. Sources -/

/-- A parser on the tokens of a source before the end, with nothing behind them. -/
def upToEnd (source : String) : Parser :=
  ⟨(tokenize source).takeWhile (fun t => !t.is .eof), [], 0, .standard⟩

theorem plain_upToEnd (source : String) : (upToEnd source).Plain := by
  refine ⟨rfl, fun t ht => is_eq_false_iff.mp ?_⟩
  simpa using List.all_eq_true.mp List.all_takeWhile t ht

theorem ready_upToEnd (source : String) : (upToEnd source).Ready := ⟨rfl, rfl⟩

theorem start_eq_upToEnd {source : String} (h : '\x00' ∉ source.toList) :
    Parser.start source = upToEnd source := by
  rw [upToEnd, tokens_eq_of_no_nul h]
  rfl

/-- A source is read with its tokens before the end, and perhaps an end and more behind them. -/
theorem start_eq_before (source : String) :
    Parser.start source = upToEnd source ∨
      ∃ ts, Parser.start source = (upToEnd source).before (Token.eof :: ts) := by
  have hstart : Parser.start source = ⟨Lexing.tokens source.toList, [], 0, .standard⟩ :=
    congrArg (Parser.mk · [] 0 .standard) (tokens_start source)
  have hsplit : (Lexing.tokens source.toList).takeWhile (fun t => !t.is .eof) ++
      (Lexing.tokens source.toList).dropWhile (fun t => !t.is .eof) =
        Lexing.tokens source.toList :=
    List.takeWhile_append_dropWhile
  rw [← takeWhile_tokenize] at hsplit
  cases hdrop : (Lexing.tokens source.toList).dropWhile (fun t => !t.is .eof) with
  | nil =>
    rw [hdrop, List.append_nil] at hsplit
    exact .inl (by rw [hstart, ← hsplit]; rfl)
  | cons t ts =>
    have heof : t.kind = .eof := by
      have hhead := List.head?_dropWhile_not (fun t : Token => !t.is .eof)
        (Lexing.tokens source.toList)
      rw [hdrop] at hhead
      simpa using hhead
    have hmem : t ∈ Lexing.tokens source.toList := by
      apply (List.dropWhile_suffix _).subset
      rw [hdrop]
      exact List.mem_cons_self
    rw [hdrop, (Lexing.spelled_of_mem_tokens hmem).eq_eof heof] at hsplit
    exact .inr ⟨ts, by rw [hstart, ← hsplit]; rfl⟩

theorem parse_eq_of_keepsInside {source : String} (h : (upToEnd source).KeepsInside) :
    parse source = (⟨(upToEnd source).statements⟩, (upToEnd source).faults) := by
  rw [parse_eq]
  rcases start_eq_before source with heq | ⟨ts, heq⟩
  · rw [heq]
  · have hsame := statements_before_of_keepsInside h (plain_upToEnd source) ts
    rw [heq, hsame.1, hsame.2]

end Parser

/-- The text before the first U+0000 and this text have the tokens of the source. -/
theorem tokenize_before_nul (source : String) (behind : List Char) :
    tokenize (String.ofList (source.toList.takeWhile (· ≠ '\x00') ++ '\x00' :: behind)) =
      tokenize source := by
  have hstart := Lexing.nul_not_mem_takeWhile source.toList
  rw [tokenize_eq_tokens, tokenize_eq_tokens, String.toList_ofList, List.takeWhile_append_of_pos,
    List.takeWhile_cons_of_neg (by decide), List.append_nil]
  intro x hx
  exact decide_eq_true fun hnul => hstart (hnul ▸ hx)

theorem start_before_nul (source : String) (behind : List Char) :
    Parser.start (String.ofList (source.toList.takeWhile (· ≠ '\x00') ++ '\x00' :: behind)) =
      (Parser.upToEnd source).before (Token.eof :: Lexing.tokens behind) := by
  have hsource : (Parser.upToEnd source).ahead =
      Lexing.tokens (source.toList.takeWhile (· ≠ '\x00')) := by
    rw [← Lexing.takeWhile_tokens, ← takeWhile_tokenize]
    rfl
  have hchars := Lexing.tokens_append_nul (source.toList.takeWhile (· ≠ '\x00')) behind
  rw [← hsource] at hchars
  refine congrArg (Parser.mk · [] 0 .standard) ((tokens_start _).trans ?_)
  rw [String.toList_ofList, hchars]

/-- **Tokens decide.**  Two sources with the same tokens and without U+0000 are read alike.  All
sources with the tokens of this one are read alike exactly if every turn on these tokens stops
before the end. -/
theorem same_tokens_same_program_iff (source : String) :
    ('\x00' ∉ source.toList → ∀ other, '\x00' ∉ other.toList → tokenize other = tokenize source →
      parse other = parse source) ∧
    ((∀ other, tokenize other = tokenize source → parse other = parse source) ↔
      (Parser.upToEnd source).KeepsInside) := by
  have hupTo : ∀ other, tokenize other = tokenize source →
      Parser.upToEnd other = Parser.upToEnd source := by
    intro other htokens
    rw [Parser.upToEnd, htokens, Parser.upToEnd]
  refine ⟨fun hnul other hother htokens => ?_, fun hsame => ?_, fun hkeeps other htokens => ?_⟩
  · rw [parse_eq, parse_eq, Parser.start_eq_upToEnd hnul, Parser.start_eq_upToEnd hother,
      hupTo other htokens]
  · -- one source that ends before the first U+0000, and one with a statement behind it
    have hstart := Lexing.nul_not_mem_takeWhile source.toList
    have hcut : tokenize (String.ofList (source.toList.takeWhile (· ≠ '\x00'))) =
        tokenize source := by
      rw [tokenize_eq_tokens, tokenize_eq_tokens, String.toList_ofList,
        List.takeWhile_eq_self_iff.mpr]
      exact fun x hx => decide_eq_true fun hnul => hstart (hnul ▸ hx)
    have hlonger := tokenize_before_nul source "return".toList
    have hreturn : Lexing.tokens "return".toList = [⟨.kwReturn, "return"⟩] := by decide +kernel
    have hparse := (hsame _ hlonger).trans (hsame _ hcut).symm
    rw [parse_eq, parse_eq, start_before_nul, hreturn,
      Parser.start_eq_upToEnd (by rwa [String.toList_ofList]), hupTo _ hcut] at hparse
    have hstatements := congrArg Program.statements (congrArg Prod.fst hparse)
    exact Parser.keepsInside_of_statements_eq (Parser.plain_upToEnd source)
      (Parser.ready_upToEnd source) rfl hstatements
  · have hkeeps' : (Parser.upToEnd other).KeepsInside := by
      rw [hupTo other htokens]
      exact hkeeps
    rw [Parser.parse_eq_of_keepsInside hkeeps, Parser.parse_eq_of_keepsInside hkeeps',
      hupTo other htokens]

/-- Behind U+0000 one more statement is read. -/
theorem parse_return_nul :
    tokenize "return\x00x" = tokenize "return" ∧ parse "return\x00x" ≠ parse "return" := by
  decide +kernel

end LetLang
