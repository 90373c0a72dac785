import LetLang.Proofs.Grammar.Programs
import LetLang.Proofs.Printing.Tokens

/-!
# Reading printed programs — parsing undoes printing up to the nesting limit

The text of a well-formed program lexes to the tokens of its statements with semicolons between
them.  Each statement is one turn: it is read again if its expression nests no deeper than may be,
and fails otherwise.  So a program comes back from its text exactly if all its expressions fit.
-/

namespace LetLang

open Token Lexing

/-! ## 1. Printed statements -/

namespace Statement

/-- The tokens before the value of a statement. -/
def opening : Statement → List Token
  | letStatement token name _ => [token, name.token, Token.ofChar '=']
  | returnStatement token _ => [token]
  | expression _ _ => []

/-- The tokens of the value of a statement. -/
def valuePrinted (s : Statement) : List Token :=
  (s.value?.map Expr.printed).getD []

/-- The tokens of the text of statements: all but a last expression by itself have a semicolon. -/
def listPrinted : List Statement → List Token
  | [] => []
  | s :: rest =>
    s.opening ++ (s.valuePrinted ++
      (if s.isExpression && rest.isEmpty then [] else Token.ofChar ';' :: listPrinted rest))

/-- The expression of a statement nests no deeper than may be. -/
def Fits (s : Statement) : Prop :=
  ∀ e ∈ s.value?, e.nesting ≤ maxNesting

theorem tokens_literal_blank {t : Token} (h : t.Spelled) (heof : t.kind ≠ .eof)
    (ahead : List Char) :
    tokens (t.literal.toList ++ ' ' :: ahead) = t :: tokens ahead := by
  rw [tokens_append_cons (by decide), tokens_literal h heof, tokens_cons_of_blank rfl]
  rfl

theorem WellFormed.tokens_text {s : Statement} (h : s.WellFormed) {ahead : List Char}
    (hseparate : s.isExpression = true → ∀ y ∈ ahead.head?, Separates y) :
    tokens (s.text.toList ++ ahead) =
      s.opening ++ (s.valuePrinted ++
        ((if s.isExpression then [] else [Token.ofChar ';']) ++ tokens ahead)) := by
  cases h with
  | @letStatement keyword name e keyword_kind keyword_spelled name_kind name_spelled value =>
    have hvalue : tokens (valueText (some e)).toList = e.printed := value.tokens_text
    have htext : (Statement.letStatement keyword (.ofToken name) (some e)).text.toList ++ ahead =
        keyword.literal.toList ++ ' ' :: (name.literal.toList ++
          ' ' :: '=' :: ' ' :: ((valueText (some e)).toList ++ ';' :: ahead)) := by
      simp [Statement.text, Identifier.ofToken]
    have hsign : ∀ rest, tokens ('=' :: ' ' :: rest) = Token.ofChar '=' :: tokens rest := by
      intro rest
      rw [tokens_cons_of_single rfl (by decide) rfl rfl (if_neg (by simp)),
        tokens_cons_of_blank rfl]
    rw [htext, tokens_literal_blank keyword_spelled (by rw [keyword_kind]; decide),
      tokens_literal_blank name_spelled (by rw [name_kind]; decide), hsign,
      tokens_append_semicolon, hvalue]
    rfl
  | @returnNothing keyword keyword_kind keyword_spelled =>
    -- the blank behind the keyword stands before the semicolon
    have htext : (Statement.returnStatement keyword none).text.toList ++ ahead =
        keyword.literal.toList ++ ' ' :: ([] ++ ';' :: ahead) := by
      simp [Statement.text, Statement.valueText]
    rw [htext, tokens_literal_blank keyword_spelled (by rw [keyword_kind]; decide),
      tokens_append_semicolon, tokens_nil]
    rfl
  | @returnValue keyword e keyword_kind keyword_spelled value =>
    have hvalue : tokens (valueText (some e)).toList = e.printed := value.tokens_text
    have htext : (Statement.returnStatement keyword (some e)).text.toList ++ ahead =
        keyword.literal.toList ++ ' ' :: ((valueText (some e)).toList ++ ';' :: ahead) := by
      simp [Statement.text]
    rw [htext, tokens_literal_blank keyword_spelled (by rw [keyword_kind]; decide),
      tokens_append_semicolon, hvalue]
    rfl
  | expression value =>
    rw [tokens_append (hseparate rfl)]
    exact congrArg (· ++ tokens ahead) value.tokens_text

theorem listPrinted_cons_cons (s s' : Statement) (rest : List Statement) :
    listPrinted (s :: s' :: rest) =
      s.opening ++ (s.valuePrinted ++ Token.ofChar ';' :: listPrinted (s' :: rest)) := by
  rw [listPrinted, List.isEmpty_cons, Bool.and_false]
  rfl

/-- The text of well-formed statements lexes to their printed tokens. -/
theorem tokens_listText {ss : List Statement} (h : ∀ s ∈ ss, s.WellFormed) :
    tokens (listText ss).toList = listPrinted ss := by
  induction ss with
  | nil => exact tokens_nil
  | cons s rest ih =>
    obtain ⟨hs, hrest⟩ := List.forall_mem_cons.mp h
    have hlist := ih hrest
    cases rest with
    | nil =>
      have htokens := hs.tokens_text (fun _ y (hy : y ∈ [].head?) => nomatch hy)
      rw [List.append_nil, tokens_nil] at htokens
      rw [listText, htokens, listPrinted]
      cases s <;> rfl
    | cons s' rest =>
      -- the semicolon comes from the list behind an expression, else from the statement itself
      cases hexpression : s.isExpression with
      | true =>
        have htext : (listText (s :: s' :: rest)).toList =
            s.text.toList ++ ';' :: (listText (s' :: rest)).toList := by
          simp [listText, hexpression]
        have hseparate : ∀ y ∈ (';' :: (listText (s' :: rest)).toList).head?, Separates y := by
          intro y hy
          cases hy
          exact separates_of_mem (by decide)
        rw [htext, hs.tokens_text fun _ => hseparate, tokens_cons_of_mark (by decide), hlist,
          listPrinted_cons_cons, hexpression]
        rfl
      | false =>
        have htext : (listText (s :: s' :: rest)).toList =
            s.text.toList ++ (listText (s' :: rest)).toList := by
          simp [listText, hexpression]
        have hnot : s.isExpression = true →
            ∀ y ∈ ((listText (s' :: rest)).toList).head?, Separates y := by
          rw [hexpression]
          exact nofun
        rw [htext, hs.tokens_text hnot, hlist, listPrinted_cons_cons, hexpression]
        rfl

theorem listPrinted_cons (s : Statement) (rest : List Statement) :
    ∃ ts, listPrinted (s :: rest) = s.opening ++ (s.valuePrinted ++ ts) ∧ EndsValue ts ∧
      afterSemicolon ts = listPrinted rest ∧
      (s.isExpression = false → ts = Token.ofChar ';' :: listPrinted rest) := by
  refine ⟨_, by rw [listPrinted], ?_⟩
  split
  · next hlast =>
    rw [Bool.and_eq_true, List.isEmpty_iff] at hlast
    rw [hlast.1, hlast.2]
    exact ⟨fun _ ht => (nomatch ht), rfl, nofun⟩
  · refine ⟨fun t ht => ?_, rfl, fun _ => rfl⟩
    cases ht
    exact Kind.not_continues_iff.mpr (by decide)

/-- A printed statement begins with a keyword or as its expression does. -/
theorem WellFormed.exists_first {s : Statement} (h : s.WellFormed) (rest : List Statement) :
    ∃ t ts, listPrinted (s :: rest) = t :: ts ∧ t.kind ≠ .semicolon ∧ t.kind ≠ .eof := by
  obtain ⟨ts, hts, -⟩ := listPrinted_cons s rest
  rw [hts]
  cases h with
  | letStatement keyword_kind =>
    exact ⟨_, _, rfl, by rw [keyword_kind]; decide, by rw [keyword_kind]; decide⟩
  | returnNothing keyword_kind =>
    exact ⟨_, _, rfl, by rw [keyword_kind]; decide, by rw [keyword_kind]; decide⟩
  | returnValue keyword_kind =>
    exact ⟨_, _, rfl, by rw [keyword_kind]; decide, by rw [keyword_kind]; decide⟩
  | @expression _ e value =>
    obtain ⟨t, us, rule, hprinted, hstart⟩ := value.derives.starts
    obtain ⟨-, -, hsemicolon, heof⟩ := Rules.of_start? hstart
    refine ⟨t, us ++ ts, ?_, hsemicolon, heof⟩
    show e.printed ++ ts = _
    rw [hprinted]
    rfl

theorem afterSemicolon_listPrinted {ss : List Statement} (h : ∀ s ∈ ss, s.WellFormed) :
    afterSemicolon (listPrinted ss) = listPrinted ss := by
  cases ss with
  | nil => rfl
  | cons s rest =>
    obtain ⟨t, ts, hts, hsemicolon, -⟩ := (h s List.mem_cons_self).exists_first rest
    rw [hts, afterSemicolon, if_neg hsemicolon]

end Statement

/-! ## 2. Printed statements are read, or nest too deep -/

namespace Parser

open ParseM Statement

variable {p q : Parser} {e : Expr} {s : Statement} {ts : List Token}

/-- A printed value before a token with which no expression goes on. -/
theorem ended_printed (h : e.WellFormed) (hp : p.Ready) (hahead : p.ahead = e.printed ++ ts)
    (hends : EndsValue ts) (finish : Expr → Statement) :
    (e.nesting ≤ maxNesting → ∃ q, ended (ParseM.expression .lowest) finish p = .ok (finish e) q ∧
      q.advanced.ahead = afterSemicolon ts) ∧
    (¬ e.nesting ≤ maxNesting →
      ∃ error q, ended (ParseM.expression .lowest) finish p = .error error q) := by
  have hderives : Stratum.equality.Derives e.printed e e.nesting := h.derives.loosen (by decide)
  constructor
  · intro hfits
    obtain ⟨q, hvalue, hq⟩ := readsValue_of_isValue ⟨_, hfits, hderives⟩ hends hahead hp.depth_eq
    refine ⟨_, (ended_value_iff hp.rules_eq finish).mpr ⟨e, q, hvalue, rfl, rfl⟩, ?_⟩
    rw [ahead_pastSemicolon, hq]
  · intro hdeep
    obtain ⟨q, hq⟩ := ended_of_deep hderives (by omega) hends hp hahead finish
    exact ⟨_, q, hq⟩

/-- A statement is read again, but for the token of an expression by itself, or it fails. -/
def Rereads (p : Parser) (s : Statement) (ts : List Token) : Prop :=
  (s.Fits → ∃ s' q, p.turn = (.statement s', q) ∧ q.advanced.ahead = ts ∧
    s'.withoutToken = s.withoutToken) ∧
  (¬ s.Fits → ∃ error q, p.turn = (.failed error, q))

theorem rereads_of_ended {finish : Expr → Statement} (h : e.WellFormed) (hq : q.Ready)
    (hahead : q.ahead = e.printed ++ ts) (hends : EndsValue ts) (hvalue : s.value? = some e)
    (hfinish : (finish e).withoutToken = s.withoutToken)
    (hturn : p.turn = Turn.ofResult (ended (ParseM.expression .lowest) finish q)) :
    p.Rereads s (afterSemicolon ts) := by
  have hfits : s.Fits ↔ e.nesting ≤ maxNesting := by
    unfold Fits
    rw [hvalue]
    exact ⟨fun hs => hs e rfl, fun he e' he' => by cases he'; exact he⟩
  obtain ⟨hok, herror⟩ := ended_printed h hq hahead hends finish
  constructor
  · intro hs
    obtain ⟨r, hread, hr⟩ := hok (hfits.mp hs)
    exact ⟨_, r, by rw [hturn, hread]; rfl, hr, hfinish⟩
  · intro hs
    obtain ⟨error, r, hread⟩ := herror fun he => hs (hfits.mpr he)
    exact ⟨error, r, by rw [hturn, hread]; rfl⟩

theorem rereads_printed {rest : List Statement} (h : s.WellFormed)
    (hrest : ∀ s ∈ rest, s.WellFormed) (hp : p.Ready) (hahead : p.ahead = listPrinted (s :: rest)) :
    p.Rereads s (listPrinted rest) := by
  have hrules := hp.rules_eq
  obtain ⟨ts, hts, hends, hafter, hsemi⟩ := listPrinted_cons s rest
  rw [hts] at hahead
  cases h with
  | letStatement keyword_kind keyword_spelled name_kind name_spelled value =>
    obtain ⟨rfl, hname⟩ := current_of_ahead_eq_cons hahead
    obtain ⟨rfl, hsign⟩ := current_of_ahead_eq_cons hname
    obtain ⟨hassign, hvalue⟩ := current_of_ahead_eq_cons hsign
    have hassign : p.advanced.peek.kind = .assignment := congrArg Token.kind hassign
    rw [← hafter]
    exact rereads_of_ended value hp.advanced.advanced.advanced hvalue hends rfl rfl
      (turn_of_let hrules keyword_kind name_kind hassign)
  | returnNothing keyword_kind keyword_spelled =>
    -- a second semicolon would be taken too, but no printed statement begins with one
    obtain ⟨rfl, hnext⟩ := current_of_ahead_eq_cons hahead
    obtain ⟨hsemicolon, hlast⟩ := current_of_ahead_eq_cons (hnext.trans (hsemi rfl))
    have hends : p.peek.kind = .semicolon := congrArg Token.kind hsemicolon
    have hread : p.Reads (.returnStatement p.current none) p.advanced.pastSemicolon :=
      .returnNothing keyword_kind (.inl hends)
    constructor
    · intro _
      refine ⟨_, _, (turn_eq_statement_iff hrules).mpr hread, ?_, rfl⟩
      rw [ahead_pastSemicolon, hlast, afterSemicolon_listPrinted hrest]
    · intro hdeep
      exact absurd (fun e he => absurd he (Option.not_mem_none e)) hdeep
  | @returnValue keyword e keyword_kind keyword_spelled value =>
    obtain ⟨rfl, hvalue⟩ := current_of_ahead_eq_cons hahead
    obtain ⟨t, us, rule, hprinted, hstart⟩ := value.derives.starts
    have hpeek : p.peek = t := by
      rw [peek_eq_headD, hvalue]
      show (e.printed ++ ts).headD _ = t
      rw [hprinted]
      rfl
    rw [← hafter]
    exact rereads_of_ended value hp.advanced hvalue hends rfl rfl
      (turn_of_return hrules keyword_kind (hpeek ▸ hstart))
  | @expression _ e value =>
    obtain ⟨t, us, rule, hprinted, hstart⟩ := value.derives.starts
    have hcurrent : p.current = t := by
      rw [current, hahead]
      show (e.printed ++ ts).headD _ = t
      rw [hprinted]
      rfl
    rw [← hafter]
    apply rereads_of_ended value hp hahead hends rfl _
      (turn_of_expression hrules (hcurrent ▸ hstart))
    rfl

/-- Statements are read again from their printed tokens exactly if they all fit. -/
theorem reread {ss : List Statement} (h : ∀ s ∈ ss, s.WellFormed) (hp : p.Ready)
    (hahead : p.ahead = listPrinted ss) :
    (p.faults = [] ↔ ∀ s ∈ ss, s.Fits) ∧
      (p.faults = [] → p.statements.map withoutToken = ss.map withoutToken) := by
  induction ss generalizing p with
  | nil =>
    have hend := kind_of_ahead_eq_nil hahead
    rw [faults_of_end hend, statements_of_end hend]
    exact ⟨⟨fun _ s hs => (nomatch hs), fun _ => rfl⟩, fun _ => rfl⟩
  | cons s rest ih =>
    obtain ⟨hs, hrest⟩ := List.forall_mem_cons.mp h
    obtain ⟨hok, herror⟩ := rereads_printed hs hrest hp hahead
    obtain ⟨t, ts, hts, -, heof⟩ := hs.exists_first rest
    have htoken : p.current.kind ≠ .eof := by
      rw [(current_of_ahead_eq_cons (hahead.trans hts)).1]
      exact heof
    rw [faults_of_token htoken, statements_of_token htoken, List.forall_mem_cons]
    -- a statement that fits is passed whole, and one that does not leaves an error for good
    by_cases hfits : s.Fits
    · obtain ⟨s', q, hturn, hq, hsame⟩ := hok hfits
      have hready := hp.after_turn
      rw [hturn] at hready ⊢
      obtain ⟨hiff, hmap⟩ := ih hrest hready hq
      refine ⟨hiff.trans ⟨fun hall => ⟨hfits, hall⟩, And.right⟩, fun hfaults => ?_⟩
      show s'.withoutToken :: q.advanced.statements.map withoutToken = _
      rw [hmap hfaults, hsame]
      rfl
    · obtain ⟨error, q, hturn⟩ := herror hfits
      rw [hturn]
      exact ⟨⟨nofun, fun hall => absurd hall.1 hfits⟩, nofun⟩

end Parser

/-- **Parsing undoes printing.**  Whatever a source holds, its program is well-formed; and a
well-formed program comes back from its text, but for the tokens of expressions by themselves,
exactly if all its expressions nest no deeper than they may. -/
theorem wellFormed_parse_and_parse_text :
    (∀ source, (parse source).1.WellFormed) ∧
    ∀ p : Program, p.WellFormed →
      ((parse p.text).2 = [] ↔ ∀ s ∈ p.statements, ∀ e ∈ s.value?, e.nesting ≤ maxNesting) ∧
      ((parse p.text).2 = [] →
        (parse p.text).1.statements.map Statement.withoutToken =
          p.statements.map Statement.withoutToken) := by
  refine ⟨wellFormed_parse, fun p hp => ?_⟩
  have hahead : (Parser.start p.text).ahead = Statement.listPrinted p.statements :=
    (tokens_start p.text).trans (Statement.tokens_listText hp)
  rw [parse_eq]
  exact Parser.reread hp (Parser.ready_start p.text) hahead

/-- The text of a call by itself and a return without a value come back. -/
theorem wellFormed_parse_and_parse_text_call :
    let f : Token := ⟨.identifier, "f"⟩
    let e : Expr := .call ⟨.openParen, "("⟩ (.identifier (.ofToken f)) []
    let p : Program := ⟨[.expression Token.eof e, .returnStatement ⟨.kwReturn, "return"⟩ none]⟩
    p.WellFormed ∧
      (parse p.text).1.statements.map Statement.withoutToken =
        p.statements.map Statement.withoutToken := by
  intro f e p
  have hf : f.Spelled := by
    have hchars : f.literal.toList = ['f'] := by decide
    refine ⟨by rw [hchars]; exact List.cons_ne_nil _ _, fun x hx => ?_, by decide⟩
    rw [hchars, List.mem_singleton] at hx
    rw [hx]
    decide
  have hwellFormed : p.WellFormed := by
    intro s hs
    simp only [p, List.mem_cons, List.not_mem_nil, or_false] at hs
    rcases hs with rfl | rfl
    · exact .expression (.call rfl rfl (.identifier rfl hf) .nil)
    · exact .returnNothing rfl rfl
  have hfits : ∀ s ∈ p.statements, ∀ e ∈ s.value?, e.nesting ≤ maxNesting := by
    intro s hs
    simp only [p, List.mem_cons, List.not_mem_nil, or_false] at hs
    rcases hs with rfl | rfl <;> intro e he <;> cases he
    decide
  obtain ⟨hiff, hsame⟩ := wellFormed_parse_and_parse_text.2 p hwellFormed
  exact ⟨hwellFormed, hsame (hiff.mpr hfits)⟩

end LetLang
