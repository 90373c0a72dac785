import LetLang.Proofs.Grammar.Statements
import LetLang.Proofs.Lexing.Lexemes

/-!
# Programs — the grammar of whole sources

A program without errors is a sequence of items: statements, each with a semicolon behind it if
one stands there, and stray tokens between them.  That a sequence of items is read as its
statements, and that nothing else is read without an error, follows turn by turn from what a turn
reads.
-/

namespace LetLang

open Token

/-! ## 1. Items -/

/-- An expression that opens no more expressions at once than may be. -/
def IsValue (ts : List Token) (e : Expr) : Prop :=
  ∃ n ≤ maxNesting, Stratum.equality.Derives ts e n

theorem IsValue.ne_nil {ts : List Token} {e : Expr} (h : IsValue ts e) : ts ≠ [] := by
  obtain ⟨n, -, hderives⟩ := h
  exact hderives.ne_nil

/-- No expression goes on with the first of these tokens. -/
def EndsValue (rest : List Token) : Prop :=
  ∀ t ∈ rest.head?, ¬ t.kind.Continues

theorem EndsValue.not_continues {rest : List Token} (h : EndsValue rest) :
    ¬ (rest.headD Token.eof).kind.Continues := by
  cases rest with
  | nil => exact Kind.not_continues_iff.mpr (by decide)
  | cons t rest => exact h t rfl

/-- The tokens of a statement, those behind it, and the statement. -/
inductive Item : List Token → List Token → Statement → Prop
  | letStatement {keyword name sign : Token} {ts rest : List Token} {e : Expr}
      (keyword_kind : keyword.kind = .kwLet) (name_kind : name.kind = .identifier)
      (sign_kind : sign.kind = .assignment) (value : IsValue ts e) (ends : EndsValue rest) :
      Item (keyword :: name :: sign :: ts) rest
        (.letStatement keyword (.ofToken name) (some e))
  | returnNothing {keyword semicolon : Token} {rest : List Token}
      (keyword_kind : keyword.kind = .kwReturn) (semicolon_kind : semicolon.kind = .semicolon) :
      Item [keyword, semicolon] rest (.returnStatement keyword none)
  | returnAtEnd {keyword : Token} (keyword_kind : keyword.kind = .kwReturn) :
      Item [keyword] [] (.returnStatement keyword none)
  | returnValue {keyword : Token} {ts rest : List Token} {e : Expr}
      (keyword_kind : keyword.kind = .kwReturn) (value : IsValue ts e) (ends : EndsValue rest) :
      Item (keyword :: ts) rest (.returnStatement keyword (some e))
  | expression {t : Token} {ts rest : List Token} {e : Expr} (value : IsValue (t :: ts) e)
      (ends : EndsValue rest) :
      Item (t :: ts) rest (.expression t e)

theorem Item.ne_nil {ts rest : List Token} {s : Statement} (h : Item ts rest s) :
    ts ++ rest ≠ [] := by
  cases h <;> exact List.cons_ne_nil _ _

/-- The tokens without the semicolon that they may begin with. -/
def afterSemicolon : List Token → List Token
  | [] => []
  | t :: rest => if t.kind = .semicolon then rest else t :: rest

/-- A sequence of items, and the statements in it. -/
inductive Items : List Token → List Statement → Prop
  | nil : Items [] []
  | stray {t : Token} {ts : List Token} {ss : List Statement} (kind : t.kind.Stray)
      (others : Items ts ss) : Items (t :: ts) ss
  | statement {ts rest : List Token} {s : Statement} {ss : List Statement} (item : Item ts rest s)
      (others : Items (afterSemicolon rest) ss) : Items (ts ++ rest) (s :: ss)

/-! ## 2. Items are what is read -/

namespace Parser

variable {p q : Parser} {ts rest : List Token} {e : Expr} {s : Statement}

/-- Behind an optional semicolon the tokens are those without it. -/
theorem advanced_pastSemicolon (p : Parser) :
    p.pastSemicolon.advanced = { p with ahead := afterSemicolon p.advanced.ahead } := by
  unfold pastSemicolon advanced
  cases hrest : p.ahead.tail with
  | nil =>
    have hpeek : p.peek.is .semicolon = false := by
      rw [peek, hrest]
      rfl
    rw [hpeek, if_neg Bool.false_ne_true, hrest]
    rfl
  | cons t rest =>
    have hpeek : p.peek = t := by
      rw [peek, hrest]
      rfl
    by_cases hsemi : t.kind = .semicolon
    · rw [if_pos (is_eq_true_iff.mpr (hpeek ▸ hsemi)), afterSemicolon, if_pos hsemi]
      rfl
    · rw [if_neg fun his => hsemi (hpeek ▸ is_eq_true_iff.mp his), afterSemicolon, if_neg hsemi,
        hrest]

theorem ahead_pastSemicolon (p : Parser) :
    p.pastSemicolon.advanced.ahead = afterSemicolon p.advanced.ahead :=
  congrArg Parser.ahead p.advanced_pastSemicolon

theorem peek_eq_headD (p : Parser) : p.peek = p.advanced.ahead.headD Token.eof := rfl

theorem ReadsValue.isValue (h : p.ReadsValue e q) (hdepth : p.depth = 0) :
    ∃ ts, p.ahead = ts ++ q.advanced.ahead ∧ IsValue ts e ∧ EndsValue q.advanced.ahead := by
  obtain ⟨ts, n, honto, hderives, hn, hends⟩ := h
  refine ⟨ts, honto.ahead_eq, ⟨n, by omega, hderives⟩, fun t ht => ?_⟩
  obtain ⟨rest, hrest⟩ := List.head?_eq_some_iff.mp ht
  rw [peek_eq_headD, hrest] at hends
  exact hends

theorem readsValue_of_isValue (hvalue : IsValue ts e) (hends : EndsValue rest)
    (hahead : p.ahead = ts ++ rest) (hdepth : p.depth = 0) :
    ∃ q, p.ReadsValue e q ∧ q.advanced.ahead = rest := by
  obtain ⟨n, hn, hderives⟩ := hvalue
  obtain ⟨q, honto, hq⟩ := onto_of_ahead_eq hderives.ne_nil hahead
  refine ⟨q, ⟨ts, n, honto, hderives, by omega, ?_⟩, hq⟩
  rw [peek_eq_headD, hq]
  exact hends.not_continues

/-- A value that needs more levels than there are is an error, whatever it would have ended in. -/
theorem ended_of_deep {n : Nat} (hderives : Stratum.equality.Derives ts e n)
    (hdeep : maxNesting < n) (hends : EndsValue rest) (hp : p.Ready) (hahead : p.ahead = ts ++ rest)
    (finish : Expr → Statement) :
    ∃ q, ParseM.ended (ParseM.expression .lowest) finish p =
      .error (.nestingTooDeep maxNesting) q := by
  obtain ⟨q, honto, hq⟩ := onto_of_ahead_eq hderives.ne_nil hahead
  have hpower : q.rules.power q.peek.kind ≤ .lowest := by
    rw [honto.rules_eq, hp.rules_eq, ← Kind.not_continues_iff, peek_eq_headD, hq]
    exact hends.not_continues
  have hloosest : Power.lowest.stratum.Derives ts e n := hderives
  have hdepth : p.depth ≤ maxNesting := hp.depth_eq ▸ Nat.zero_le _
  have hread := expression_fitsOrFails hp.rules_eq hdepth hloosest honto hpower
  obtain ⟨r, hr⟩ := hread.fails (by rw [hp.depth_eq]; exact hdeep)
  exact ⟨r, ParseM.ended_of_error hr finish⟩

theorem current_of_ahead_eq_cons {t : Token} (h : p.ahead = t :: ts) :
    p.current = t ∧ p.advanced.ahead = ts := by
  rw [current, ahead_advanced, h]
  exact ⟨rfl, rfl⟩

theorem ahead_eq_cons (h : p.current.kind ≠ .eof) : p.ahead = p.current :: p.advanced.ahead :=
  (onto_singleton (ahead_ne_nil_of_current h)).ahead_eq

theorem Reads.item (h : p.Reads s q) (hdepth : p.depth = 0)
    (hends : ∀ t ∈ p.ahead, t.kind ≠ .eof) :
    ∃ ts rest, p.ahead = ts ++ rest ∧ Item ts rest s ∧ q.advanced.ahead = afterSemicolon rest := by
  cases h with
  | letStatement keyword name sign value =>
    obtain ⟨ts, hahead, hvalue, hfollow⟩ := value.isValue hdepth
    have hkeyword := ahead_eq_cons (p := p) (by rw [keyword]; decide)
    have hname := ahead_eq_cons (p := p.advanced) (by rw [current_advanced, name]; decide)
    have hsign := ahead_eq_cons (p := p.advanced.advanced) (by rw [current_advanced, sign]; decide)
    refine ⟨_, _, ?_, .letStatement keyword name sign hvalue hfollow, ahead_pastSemicolon _⟩
    rw [hkeyword, hname, hsign, hahead]
    rfl
  | returnNothing keyword ends =>
    have hkeyword := ahead_eq_cons (p := p) (by rw [keyword]; decide)
    rcases ends with hsemi | heof
    · have hnext := ahead_eq_cons (p := p.advanced) (by rw [current_advanced, hsemi]; decide)
      refine ⟨_, _, ?_, .returnNothing keyword hsemi, ahead_pastSemicolon _⟩
      rw [hkeyword, hnext]
      rfl
    · have hnil : p.advanced.ahead = [] := by
        apply Classical.byContradiction
        intro hne
        -- the token behind `return` would be an end
        have hnext := (onto_singleton hne).ahead_eq
        apply hends p.peek _ heof
        rw [hkeyword, hnext]
        exact List.mem_cons_of_mem _ List.mem_cons_self
      refine ⟨_, [], ?_, .returnAtEnd keyword, ?_⟩
      · rw [hkeyword, hnil]
        rfl
      · rw [ahead_pastSemicolon, ahead_advanced, hnil]
        rfl
  | returnValue keyword value =>
    obtain ⟨ts, hahead, hvalue, hfollow⟩ := value.isValue hdepth
    have hkeyword := ahead_eq_cons (p := p) (by rw [keyword]; decide)
    refine ⟨_, _, ?_, .returnValue keyword hvalue hfollow, ahead_pastSemicolon _⟩
    rw [hkeyword, hahead]
    rfl
  | expression value =>
    obtain ⟨ts, hahead, hvalue, hfollow⟩ := value.isValue hdepth
    obtain ⟨t, ts, rfl⟩ := List.exists_cons_of_ne_nil hvalue.ne_nil
    have hcurrent : p.current = t := by
      rw [current, hahead]
      rfl
    rw [hcurrent]
    exact ⟨_, _, hahead, .expression hvalue hfollow, ahead_pastSemicolon _⟩

theorem reads_of_item (h : Item ts rest s) (hahead : p.ahead = ts ++ rest) (hdepth : p.depth = 0) :
    ∃ q, p.Reads s q ∧ q.advanced.ahead = afterSemicolon rest := by
  cases h with
  | letStatement keyword_kind name_kind sign_kind value ends =>
    obtain ⟨rfl, hname⟩ := current_of_ahead_eq_cons hahead
    obtain ⟨rfl, hsign⟩ := current_of_ahead_eq_cons hname
    obtain ⟨rfl, hvalue⟩ := current_of_ahead_eq_cons hsign
    obtain ⟨q, hread, rfl⟩ := readsValue_of_isValue value ends hvalue hdepth
    exact ⟨_, .letStatement keyword_kind name_kind sign_kind hread, ahead_pastSemicolon q⟩
  | returnNothing keyword_kind semicolon_kind =>
    obtain ⟨rfl, hnext⟩ := current_of_ahead_eq_cons hahead
    obtain ⟨rfl, hrest⟩ := current_of_ahead_eq_cons hnext
    refine ⟨_, .returnNothing keyword_kind (.inl semicolon_kind), ?_⟩
    rw [ahead_pastSemicolon, hrest]
    rfl
  | returnAtEnd keyword_kind =>
    obtain ⟨rfl, hnil⟩ := current_of_ahead_eq_cons hahead
    have hpeek : p.peek.kind = .eof := by
      rw [peek_eq_headD, hnil]
      rfl
    refine ⟨_, .returnNothing keyword_kind (.inr hpeek), ?_⟩
    rw [ahead_pastSemicolon, ahead_advanced, hnil]
    rfl
  | returnValue keyword_kind value ends =>
    obtain ⟨rfl, hvalue⟩ := current_of_ahead_eq_cons hahead
    obtain ⟨q, hread, rfl⟩ := readsValue_of_isValue value ends hvalue hdepth
    exact ⟨_, .returnValue keyword_kind hread, ahead_pastSemicolon q⟩
  | expression value ends =>
    obtain ⟨rfl, -⟩ := current_of_ahead_eq_cons hahead
    obtain ⟨q, hread, rfl⟩ := readsValue_of_isValue value ends hahead hdepth
    exact ⟨_, .expression hread, ahead_pastSemicolon q⟩

/-! ## 3. Whole programs -/

variable {ss : List Statement}

/-- Items are read as their statements without an error. -/
theorem statements_of_items (h : Items ts ss) (hp : p.Ready)
    (hends : ∀ t ∈ p.ahead, t.kind ≠ .eof) (hahead : p.ahead = ts) :
    p.statements = ss ∧ p.faults = [] := by
  -- each item is one turn, which stops before the tokens of the others
  induction h generalizing p with
  | nil =>
    have hend := kind_of_ahead_eq_nil hahead
    exact ⟨statements_of_end hend, faults_of_end hend⟩
  | stray kind others ih =>
    obtain ⟨rfl, hnext⟩ := current_of_ahead_eq_cons hahead
    have htoken : p.current.kind ≠ .eof := hends _ (hahead ▸ List.mem_cons_self)
    have hturn := (turn_eq_skipped_iff hp.rules_eq).mpr ⟨kind, rfl⟩
    obtain ⟨hstatements, hfaults⟩ :=
      ih hp.advanced (fun t ht => hends t (List.mem_of_mem_tail ht)) hnext
    rw [statements_of_token htoken, faults_of_token htoken, hturn, hstatements, hfaults]
    exact ⟨rfl, rfl⟩
  | statement item others ih =>
    obtain ⟨q, hread, hnext⟩ := reads_of_item item hahead hp.depth_eq
    have hturn := (turn_eq_statement_iff hp.rules_eq).mpr hread
    have hready := hp.after_turn
    have hsuffix := p.ahead_after_turn_suffix
    rw [hturn] at hready hsuffix
    have htoken : p.current.kind ≠ .eof := by
      apply hends
      obtain ⟨t, rest, htokens⟩ := List.exists_cons_of_ne_nil item.ne_nil
      rw [hahead, htokens, (current_of_ahead_eq_cons (htokens ▸ hahead)).1]
      exact List.mem_cons_self
    obtain ⟨hstatements, hfaults⟩ :=
      ih hready (fun t ht => hends t (hsuffix.subset ht)) hnext
    rw [statements_of_token htoken, faults_of_token htoken, hturn, hstatements, hfaults]
    exact ⟨rfl, rfl⟩

/-- What is read without an error are items. -/
theorem items_of_faults_eq_nil (hp : p.Ready) (hends : ∀ t ∈ p.ahead, t.kind ≠ .eof)
    (h : p.faults = []) : Items p.ahead p.statements := by
  -- on the tokens ahead, of which every turn takes one
  induction hlen : p.ahead.length using Nat.strongRecOn generalizing p with
  | ind n ih =>
    cases hahead : p.ahead with
    | nil =>
      have hend := kind_of_ahead_eq_nil hahead
      rw [statements_of_end hend]
      exact .nil
    | cons t rest =>
      obtain ⟨rfl, hnext⟩ := current_of_ahead_eq_cons hahead
      have htoken : p.current.kind ≠ .eof := hends _ (hahead ▸ List.mem_cons_self)
      have hshorter := p.length_ahead_turn_le
      rw [faults_of_token htoken] at h
      rw [statements_of_token htoken]
      have hready := hp.after_turn
      have hsuffix := p.ahead_after_turn_suffix
      obtain ⟨turn, q, hturn⟩ : ∃ turn q, p.turn = (turn, q) := ⟨_, _, rfl⟩
      rw [hturn] at h hshorter hready hsuffix ⊢
      obtain ⟨herror, hfaults⟩ := List.append_eq_nil_iff.mp h
      rw [hahead, List.length_cons] at hshorter hlen
      -- the turns behind this one are items by themselves
      have hitems :=
        ih _ (by omega) hready (fun t ht => hends t (hsuffix.subset ht)) hfaults rfl
      cases turn with
      | statement s =>
        have hread := (turn_eq_statement_iff hp.rules_eq).mp hturn
        obtain ⟨ts, rest', hsplit, hitem, hafter⟩ := hread.item hp.depth_eq hends
        rw [← hahead, hsplit]
        exact .statement hitem (hafter ▸ hitems)
      | skipped =>
        obtain ⟨hstray, rfl⟩ := (turn_eq_skipped_iff hp.rules_eq).mp hturn
        exact .stray hstray (hnext ▸ hitems)
      | failed e => cases herror

end Parser

/-- **Programs.**  A source without U+0000 is read without an error as some statements exactly if
its tokens before the end are items with these statements. -/
theorem parse_eq_ok_iff {source : String} (h : '\x00' ∉ source.toList) (ss : List Statement) :
    parse source = (⟨ss⟩, []) ↔ Items ((tokenize source).takeWhile fun t => !t.is .eof) ss := by
  have hends : ∀ t ∈ (Parser.start source).ahead, t.kind ≠ .eof := by
    intro t ht
    exact Lexing.ne_eof_of_mem_tokens h (tokens_start source ▸ ht)
  rw [tokens_eq_of_no_nul h, parse_eq]
  constructor
  · intro hparse
    obtain ⟨hstatements, hfaults⟩ := Prod.mk.inj hparse
    rw [← Program.mk.inj hstatements]
    exact Parser.items_of_faults_eq_nil (Parser.ready_start source) hends hfaults
  · intro hitems
    obtain ⟨hstatements, hfaults⟩ :=
      Parser.statements_of_items hitems (Parser.ready_start source) hends rfl
    rw [hstatements, hfaults]

/-- A stray comma, and a return that takes two semicolons of three. -/
theorem parse_eq_ok_iff_semicolons :
    '\x00' ∉ ",return;;;".toList ∧
      parse ",return;;;" = (⟨[.returnStatement ⟨.kwReturn, "return"⟩ none]⟩, []) := by
  have hnul : '\x00' ∉ ",return;;;".toList := by decide
  refine ⟨hnul, (parse_eq_ok_iff hnul _).mpr ?_⟩
  have htokens : Lexing.tokens ",return;;;".toList =
      [⟨.comma, ","⟩, ⟨.kwReturn, "return"⟩, ⟨.semicolon, ";"⟩, ⟨.semicolon, ";"⟩,
        ⟨.semicolon, ";"⟩] := by
    decide +kernel
  rw [takeWhile_tokenize, htokens]
  have hstray : Kind.Stray .semicolon := ⟨nofun, nofun, nofun, rfl⟩
  refine .stray ⟨nofun, nofun, nofun, rfl⟩ ?_
  exact .statement (.returnNothing rfl rfl) (.stray hstray .nil)

end LetLang
