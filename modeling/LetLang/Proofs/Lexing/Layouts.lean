import LetLang.Proofs.Lexing.Pieces

/-!
# Layouts — the one way to cut a text into lexemes

A text is laid out as some tokens if it is their literals in order, with blanks before, between and
behind them, and no two literals side by side make a longer lexeme.  The tokens of a text without
U+0000 lay it out: nothing is lost, and every lexeme is as long as it can be.  There is no other
layout, because what may follow a literal decides where its lexeme ends.
-/

namespace LetLang

open Token

/-! ## 1. How far a lexeme reaches -/

namespace Token

/-- A name or a keyword. -/
def IsWord (t : Token) : Prop :=
  t.kind = .identifier ∨ t.kind ∈ Kind.keywords.map Prod.snd

/-- The lexeme of a token would take this character as well. -/
inductive GoesOn (t : Token) (x : Char) : Prop
  | word (left : t.IsWord) (right : isLetter x = true)
  | number (left : t.kind = .integer) (right : x.isDigit = true)
  | pair (left : t.kind = .assignment ∨ t.kind = .not) (right : x = '=')

/-- Two tokens that are not read as such if nothing stands between them. -/
inductive Fuses (t u : Token) : Prop
  | words (left : t.IsWord) (right : u.IsWord)
  | numbers (left : t.kind = .integer) (right : u.kind = .integer)
  | pair (left : t.kind = .assignment ∨ t.kind = .not)
      (right : u.literal.toList.head? = some '=')

variable {t u : Token} {x : Char}

theorem isWord_ofWord (word : String) : (Token.ofWord word).IsWord := by
  by_cases hkeyword : word ∈ Kind.keywords.map Prod.fst
  · have hkinds : ∀ word ∈ Kind.keywords.map Prod.fst,
        Kind.ofWord word ∈ Kind.keywords.map Prod.snd := by
      decide
    exact .inr (hkinds word hkeyword)
  · exact .inl (Kind.ofWord_of_not_keyword hkeyword)

theorem IsWord.ne_of_mem (h : t.IsWord) {k : Kind}
    (hk : k ∈ [.integer, .assignment, .not, .equals, .notEquals]) : t.kind ≠ k := by
  have hkinds : ∀ l ∈ Kind.identifier :: Kind.keywords.map Prod.snd,
      ∀ k ∈ [Kind.integer, .assignment, .not, .equals, .notEquals], l ≠ k := by
    decide
  exact hkinds _ (List.mem_cons.mpr h) k hk

/-- A word is a run of letters, which determines its token. -/
theorem Spelled.word (h : t.Spelled) (hword : t.IsWord) :
    t.literal.toList ≠ [] ∧ (∀ x ∈ t.literal.toList, isLetter x = true) ∧
      Token.ofWord t.literal = t := by
  obtain ⟨kind, literal⟩ := t
  rcases hword with hname | hkeyword
  · have hspelled := h.isName hname
    refine ⟨hspelled.ne_nil, hspelled.letters, ?_⟩
    rw [Token.ofWord, Kind.ofWord_of_not_keyword hspelled.not_keyword, ← hname]
  · have hwords : ∀ k ∈ Kind.keywords.map Prod.snd, ∀ word, k.symbol? = some word →
        word.toList ≠ [] ∧ word.toList.all isLetter = true ∧ Kind.ofWord word = k := by
      intro k hk word hsymbol
      simp only [Kind.keywords, List.map_cons, List.map_nil, List.mem_cons, List.not_mem_nil,
        or_false] at hk
      rcases hk with rfl | rfl | rfl | rfl | rfl | rfl | rfl <;> cases hsymbol <;> decide
    have hsymbol : kind.symbol? = some literal := by
      apply h.symbol?_eq
      revert hkeyword
      show kind ∈ Kind.keywords.map Prod.snd → kind.symbol? ≠ none
      cases kind <;> decide
    obtain ⟨hne, hletters, hkind⟩ := hwords kind hkeyword literal hsymbol
    exact ⟨hne, List.all_eq_true.mp hletters, congrArg (Token.mk · literal) hkind⟩

theorem Spelled.number (h : t.Spelled) (hnumber : t.kind = .integer) :
    t.literal.toList ≠ [] ∧ ∀ x ∈ t.literal.toList, x.isDigit = true := by
  simpa [Text.Decimal.isNumeral] using h.isNumeral hnumber

theorem goesOn_iff_of_word (h : t.IsWord) : t.GoesOn x ↔ isLetter x = true := by
  constructor
  · rintro (⟨-, hletter⟩ | ⟨hnumber, -⟩ | ⟨hhalf, -⟩)
    · exact hletter
    · exact absurd hnumber (h.ne_of_mem (by decide))
    · exact absurd hhalf (not_or.mpr ⟨h.ne_of_mem (by decide), h.ne_of_mem (by decide)⟩)
  · exact .word h

theorem goesOn_iff_of_number (h : t.kind = .integer) : t.GoesOn x ↔ x.isDigit = true := by
  constructor
  · rintro (⟨hword, -⟩ | ⟨-, hdigit⟩ | ⟨hhalf, -⟩)
    · exact absurd h (hword.ne_of_mem (by decide))
    · exact hdigit
    · rw [h] at hhalf
      exact hhalf.elim nofun nofun
  · exact .number h

theorem Spelled.toList_ne_nil (h : t.Spelled) (heof : t.kind ≠ .eof) : t.literal.toList ≠ [] := by
  obtain ⟨kind, literal⟩ := t
  cases kind
  case eof => exact absurd rfl heof
  case illegal =>
    obtain ⟨x, rfl, -⟩ := h
    simp
  case identifier => exact (h.isName rfl).ne_nil
  case integer => exact (h.number rfl).1
  -- every other kind has one spelling
  all_goals
    cases h.symbol?_eq nofun
    decide

/-- Any character of a literal tells words and numbers from all other tokens. -/
theorem Spelled.of_mem (h : t.Spelled) (hx : x ∈ t.literal.toList) :
    x.isWhitespace = false ∧ x ≠ '\x00' ∧ (isLetter x = true ↔ t.IsWord) ∧
      (x.isDigit = true ↔ t.kind = .integer) := by
  by_cases hword : t.IsWord
  · have hletter := (h.word hword).2.1 x hx
    obtain ⟨hblank, hnul⟩ := Lexing.not_blank_of_class rfl hletter
    refine ⟨hblank, hnul, by simp [hletter, hword], ?_⟩
    refine ⟨fun hdigit => ?_, fun hnumber => absurd hnumber (hword.ne_of_mem (by decide))⟩
    rw [Lexing.not_letter_of_digit hdigit] at hletter
    exact absurd hletter Bool.false_ne_true
  · obtain ⟨kind, literal⟩ := t
    cases kind
    case eof =>
      obtain rfl : literal = "" := h
      exact absurd hx List.not_mem_nil
    case illegal =>
      obtain ⟨y, rfl, hy⟩ := h
      obtain rfl : x = y := by simpa using hx
      exact ⟨hy.not_blank, hy.ne_nul, by simp [hy.not_letter, hword], by simp [hy.not_digit]⟩
    case identifier => exact absurd (.inl rfl) hword
    case integer =>
      have hdigit := (h.number rfl).2 x hx
      obtain ⟨hblank, hnul⟩ := Lexing.not_blank_of_class rfl hdigit
      refine ⟨hblank, hnul, ?_, by simp [hdigit]⟩
      simp [Lexing.not_letter_of_digit hdigit, hword]
    case kwFn | kwLet | kwReturn | kwTrue | kwFalse | kwIf | kwElse =>
      exact absurd (.inr (by simp [Kind.keywords])) hword
    -- every other kind has one spelling, of marks only
    all_goals
      cases h.symbol?_eq nofun
      have hmark := (List.all_eq_true (p := fun x =>
        !x.isWhitespace && x != '\x00' && !isLetter x && !x.isDigit)).mp (by decide) x hx
      simp only [Bool.and_eq_true, Bool.not_eq_true', bne_iff_ne] at hmark
      obtain ⟨⟨⟨hblank, hnul⟩, hletter⟩, hdigit⟩ := hmark
      exact ⟨hblank, hnul, by simp [hletter, hword], by simp [hdigit]⟩

/-- The first character of a literal tells words and numbers from all other tokens. -/
theorem Spelled.first (h : t.Spelled) (heof : t.kind ≠ .eof) :
    ∃ x xs, t.literal.toList = x :: xs ∧ x.isWhitespace = false ∧ x ≠ '\x00' ∧
      (isLetter x = true ↔ t.IsWord) ∧ (x.isDigit = true ↔ t.kind = .integer) := by
  obtain ⟨x, xs, hcons⟩ := List.exists_cons_of_ne_nil (h.toList_ne_nil heof)
  exact ⟨x, xs, hcons, h.of_mem (hcons ▸ List.mem_cons_self)⟩

/-- Whether two tokens fuse is seen at the first character of the second. -/
theorem fuses_iff_goesOn (h : u.Spelled) (heof : u.kind ≠ .eof) :
    ∃ x xs, u.literal.toList = x :: xs ∧ (t.Fuses u ↔ t.GoesOn x) := by
  obtain ⟨x, xs, hcons, -, -, hword, hnumber⟩ := h.first heof
  have hequals : u.literal.toList.head? = some '=' ↔ x = '=' := by simp [hcons]
  refine ⟨x, xs, hcons, ?_, ?_⟩
  · rintro (⟨hleft, hright⟩ | ⟨hleft, hright⟩ | ⟨hleft, hright⟩)
    · exact .word hleft (hword.mpr hright)
    · exact .number hleft (hnumber.mpr hright)
    · exact .pair hleft (hequals.mp hright)
  · rintro (⟨hleft, hright⟩ | ⟨hleft, hright⟩ | ⟨hleft, hright⟩)
    · exact .words hleft (hword.mp hright)
    · exact .numbers hleft (hnumber.mp hright)
    · exact .pair hleft (hequals.mpr hright)

theorem not_goesOn_of_blank (h : x.isWhitespace = true) : ¬ t.GoesOn x := by
  rintro (⟨-, hletter⟩ | ⟨-, hdigit⟩ | ⟨-, rfl⟩)
  · rw [(Lexing.not_blank_of_class rfl hletter).1] at h
    exact absurd h Bool.false_ne_true
  · rw [(Lexing.not_blank_of_class rfl hdigit).1] at h
    exact absurd h Bool.false_ne_true
  · exact absurd h (by decide)

end Token

/-! ## 2. Lexemes are the longest literals -/

namespace Lexing

variable {x : Char} {ahead rest : List Char} {t : Token}

theorem not_of_head?_dropWhile {p : Char → Bool} {y : Char}
    (h : y ∈ (ahead.dropWhile p).head?) : p y = false := by
  have hhead := List.head?_dropWhile_not p ahead
  rw [Option.mem_def.mp h] at hhead
  exact hhead

theorem pair?_eq_some {pair : Kind} (h : pair? x ahead.head? = some pair) :
    (∃ rest, ahead = '=' :: rest) ∧ (pair = .equals ∨ pair = .notEquals) := by
  unfold pair? at h
  split at h
  · next hhead =>
    refine ⟨List.head?_eq_some_iff.mp hhead, ?_⟩
    unfold Kind.ofCharAndEquals? at h
    split at h <;> cases h
    · exact .inl rfl
    · exact .inr rfl
  · cases h

theorem pair?_eq_none (hassign : x ≠ '=') (hnot : x ≠ '!') (next? : Option Char) :
    pair? x next? = none := by
  unfold pair? Kind.ofCharAndEquals?
  split
  · split
    · exact absurd rfl hassign
    · exact absurd rfl hnot
    · rfl
  · rfl

/-- A pair takes no third character. -/
theorem not_goesOn_pair {pair : Kind} {literal : String} {y : Char}
    (hkind : pair = .equals ∨ pair = .notEquals) : ¬ (Token.mk pair literal).GoesOn y := by
  rintro (⟨hword, -⟩ | ⟨hnumber, -⟩ | ⟨hhalf, -⟩)
  · have hmem : pair ∈ [Kind.integer, .assignment, .not, .equals, .notEquals] := by
      rcases hkind with rfl | rfl <;> decide
    exact hword.ne_of_mem hmem rfl
  · rcases hkind with rfl | rfl <;> cases hnumber
  · rcases hkind with rfl | rfl <;> rcases hhalf with hhalf | hhalf <;> cases hhalf

/-- A character by itself takes none that it makes no pair with. -/
theorem not_goesOn_ofChar {y : Char} (hpair : pair? x (some y) = none) :
    ¬ (Token.ofChar x).GoesOn y := by
  have hkind : ∀ k ∈ Kind.integer :: Kind.identifier :: Kind.keywords.map Prod.snd,
      Kind.ofChar x ≠ k := by
    unfold Kind.ofChar
    split <;> decide
  rintro (⟨hword, -⟩ | ⟨hnumber, -⟩ | ⟨hhalf, rfl⟩)
  · exact hkind _ (List.mem_cons_of_mem _ (List.mem_cons.mpr hword)) rfl
  · exact hkind _ List.mem_cons_self hnumber
  · have hfirst : x = '=' ∨ x = '!' := by
      revert hhalf
      show Kind.ofChar x = .assignment ∨ Kind.ofChar x = .not → _
      unfold Kind.ofChar
      split <;> simp
    rcases hfirst with rfl | rfl <;> cases hpair

/-- A lexeme is a literal before the rest of the text, and it does not go on with the rest. -/
theorem lexeme_append_rest (hnul : x ≠ '\x00') (ahead : List Char) :
    x :: ahead = (lexeme x ahead).1.literal.toList ++ (lexeme x ahead).2 ∧
      ∀ y ∈ (lexeme x ahead).2.head?, ¬ (lexeme x ahead).1.GoesOn y := by
  unfold lexeme
  rw [if_neg hnul]
  split
  · -- a word, which ends before what is no letter
    refine ⟨by simp [Token.ofWord], fun y hy => ?_⟩
    rw [Token.goesOn_iff_of_word (Token.isWord_ofWord _), Bool.not_eq_true]
    exact not_of_head?_dropWhile hy
  · split
    · -- a number, which ends before what is no digit
      refine ⟨by simp, fun y hy => ?_⟩
      rw [Token.goesOn_iff_of_number rfl, Bool.not_eq_true]
      exact not_of_head?_dropWhile hy
    · split
      · next pair hpair =>
        obtain ⟨⟨rest, rfl⟩, hkind⟩ := pair?_eq_some hpair
        exact ⟨by simp, fun y _ => not_goesOn_pair hkind⟩
      · next hpair =>
        refine ⟨by simp [Token.ofChar], fun y hy => ?_⟩
        rw [Option.mem_def.mp hy] at hpair
        exact not_goesOn_ofChar hpair

theorem lexeme_of_letters {xs : List Char} (hnul : x ≠ '\x00')
    (hletters : ∀ y ∈ x :: xs, isLetter y = true) (hstop : ∀ y ∈ rest.head?, isLetter y = false) :
    lexeme x (xs ++ rest) = (Token.ofWord (String.ofList (x :: xs)), rest) := by
  obtain ⟨hx, hxs⟩ := List.forall_mem_cons.mp hletters
  obtain ⟨htake, hdrop⟩ := takeWhile_append_of_all hxs hstop
  rw [lexeme_of_letter hnul hx, htake, hdrop]

theorem lexeme_of_digits {xs : List Char} (hnul : x ≠ '\x00') (hletter : isLetter x = false)
    (hdigits : ∀ y ∈ x :: xs, y.isDigit = true) (hstop : ∀ y ∈ rest.head?, y.isDigit = false) :
    lexeme x (xs ++ rest) = (⟨.integer, String.ofList (x :: xs)⟩, rest) := by
  obtain ⟨hx, hxs⟩ := List.forall_mem_cons.mp hdigits
  obtain ⟨htake, hdrop⟩ := takeWhile_append_of_all hxs hstop
  rw [lexeme_of_digit hnul hletter hx, htake, hdrop]

/-- A mark is the first lexeme; the character after it matters only to the first half of a pair. -/
theorem lexeme_of_mark {xs : List Char} (h : t.Spelled) (heof : t.kind ≠ .eof)
    (hword : ¬ t.IsWord) (hnumber : t.kind ≠ .integer) (hcons : t.literal.toList = x :: xs)
    (hnul : x ≠ '\x00') (hletter : isLetter x = false) (hdigit : x.isDigit = false)
    (hrest : ∀ y ∈ rest.head?, ¬ t.GoesOn y) : lexeme x (xs ++ rest) = (t, rest) := by
  obtain ⟨kind, literal⟩ := t
  cases kind
  case eof => exact absurd rfl heof
  case illegal =>
    obtain ⟨y, rfl, hy⟩ := h
    obtain ⟨rfl, rfl⟩ : y = x ∧ [] = xs := by simpa using hcons
    have hassign : y ≠ '=' := by
      rintro rfl
      cases hy.not_symbol
    have hnot : y ≠ '!' := by
      rintro rfl
      cases hy.not_symbol
    rw [List.nil_append, lexeme_of_single hnul hletter hdigit (pair?_eq_none hassign hnot _),
      Token.ofChar, hy.not_symbol]
  case identifier => exact absurd (.inl rfl) hword
  case integer => exact absurd rfl hnumber
  case kwFn | kwLet | kwReturn | kwTrue | kwFalse | kwIf | kwElse =>
    exact absurd (.inr (by simp [Kind.keywords])) hword
  case assignment | not =>
    have hne : rest.head? ≠ some '=' := fun hhead => hrest '=' hhead (.pair (by simp) rfl)
    cases h.symbol?_eq (Option.some_ne_none _)
    cases hcons
    rw [List.nil_append, lexeme_of_single hnul hletter hdigit (if_neg hne)]
    rfl
  case equals | notEquals =>
    cases h.symbol?_eq (Option.some_ne_none _)
    cases hcons
    rfl
  all_goals
    cases h.symbol?_eq (Option.some_ne_none _)
    simp only [String.reduceToList, List.cons.injEq] at hcons
    obtain ⟨rfl, rfl⟩ := hcons
    rw [List.nil_append, lexeme_of_single hnul hletter hdigit]
    · rfl
    · exact pair?_eq_none (by decide) (by decide) rest.head?

/-- A literal that does not go on with the rest of the text is its first lexeme. -/
theorem lexeme_literal (h : t.Spelled) (heof : t.kind ≠ .eof)
    (hrest : ∀ y ∈ rest.head?, ¬ t.GoesOn y) :
    ∃ x xs, t.literal.toList = x :: xs ∧ x.isWhitespace = false ∧
      lexeme x (xs ++ rest) = (t, rest) := by
  obtain ⟨x, xs, hcons, hblank, hnul, hletter, hdigit⟩ := h.first heof
  refine ⟨x, xs, hcons, hblank, ?_⟩
  by_cases hword : t.IsWord
  · obtain ⟨-, hletters, hof⟩ := h.word hword
    have hstop : ∀ y ∈ rest.head?, isLetter y = false := by
      intro y hy
      rw [← Bool.not_eq_true, ← Token.goesOn_iff_of_word hword]
      exact hrest y hy
    rw [lexeme_of_letters hnul (hcons ▸ hletters) hstop, ← hcons, String.ofList_toList, hof]
  have hnotLetter : isLetter x = false := by
    rw [← Bool.not_eq_true]
    exact fun hx => hword (hletter.mp hx)
  by_cases hnumber : t.kind = .integer
  · have hstop : ∀ y ∈ rest.head?, y.isDigit = false := by
      intro y hy
      rw [← Bool.not_eq_true, ← Token.goesOn_iff_of_number hnumber]
      exact hrest y hy
    have hdigits := (h.number hnumber).2
    rw [lexeme_of_digits hnul hnotLetter (hcons ▸ hdigits) hstop, ← hcons, String.ofList_toList,
      ← hnumber]
  have hnotDigit : x.isDigit = false := by
    rw [← Bool.not_eq_true]
    exact fun hx => hnumber (hdigit.mp hx)
  exact lexeme_of_mark h heof hword hnumber hcons hnul hnotLetter hnotDigit hrest

/-- A literal that its kind allows lexes to its token. -/
theorem tokens_literal (h : t.Spelled) (heof : t.kind ≠ .eof) : tokens t.literal.toList = [t] := by
  have hrest : ∀ y ∈ ([] : List Char).head?, ¬ t.GoesOn y := nofun
  obtain ⟨x, xs, hcons, hblank, hlexeme⟩ := lexeme_literal h heof hrest
  rw [List.append_nil] at hlexeme
  rw [hcons, tokens_cons hblank, hlexeme, tokens_nil]

end Lexing

/-! ## 3. Layouts -/

/-- The literals of these tokens in order, with blanks behind each; nothing but a fusion asks for
    blanks. -/
inductive Layout : List Token → List Char → Prop
  | nil : Layout [] []
  | cons {t : Token} {ts : List Token} {blanks rest : List Char} (spelled : t.Spelled)
      (nonempty : t.literal ≠ "") (blank : ∀ x ∈ blanks, x.isWhitespace = true)
      (apart : blanks = [] → ∀ u ∈ ts.head?, ¬ t.Fuses u) (others : Layout ts rest) :
      Layout (t :: ts) (t.literal.toList ++ (blanks ++ rest))

/-- A text that is these tokens and blanks, with every token as long as it can be. -/
def LaidOut (ts : List Token) (text : List Char) : Prop :=
  ∃ blanks rest, text = blanks ++ rest ∧ (∀ x ∈ blanks, x.isWhitespace = true) ∧ Layout ts rest

variable {ts : List Token} {text rest : List Char}

theorem Token.Spelled.literal_ne_empty_iff {t : Token} (h : t.Spelled) :
    t.literal ≠ "" ↔ t.kind ≠ .eof := by
  constructor
  · exact fun hne heof => hne (congrArg Token.literal (h.eq_eof heof))
  · intro heof hempty
    obtain ⟨x, xs, hcons, -⟩ := h.first heof
    rw [hempty] at hcons
    cases hcons

theorem Layout.forall_not_fuses_iff (h : Layout ts rest) (t : Token) :
    (∀ u ∈ ts.head?, ¬ t.Fuses u) ↔ ∀ y ∈ rest.head?, ¬ t.GoesOn y := by
  cases h with
  | nil => exact ⟨nofun, nofun⟩
  | @cons u ts blanks rest spelled nonempty blank apart others =>
    obtain ⟨y, ys, hcons, hiff⟩ :=
      Token.fuses_iff_goesOn (t := t) spelled (spelled.literal_ne_empty_iff.mp nonempty)
    simp [hcons, hiff]

namespace Lexing

theorem tokens_append_of_blank {blanks : List Char}
    (h : ∀ x ∈ blanks, x.isWhitespace = true) (rest : List Char) :
    tokens (blanks ++ rest) = tokens rest := by
  induction blanks with
  | nil => rfl
  | cons x blanks ih =>
    obtain ⟨hx, hblanks⟩ := List.forall_mem_cons.mp h
    rw [List.cons_append, tokens_cons_of_blank hx, ih hblanks]

/-- A layout of tokens lexes to them. -/
theorem tokens_of_layout (h : Layout ts rest) : tokens rest = ts := by
  induction h with
  | nil => exact tokens_nil
  | @cons t ts blanks rest spelled nonempty blank apart others ih =>
    have hrest : ∀ y ∈ (blanks ++ rest).head?, ¬ t.GoesOn y := by
      cases blanks with
      | nil => exact (others.forall_not_fuses_iff t).mp (apart rfl)
      | cons y blanks =>
        rintro _ ⟨⟩
        exact Token.not_goesOn_of_blank (blank y List.mem_cons_self)
    obtain ⟨x, xs, hcons, hblank, hlexeme⟩ :=
      lexeme_literal spelled (spelled.literal_ne_empty_iff.mp nonempty) hrest
    rw [hcons, List.cons_append, tokens_cons hblank, hlexeme, tokens_append_of_blank blank, ih]

/-- A text without U+0000 is laid out as its tokens. -/
theorem laidOut_tokens (h : '\x00' ∉ text) : LaidOut (tokens text) text := by
  have hnone : ∀ x ∈ ([] : List Char), x.isWhitespace = true :=
    fun x hx => absurd hx List.not_mem_nil
  induction text using tokens.induct with
  | case1 => exact ⟨[], [], rfl, hnone, tokens_nil ▸ .nil⟩
  | case2 x ahead hx ih =>
    obtain ⟨blanks, rest, rfl, hblanks, hlayout⟩ := ih (List.not_mem_of_not_mem_cons h)
    rw [tokens_cons_of_blank hx]
    exact ⟨x :: blanks, rest, rfl, List.forall_mem_cons.mpr ⟨hx, hblanks⟩, hlayout⟩
  | case3 x ahead hx ih =>
    have hblank := Bool.eq_false_iff.mpr hx
    have hnul : x ≠ '\x00' := (List.ne_of_not_mem_cons h).symm
    have hspelled := spelled_lexeme hblank ahead
    obtain ⟨htext, hstop⟩ := lexeme_append_rest hnul ahead
    have hahead : '\x00' ∉ (lexeme x ahead).2 :=
      fun hmem => List.not_mem_of_not_mem_cons h ((lexeme_suffix x ahead).subset hmem)
    obtain ⟨blanks, rest, hrest, hblanks, hlayout⟩ := ih hahead
    have hne := hspelled.literal_ne_empty_iff.mpr (lexeme_ne_eof hblank hnul ahead)
    rw [tokens_cons hblank]
    have hapart : blanks = [] →
        ∀ u ∈ (tokens (lexeme x ahead).2).head?, ¬ (lexeme x ahead).1.Fuses u := by
      rintro rfl
      rw [hlayout.forall_not_fuses_iff, ← List.nil_append rest, ← hrest]
      exact hstop
    refine ⟨[], _, htext, hnone, ?_⟩
    have hcons := Layout.cons hspelled hne hblanks hapart hlayout
    rwa [← hrest] at hcons

/-- **The tokens of a text without U+0000 are its only layout.** -/
theorem laidOut_iff (h : '\x00' ∉ text) : LaidOut ts text ↔ ts = tokens text := by
  constructor
  · rintro ⟨blanks, rest, rfl, hblanks, hlayout⟩
    rw [tokens_append_of_blank hblanks, tokens_of_layout hlayout]
  · rintro rfl
    exact laidOut_tokens h

theorem nul_not_mem_takeWhile (text : List Char) : '\x00' ∉ text.takeWhile (· ≠ '\x00') := by
  intro hmem
  simpa using List.all_eq_true.mp List.all_takeWhile _ hmem

theorem tokens_append_nul (before ahead : List Char) :
    tokens (before ++ '\x00' :: ahead) = tokens before ++ Token.eof :: tokens ahead := by
  have hseparates : Separates '\x00' := ⟨rfl, rfl, by decide⟩
  rw [tokens_append_of_separates hseparates, tokens_cons rfl, lexeme, if_pos rfl]

/-- The tokens before the first end are those of the text before the first U+0000. -/
theorem takeWhile_tokens (text : List Char) :
    (tokens text).takeWhile (fun t => !t.is .eof) = tokens (text.takeWhile (· ≠ '\x00')) := by
  have hstart : ∀ t ∈ tokens (text.takeWhile (· ≠ '\x00')), (!t.is .eof) = true := by
    intro t ht
    rw [is_eq_false_iff.mpr (ne_eof_of_mem_tokens (nul_not_mem_takeWhile text) ht)]
    rfl
  have hsplit := List.takeWhile_append_dropWhile (p := (· ≠ '\x00')) (l := text)
  cases hdrop : text.dropWhile (· ≠ '\x00') with
  | nil =>
    rw [hdrop, List.append_nil] at hsplit
    rw [hsplit] at hstart ⊢
    exact List.takeWhile_eq_self_iff.mpr hstart
  | cons y rest =>
    have hhead : y ∈ (text.dropWhile (· ≠ '\x00')).head? := by
      rw [hdrop]
      rfl
    obtain rfl : y = '\x00' := by simpa using not_of_head?_dropWhile hhead
    have htokens : tokens text =
        tokens (text.takeWhile (· ≠ '\x00')) ++ Token.eof :: tokens rest := by
      rw [← tokens_append_nul, ← hdrop, hsplit]
    rw [htokens, List.takeWhile_append_of_pos hstart, List.takeWhile_cons_of_neg (by decide),
      List.append_nil]

end Lexing

/-- The tokens of a source are those of its text before the first U+0000, and the end. -/
theorem tokenize_eq_tokens (source : String) :
    tokenize source = Lexing.tokens (source.toList.takeWhile (· ≠ '\x00')) ++ [Token.eof] := by
  rw [tokenize_eq, Lexing.takeWhile_tokens]

/-- **Tokens are the longest lexemes, and nothing is lost.**  The tokens of a source end with its
    only end token; those before it are the only ones that the source is laid out as, up to its
    first U+0000. -/
theorem tokenize_eq_only_layout (source : String) :
    ∃ ts, tokenize source = ts ++ [Token.eof] ∧ (∀ t ∈ ts, t.kind ≠ .eof) ∧
      ∀ us, LaidOut us (source.toList.takeWhile (· ≠ '\x00')) ↔ us = ts := by
  have hstart := Lexing.nul_not_mem_takeWhile source.toList
  refine ⟨_, tokenize_eq_tokens source, ?_, ?_⟩
  · exact fun t => Lexing.ne_eof_of_mem_tokens hstart
  · exact fun us => Lexing.laidOut_iff hstart

end LetLang
