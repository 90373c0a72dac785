import Mathlib.Data.List.TakeWhile
import LetLang.Text.Decimal
import LetLang.Token.Lexer

/-!
# Lexemes — the tokens of a list of characters

What a cursor reads depends on the characters ahead of it alone.  `Lexing.tokens` is the same
lexer on these characters, without offsets: one lexeme at a time, each the longest that begins
there.  Every token is spelled as its kind allows.
-/

namespace LetLang

open Token Text

namespace Lexing

/-! ## 1. Lexemes of characters -/

/-- The kind of the token that a character and the next make together. -/
def pair? (x : Char) (next? : Option Char) : Option Kind :=
  if next? = some '=' then Kind.ofCharAndEquals? x else none

/-- The token that begins with `x`, and the characters behind it. -/
def lexeme (x : Char) (ahead : List Char) : Token × List Char :=
  if x = '\x00' then
    (Token.eof, ahead)
  else if isLetter x then
    (Token.ofWord (String.ofList (x :: ahead.takeWhile isLetter)), ahead.dropWhile isLetter)
  else if x.isDigit then
    (⟨.integer, String.ofList (x :: ahead.takeWhile Char.isDigit)⟩, ahead.dropWhile Char.isDigit)
  else
    match pair? x ahead.head? with
    | some pair => (⟨pair, String.ofList [x, '=']⟩, ahead.tail)
    | none => (Token.ofChar x, ahead)

theorem lexeme_suffix (x : Char) (ahead : List Char) : (lexeme x ahead).2 <:+ ahead := by
  unfold lexeme
  split
  · exact List.suffix_rfl
  · split
    · exact List.dropWhile_suffix _
    · split
      · exact List.dropWhile_suffix _
      · split
        · exact List.tail_suffix _
        · exact List.suffix_rfl

/-- All tokens of these characters. -/
def tokens : List Char → List Token
  | [] => []
  | x :: ahead =>
    if x.isWhitespace then tokens ahead else (lexeme x ahead).1 :: tokens (lexeme x ahead).2
termination_by ahead => ahead.length
decreasing_by
  · exact Nat.lt_succ_self _
  · exact Nat.lt_succ_of_le (lexeme_suffix x ahead).length_le

theorem tokens_nil : tokens [] = [] := by
  rw [tokens]

theorem tokens_cons_of_blank {x : Char} (h : x.isWhitespace = true) (ahead : List Char) :
    tokens (x :: ahead) = tokens ahead := by
  rw [tokens, if_pos h]

theorem tokens_cons {x : Char} (h : x.isWhitespace = false) (ahead : List Char) :
    tokens (x :: ahead) = (lexeme x ahead).1 :: tokens (lexeme x ahead).2 := by
  rw [tokens, if_neg (Bool.eq_false_iff.mp h)]

theorem length_tokens_le (ahead : List Char) : (tokens ahead).length ≤ ahead.length := by
  induction ahead using tokens.induct with
  | case1 => rw [tokens_nil, List.length_nil, List.length_nil]
  | case2 x ahead hblank ih =>
    rw [tokens_cons_of_blank hblank, List.length_cons]
    omega
  | case3 x ahead hblank ih =>
    have hle := (lexeme_suffix x ahead).length_le
    rw [tokens_cons (Bool.eq_false_iff.mpr hblank), List.length_cons, List.length_cons]
    omega

theorem tokens_dropWhile (ahead : List Char) :
    tokens (ahead.dropWhile Char.isWhitespace) = tokens ahead := by
  induction ahead with
  | nil => rfl
  | cons x ahead ih =>
    by_cases hx : x.isWhitespace = true
    · rw [List.dropWhile_cons_of_pos hx, tokens_cons_of_blank hx, ih]
    · rw [List.dropWhile_cons_of_neg hx]

end Lexing

/-! ## 2. Cursors read lexemes -/

namespace Text.Cursor

variable {c : Cursor} {passed ahead : List Char} {x : Char}

theorem Splits.textTo_skipWhile (h : c.Splits passed (x :: ahead)) {p : Char → Bool}
    (hx : p x = true) :
    c.textTo (c.skipWhile p) = String.ofList (x :: ahead.takeWhile p) := by
  have hsplit : c.Splits passed ((x :: ahead).takeWhile p ++ (x :: ahead).dropWhile p) := by
    rwa [List.takeWhile_append_dropWhile]
  rw [← List.takeWhile_cons_of_pos hx]
  exact Splits.textTo_eq hsplit (h.skipWhile p)

/-- A cursor reads the lexeme of the characters ahead and stops before the rest. -/
theorem Splits.lexeme_eq (h : c.Splits passed (x :: ahead)) :
    (c.lexeme x).1 = (Lexing.lexeme x ahead).1 ∧
      ∃ passed', (c.lexeme x).2.Splits passed' (Lexing.lexeme x ahead).2 := by
  unfold Cursor.lexeme Lexing.lexeme
  split
  · exact ⟨rfl, _, h.next⟩
  · split
    · next hletter =>
      have hstop := h.skipWhile isLetter
      rw [List.dropWhile_cons_of_pos hletter] at hstop
      exact ⟨congrArg Token.ofWord (h.textTo_skipWhile hletter), _, hstop⟩
    · split
      · next hdigit =>
        have hstop := h.skipWhile Char.isDigit
        rw [List.dropWhile_cons_of_pos hdigit] at hstop
        exact ⟨congrArg (Token.mk .integer) (h.textTo_skipWhile hdigit), _, hstop⟩
      · rw [h.peek?_eq]
        split
        · next pair hpair hhead =>
          obtain ⟨rest, rfl⟩ := List.head?_eq_some_iff.mp hhead
          rw [Lexing.pair?, if_pos hhead, hpair]
          exact ⟨rfl, _, h.next.next⟩
        · next hnot =>
          have hnone : Lexing.pair? x ahead.head? = none := by
            unfold Lexing.pair?
            split
            · next hhead =>
              exact Option.eq_none_iff_forall_ne_some.mpr fun pair hpair => hnot pair hpair hhead
            · rfl
          rw [hnone]
          exact ⟨rfl, _, h.next⟩

theorem Splits.scan_of_nil (h : c.Splits passed ahead)
    (hnil : ahead.dropWhile Char.isWhitespace = []) : c.skipBlanks.char? = none := by
  have hskip := h.skipWhile Char.isWhitespace
  rw [hnil] at hskip
  exact hskip.char?_eq

/-- A scan reads the first lexeme behind the blanks. -/
theorem Splits.scan_of_cons {rest : List Char} (h : c.Splits passed ahead)
    (hcons : ahead.dropWhile Char.isWhitespace = x :: rest) :
    c.skipBlanks.char? = some x ∧ c.scan.1 = (Lexing.lexeme x rest).1 ∧
      ∃ passed', c.scan.2.Splits passed' (Lexing.lexeme x rest).2 := by
  have hskip := h.skipWhile Char.isWhitespace
  rw [hcons] at hskip
  have hchar : c.skipBlanks.char? = some x := hskip.char?_eq
  have hscan : c.scan = c.skipBlanks.lexeme x := by
    simp only [scan, hchar]
  rw [hscan]
  exact ⟨hchar, hskip.lexeme_eq⟩

theorem isWhitespace_of_dropWhile {rest : List Char}
    (hcons : ahead.dropWhile Char.isWhitespace = x :: rest) : x.isWhitespace = false := by
  have hhead := List.head?_dropWhile_not Char.isWhitespace ahead
  rw [hcons] at hhead
  exact hhead

/-- Behind the blanks and a lexeme fewer characters are left. -/
theorem length_lexeme_lt {rest : List Char}
    (hcons : ahead.dropWhile Char.isWhitespace = x :: rest) :
    (Lexing.lexeme x rest).2.length < ahead.length := by
  have hsuffix := (Lexing.lexeme_suffix x rest).length_le
  have hdrop := (List.dropWhile_suffix (l := ahead) Char.isWhitespace).length_le
  rw [hcons, List.length_cons] at hdrop
  omega

/-- The tokens from a cursor on are those of the characters ahead. -/
theorem Splits.tokens_eq (h : c.Splits passed ahead) : c.tokens = Lexing.tokens ahead := by
  induction hlen : ahead.length using Nat.strongRecOn generalizing c passed ahead with
  | ind n ih =>
    -- both sides skip the blanks before they read
    rw [← Lexing.tokens_dropWhile, tokens]
    cases hrest : ahead.dropWhile Char.isWhitespace with
    | nil => rw [dif_pos (h.scan_of_nil hrest), Lexing.tokens_nil]
    | cons x rest =>
      obtain ⟨hchar, htoken, passed', hstop⟩ := h.scan_of_cons hrest
      have hblank := isWhitespace_of_dropWhile hrest
      have hshorter := length_lexeme_lt hrest
      rw [dif_neg (by rw [hchar]; exact Option.some_ne_none x), htoken,
        ih _ (hlen ▸ hshorter) hstop rfl, Lexing.tokens_cons hblank]

end Text.Cursor

theorem tokens_start (source : String) :
    (Cursor.start source).tokens = Lexing.tokens source.toList :=
  (Cursor.splits_start source).tokens_eq

/-! ## 3. Spellings -/

namespace Token

/-- A character that is no blank and begins no lexeme. -/
structure BeginsNothing (x : Char) : Prop where
  not_blank : x.isWhitespace = false
  ne_nul : x ≠ '\x00'
  not_letter : isLetter x = false
  not_digit : x.isDigit = false
  not_symbol : Kind.ofChar x = .illegal

/-- A word that is not a keyword. -/
structure IsName (word : String) : Prop where
  ne_nil : word.toList ≠ []
  letters : ∀ x ∈ word.toList, isLetter x = true
  not_keyword : word ∉ Kind.keywords.map Prod.fst

/-- The literal of a token is one that its kind allows. -/
def Spelled (t : Token) : Prop :=
  match t.kind with
  | .eof => t.literal = ""
  | .illegal => ∃ x, t.literal = String.singleton x ∧ BeginsNothing x
  | .identifier => IsName t.literal
  | .integer => Decimal.isNumeral t.literal = true
  | kind => kind.symbol? = some t.literal

theorem Kind.ofWord_of_not_keyword {word : String} (h : word ∉ Kind.keywords.map Prod.fst) :
    Kind.ofWord word = .identifier := by
  have hnone : Kind.keywords.lookup word = none := by
    rw [List.lookup_eq_none_iff]
    intro p hp
    rw [bne_iff_ne]
    rintro rfl
    exact h (List.mem_map_of_mem hp)
  rw [Kind.ofWord, hnone]
  rfl

theorem Kind.symbol?_ofWord {word : String} (h : word ∈ Kind.keywords.map Prod.fst) :
    (Kind.ofWord word).symbol? = some word := by
  revert word
  decide

theorem Kind.ofChar_spelled (x : Char) :
    Kind.ofChar x = .illegal ∨ (Kind.ofChar x).symbol? = some (String.singleton x) := by
  unfold Kind.ofChar
  split <;> first | exact .inl rfl | exact .inr rfl

theorem spelled_of_symbol {t : Token} (h : t.kind.symbol? = some t.literal) : t.Spelled := by
  unfold Spelled
  split <;> first | exact h | simp_all [Kind.symbol?]

theorem Spelled.symbol?_eq {t : Token} (h : t.Spelled) (hfixed : t.kind.symbol? ≠ none) :
    t.kind.symbol? = some t.literal := by
  unfold Spelled at h
  split at h <;> first | exact h | simp_all [Kind.symbol?]

theorem Spelled.eq_mk {t : Token} {k : Kind} {literal : String} (h : t.Spelled) (hkind : t.kind = k)
    (hsymbol : k.symbol? = some literal) : t = ⟨k, literal⟩ := by
  obtain ⟨kind, literal'⟩ := t
  subst hkind
  have hliteral := h.symbol?_eq (by rw [hsymbol]; exact Option.some_ne_none literal)
  exact congrArg (Token.mk kind) (Option.some.inj (hliteral.symm.trans hsymbol))

theorem Spelled.isName {t : Token} (h : t.Spelled) (hkind : t.kind = .identifier) :
    IsName t.literal := by
  simpa only [Spelled, hkind] using h

theorem Spelled.isNumeral {t : Token} (h : t.Spelled) (hkind : t.kind = .integer) :
    Decimal.isNumeral t.literal = true := by
  simpa only [Spelled, hkind] using h

theorem Spelled.eq_eof {t : Token} (h : t.Spelled) (heof : t.kind = .eof) : t = Token.eof := by
  obtain ⟨kind, literal⟩ := t
  subst heof
  exact congrArg (Token.mk .eof) h

end Token

namespace Lexing

variable {x : Char} {ahead : List Char}

theorem lexeme_of_letter (hnul : x ≠ '\x00') (h : isLetter x = true) (ahead : List Char) :
    lexeme x ahead =
      (Token.ofWord (String.ofList (x :: ahead.takeWhile isLetter)), ahead.dropWhile isLetter) := by
  rw [lexeme, if_neg hnul, if_pos h]

theorem lexeme_of_digit (hnul : x ≠ '\x00') (hletter : isLetter x = false) (h : x.isDigit = true)
    (ahead : List Char) :
    lexeme x ahead =
      (⟨.integer, String.ofList (x :: ahead.takeWhile Char.isDigit)⟩,
        ahead.dropWhile Char.isDigit) := by
  rw [lexeme, if_neg hnul, if_neg (Bool.eq_false_iff.mp hletter), if_pos h]

theorem spelled_word (h : isLetter x = true) (ahead : List Char) :
    (Token.ofWord (String.ofList (x :: ahead.takeWhile isLetter))).Spelled := by
  by_cases hkeyword : String.ofList (x :: ahead.takeWhile isLetter) ∈ Kind.keywords.map Prod.fst
  · exact spelled_of_symbol (Kind.symbol?_ofWord hkeyword)
  · unfold Spelled
    rw [Token.ofWord, Kind.ofWord_of_not_keyword hkeyword]
    refine ⟨by simp, ?_, hkeyword⟩
    rw [String.toList_ofList]
    intro y hy
    rcases List.mem_cons.mp hy with rfl | hy
    · exact h
    · exact List.all_eq_true.mp List.all_takeWhile y hy

theorem spelled_number (h : x.isDigit = true) (ahead : List Char) :
    (Token.mk .integer (String.ofList (x :: ahead.takeWhile Char.isDigit))).Spelled := by
  show Decimal.isNumeral _ = true
  simp [Decimal.isNumeral, h]

/-- Every lexeme is spelled as its kind allows. -/
theorem spelled_lexeme (hblank : x.isWhitespace = false) (ahead : List Char) :
    (lexeme x ahead).1.Spelled := by
  unfold lexeme
  split
  · exact rfl
  · next hnul =>
    split
    · next hletter => exact spelled_word hletter ahead
    · next hletter =>
      split
      · next hdigit => exact spelled_number hdigit ahead
      · next hdigit =>
        split
        · next pair hpair =>
          apply spelled_of_symbol
          unfold pair? at hpair
          split at hpair
          · unfold Kind.ofCharAndEquals? at hpair
            split at hpair <;> cases hpair <;> rfl
          · cases hpair
        · -- what begins nothing else is illegal by itself
          rcases Kind.ofChar_spelled x with hillegal | hsymbol
          · unfold Spelled
            simp only [Token.ofChar, hillegal]
            exact ⟨x, rfl, hblank, hnul, Bool.eq_false_iff.mpr hletter,
              Bool.eq_false_iff.mpr hdigit, hillegal⟩
          · exact spelled_of_symbol hsymbol

theorem spelled_of_mem_tokens {t : Token} (h : t ∈ tokens ahead) : t.Spelled := by
  induction ahead using tokens.induct with
  | case1 =>
    rw [tokens_nil] at h
    exact absurd h List.not_mem_nil
  | case2 x ahead hblank ih =>
    rw [tokens_cons_of_blank hblank] at h
    exact ih h
  | case3 x ahead hblank ih =>
    have hblank := Bool.eq_false_iff.mpr hblank
    rw [tokens_cons hblank] at h
    rcases List.mem_cons.mp h with rfl | h
    · exact spelled_lexeme hblank ahead
    · exact ih h

/-- A class without blanks and without U+0000 has its lexemes at its characters. -/
theorem not_blank_of_class {p : Char → Bool}
    (hp : [' ', '\t', '\r', '\n', '\x00'].any p = false) (h : p x = true) :
    x.isWhitespace = false ∧ x ≠ '\x00' := by
  have hne : ∀ y ∈ [' ', '\t', '\r', '\n', '\x00'], x ≠ y := by
    rintro y hy rfl
    exact List.any_eq_false.mp hp x hy h
  constructor
  · simp [Char.isWhitespace, hne]
  · exact hne _ (by decide)

theorem not_letter_of_digit (h : x.isDigit = true) : isLetter x = false := by
  rw [← Bool.not_eq_true]
  intro hletter
  unfold isLetter Char.isAlpha Char.isUpper Char.isLower at hletter
  unfold Char.isDigit at h
  simp only [Bool.or_eq_true, Bool.and_eq_true, decide_eq_true_eq] at hletter h
  rcases hletter with (hupper | hlower) | rfl
  · simp only [ge_iff_le, UInt32.le_iff_toNat_le] at h hupper
    have hlt : '9'.val.toNat < 'A'.val.toNat := by decide
    omega
  · simp only [ge_iff_le, UInt32.le_iff_toNat_le] at h hlower
    have hlt : '9'.val.toNat < 'a'.val.toNat := by decide
    omega
  · exact absurd h.2 (by decide)

end Lexing

/-! ## 4. Tokens up to the end -/

/-- Handing out tokens up to the first end gives those before it, and the end. -/
theorem Lexer.rest_eq {c : Cursor} {passed ahead : List Char} (h : c.Splits passed ahead) :
    (Lexer.rest ⟨c, false⟩).1 =
      (Lexing.tokens ahead).takeWhile (fun t => !t.is .eof) ++ [Token.eof] := by
  induction hlen : ahead.length using Nat.strongRecOn generalizing c passed ahead with
  | ind n ih =>
    rw [← Lexing.tokens_dropWhile, Lexer.rest, if_neg Bool.false_ne_true]
    cases hrest : ahead.dropWhile Char.isWhitespace with
    | nil =>
      rw [Cursor.scan_of_end (h.scan_of_nil hrest), Lexing.tokens_nil]
      rfl
    | cons x rest =>
      obtain ⟨hchar, htoken, passed', hstop⟩ := h.scan_of_cons hrest
      have hblank := Cursor.isWhitespace_of_dropWhile hrest
      have hshorter := Cursor.length_lexeme_lt hrest
      rw [Lexing.tokens_cons hblank, htoken]
      -- U+0000 ends the tokens as the end of the source does
      by_cases hend : (Lexing.lexeme x rest).1.is .eof = true
      · rw [dif_pos hend, List.takeWhile_cons_of_neg (by rw [hend]; decide),
          (Lexing.spelled_lexeme hblank rest).eq_eof (is_eq_true_iff.mp hend)]
        rfl
      · rw [dif_neg hend, List.takeWhile_cons_of_pos (by rw [Bool.eq_false_iff.mpr hend]; rfl)]
        show _ :: (Lexer.rest ⟨c.scan.2, false⟩).1 = _
        rw [ih _ (hlen ▸ hshorter) hstop rfl]
        rfl

theorem tokenize_eq (source : String) :
    tokenize source =
      (Lexing.tokens source.toList).takeWhile (fun t => !t.is .eof) ++ [Token.eof] :=
  Lexer.rest_eq (Cursor.splits_start source)

theorem takeWhile_tokenize (source : String) :
    (tokenize source).takeWhile (fun t => !t.is .eof) =
      (Lexing.tokens source.toList).takeWhile (fun t => !t.is .eof) := by
  rw [tokenize_eq, List.takeWhile_append_of_pos]
  · rw [List.takeWhile_cons_of_neg (by decide), List.append_nil]
  · intro t ht
    exact List.all_eq_true.mp List.all_takeWhile t ht

namespace Lexing

variable {x : Char} {ahead : List Char}

/-- Only U+0000 is read as an end: every other lexeme has a literal. -/
theorem lexeme_ne_eof (hblank : x.isWhitespace = false) (h : x ≠ '\x00') (ahead : List Char) :
    (lexeme x ahead).1.kind ≠ .eof := by
  intro heof
  have hliteral : (lexeme x ahead).1.literal = "" :=
    congrArg Token.literal ((spelled_lexeme hblank ahead).eq_eof heof)
  revert hliteral
  unfold lexeme
  rw [if_neg h]
  split
  · simp [Token.ofWord]
  · split
    · simp
    · split <;> simp [Token.ofChar]

theorem ne_eof_of_mem_tokens (h : '\x00' ∉ ahead) {t : Token} (ht : t ∈ tokens ahead) :
    t.kind ≠ .eof := by
  induction ahead using tokens.induct with
  | case1 =>
    rw [tokens_nil] at ht
    exact absurd ht List.not_mem_nil
  | case2 x ahead hblank ih =>
    rw [tokens_cons_of_blank hblank] at ht
    exact ih (fun hmem => h (List.mem_cons_of_mem x hmem)) ht
  | case3 x ahead hblank ih =>
    have hblank := Bool.eq_false_iff.mpr hblank
    rw [tokens_cons hblank] at ht
    rcases List.mem_cons.mp ht with rfl | ht
    · exact lexeme_ne_eof hblank (fun hnul => h (hnul ▸ List.mem_cons_self)) ahead
    · refine ih (fun hmem => h (List.mem_cons_of_mem x ?_)) ht
      exact (lexeme_suffix x ahead).subset hmem

end Lexing

/-- Without U+0000 all tokens of a source stand before the end. -/
theorem tokens_eq_of_no_nul {source : String} (h : '\x00' ∉ source.toList) :
    (tokenize source).takeWhile (fun t => !t.is .eof) = (Cursor.start source).tokens := by
  rw [takeWhile_tokenize, tokens_start]
  refine List.takeWhile_eq_self_iff.mpr fun t ht => ?_
  rw [is_eq_false_iff.mpr (Lexing.ne_eof_of_mem_tokens h ht)]
  rfl

theorem tokenize_of_no_nul {source : String} (h : '\x00' ∉ source.toList) :
    tokenize source = (Cursor.start source).tokens ++ [Token.eof] := by
  rw [tokenize_eq, ← takeWhile_tokenize, tokens_eq_of_no_nul h]

end LetLang
