import LetLang.Proofs.Lexing.Lexemes

/-!
# Pieces of text — where texts lex by themselves

A lexeme ends where it does whatever follows, as long as what follows can neither be part of a
word or a number nor be the second half of a pair.  So a text that stands before such a character
lexes by itself.
-/

namespace LetLang

open Token

namespace Lexing

/-! ## 1. Separate text -/

/-- A character at which every lexeme before it has ended. -/
structure Separates (x : Char) : Prop where
  not_letter : isLetter x = false
  not_digit : x.isDigit = false
  ne_equals : x ≠ '='

variable {x : Char} {ahead rest : List Char}

theorem takeWhile_append_of_head {p : Char → Bool} (h : ∀ y ∈ rest.head?, p y = false)
    (ahead : List Char) :
    (ahead ++ rest).takeWhile p = ahead.takeWhile p ∧
      (ahead ++ rest).dropWhile p = ahead.dropWhile p ++ rest := by
  induction ahead with
  | nil =>
    cases rest with
    | nil => exact ⟨rfl, rfl⟩
    | cons y rest =>
      have hy : ¬ p y = true := Bool.eq_false_iff.mp (h y rfl)
      exact ⟨List.takeWhile_cons_of_neg hy, List.dropWhile_cons_of_neg hy⟩
  | cons y ahead ih =>
    by_cases hy : p y = true
    · simp only [List.cons_append, List.takeWhile_cons_of_pos hy, List.dropWhile_cons_of_pos hy,
        ih.1, ih.2, and_self]
    · simp only [List.cons_append, List.takeWhile_cons_of_neg hy, List.dropWhile_cons_of_neg hy,
        and_self]

theorem takeWhile_append_of_all {p : Char → Bool} (hall : ∀ y ∈ ahead, p y = true)
    (h : ∀ y ∈ rest.head?, p y = false) :
    (ahead ++ rest).takeWhile p = ahead ∧ (ahead ++ rest).dropWhile p = rest := by
  obtain ⟨htake, hdrop⟩ := takeWhile_append_of_head h ahead
  rw [List.takeWhile_eq_self_iff.mpr hall] at htake
  rw [List.dropWhile_eq_nil_iff.mpr hall, List.nil_append] at hdrop
  exact ⟨htake, hdrop⟩

theorem pair?_append (h : ∀ y ∈ rest.head?, Separates y) (x : Char) :
    pair? x (ahead ++ rest).head? = pair? x ahead.head? := by
  cases ahead with
  | cons y ahead => rfl
  | nil =>
    have hne : rest.head? ≠ some '=' := fun heq => (h '=' heq).ne_equals rfl
    rw [List.nil_append, pair?, if_neg hne]
    rfl

/-- A lexeme is the same whatever separate text follows. -/
theorem lexeme_append (h : ∀ y ∈ rest.head?, Separates y) (x : Char) (ahead : List Char) :
    lexeme x (ahead ++ rest) = ((lexeme x ahead).1, (lexeme x ahead).2 ++ rest) := by
  have hletter := takeWhile_append_of_head (fun y hy => (h y hy).not_letter) ahead
  have hdigit := takeWhile_append_of_head (fun y hy => (h y hy).not_digit) ahead
  unfold lexeme
  rw [hletter.1, hletter.2, hdigit.1, hdigit.2, pair?_append h]
  split
  · rfl
  · split
    · rfl
    · split
      · rfl
      · cases hpair : pair? x ahead.head? with
        | none => rfl
        | some pair =>
          -- a pair has its second half ahead
          cases ahead with
          | nil => cases hpair
          | cons y ahead => rfl

/-- Text that is followed by separate text lexes by itself. -/
theorem tokens_append (h : ∀ y ∈ rest.head?, Separates y) (ahead : List Char) :
    tokens (ahead ++ rest) = tokens ahead ++ tokens rest := by
  induction ahead using tokens.induct with
  | case1 => rw [tokens_nil, List.nil_append, List.nil_append]
  | case2 x ahead hblank ih =>
    rw [List.cons_append, tokens_cons_of_blank hblank, tokens_cons_of_blank hblank, ih]
  | case3 x ahead hblank ih =>
    have hblank := Bool.eq_false_iff.mpr hblank
    rw [List.cons_append, tokens_cons hblank, tokens_cons hblank, lexeme_append h, ih,
      List.cons_append]

/-! ## 2. Marks -/

theorem lexeme_of_single (hnul : x ≠ '\x00') (hletter : isLetter x = false)
    (hdigit : x.isDigit = false) (hpair : pair? x ahead.head? = none) :
    lexeme x ahead = (Token.ofChar x, ahead) := by
  rw [lexeme, if_neg hnul, if_neg (Bool.eq_false_iff.mp hletter),
    if_neg (Bool.eq_false_iff.mp hdigit), hpair]

theorem tokens_cons_of_single (hblank : x.isWhitespace = false) (hnul : x ≠ '\x00')
    (hletter : isLetter x = false) (hdigit : x.isDigit = false)
    (hpair : pair? x ahead.head? = none) :
    tokens (x :: ahead) = Token.ofChar x :: tokens ahead := by
  rw [tokens_cons hblank, lexeme_of_single hnul hletter hdigit hpair]

/-- A mark is a token by itself, whatever follows, and separates what stands around it. -/
theorem tokens_cons_of_mark (h : x ∈ ['(', ')', ',', ';', '-']) (ahead : List Char) :
    tokens (x :: ahead) = Token.ofChar x :: tokens ahead := by
  simp only [List.mem_cons, List.not_mem_nil, or_false] at h
  rcases h with rfl | rfl | rfl | rfl | rfl <;>
    exact tokens_cons_of_single rfl (by decide) rfl rfl (ite_self none)

theorem separates_of_mem (h : x ∈ [' ', '(', ')', ',', ';']) : Separates x := by
  simp only [List.mem_cons, List.not_mem_nil, or_false] at h
  rcases h with rfl | rfl | rfl | rfl | rfl <;> exact ⟨rfl, rfl, by decide⟩

theorem tokens_append_of_separates (h : Separates x) (before ahead : List Char) :
    tokens (before ++ x :: ahead) = tokens before ++ tokens (x :: ahead) := by
  refine tokens_append (fun y hy => ?_) before
  cases hy
  exact h

theorem tokens_append_cons (h : x ∈ [' ', '(', ')', ',', ';']) (before ahead : List Char) :
    tokens (before ++ x :: ahead) = tokens before ++ tokens (x :: ahead) :=
  tokens_append_of_separates (separates_of_mem h) before ahead

theorem tokens_append_semicolon (before ahead : List Char) :
    tokens (before ++ ';' :: ahead) = tokens before ++ Token.ofChar ';' :: tokens ahead := by
  rw [tokens_append_cons (by decide), tokens_cons_of_mark (by decide)]

end Lexing

end LetLang
