import LetLang.Proofs.Lexing.Layouts

/-!
# Concatenation — when two texts lex by themselves

A text behind another leaves the tokens of the first as they are unless the first ends with a token
that goes on with the character behind it.  Such a token exists in three cases only, each of which
shows at the seam: two letters, two digits, or a single `=` or `!` before another `=`.
-/

namespace LetLang

open Token

/-! ## 1. The token at the end of a text -/

namespace Lexing

variable {x : Char} {text ahead behind rest : List Char} {t u : Token}

/-- The text ends with this token: it is the last one, and no blank stands behind it. -/
structure EndsWith (text : List Char) (t : Token) : Prop where
  last : (tokens text).getLast? = some t
  no_blank : ∃ x, text.getLast? = some x ∧ x.isWhitespace = false

theorem tokens_ne_nil (hx : x ∈ text) (hblank : x.isWhitespace = false) : tokens text ≠ [] := by
  induction text using tokens.induct with
  | case1 => exact absurd hx List.not_mem_nil
  | case2 y ahead hy ih =>
    rw [tokens_cons_of_blank hy]
    rcases List.mem_cons.mp hx with rfl | hx
    · rw [hblank] at hy
      exact absurd hy Bool.false_ne_true
    · exact ih hx
  | case3 y ahead hy ih =>
    rw [tokens_cons (Bool.eq_false_iff.mpr hy)]
    exact List.cons_ne_nil _ _

/-- A text that ends with something else than a blank ends with a token. -/
theorem exists_endsWith (hlast : text.getLast? = some x) (hblank : x.isWhitespace = false) :
    ∃ t, EndsWith text t := by
  have hne := tokens_ne_nil (List.mem_of_getLast? hlast) hblank
  exact ⟨_, List.getLast?_eq_some_getLast hne, x, hlast, hblank⟩

theorem not_endsWith_nil (t : Token) : ¬ EndsWith [] t := by
  rintro ⟨-, x, hlast, -⟩
  cases hlast

theorem endsWith_cons_of_blank (h : x.isWhitespace = true) :
    EndsWith (x :: ahead) t ↔ EndsWith ahead t := by
  cases ahead with
  | nil =>
    refine iff_of_false ?_ (not_endsWith_nil t)
    rintro ⟨-, y, hlast, hblank⟩
    obtain rfl : x = y := Option.some.inj hlast
    rw [h] at hblank
    exact absurd hblank.symm Bool.false_ne_true
  | cons y ahead =>
    constructor
    · rintro ⟨hlast, hblank⟩
      rw [tokens_cons_of_blank h] at hlast
      exact ⟨hlast, hblank⟩
    · rintro ⟨hlast, hblank⟩
      rw [← tokens_cons_of_blank h] at hlast
      exact ⟨hlast, hblank⟩

/-- What a text ends with is decided behind its first lexeme, unless that is all of it. -/
theorem endsWith_append {ahead : List Char} (hbehind : behind ≠ [])
    (htokens : tokens (ahead ++ behind) = t :: tokens behind) :
    EndsWith (ahead ++ behind) u ↔ EndsWith behind u := by
  have hchar : (ahead ++ behind).getLast? = behind.getLast? := by
    rw [List.getLast?_append, List.getLast?_eq_some_getLast hbehind, Option.some_or]
  have htoken : ∀ y ∈ behind.getLast?, y.isWhitespace = false →
      (tokens (ahead ++ behind)).getLast? = (tokens behind).getLast? := by
    intro y hy hblank
    obtain ⟨v, vs, hcons⟩ :=
      List.exists_cons_of_ne_nil (tokens_ne_nil (List.mem_of_getLast? hy) hblank)
    rw [htokens, hcons, List.getLast?_cons_cons]
  constructor
  · rintro ⟨hlast, y, hy, hblank⟩
    rw [hchar] at hy
    rw [htoken y hy hblank] at hlast
    exact ⟨hlast, y, hy, hblank⟩
  · rintro ⟨hlast, y, hy, hblank⟩
    rw [← htoken y hy hblank] at hlast
    exact ⟨hlast, y, hchar.trans hy, hblank⟩

/-- A literal by itself ends with its token. -/
theorem endsWith_literal (h : t.Spelled) (heof : t.kind ≠ .eof) :
    EndsWith t.literal.toList u ↔ u = t := by
  have htokens := tokens_literal h heof
  have hlast := List.getLast?_eq_some_getLast (h.toList_ne_nil heof)
  constructor
  · rintro ⟨hu, -⟩
    rw [htokens] at hu
    exact (Option.some.inj hu).symm
  · rintro rfl
    exact ⟨by rw [htokens]; rfl, _, hlast, (h.of_mem (List.mem_of_getLast? hlast)).1⟩

/-! ## 2. Joining texts -/

/-- A lexeme stays as it is behind whatever its token does not go on with. -/
theorem lexeme_append_of_not_goesOn (hblank : x.isWhitespace = false) (hnul : x ≠ '\x00')
    (hrest : ∀ y ∈ ((lexeme x ahead).2 ++ rest).head?, ¬ (lexeme x ahead).1.GoesOn y) :
    lexeme x (ahead ++ rest) = ((lexeme x ahead).1, (lexeme x ahead).2 ++ rest) := by
  have hspelled := spelled_lexeme hblank ahead
  have htext := (lexeme_append_rest hnul ahead).1
  obtain ⟨y, ys, hcons, -, hlexeme⟩ :=
    lexeme_literal hspelled (lexeme_ne_eof hblank hnul ahead) hrest
  rw [hcons, List.cons_append] at htext
  obtain ⟨rfl, hahead⟩ := List.cons.inj htext
  rw [← hlexeme, ← List.append_assoc, ← hahead]

/-- A literal that goes on with the next character is no token there. -/
theorem not_goesOn_of_tokens (h : t.Spelled) (heof : t.kind ≠ .eof)
    (htokens : tokens (t.literal.toList ++ rest) = t :: tokens rest) :
    ∀ y ∈ rest.head?, ¬ t.GoesOn y := by
  obtain ⟨x, xs, hcons, hblank, hnul, -⟩ := h.first heof
  rw [hcons, List.cons_append, tokens_cons hblank] at htokens
  have hfirst : (lexeme x (xs ++ rest)).1 = t := (List.cons.inj htokens).1
  -- the first lexeme is the literal, so what is behind it is the rest
  obtain ⟨htext, hstop⟩ := lexeme_append_rest hnul (xs ++ rest)
  rw [hfirst, ← List.cons_append, ← hcons] at htext
  rw [hfirst, ← List.append_cancel_left htext] at hstop
  exact hstop

/-- **Two texts lex by themselves** exactly if the first does not end with a token that goes on with
the second. -/
theorem tokens_append_iff (h : '\x00' ∉ text) :
    tokens (text ++ rest) = tokens text ++ tokens rest ↔
      ∀ t, EndsWith text t → ∀ y ∈ rest.head?, ¬ t.GoesOn y := by
  -- up to the last lexeme nothing depends on the second text
  induction text using tokens.induct with
  | case1 =>
    rw [tokens_nil]
    exact iff_of_true rfl fun t ht => absurd ht (not_endsWith_nil t)
  | case2 x ahead hx ih =>
    rw [List.cons_append, tokens_cons_of_blank hx, tokens_cons_of_blank hx,
      ih (List.not_mem_of_not_mem_cons h)]
    simp only [endsWith_cons_of_blank hx]
  | case3 x ahead hx ih =>
    have hblank := Bool.eq_false_iff.mpr hx
    have hnul : x ≠ '\x00' := (List.ne_of_not_mem_cons h).symm
    obtain ⟨t, behind, hread⟩ : ∃ t behind, lexeme x ahead = (t, behind) := ⟨_, _, rfl⟩
    have hspelled := spelled_lexeme hblank ahead
    have heof := lexeme_ne_eof hblank hnul ahead
    have htokens := tokens_cons hblank ahead
    have hlexeme := @lexeme_append_of_not_goesOn x ahead rest hblank hnul
    obtain ⟨htext, hstop⟩ := lexeme_append_rest hnul ahead
    have hahead : '\x00' ∉ (lexeme x ahead).2 :=
      fun hmem => List.not_mem_of_not_mem_cons h ((lexeme_suffix x ahead).subset hmem)
    rw [hread] at hspelled heof htokens hlexeme htext hstop hahead ih
    by_cases hbehind : behind = []
    · -- the lexeme is all of the first text
      subst hbehind
      rw [List.append_nil] at htext
      rw [htext, tokens_literal hspelled heof, List.singleton_append]
      simp only [endsWith_literal hspelled heof, forall_eq]
      constructor
      · exact not_goesOn_of_tokens hspelled heof
      · intro hrest
        rw [← htext, List.cons_append, tokens_cons hblank, hlexeme hrest, List.nil_append]
    · have hhead : (behind ++ rest).head? = behind.head? := by
        rw [List.head?_append, List.head?_eq_some_head hbehind, Option.some_or]
      have hends := fun u => endsWith_append (u := u) hbehind (htext ▸ htokens)
      rw [List.cons_append, tokens_cons hblank, hlexeme (hhead ▸ hstop), htokens,
        List.cons_append, List.cons_inj_right, ih hahead, htext]
      simp only [hends]

/-! ## 3. Seams -/

/-- The literal of the token that a text ends with is the end of the text. -/
theorem EndsWith.suffix (h : EndsWith text t) (hnul : '\x00' ∉ text) :
    t.literal.toList <:+ text := by
  induction text using tokens.induct with
  | case1 => exact absurd h (not_endsWith_nil t)
  | case2 x ahead hx ih =>
    have hahead := ih ((endsWith_cons_of_blank hx).mp h) (List.not_mem_of_not_mem_cons hnul)
    exact hahead.trans (List.suffix_cons x ahead)
  | case3 x ahead hx ih =>
    have hblank := Bool.eq_false_iff.mpr hx
    have hx : x ≠ '\x00' := (List.ne_of_not_mem_cons hnul).symm
    have htext := (lexeme_append_rest hx ahead).1
    have htokens := tokens_cons hblank ahead
    have hahead : '\x00' ∉ (lexeme x ahead).2 :=
      fun hmem => List.not_mem_of_not_mem_cons hnul ((lexeme_suffix x ahead).subset hmem)
    by_cases hbehind : (lexeme x ahead).2 = []
    · rw [hbehind, List.append_nil] at htext
      have heof := lexeme_ne_eof hblank hx ahead
      rw [htext, endsWith_literal (spelled_lexeme hblank ahead) heof] at h
      have hliteral : t.literal.toList = x :: ahead := by rw [h, ← htext]
      exact hliteral ▸ List.suffix_rfl
    · rw [htext] at h htokens
      rw [htext]
      have hends := (endsWith_append hbehind htokens).mp h
      exact (ih hends hahead).trans (List.suffix_append _ _)

theorem EndsWith.spelled (h : EndsWith text t) : t.Spelled :=
  spelled_of_mem_tokens (List.mem_of_getLast? h.last)

theorem endsWith_of_suffix (h : '\x00' ∉ text) (hlast : (tokens text).getLast? = some t)
    (hsuffix : t.literal.toList <:+ text) : EndsWith text t := by
  have hmem := List.mem_of_getLast? hlast
  have hspelled := spelled_of_mem_tokens hmem
  have hchar := List.getLast?_eq_some_getLast
    (hspelled.toList_ne_nil (ne_eof_of_mem_tokens h hmem))
  obtain ⟨before, rfl⟩ := hsuffix
  refine ⟨hlast, _, ?_, (hspelled.of_mem (List.mem_of_getLast? hchar)).1⟩
  rw [List.getLast?_append, hchar, Option.some_or]

/-- The last character of a text tells words and numbers from all other tokens at its end. -/
theorem EndsWith.of_getLast? (h : EndsWith text t) (hnul : '\x00' ∉ text)
    (hx : text.getLast? = some x) :
    (isLetter x = true ↔ t.IsWord) ∧ (x.isDigit = true ↔ t.kind = .integer) := by
  have heof : t.kind ≠ .eof := ne_eof_of_mem_tokens hnul (List.mem_of_getLast? h.last)
  have hne := h.spelled.toList_ne_nil heof
  obtain ⟨before, rfl⟩ := h.suffix hnul
  rw [List.getLast?_append, List.getLast?_eq_some_getLast hne, Option.some_or] at hx
  have hmem := List.mem_of_getLast? ((List.getLast?_eq_some_getLast hne).trans hx)
  exact (h.spelled.of_mem hmem).2.2

theorem not_goesOn_nul (t : Token) : ¬ t.GoesOn '\x00' := by
  rintro (⟨-, hletter⟩ | ⟨-, hdigit⟩ | ⟨-, hequals⟩)
  · exact absurd hletter (by decide)
  · exact absurd hdigit (by decide)
  · exact absurd hequals (by decide)

/-- No token goes on with U+0000, so it makes no difference that a text is cut there. -/
theorem forall_not_goesOn_before_nul (text : List Char) (t : Token) :
    (∀ y ∈ (text.takeWhile (· ≠ '\x00')).head?, ¬ t.GoesOn y) ↔
      ∀ y ∈ text.head?, ¬ t.GoesOn y := by
  cases text with
  | nil => rfl
  | cons y rest =>
    by_cases hy : y = '\x00'
    · subst hy
      rw [List.takeWhile_cons_of_neg (by decide)]
      refine iff_of_true nofun ?_
      rintro _ ⟨⟩
      exact not_goesOn_nul t
    · rw [List.takeWhile_cons_of_pos (by simpa using hy)]
      rfl

end Lexing

theorem takeWhile_of_no_nul {text : List Char} (h : '\x00' ∉ text) :
    text.takeWhile (· ≠ '\x00') = text := by
  rw [List.takeWhile_eq_self_iff]
  intro x hx
  have hne : x ≠ '\x00' := fun hnul => h (hnul ▸ hx)
  exact decide_eq_true hne

theorem dropLast_tokenize {source : String} (h : '\x00' ∉ source.toList) :
    (tokenize source).dropLast = Lexing.tokens source.toList := by
  rw [tokenize_of_no_nul h, tokens_start, List.dropLast_concat]

/-- What the first source ends with and the second begins with is one lexeme where they meet. -/
inductive FuseAtSeam (a b : String) : Prop
  | letters {x y : Char} (last : a.toList.getLast? = some x) (next : b.toList.head? = some y)
      (left : isLetter x = true) (right : isLetter y = true)
  | digits {x y : Char} (last : a.toList.getLast? = some x) (next : b.toList.head? = some y)
      (left : x.isDigit = true) (right : y.isDigit = true)
  /-- The first half of a pair is the last token before the end, and the source ends with it. -/
  | pair {t : Token} (last : (tokenize a).dropLast.getLast? = some t)
      (half : t.kind = .assignment ∨ t.kind = .not) (suffix : t.literal.toList <:+ a.toList)
      (next : b.toList.head? = some '=')

theorem fuseAtSeam_iff {a b : String} (h : '\x00' ∉ a.toList) :
    FuseAtSeam a b ↔ ∃ t, Lexing.EndsWith a.toList t ∧ ∃ y ∈ b.toList.head?, t.GoesOn y := by
  constructor
  · rintro (⟨hlast, hnext, hleft, hright⟩ | ⟨hlast, hnext, hleft, hright⟩ |
      @⟨t, hlast, hhalf, hsuffix, hnext⟩)
    · obtain ⟨t, ht⟩ := Lexing.exists_endsWith hlast (Lexing.not_blank_of_class rfl hleft).1
      have hword := (ht.of_getLast? h hlast).1.mp hleft
      exact ⟨t, ht, _, hnext, .word hword hright⟩
    · obtain ⟨t, ht⟩ := Lexing.exists_endsWith hlast (Lexing.not_blank_of_class rfl hleft).1
      have hnumber := (ht.of_getLast? h hlast).2.mp hleft
      exact ⟨t, ht, _, hnext, .number hnumber hright⟩
    · rw [dropLast_tokenize h] at hlast
      exact ⟨t, Lexing.endsWith_of_suffix h hlast hsuffix, _, hnext, .pair hhalf rfl⟩
  · rintro ⟨t, ht, y, hnext, hgoes⟩
    obtain ⟨x, hlast, -⟩ := ht.no_blank
    have hclass := ht.of_getLast? h hlast
    rcases hgoes with ⟨hleft, hright⟩ | ⟨hleft, hright⟩ | ⟨hleft, rfl⟩
    · exact .letters hlast hnext (hclass.1.mpr hleft) hright
    · exact .digits hlast hnext (hclass.2.mpr hleft) hright
    · have hend := (dropLast_tokenize h).symm ▸ ht.last
      exact .pair hend hleft (ht.suffix h) hnext

/-- **Concatenation.**  The tokens of a source without U+0000 and those of another are the tokens of
the two together, the end between them apart, exactly if nothing fuses where they meet. -/
theorem tokenize_append_iff {a b : String} (h : '\x00' ∉ a.toList) :
    tokenize (a ++ b) = (tokenize a).dropLast ++ tokenize b ↔ ¬ FuseAtSeam a b := by
  have hboth : (a ++ b).toList.takeWhile (· ≠ '\x00') =
      a.toList ++ b.toList.takeWhile (· ≠ '\x00') := by
    rw [String.toList_append, List.takeWhile_append_of_pos]
    exact List.takeWhile_eq_self_iff.mp (takeWhile_of_no_nul h)
  rw [fuseAtSeam_iff h, dropLast_tokenize h, tokenize_eq_tokens, tokenize_eq_tokens, hboth,
    ← List.append_assoc, List.append_left_inj, Lexing.tokens_append_iff h]
  simp only [Lexing.forall_not_goesOn_before_nul, not_exists, not_and]

example : tokenize ("a ==" ++ "= b") = (tokenize "a ==").dropLast ++ tokenize "= b" := by
  decide +kernel

example : tokenize ("a =" ++ "== b") ≠ (tokenize "a =").dropLast ++ tokenize "== b" := by
  decide +kernel

/-- A keyword before a digit, and a pair before the first half of another. -/
theorem tokenize_append_pair :
    '\x00' ∉ "let1==".toList ∧
      tokenize ("let1==" ++ "=\x00=") = (tokenize "let1==").dropLast ++ tokenize "=\x00=" := by
  have hnul : '\x00' ∉ "let1==".toList := by decide
  refine ⟨hnul, (tokenize_append_iff hnul).mpr ?_⟩
  rintro (⟨hlast, -, hleft, -⟩ | ⟨hlast, -, hleft, -⟩ | ⟨hlast, hhalf, -, -⟩)
  · cases hlast
    exact absurd hleft (by decide)
  · cases hlast
    exact absurd hleft (by decide)
  · have htoken : (tokenize "let1==").dropLast.getLast? = some ⟨.equals, "=="⟩ := by
      decide +kernel
    cases htoken.symm.trans hlast
    exact absurd hhalf (by decide)

end LetLang
