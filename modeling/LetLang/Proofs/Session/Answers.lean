import LetLang.Proofs.Printing.Rebuilding
import LetLang.Proofs.Session.Reports

/-!
# Answers — what is shown of a text tells what came of it

A text is answered by its printed program or by the report of its errors, and nothing says which of
the two it is.  But a report has a colon in it, which is no token of the language, and all tokens of
a printed program are.  So the answer tells whether there were errors; and then it tells which, or
else it tells the program, but for the tokens of expressions by themselves, which are not printed.
-/

namespace LetLang

open Token Lexing

/-! ## 1. What is not printed -/

namespace Statement

theorem text_withoutToken (s : Statement) : s.withoutToken.text = s.text := by
  cases s <;> rfl

theorem isExpression_withoutToken (s : Statement) :
    s.withoutToken.isExpression = s.isExpression := by
  cases s <;> rfl

theorem listText_map_withoutToken (ss : List Statement) :
    listText (ss.map withoutToken) = listText ss := by
  induction ss with
  | nil => rfl
  | cons s rest ih =>
    cases rest with
    | nil => exact s.text_withoutToken
    | cons s' rest =>
      show s.withoutToken.text ++ (if s.withoutToken.isExpression then ";" else "") ++
        listText ((s' :: rest).map withoutToken) = _
      rw [ih, text_withoutToken, isExpression_withoutToken]
      rfl

end Statement

theorem Program.text_eq_of_withoutToken {p q : Program}
    (h : p.statements.map Statement.withoutToken = q.statements.map Statement.withoutToken) :
    p.text = q.text := by
  rw [text, text, ← Statement.listText_map_withoutToken, h, Statement.listText_map_withoutToken]

/-! ## 2. The two kinds of answers -/

variable {source : String}

theorem printProgram_of_errors (h : (parse source).2 ≠ []) :
    printProgram source = SyntaxError.report (parse source).2 := by
  unfold printProgram
  split
  · next program hparse =>
    rw [hparse] at h
    exact absurd rfl h
  · next program errors _ hparse => rw [hparse]

theorem printProgram_of_no_errors (h : (parse source).2 = []) :
    printProgram source = (parse source).1.text ++ "\n" := by
  unfold printProgram
  split
  · next program hparse => rw [hparse]
  · next program errors hne hparse =>
    rw [hparse] at h
    exact absurd h hne

/-- The answer to a text without errors lexes to the printed tokens of its program. -/
theorem tokens_printProgram (h : (parse source).2 = []) :
    tokens (printProgram source).toList = Statement.listPrinted (parse source).1.statements := by
  have hlineFeed : Separates '\n' := ⟨rfl, rfl, by decide⟩
  have htext : (printProgram source).toList = (parse source).1.text.toList ++ '\n' :: [] := by
    rw [printProgram_of_no_errors h, String.toList_append]
    rfl
  rw [htext, tokens_append_of_separates hlineFeed, tokens_cons_of_blank rfl, tokens_nil,
    List.append_nil]
  exact Statement.tokens_listText (wellFormed_parse source)

/-- A text with errors and one without are answered otherwise. -/
theorem printProgram_ne {s t : String} (hs : (parse s).2 ≠ []) (ht : (parse t).2 = []) :
    printProgram s ≠ printProgram t := by
  intro h
  obtain ⟨u, hu, hillegal⟩ := SyntaxError.exists_illegal_of_report hs
  rw [← printProgram_of_errors hs, h, tokens_printProgram ht] at hu
  exact Statement.legal_listPrinted (wellFormed_parse t) u hu hillegal

/-- **An answer tells the outcome.**  Two texts have the same answer exactly if both have errors, and
the same ones, or neither has one and their programs are the same but for the tokens of expressions
by themselves, however deep they nest. -/
theorem printProgram_eq_iff (s t : String) :
    printProgram s = printProgram t ↔
      ((parse s).2 ≠ [] ∧ (parse t).2 ≠ [] ∧ (parse s).2 = (parse t).2) ∨
      ((parse s).2 = [] ∧ (parse t).2 = [] ∧
        (parse s).1.statements.map Statement.withoutToken =
          (parse t).1.statements.map Statement.withoutToken) := by
  constructor
  · intro h
    by_cases hs : (parse s).2 = [] <;> by_cases ht : (parse t).2 = []
    · have htokens := congrArg (fun answer => tokens answer.toList) h
      simp only [tokens_printProgram hs, tokens_printProgram ht] at htokens
      exact .inr ⟨hs, ht, Statement.map_withoutToken_of_listPrinted (wellFormed_parse s)
        (wellFormed_parse t) htokens⟩
    · exact absurd h.symm (printProgram_ne ht hs)
    · exact absurd h (printProgram_ne hs ht)
    · rw [printProgram_of_errors hs, printProgram_of_errors ht] at h
      exact .inl ⟨hs, ht, SyntaxError.report_inj (fun _ => SyntaxError.onOneLine_of_mem_parse)
        (fun _ => SyntaxError.onOneLine_of_mem_parse) h⟩
  · rintro (⟨hs, ht, herrors⟩ | ⟨hs, ht, hprogram⟩)
    · rw [printProgram_of_errors hs, printProgram_of_errors ht, herrors]
    · rw [printProgram_of_no_errors hs, printProgram_of_no_errors ht,
        Program.text_eq_of_withoutToken hprogram]

example : parse "(a); 1" ≠ parse "a; 1" ∧ printProgram "(a); 1" = printProgram "a; 1" := by
  decide +kernel

end LetLang
