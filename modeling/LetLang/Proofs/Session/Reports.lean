import Mathlib.Data.List.Nodup
import LetLang.Proofs.Grammar.Errors
import LetLang.Proofs.Lexing.Pieces
import LetLang.Proofs.Text.Forms
import LetLang.Session

/-!
# Reports — a report tells the errors

A line of a report names its error before the first blank behind the heading, and what it tells of
the error holds everything else there is to know.  A number that is too large is shown as it is; but
it is made of digits, so no line of a report has a line feed but the one at its end.
-/

namespace LetLang

open Token Lexing

namespace Token.Kind

theorem nodup_map_text : (all.map text).Nodup := by
  decide +kernel

theorem text_inj {k l : Kind} (h : k.text = l.text) : k = l :=
  List.inj_on_of_nodup_map nodup_map_text (mem_all k) (mem_all l) h

theorem plain_text (k : Kind) : '\n' ∉ k.text.toList ∧ '`' ∉ k.text.toList := by
  have plain : ∀ k ∈ all, '\n' ∉ k.text.toList ∧ '`' ∉ k.text.toList := by decide
  exact plain k (mem_all k)

end Token.Kind

namespace SyntaxError

/-! ## 1. One line -/

/-- What is told of an error behind its name. -/
def told (e : SyntaxError) : String :=
  e.tip?.getD e.message

/-- A line without the line feed at its end. -/
def entry (e : SyntaxError) : List Char :=
  "Error: ".toList ++ (e.name.toList ++ ' ' :: '(' :: (e.told.toList ++ [')']))

theorem toList_line (e : SyntaxError) : e.line.toList = e.entry ++ ['\n'] := by
  show ("Error: " ++ e.name ++ " (" ++ e.told ++ ")\n").toList = _
  unfold entry
  simp

/-- A literal that is told as it is has no line feed in it. -/
def OnOneLine : SyntaxError → Prop
  | numberTooLarge literal => '\n' ∉ literal.toList
  | _ => True

variable {e f : SyntaxError}

theorem plain_name (e : SyntaxError) : '\n' ∉ e.name.toList ∧ ' ' ∉ e.name.toList := by
  cases e <;> simp only [name] <;> decide

open Text in
theorem lineFeed_not_mem_told (h : e.OnOneLine) : '\n' ∉ e.told.toList := by
  cases e with
  | unexpectedToken expected found =>
    have hexpected := not_mem_append (s := "expected next token to be `") (by decide)
      expected.plain_text.1
    have hfound := not_mem_append (not_mem_append hexpected (t := "`, got `") (by decide))
      found.plain_text.1
    exact not_mem_append hfound (by decide)
  | noExpressionStart found =>
    exact not_mem_append (not_mem_append (by decide) found.plain_text.1) (by decide)
  | illegalToken literal => exact not_mem_append (by decide) (lineFeed_not_mem_quoted literal)
  | numberTooLarge literal => exact not_mem_append (not_mem_append (by decide) h) (by decide)
  | nestingTooDeep limit =>
    have hlimit : '\n' ∉ (Nat.repr limit).toList := by
      intro hmem
      rw [Nat.repr_eq_ofList_toDigits, String.toList_ofList] at hmem
      exact absurd (Nat.isDigit_of_mem_toDigits (by decide) (by decide) hmem) (by decide)
    exact not_mem_append (not_mem_append (by decide) hlimit) (by decide)

theorem toList_told_unexpectedToken (expected found : Kind) :
    (unexpectedToken expected found).told.toList =
      "expected next token to be ".toList ++ '`' :: (expected.text.toList ++
        '`' :: (", got ".toList ++ '`' :: (found.text.toList ++ '`' :: " instead".toList))) := by
  show ("expected next token to be `" ++ expected.text ++ "`, got `" ++ found.text ++
    "` instead").toList = _
  simp

theorem eq_of_told (hname : e.name = f.name) (htold : e.told = f.told) : e = f := by
  cases e <;> cases f <;> simp only [name, String.reduceEq] at hname
  case unexpectedToken.unexpectedToken expected found expected' found' =>
    -- no kind is shown with a backquote in it, so the backquotes around the kinds are marks
    have hlists := congrArg String.toList htold
    rw [toList_told_unexpectedToken, toList_told_unexpectedToken] at hlists
    obtain ⟨hexpected, hrest⟩ := Text.append_mark_inj expected.plain_text.2
      expected'.plain_text.2 (List.cons.inj (List.append_cancel_left hlists)).2
    obtain ⟨hfound, -⟩ := Text.append_mark_inj found.plain_text.2
      found'.plain_text.2 (List.cons.inj (List.append_cancel_left hrest)).2
    rw [Kind.text_inj (String.toList_inj.mp hexpected),
      Kind.text_inj (String.toList_inj.mp hfound)]
  case noExpressionStart.noExpressionStart found found' =>
    have htext : found.text = found'.text :=
      String.append_right_inj _ |>.mp (String.append_left_inj _ |>.mp htold)
    rw [Kind.text_inj htext]
  case illegalToken.illegalToken literal literal' =>
    rw [Text.quoted_inj ((String.append_right_inj _).mp htold)]
  case numberTooLarge.numberTooLarge literal literal' =>
    have hliteral : literal = literal' :=
      String.append_right_inj _ |>.mp (String.append_left_inj _ |>.mp htold)
    rw [hliteral]
  case nestingTooDeep.nestingTooDeep limit limit' =>
    have hlimit : Nat.repr limit = Nat.repr limit' :=
      String.append_right_inj _ |>.mp (String.append_left_inj _ |>.mp htold)
    rw [Nat.repr_eq_ofList_toDigits, Nat.repr_eq_ofList_toDigits] at hlimit
    rw [Text.toDigits_inj (by decide) (by decide) (String.ofList_inj.mp hlimit)]

theorem eq_of_entry (h : e.entry = f.entry) : e = f := by
  obtain ⟨hname, hrest⟩ := Text.append_mark_inj e.plain_name.2 f.plain_name.2
    (List.append_cancel_left h)
  have htold := List.append_cancel_right (List.cons.inj hrest).2
  exact eq_of_told (String.toList_inj.mp hname) (String.toList_inj.mp htold)

theorem lineFeed_not_mem_entry (h : e.OnOneLine) : '\n' ∉ e.entry := by
  have hname := e.plain_name.1
  have htold := lineFeed_not_mem_told h
  unfold entry
  simp [hname, htold]

theorem selfDelimiting_line : Text.SelfDelimiting OnOneLine fun e => e.line.toList := by
  simp only [toList_line]
  exact .of_mark (fun _ _ _ _ => eq_of_entry) fun _ => lineFeed_not_mem_entry

/-! ## 2. Whole reports -/

variable {es fs : List SyntaxError}

theorem toList_report (es : List SyntaxError) :
    (report es).toList = es.flatMap fun e => e.line.toList := by
  rw [report, String.toList_join, List.flatMap_map]

/-- Errors on one line each are told by their report. -/
theorem report_inj (hes : ∀ e ∈ es, e.OnOneLine) (hfs : ∀ e ∈ fs, e.OnOneLine)
    (h : report es = report fs) : es = fs := by
  have hlists := congrArg String.toList h
  rw [toList_report, toList_report] at hlists
  refine selfDelimiting_line.flatMap_inj (fun e _ => ?_) hes hfs hlists
  rw [toList_line]
  exact List.append_ne_nil_of_right_ne_nil _ (List.cons_ne_nil _ _)

/-- The colon of a heading is no token of the language. -/
theorem exists_illegal_of_report (h : es ≠ []) :
    ∃ t ∈ tokens (report es).toList, t.kind = .illegal := by
  obtain ⟨e, rest, rfl⟩ := List.exists_cons_of_ne_nil h
  obtain ⟨ahead, hahead⟩ : ∃ ahead, e.line.toList = "Error".toList ++ ':' :: ahead := by
    have hline := e.toList_line
    unfold entry at hline
    exact ⟨_, hline⟩
  have hcolon : Separates ':' := ⟨rfl, rfl, by decide⟩
  have hpair : pair? ':' (ahead ++ (report rest).toList).head? = none := ite_self none
  rw [toList_report, List.flatMap_cons, hahead, ← toList_report, List.append_assoc,
    List.cons_append, tokens_append_of_separates hcolon,
    tokens_cons_of_single rfl (by decide) rfl rfl hpair]
  exact ⟨Token.ofChar ':', List.mem_append_right _ List.mem_cons_self, rfl⟩

/-- What is true of a source can be told on one line. -/
theorem Tells.onOneLine {begun q : Parser} (h : e.Tells begun q) : e.OnOneLine := by
  cases h with
  | numberTooLarge kind numeral large =>
    intro hmem
    rw [Text.Decimal.isNumeral, Bool.and_eq_true] at numeral
    exact absurd (List.all_eq_true.mp numeral.2 _ hmem) (by decide)
  | unexpectedToken => trivial
  | noExpressionStart => trivial
  | illegalToken => trivial
  | nestingTooDeep => trivial

theorem onOneLine_of_mem_parse {source : String} (h : e ∈ (parse source).2) : e.OnOneLine := by
  have hsource := Parser.inSource_start source
  have herrors : (Parser.start source).failures.map Failure.error = (parse source).2 := by
    rw [parse_eq]
    exact Parser.map_error_failures hsource
  rw [← herrors] at h
  obtain ⟨f, hf, rfl⟩ := List.mem_map.mp h
  exact (Parser.of_mem_failuresWithin hsource hf).1.tells.onOneLine

end SyntaxError

end LetLang
