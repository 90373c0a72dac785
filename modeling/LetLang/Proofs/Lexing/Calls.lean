import LetLang.Proofs.Lexing.Layouts

/-!
# Calls — one stream of tokens, whichever way they are asked for

A lexer is asked for tokens in two ways: one ends with the first end that it hands out, the other
never ends.  Both take their tokens from one stream, which is the tokens of the pieces of the source
between its characters U+0000, each piece with an end of its own, and behind them ends without end.
`Lexer.run` answers calls of both kinds in any order; a call takes the next token of the stream, or
it takes none and leaves the lexer as it is.
-/

namespace LetLang

open Token

/-! ## 1. One scan takes one token -/

namespace Text.Cursor

theorem skipBlanks_skipBlanks (c : Cursor) : c.skipBlanks.skipBlanks = c.skipBlanks :=
  skipWhile_of_neg fun _ hx => char?_skipWhile hx

theorem tokens_of_end {c : Cursor} (h : c.skipBlanks.char? = none) : c.tokens = [] := by
  rw [tokens, dif_pos h]

theorem tokens_of_char {c : Cursor} (h : c.skipBlanks.char? ≠ none) :
    c.tokens = c.scan.1 :: c.scan.2.tokens := by
  rw [tokens, dif_neg h]

/-- A scan takes the first of the tokens ahead, or an end if there are none. -/
theorem scan_takes (c : Cursor) :
    c.scan.1 = c.tokens.headD Token.eof ∧ c.scan.2.tokens = c.tokens.tail := by
  by_cases hend : c.skipBlanks.char? = none
  · rw [tokens_of_end hend, scan_of_end hend]
    refine ⟨rfl, tokens_of_end ?_⟩
    rw [skipBlanks_skipBlanks]
    exact hend
  · rw [tokens_of_char hend]
    exact ⟨rfl, rfl⟩

end Text.Cursor

/-! ## 2. Calls -/

namespace Lexer

/-- A way to ask a lexer for a token. -/
inductive Call where
  /-- Whether or not the tokens have ended. -/
  | nextToken
  /-- Up to the first end that is handed out like this. -/
  | next?
deriving DecidableEq, Repr

/-- The answer to a call, and the lexer after it. -/
def call (l : Lexer) : Call → Option Token × Lexer
  | .nextToken => (some l.nextToken.1, l.nextToken.2)
  | .next? => l.next?

/-- These calls, each with its answer, and the lexer after them. -/
def run (l : Lexer) : List Call → List (Call × Option Token) × Lexer
  | [] => ([], l)
  | call :: calls =>
    let (answer, next) := l.call call
    let (answers, last) := next.run calls
    ((call, answer) :: answers, last)

/-- The tokens among the answers, in their order. -/
def taken (answers : List (Call × Option Token)) : List Token :=
  answers.filterMap Prod.snd

/-- One of the calls that can end has been answered with an end. -/
def Ended (answers : List (Call × Option Token)) : Prop :=
  ∃ t, (Call.next?, some t) ∈ answers ∧ t.kind = .eof

variable {l : Lexer} {call : Call} {calls : List Call}

theorem call_next?_of_finished (h : l.finished = true) : l.call .next? = (none, l) := by
  show l.next? = _
  rw [next?, if_pos h]

theorem call_next?_of_open (h : l.finished = false) :
    l.call .next? = (some l.cursor.scan.1, ⟨l.cursor.scan.2, l.cursor.scan.1.is .eof⟩) := by
  show l.next? = _
  rw [next?, if_neg (Bool.eq_false_iff.mp h)]

/-- What a call does: it takes the next token and notes an end that ends the calls of its kind, or
it does nothing because there has been such an end. -/
theorem call_cases (l : Lexer) (call : Call) :
    (∃ t, (l.call call).1 = some t ∧ t = l.cursor.tokens.headD Token.eof ∧
      (l.call call).2.cursor.tokens = l.cursor.tokens.tail ∧
      ((l.call call).2.finished = true ↔
        l.finished = true ∨ call = .next? ∧ t.kind = .eof) ∧
      (call = .next? → l.finished = false)) ∨
    ((l.call call).1 = none ∧ (l.call call).2 = l ∧ call = .next? ∧ l.finished = true) := by
  obtain ⟨htoken, hrest⟩ := l.cursor.scan_takes
  cases call with
  | nextToken =>
    refine .inl ⟨_, rfl, htoken, hrest, ?_, nofun⟩
    show l.finished = true ↔ _
    simp
  | next? =>
    cases hfinished : l.finished with
    | true =>
      rw [call_next?_of_finished hfinished]
      exact .inr ⟨rfl, rfl, rfl, rfl⟩
    | false =>
      rw [call_next?_of_open hfinished]
      refine .inl ⟨_, rfl, htoken, hrest, ?_, fun _ => rfl⟩
      simp

/-! ## 3. Runs -/

theorem answers_cons (l : Lexer) (call : Call) (calls : List Call) :
    (l.run (call :: calls)).1 = (call, (l.call call).1) :: ((l.call call).2.run calls).1 := rfl

theorem taken_cons (call : Call) (answer : Option Token) (answers : List (Call × Option Token)) :
    taken ((call, answer) :: answers) = answer.toList ++ taken answers := by
  cases answer <;> rfl

theorem last_cons (l : Lexer) (call : Call) (calls : List Call) :
    (l.run (call :: calls)).2 = ((l.call call).2.run calls).2 := rfl

/-- The tokens of a run are the next ones of the stream, in their order. -/
theorem taken_run (l : Lexer) (calls : List Call) {n : Nat} (h : calls.length ≤ n) :
    taken (l.run calls).1 <+: l.cursor.tokens ++ List.replicate n Token.eof := by
  induction calls generalizing l n with
  | nil => exact List.nil_prefix
  | cons call calls ih =>
    obtain ⟨m, rfl⟩ := Nat.exists_eq_add_one.mpr (Nat.lt_of_lt_of_le (Nat.succ_pos _) h)
    have hm : calls.length ≤ m := Nat.le_of_succ_le_succ h
    rw [answers_cons, taken_cons]
    rcases l.call_cases call with ⟨t, hanswer, ht, hrest, -, -⟩ | ⟨hanswer, hself, -, -⟩
    · have hlater := ih (l.call call).2 hm
      rw [hrest] at hlater
      rw [hanswer, ht]
      -- behind the last token of the source every call takes an end
      cases htokens : l.cursor.tokens with
      | nil =>
        rw [htokens] at hlater
        exact (List.prefix_cons_inj _).mpr hlater
      | cons u us =>
        rw [htokens] at hlater
        rw [List.cons_append, List.replicate_succ', ← List.append_assoc]
        exact (List.prefix_cons_inj u).mpr (hlater.trans (List.prefix_append _ _))
    · rw [hanswer, hself]
      exact ih l (Nat.le_of_succ_le h)

/-- The tokens of the calls that can end have ended exactly if one of them has been an end. -/
theorem finished_run (l : Lexer) (calls : List Call) :
    (l.run calls).2.finished = true ↔ l.finished = true ∨ Ended (l.run calls).1 := by
  induction calls generalizing l with
  | nil =>
    refine (or_iff_left ?_).symm
    rintro ⟨t, ht, -⟩
    exact absurd ht List.not_mem_nil
  | cons call calls ih =>
    have hended : Ended (l.run (call :: calls)).1 ↔
        (∃ t, (l.call call).1 = some t ∧ call = .next? ∧ t.kind = .eof) ∨
          Ended ((l.call call).2.run calls).1 := by
      rw [answers_cons]
      constructor
      · rintro ⟨t, ht, heof⟩
        rcases List.mem_cons.mp ht with hfirst | hlater
        · obtain ⟨rfl, hanswer⟩ := Prod.mk.inj hfirst
          exact .inl ⟨t, hanswer.symm, rfl, heof⟩
        · exact .inr ⟨t, hlater, heof⟩
      · rintro (⟨t, hanswer, rfl, heof⟩ | ⟨t, ht, heof⟩)
        · exact ⟨t, List.mem_cons.mpr (.inl (by rw [hanswer])), heof⟩
        · exact ⟨t, List.mem_cons_of_mem _ ht, heof⟩
    rw [hended, last_cons, ih]
    rcases l.call_cases call with ⟨t, hanswer, -, -, hfinished, -⟩ | ⟨hanswer, hself, -, hl⟩
    · rw [hfinished, hanswer, or_assoc]
      simp
    · rw [hself, hanswer, hl]
      simp

end Lexer

/-! ## 4. The stream of a source -/

/-- The pieces of a source between its characters U+0000. -/
def pieces (source : String) : List String :=
  (source.toList.splitOn '\x00').map String.ofList

/-- The tokens of the pieces are all tokens of the source and an end. -/
theorem flatMap_tokenize_pieces (source : String) :
    (pieces source).flatMap tokenize = (Text.Cursor.start source).tokens ++ [Token.eof] := by
  have hpiece : ∀ text : List Char, '\x00' ∉ text →
      tokenize (String.ofList text) = Lexing.tokens text ++ [Token.eof] := by
    intro text hnul
    rw [tokenize_of_no_nul (by simpa using hnul), tokens_start, String.toList_ofList]
  suffices h : ∀ text : List Char, (text.splitOn '\x00').flatMap (fun piece =>
      tokenize (String.ofList piece)) = Lexing.tokens text ++ [Token.eof] by
    rw [pieces, List.flatMap_map, tokens_start, h]
  intro text
  induction hlen : text.length using Nat.strongRecOn generalizing text with
  | ind n ih =>
    by_cases hnul : '\x00' ∈ text
    · obtain ⟨before, behind, rfl, hbefore⟩ := List.eq_append_cons_of_mem hnul
      have hshorter : behind.length < n := by
        rw [← hlen, List.length_append, List.length_cons]
        omega
      rw [List.splitOn_append_cons_self_of_not_mem hbefore, List.flatMap_cons, hpiece _ hbefore,
        ih _ hshorter behind rfl, Lexing.tokens_append_nul, List.append_assoc, List.append_assoc]
      rfl
    · rw [List.splitOn_eq_singleton hnul, List.flatMap_singleton, hpiece _ hnul]

/-- **One stream.**  Whatever calls are made on the lexer of a source, their tokens are in order the
first ones of the pieces between the characters U+0000, and ends behind them.  A call has no token
exactly if it can end and an earlier call that can end has been answered with an end; and such a
call leaves the lexer as it is. -/
theorem calls_take_one_stream (source : String) (calls : List Lexer.Call) (call : Lexer.Call) :
    let (answers, l) := (Lexer.start source).run calls
    Lexer.taken answers <+:
      (pieces source).flatMap tokenize ++ List.replicate calls.length Token.eof ∧
    ((l.call call).1 = none ↔ call = .next? ∧ Lexer.Ended answers) ∧
    ((l.call call).1 = none → (l.call call).2 = l) := by
  have hfinished := (Lexer.start source).finished_run calls
  have hstart : (Lexer.start source).finished = false := rfl
  rw [hstart, or_iff_right Bool.false_ne_true] at hfinished
  refine ⟨?_, ?_⟩
  · rw [flatMap_tokenize_pieces, List.append_assoc, List.singleton_append, ← List.replicate_succ]
    exact (Lexer.start source).taken_run calls (Nat.le_succ _)
  · rcases ((Lexer.start source).run calls).2.call_cases call with
      ⟨t, hanswer, -, -, -, hopen⟩ | ⟨hanswer, hself, hcall, hl⟩
    · refine ⟨iff_of_false (by rw [hanswer]; exact Option.some_ne_none t) ?_, ?_⟩
      · rintro ⟨hcall, hended⟩
        rw [hfinished.mpr hended] at hopen
        exact absurd (hopen hcall).symm Bool.false_ne_true
      · rw [hanswer]
        exact fun hnone => absurd hnone (Option.some_ne_none t)
    · exact ⟨iff_of_true hanswer ⟨hcall, hfinished.mp hl⟩, fun _ => hself⟩

example :
    Lexer.taken ((Lexer.start "!\x00=").run [.next?, .next?, .next?, .nextToken, .nextToken]).1 =
      [⟨.not, "!"⟩, Token.eof, ⟨.assignment, "="⟩, Token.eof] := by
  decide +kernel

end LetLang
