import LetLang.Session

/-!
# Sessions line by line — nothing carries over from one line to the next

A session over two inputs, the first one ended by a line feed, is the session over the first and
then the one over the second: the prompt at the end of the first input is the prompt of the next
line.  So what a session writes is put together from the answers that its lines get alone, up to
the first line that is not UTF-8.
-/

namespace LetLang

/-! ## 1. Lines by themselves -/

namespace Text

/-- Whatever ends with a line feed ends a line. -/
theorem lines_append {xs : List UInt8} (h : xs = [] ∨ xs.getLast? = some lineFeed)
    (ys : List UInt8) : lines (xs ++ ys) = lines xs ++ lines ys := by
  rcases h with rfl | hlast
  · rfl
  · obtain ⟨front, rfl⟩ := List.getLast?_eq_some_iff.mp hlast
    rw [List.append_assoc]
    exact lines_append_lineFeed front ys

/-- Every line is the only line of itself. -/
theorem lines_of_mem {line bs : List UInt8} (h : line ∈ lines bs) : lines line = [line] := by
  induction bs generalizing line with
  | nil => cases h
  | cons b bs ih =>
    unfold lines at h
    by_cases hfeed : b = lineFeed
    · rw [if_pos hfeed, List.mem_cons] at h
      rcases h with rfl | hlater
      · rw [hfeed]
        rfl
      · exact ih hlater
    · rw [if_neg hfeed] at h
      cases hlines : lines bs with
      | nil =>
        rw [hlines, List.mem_singleton] at h
        rw [h, lines, if_neg hfeed]
        rfl
      | cons first others =>
        rw [hlines, List.mem_cons] at h
        rcases h with rfl | hlater
        · -- the line that begins with this byte goes on as the first one behind it
          rw [lines, if_neg hfeed, ih (hlines ▸ List.mem_cons_self)]
        · exact ih (hlines ▸ List.mem_cons_of_mem first hlater)

end Text

/-! ## 2. Sessions over two inputs -/

namespace Config

variable {config : Config} {xs : List (List UInt8)} {e : InputError}

/-- Behind a line that ends the session nothing is read. -/
theorem overLines_append_of_error (h : (config.overLines xs).error? = some e)
    (ys : List (List UInt8)) : config.overLines (xs ++ ys) = config.overLines xs := by
  induction xs with
  | nil => cases h
  | cons line xs ih =>
    rw [List.cons_append, overLines, overLines]
    cases hanswer : config.mode.answerLine line with
    | error e => rfl
    | ok answer =>
      rw [overLines, hanswer] at h
      simp only [ih h]

/-- The prompt at the end of the first lines is the one before the next line. -/
theorem overLines_append_of_end (h : (config.overLines xs).error? = none)
    (ys : List (List UInt8)) :
    ∃ told, (config.overLines xs).output = told ++ config.prompt ∧
      config.overLines (xs ++ ys) =
        ⟨told ++ (config.overLines ys).output, (config.overLines ys).error?⟩ := by
  induction xs with
  | nil =>
    refine ⟨"", ?_, ?_⟩
    · rw [String.empty_append]
      rfl
    · rw [String.empty_append]
      rfl
  | cons line xs ih =>
    rw [List.cons_append, overLines, overLines]
    rw [overLines] at h
    cases hanswer : config.mode.answerLine line with
    | error e =>
      rw [hanswer] at h
      cases h
    | ok answer =>
      rw [hanswer] at h
      obtain ⟨told, houtput, hsession⟩ := ih h
      refine ⟨config.prompt ++ answer ++ told, ?_, ?_⟩
      · simp only [houtput, String.append_assoc]
      · simp only [hsession, String.append_assoc]

/-! ## 3. Sessions from their lines -/

/-- The account of a transcript over lines: the lines that were answered, each with its answer, and
the lines that were left, the first of which is not UTF-8. -/
structure Account (config : Config) (lines : List (List UInt8)) (transcript : Transcript)
    (told : List (List UInt8 × String)) (left : List (List UInt8)) : Prop where
  lines_eq : lines = told.map Prod.fst ++ left
  /-- A prompt stands before each answer and once more, at the end or before the line that is not
  UTF-8. -/
  output_eq : transcript.output =
    String.join (told.map fun line => config.prompt ++ line.2) ++ config.prompt
  error?_eq : transcript.error? = left.head?.map fun _ => InputError.invalidUtf8
  decoded : ∀ line ∈ told,
    ∃ text, Text.decode? (Text.chomp line.1) = some text ∧ line.2 = config.mode.answer text
  not_decoded : ∀ line ∈ left.head?, Text.decode? (Text.chomp line) = none
  alone : ∀ line ∈ told, config.session line.1 = ⟨config.prompt ++ line.2 ++ config.prompt, none⟩
  left_alone : ∀ line ∈ left.head?, config.session line = ⟨config.prompt, some .invalidUtf8⟩

/-- A line that is not UTF-8 is the end of the account, and the lines behind it are left. -/
theorem account_of_not_decoded {line : List UInt8} (hline : Text.lines line = [line])
    (hdecode : Text.decode? (Text.chomp line) = none) (rest : List (List UInt8)) :
    Account config (line :: rest) (config.overLines (line :: rest)) [] (line :: rest) := by
  have hanswer : config.mode.answerLine line = .error .invalidUtf8 := by
    rw [Mode.answerLine, hdecode]
  have hsession : ∀ rest, config.overLines (line :: rest) = ⟨config.prompt, some .invalidUtf8⟩ := by
    intro rest
    rw [overLines, hanswer]
  refine ⟨rfl, ?_, ?_, nofun, ?_, nofun, ?_⟩
  · rw [hsession]
    exact String.empty_append.symm
  · rw [hsession]
    rfl
  · intro first hfirst
    cases hfirst
    exact hdecode
  · intro first hfirst
    cases hfirst
    rw [session, hline, hsession]

/-- A line that is answered is put before the account of the lines behind it. -/
theorem Account.cons {line : List UInt8} {rest left : List (List UInt8)} {text : String}
    {told : List (List UInt8 × String)} (h : Account config rest (config.overLines rest) told left)
    (hline : Text.lines line = [line])
    (hdecode : Text.decode? (Text.chomp line) = some text) :
    Account config (line :: rest) (config.overLines (line :: rest))
      ((line, config.mode.answer text) :: told) left := by
  have hanswer : config.mode.answerLine line = .ok (config.mode.answer text) := by
    rw [Mode.answerLine, hdecode]
  have hsession : ∀ rest, config.overLines (line :: rest) =
      ⟨config.prompt ++ config.mode.answer text ++ (config.overLines rest).output,
        (config.overLines rest).error?⟩ := by
    intro rest
    rw [overLines, hanswer]
  refine ⟨?_, ?_, ?_, ?_, h.not_decoded, ?_, h.left_alone⟩
  · rw [List.map_cons, List.cons_append, ← h.lines_eq]
  · rw [hsession, List.map_cons, String.join_cons]
    simp only [h.output_eq, String.append_assoc]
  · rw [hsession]
    exact h.error?_eq
  · rw [List.forall_mem_cons]
    exact ⟨⟨text, hdecode, rfl⟩, h.decoded⟩
  · rw [List.forall_mem_cons]
    refine ⟨?_, h.alone⟩
    rw [session, hline, hsession]
    rfl

theorem exists_account {ls : List (List UInt8)} (h : ∀ line ∈ ls, Text.lines line = [line]) :
    ∃ told left, Account config ls (config.overLines ls) told left := by
  induction ls with
  | nil => exact ⟨[], [], rfl, String.empty_append.symm, rfl, nofun, nofun, nofun, nofun⟩
  | cons line rest ih =>
    obtain ⟨hline, hrest⟩ := List.forall_mem_cons.mp h
    cases hdecode : Text.decode? (Text.chomp line) with
    | none => exact ⟨[], line :: rest, account_of_not_decoded hline hdecode rest⟩
    | some text =>
      obtain ⟨told, left, haccount⟩ := ih hrest
      exact ⟨_, left, haccount.cons hline hdecode⟩

end Config

/-- **Lines are independent.**  A session over an input that is empty or ends with a line feed goes
on over another input as a session of its own: if it has ended with an error it stays as it is, and
otherwise its last prompt is the first one of the other.  And every session is the account of its
lines, each of which gets the answer that it gets alone. -/
theorem session_append (config : Config) {x : List UInt8}
    (h : x = [] ∨ x.getLast? = some Text.lineFeed) (y : List UInt8) :
    (∀ e, (config.session x).error? = some e →
      config.session (x ++ y) = config.session x) ∧
    ((config.session x).error? = none →
      ∃ told, (config.session x).output = told ++ config.prompt ∧
        config.session (x ++ y) =
          ⟨told ++ (config.session y).output, (config.session y).error?⟩) ∧
    ∀ input, ∃ told left,
      config.Account (Text.lines input) (config.session input) told left := by
  have hsession : config.session (x ++ y) =
      config.overLines (Text.lines x ++ Text.lines y) :=
    congrArg config.overLines (Text.lines_append h y)
  rw [hsession]
  exact ⟨fun e he => Config.overLines_append_of_error he _,
    fun he => Config.overLines_append_of_end he _,
    fun input => Config.exists_account fun line hline => Text.lines_of_mem hline⟩

/-- A line without a fault, with a carriage return; and one that is not UTF-8, with another behind
it. -/
theorem session_append_invalid :
    let config : Config := ⟨"? ", .parse⟩
    let x : List UInt8 := [0x2D, 0x61, 13, 10]
    let y : List UInt8 := [0xFF, 10]
    (config.session (x ++ y) = ⟨"? (-a)\n? ", some .invalidUtf8⟩) ∧
      ∀ z, config.session (y ++ z) = ⟨"? ", some .invalidUtf8⟩ := by
  intro config x y
  have hx : config.session x = ⟨"? (-a)\n? ", none⟩ := by decide +kernel
  have hy : config.session y = ⟨"? ", some .invalidUtf8⟩ := by decide +kernel
  constructor
  · obtain ⟨told, houtput, hsession⟩ :=
      (session_append config (.inr rfl : x = [] ∨ x.getLast? = some Text.lineFeed) y).2.1
        (by rw [hx])
    rw [hx] at houtput
    rw [hsession, hy, ← houtput]
  · intro z
    have hsession :=
      (session_append config (.inr rfl : y = [] ∨ y.getLast? = some Text.lineFeed) z).1
        .invalidUtf8 (by rw [hy])
    rw [hsession, hy]

end LetLang
