import LetLang.Proofs.Lexing.Calls

/-!
# Offsets — slices begin and end where characters do

A cursor slices its source by byte offsets, and a slice of a text is defined whatever the offsets
are.  Here the lexer is run once more on heads: a head keeps the offset of a character, the offset
just past it and the character, U+0000 standing for the end; and a slice that is reversed, reaches
beyond the text or cuts a character is a fault.  No run of calls has a fault: its answers are those
of the lexer, and every head on the way, also in the middle of a scan, stands on a character or at
the end.
-/

namespace LetLang

open Token

namespace Text

/-! ## 1. Slices that can fault -/

/-- What must not happen when a text is read. -/
inductive Fault where
  /-- A slice ends before it begins. -/
  | reversed
  /-- A slice reaches beyond the text. -/
  | outOfRange
  /-- A slice begins or ends inside a character. -/
  | cutsCharacter
  /-- A run of characters does not end with the text. -/
  | endless
deriving DecidableEq, Repr

/-- The text from one byte offset up to another, if there is such a slice. -/
def slice? (s : String) (first stop : Nat) : Except Fault String :=
  if stop < first then
    .error .reversed
  else if s.utf8ByteSize < stop then
    .error .outOfRange
  else if String.Pos.Raw.IsValid s ⟨first⟩ ∧ String.Pos.Raw.IsValid s ⟨stop⟩ then
    .ok (slice s first stop)
  else
    .error .cutsCharacter

/-- The length of a prefix is a place between two characters. -/
theorem isValid_byteLength {s : String} {pre suf : List Char} (h : s.toList = pre ++ suf) :
    String.Pos.Raw.IsValid s ⟨byteLength pre⟩ := by
  rw [String.Pos.Raw.isValid_iff_exists_append]
  refine ⟨String.ofList pre, String.ofList suf, ?_, ?_⟩
  · rw [← String.ofList_append, ← h, String.ofList_toList]
  · have hsize : (String.ofList pre).utf8ByteSize = byteLength pre := by
      rw [utf8ByteSize_eq_byteLength, String.toList_ofList]
    exact congrArg String.Pos.Raw.mk hsize.symm

theorem slice?_byteLength {s : String} {pre mid suf : List Char}
    (h : s.toList = pre ++ mid ++ suf) :
    slice? s (byteLength pre) (byteLength (pre ++ mid)) = .ok (String.ofList mid) := by
  have hsize : s.utf8ByteSize = byteLength pre + byteLength mid + byteLength suf := by
    rw [utf8ByteSize_eq_byteLength, h, byteLength_append, byteLength_append]
  have hfirst := isValid_byteLength (h.trans (List.append_assoc pre mid suf))
  have hstop := isValid_byteLength h
  rw [slice?, if_neg, if_neg, if_pos ⟨hfirst, hstop⟩, slice_byteLength h]
  · rw [byteLength_append]
    omega
  · rw [byteLength_append]
    omega

/-! ## 2. Heads -/

/-- A place in a source, kept as offsets. -/
structure Head where
  source : String
  /-- The byte offset of the character. -/
  position : Nat
  /-- The byte offset just past the character. -/
  readPosition : Nat
  /-- The character, or U+0000 at the end. -/
  char : Char
deriving DecidableEq, Repr

namespace Head

/-- A head is in order: its offsets ascend within the source and lie between characters, and it
stands on a character or at the end. -/
structure Valid (h : Head) : Prop where
  position_le : h.position ≤ h.readPosition
  readPosition_le : h.readPosition ≤ h.source.utf8ByteSize
  position_valid : String.Pos.Raw.IsValid h.source ⟨h.position⟩
  readPosition_valid : String.Pos.Raw.IsValid h.source ⟨h.readPosition⟩
  stands :
    (∃ before behind, h.source.toList = before ++ h.char :: behind ∧
      h.position = byteLength before ∧ h.readPosition = h.position + h.char.utf8Size) ∨
    (h.position = h.readPosition ∧ h.readPosition = h.source.utf8ByteSize ∧ h.char = '\x00')

/-- The text from the offset just past the character. -/
def behind? (h : Head) : Except Fault String :=
  slice? h.source h.readPosition h.source.utf8ByteSize

/-- The head on the character that begins this text, or at the end if it is empty. -/
def onto (h : Head) (behind : String) : Head :=
  match behind.toList.head? with
  | some x =>
    { h with position := h.readPosition, readPosition := h.readPosition + x.utf8Size, char := x }
  | none => { h with position := h.readPosition, char := '\x00' }

end Head

/-- A head on its way: where it stands, and every head since the start. -/
structure Track where
  head : Head
  passed : List Head

/-- A computation that moves a head and may end in a fault. -/
abbrev TrackM := EStateM Fault Track

namespace TrackM

def head : TrackM Head := fun t => .ok t.head t

def ofExcept {α : Type} : Except Fault α → TrackM α
  | .ok a => fun t => .ok a t
  | .error e => fun t => .error e t

def moveTo (h : Head) : TrackM Unit := fun t => .ok () ⟨h, h :: t.passed⟩

/-- Moves the head one character further. -/
def readChar : TrackM Unit := do
  let h ← head
  let behind ← ofExcept h.behind?
  moveTo (h.onto behind)

/-- The character behind the one under the head, or U+0000. -/
def peekChar : TrackM Char := do
  let h ← head
  let behind ← ofExcept h.behind?
  return behind.toList.head?.getD '\x00'

/-- Moves the head over the characters of the class `p`, of which there can be `rounds` at the
most. -/
def skipWhile (p : Char → Bool) (rounds : Nat) : TrackM Unit := do
  match rounds with
  | 0 => throw .endless
  | rounds + 1 =>
    if p (← head).char then
      readChar
      skipWhile p rounds

/-- Moves the head over all characters of the class `p`. -/
def skipAll (p : Char → Bool) : TrackM Unit := do
  skipWhile p ((← head).source.toList.length + 1)

/-- The text of the class `p` that begins under the head. -/
def textWhile (p : Char → Bool) : TrackM String := do
  let start := (← head).position
  skipAll p
  let h ← head
  ofExcept (slice? h.source start h.position)

/-- The token of the character `x` under the head, or of the pair that it begins. -/
def mark (x : Char) : TrackM Token := do
  match Kind.ofCharAndEquals? x with
  | some pair =>
    if (← peekChar) = '=' then
      readChar
      readChar
      return ⟨pair, String.ofList [x, '=']⟩
    else
      readChar
      return Token.ofChar x
  | none =>
    readChar
    return Token.ofChar x

def lexeme (x : Char) : TrackM Token := do
  if x = '\x00' then
    readChar
    return Token.eof
  else if isLetter x then
    return Token.ofWord (← textWhile isLetter)
  else if x.isDigit then
    return ⟨.integer, ← textWhile Char.isDigit⟩
  else
    mark x

def nextToken : TrackM Token := do
  skipAll Char.isWhitespace
  lexeme (← head).char

/-- The answer to a call, and whether the calls that can end have ended then. -/
def call (finished : Bool) : Lexer.Call → TrackM (Option Token × Bool)
  | .nextToken => do return (some (← nextToken), finished)
  | .next? => do
    if finished then
      return (none, true)
    else
      let t ← nextToken
      return (some t, t.is .eof)

def calls (finished : Bool) :
    List Lexer.Call → TrackM (List (Lexer.Call × Option Token) × Bool)
  | [] => return ([], finished)
  | c :: rest => do
    let (answer, finished) ← call finished c
    let (answers, finished) ← calls finished rest
    return ((c, answer) :: answers, finished)

/-- The answers to these calls, from before the first character is read. -/
def lexer (cs : List Lexer.Call) : TrackM (List (Lexer.Call × Option Token)) := do
  readChar
  let (answers, _) ← calls false cs
  return answers

end TrackM

/-- The head before the first character is read. -/
def Track.start (source : String) : Track :=
  ⟨⟨source, 0, 0, '\x00'⟩, []⟩

/-! ## 3. Heads where cursors stand -/

namespace Cursor

/-- The head where a cursor stands. -/
def head (c : Cursor) : Head :=
  ⟨c.source, c.position, c.readPosition, c.char?.getD '\x00'⟩

variable {c : Cursor} {passed ahead : List Char} {x : Char}

theorem Splits.readPosition_eq (h : c.Splits passed (x :: ahead)) :
    c.readPosition = byteLength (passed ++ [x]) :=
  h.next.position_eq

theorem Splits.readPosition_eq_of_nil (h : c.Splits passed []) :
    c.readPosition = c.position := by
  have hchar : c.char? = none := h.char?_eq
  rw [readPosition, width, hchar]
  rfl

theorem Splits.utf8ByteSize_eq (h : c.Splits passed ahead) :
    c.source.utf8ByteSize = byteLength passed + byteLength ahead := by
  rw [utf8ByteSize_eq_byteLength, h.source_eq, byteLength_append]

/-- Where a cursor splits its source, its head is in order. -/
theorem Splits.valid_head (h : c.Splits passed ahead) : c.head.Valid := by
  have hposition := isValid_byteLength h.source_eq
  rw [← h.position_eq] at hposition
  cases ahead with
  | nil =>
    have hread := h.readPosition_eq_of_nil
    have hsize := h.utf8ByteSize_eq
    rw [byteLength_nil, Nat.add_zero, ← h.position_eq, ← hread] at hsize
    refine ⟨Nat.le_of_eq hread.symm, Nat.le_of_eq hsize.symm, hposition, ?_, .inr ?_⟩
    · show String.Pos.Raw.IsValid c.source ⟨c.readPosition⟩
      rw [hread]
      exact hposition
    · refine ⟨hread.symm, hsize.symm, ?_⟩
      show c.char?.getD '\x00' = '\x00'
      rw [h.char?_eq]
      rfl
  | cons x ahead =>
    have hread := h.readPosition_eq
    have hsize := h.utf8ByteSize_eq
    have hsource : c.source.toList = (passed ++ [x]) ++ ahead := h.next.source_eq
    have hchar : c.head.char = x := by
      show c.char?.getD '\x00' = x
      rw [h.char?_eq]
      rfl
    have hwidth : c.readPosition = c.position + x.utf8Size := by
      rw [hread, h.position_eq, byteLength_append, byteLength_cons, byteLength_nil, Nat.add_zero]
    rw [← h.position_eq, byteLength_cons] at hsize
    refine ⟨?_, ?_, hposition, ?_, .inl ⟨passed, ahead, ?_, h.position_eq, ?_⟩⟩
    · show c.position ≤ c.readPosition
      omega
    · show c.readPosition ≤ c.source.utf8ByteSize
      omega
    · show String.Pos.Raw.IsValid c.source ⟨c.readPosition⟩
      rw [hread]
      exact isValid_byteLength hsource
    · rw [hchar]
      exact h.source_eq
    · rw [hchar]
      exact hwidth

end Cursor

/-! ## 4. Heads go where cursors go -/

namespace TrackM

variable {α β : Type} {m : TrackM α} {f : α → TrackM β} {a : α} {b : β} {c c' c'' : Cursor}
  {passed ahead : List Char} {x : Char} {p : Char → Bool}

/-- From the head of a cursor the computation comes to this value and to the head of that cursor,
without a fault, and every head on the way is in order. -/
structure Leads (m : TrackM α) (c : Cursor) (a : α) (c' : Cursor) : Prop where
  source_eq : c'.source = c.source
  run : ∀ heads, ∃ more, m ⟨c.head, heads⟩ = .ok a ⟨c'.head, more ++ heads⟩ ∧
    ∀ h ∈ more, h.source = c.source ∧ h.Valid

theorem bind_apply (m : TrackM α) (f : α → TrackM β) (t : Track) :
    (m >>= f) t =
      match m t with
      | .ok a t' => f a t'
      | .error e t' => .error e t' := by
  show EStateM.bind m f t = _
  rw [EStateM.bind]
  cases m t <;> rfl

namespace Leads

theorem stay (h : ∀ heads, m ⟨c.head, heads⟩ = .ok a ⟨c.head, heads⟩) : Leads m c a c :=
  ⟨rfl, fun heads => ⟨[], h heads, nofun⟩⟩

theorem pure (a : α) (c : Cursor) : Leads (Pure.pure a) c a c := stay fun _ => rfl

theorem head (c : Cursor) : Leads TrackM.head c c.head c := stay fun _ => rfl

theorem ofExcept {r : Except Fault α} (h : r = .ok a) (c : Cursor) :
    Leads (TrackM.ofExcept r) c a c := by
  subst h
  exact stay fun _ => rfl

theorem bind (h : Leads m c a c') (h' : Leads (f a) c' b c'') : Leads (m >>= f) c b c'' := by
  refine ⟨h'.source_eq.trans h.source_eq, fun heads => ?_⟩
  obtain ⟨more, hm, hvalid⟩ := h.run heads
  obtain ⟨more', hf, hvalid'⟩ := h'.run (more ++ heads)
  rw [h.source_eq] at hvalid'
  refine ⟨more' ++ more, ?_, List.forall_mem_append.mpr ⟨hvalid', hvalid⟩⟩
  rw [bind_apply, hm, List.append_assoc]
  exact hf

end Leads

/-- The text behind the head is what the cursor has ahead behind its character. -/
theorem behind?_head {pre suf : List Char} (hread : c.readPosition = byteLength pre)
    (h : c.source.toList = pre ++ suf) : c.head.behind? = .ok (String.ofList suf) := by
  have hsize : c.source.utf8ByteSize = byteLength (pre ++ suf) := by
    rw [utf8ByteSize_eq_byteLength, h]
  have hsource : c.source.toList = pre ++ suf ++ [] := h.trans (List.append_nil _).symm
  show slice? c.source c.readPosition c.source.utf8ByteSize = _
  rw [hread, hsize]
  exact slice?_byteLength hsource

theorem behind?_of_cons (h : c.Splits passed (x :: ahead)) :
    c.head.behind? = .ok (String.ofList ahead) :=
  behind?_head h.readPosition_eq h.next.source_eq

theorem behind?_of_nil (h : c.Splits passed []) : c.head.behind? = .ok "" :=
  behind?_head (h.readPosition_eq_of_nil.trans h.position_eq) h.source_eq

theorem onto_behind (h : c.Splits passed (x :: ahead)) :
    c.head.onto (String.ofList ahead) = c.next.head := by
  have hchar : ahead.head? = c.next.char? := h.next.char?_eq.symm
  have hhead : c.next.head =
      ⟨c.source, c.readPosition, c.readPosition + c.next.width, c.next.char?.getD '\x00'⟩ := rfl
  rw [Head.onto, String.toList_ofList, hchar, hhead, Cursor.width]
  cases c.next.char? <;> rfl

theorem Leads.moveTo {passed' ahead' : List Char} (h : c'.Splits passed' ahead')
    (hsource : c'.source = c.source) : Leads (moveTo c'.head) c () c' := by
  refine ⟨hsource, fun heads => ⟨[c'.head], rfl, fun h' hh' => ?_⟩⟩
  rw [List.mem_singleton.mp hh']
  exact ⟨hsource, h.valid_head⟩

/-- Reading a character puts the head where the cursor goes. -/
theorem leads_readChar (h : c.Splits passed ahead) : Leads readChar c () c.next := by
  cases ahead with
  | nil =>
    have hself : c.head.onto "" = c.head := by
      have hchar : c.char? = none := h.char?_eq
      simp [Head.onto, Cursor.head, h.readPosition_eq_of_nil, hchar]
    rw [h.next_eq_self]
    refine (Leads.head c).bind ((Leads.ofExcept (behind?_of_nil h) c).bind ?_)
    rw [hself]
    exact Leads.moveTo h rfl
  | cons x ahead =>
    refine (Leads.head c).bind ((Leads.ofExcept (behind?_of_cons h) c).bind ?_)
    rw [onto_behind h]
    exact Leads.moveTo h.next rfl

/-- A loop over a class that does not hold the end stops where the cursor stops. -/
theorem leads_skipWhile (hp : p '\x00' = false) {rounds : Nat} (h : c.Splits passed ahead)
    (hrounds : ahead.length < rounds) :
    Leads (skipWhile p rounds) c () (c.skipWhile p) := by
  induction ahead generalizing c passed rounds with
  | nil =>
    obtain ⟨rounds, rfl⟩ := Nat.exists_eq_add_one.mpr hrounds
    have hchar : c.char? = none := h.char?_eq
    have hstop : p c.head.char = false := by
      show p (c.char?.getD '\x00') = false
      rw [hchar]
      exact hp
    rw [Cursor.skipWhile_of_neg (fun x hx => by rw [hchar] at hx; cases hx)]
    refine (Leads.head c).bind ?_
    rw [hstop]
    exact Leads.pure () c
  | cons x ahead ih =>
    obtain ⟨rounds, rfl⟩ := Nat.exists_eq_add_one.mpr (Nat.lt_of_le_of_lt (Nat.zero_le _) hrounds)
    have hchar : c.head.char = x := by
      show c.char?.getD '\x00' = x
      rw [h.char?_eq]
      rfl
    refine (Leads.head c).bind ?_
    rw [hchar]
    cases hx : p x with
    | true =>
      rw [Cursor.skipWhile_of_pos h.char?_eq hx]
      exact (leads_readChar h).bind (ih h.next (Nat.lt_of_succ_lt_succ hrounds))
    | false =>
      rw [Cursor.skipWhile_of_neg fun y hy => ?_]
      · exact Leads.pure () c
      · rw [h.char?_eq] at hy
        cases hy
        exact hx

theorem leads_skipAll (hp : p '\x00' = false) (h : c.Splits passed ahead) :
    Leads (skipAll p) c () (c.skipWhile p) := by
  refine (Leads.head c).bind (leads_skipWhile hp h ?_)
  show ahead.length < c.source.toList.length + 1
  rw [h.source_eq, List.length_append]
  omega

/-- The start of a run of characters does not lie behind its end, so its text can be cut out. -/
theorem leads_textWhile (hp : p '\x00' = false) (h : c.Splits passed ahead) :
    Leads (textWhile p) c (c.textTo (c.skipWhile p)) (c.skipWhile p) := by
  have hstop := h.skipWhile p
  have hsource : (c.skipWhile p).source = c.source := (leads_skipAll hp h).source_eq
  have hslice : slice? (c.skipWhile p).source c.position (c.skipWhile p).position =
      .ok (c.textTo (c.skipWhile p)) := by
    have hsplit : c.Splits passed (ahead.takeWhile p ++ ahead.dropWhile p) := by
      rwa [List.takeWhile_append_dropWhile]
    rw [hsplit.textTo_eq hstop, h.position_eq, hstop.position_eq]
    exact slice?_byteLength hstop.source_eq
  refine (Leads.head c).bind ((leads_skipAll hp h).bind ((Leads.head _).bind ?_))
  exact Leads.ofExcept hslice _

theorem leads_peekChar (h : c.Splits passed (x :: ahead)) :
    Leads peekChar c (c.peek?.getD '\x00') c := by
  refine (Leads.head c).bind ((Leads.ofExcept (behind?_of_cons h) c).bind ?_)
  rw [String.toList_ofList, h.peek?_eq]
  exact Leads.pure _ c

theorem leads_mark (h : c.Splits passed (x :: ahead)) (hnul : x ≠ '\x00')
    (hletter : isLetter x = false) (hdigit : x.isDigit = false) :
    Leads (mark x) c (c.lexeme x).1 (c.lexeme x).2 := by
  have hsingle : Leads (do readChar; return Token.ofChar x) c (Token.ofChar x) c.next :=
    (leads_readChar h).bind (Leads.pure _ _)
  rw [Cursor.lexeme, if_neg hnul, if_neg (Bool.eq_false_iff.mp hletter),
    if_neg (Bool.eq_false_iff.mp hdigit), mark]
  cases Kind.ofCharAndEquals? x with
  | none => exact hsingle
  | some pair =>
    refine (leads_peekChar h).bind ?_
    rw [h.peek?_eq]
    -- U+0000 stands for the end as well, but neither of them is the second half of a pair
    cases ahead with
    | nil => exact hsingle
    | cons y ahead =>
      by_cases hy : y = '='
      · subst hy
        exact (leads_readChar h).bind ((leads_readChar h.next).bind (Leads.pure _ _))
      · rw [List.head?_cons, Option.getD_some, if_neg hy]
        split
        · next hpair => exact absurd (Option.some.inj hpair) hy
        · exact hsingle

/-- A lexeme is read as the cursor reads it. -/
theorem leads_lexeme (h : c.Splits passed (x :: ahead)) :
    Leads (lexeme x) c (c.lexeme x).1 (c.lexeme x).2 := by
  by_cases hnul : x = '\x00'
  · rw [lexeme, Cursor.lexeme, if_pos hnul, if_pos hnul]
    exact (leads_readChar h).bind (Leads.pure _ _)
  cases hletter : isLetter x with
  | true =>
    rw [lexeme, Cursor.lexeme, if_neg hnul, if_neg hnul, if_pos hletter, if_pos hletter]
    exact (leads_textWhile rfl h).bind (Leads.pure _ _)
  | false =>
    have hnot := Bool.eq_false_iff.mp hletter
    cases hdigit : x.isDigit with
    | true =>
      rw [lexeme, Cursor.lexeme, if_neg hnul, if_neg hnul, if_neg hnot, if_neg hnot,
        if_pos hdigit, if_pos hdigit]
      exact (leads_textWhile rfl h).bind (Leads.pure _ _)
    | false =>
      rw [lexeme, if_neg hnul, if_neg hnot, if_neg (Bool.eq_false_iff.mp hdigit)]
      exact leads_mark h hnul hletter hdigit

/-- A scan is made as the cursor makes it. -/
theorem leads_nextToken (h : c.Splits passed ahead) :
    Leads nextToken c c.scan.1 c.scan.2 := by
  have hskip := h.skipWhile Char.isWhitespace
  refine (leads_skipAll rfl h).bind ((Leads.head _).bind ?_)
  show Leads (lexeme (c.skipBlanks.char?.getD '\x00')) c.skipBlanks _ _
  cases hrest : ahead.dropWhile Char.isWhitespace with
  | nil =>
    rw [hrest] at hskip
    have hchar : c.skipBlanks.char? = none := hskip.char?_eq
    have hself : c.skipBlanks.next = c.skipBlanks := hskip.next_eq_self
    have hread := leads_readChar hskip
    rw [Cursor.scan_of_end hchar, hchar, Option.getD_none, lexeme, if_pos rfl]
    rw [show (c.skipWhile Char.isWhitespace).next = c.skipBlanks from hself] at hread
    exact hread.bind (Leads.pure _ _)
  | cons x rest =>
    rw [hrest] at hskip
    have hchar : c.skipBlanks.char? = some x := hskip.char?_eq
    have hscan : c.scan = c.skipBlanks.lexeme x := by
      rw [Cursor.scan, hchar]
    rw [hscan, hchar, Option.getD_some]
    exact leads_lexeme hskip

end TrackM

theorem Cursor.Splits.exists_scan {c : Cursor} {passed ahead : List Char}
    (h : c.Splits passed ahead) : ∃ passed' ahead', c.scan.2.Splits passed' ahead' := by
  cases hrest : ahead.dropWhile Char.isWhitespace with
  | nil =>
    rw [Cursor.scan_of_end (h.scan_of_nil hrest)]
    exact ⟨_, _, h.skipWhile Char.isWhitespace⟩
  | cons x rest =>
    obtain ⟨-, -, passed', hstop⟩ := h.scan_of_cons hrest
    exact ⟨passed', _, hstop⟩

/-! ## 5. Heads under calls -/

namespace TrackM

variable {l : Lexer} {passed ahead : List Char}

/-- A call is answered as the lexer answers it. -/
theorem leads_call (h : l.cursor.Splits passed ahead) (c : Lexer.Call) :
    Leads (call l.finished c) l.cursor ((l.call c).1, (l.call c).2.finished)
        (l.call c).2.cursor ∧
      ∃ passed' ahead', (l.call c).2.cursor.Splits passed' ahead' := by
  cases c with
  | nextToken => exact ⟨(leads_nextToken h).bind (Leads.pure _ _), h.exists_scan⟩
  | next? =>
    cases hfinished : l.finished with
    | true =>
      rw [Lexer.call_next?_of_finished hfinished, hfinished]
      exact ⟨Leads.pure _ _, passed, ahead, h⟩
    | false =>
      rw [Lexer.call_next?_of_open hfinished]
      exact ⟨(leads_nextToken h).bind (Leads.pure _ _), h.exists_scan⟩

theorem leads_calls (h : l.cursor.Splits passed ahead) (cs : List Lexer.Call) :
    Leads (calls l.finished cs) l.cursor ((l.run cs).1, (l.run cs).2.finished)
        (l.run cs).2.cursor ∧
      ∃ passed' ahead', (l.run cs).2.cursor.Splits passed' ahead' := by
  induction cs generalizing l passed ahead with
  | nil => exact ⟨Leads.pure _ _, passed, ahead, h⟩
  | cons c cs ih =>
    obtain ⟨hcall, passed', ahead', hsplits⟩ := leads_call h c
    obtain ⟨hrest, hlast⟩ := ih hsplits
    exact ⟨hcall.bind (hrest.bind (Leads.pure _ _)), hlast⟩

/-- The first character of a source is read from before it. -/
theorem readChar_start (source : String) :
    readChar (.start source) =
      .ok () ⟨(Cursor.start source).head, [(Cursor.start source).head]⟩ := by
  have hbehind : (Track.start source).head.behind? = .ok source := by
    have hsize : source.utf8ByteSize = byteLength ([] ++ source.toList) :=
      utf8ByteSize_eq_byteLength source
    have hsource : source.toList = [] ++ source.toList ++ [] := by simp
    show slice? source 0 source.utf8ByteSize = _
    rw [hsize]
    exact (slice?_byteLength hsource).trans (by rw [String.ofList_toList])
  have honto : (Track.start source).head.onto source = (Cursor.start source).head := by
    have hchar : source.toList.head? = (Cursor.start source).char? :=
      (Cursor.splits_start source).char?_eq.symm
    have hhead : (Cursor.start source).head = ⟨source, 0, 0 + (Cursor.start source).width,
        (Cursor.start source).char?.getD '\x00'⟩ := rfl
    rw [Head.onto, hchar, hhead, Cursor.width]
    cases (Cursor.start source).char? <;> rfl
  rw [readChar, bind_apply]
  show (ofExcept (Track.start source).head.behind? >>= _) _ = _
  rw [hbehind, bind_apply]
  show moveTo ((Track.start source).head.onto source) (.start source) = _
  rw [honto]
  rfl

end TrackM

end Text

open Text in
/-- **Offsets stay in order.**  Whatever calls are made on the lexer of a source, no slice is
reversed, reaches beyond the source or cuts a character: run on a head whose slices can fault, they
have the answers that they have on the lexer and lead to the offsets at which its cursor stands.
There and at every step on the way the head stands on a character of the source or at its end. -/
theorem offsets_stay_in_order (source : String) (calls : List Lexer.Call) :
    let (answers, l) := (Lexer.start source).run calls
    ∃ heads, TrackM.lexer calls (.start source) = .ok answers ⟨l.cursor.head, heads⟩ ∧
      ∀ h ∈ l.cursor.head :: heads, h.source = source ∧ h.Valid := by
  have hstart := Cursor.splits_start source
  obtain ⟨hleads, passed, ahead, hlast⟩ :=
    TrackM.leads_calls (l := Lexer.start source) hstart calls
  have hanswers : TrackM.Leads (do let (answers, _) ← TrackM.calls false calls; return answers)
      (Cursor.start source) ((Lexer.start source).run calls).1
      ((Lexer.start source).run calls).2.cursor :=
    hleads.bind (TrackM.Leads.pure _ _)
  obtain ⟨more, hrun, hmore⟩ := hanswers.run [(Cursor.start source).head]
  refine ⟨more ++ [(Cursor.start source).head], ?_, ?_⟩
  · rw [TrackM.lexer, TrackM.bind_apply, TrackM.readChar_start]
    exact hrun
  · refine List.forall_mem_cons.mpr ⟨⟨hleads.source_eq, hlast.valid_head⟩, ?_⟩
    refine List.forall_mem_append.mpr ⟨hmore, ?_⟩
    exact List.forall_mem_singleton.mpr ⟨rfl, hstart.valid_head⟩

end LetLang
