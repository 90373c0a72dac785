import LetLang.Proofs.Grammar.Chains
import LetLang.Proofs.Printing.Reparse
import LetLang.Proofs.Text.Forms

/-!
# Rebuilding trees — a printed tree comes back from its tokens, however deep it nests

A parser reads an expression back only if it nests no deeper than may be.  But in printed tokens
every operation stands in parentheses, so there is no need to look ahead or to compare powers: one
walk over the tokens rebuilds the tree, on a stack of the operations that are open.  As the walk
has no limit, two trees of any depth with the same printed tokens are the same.
-/

namespace LetLang

open Token

/-! ## 1. One walk over the tokens -/

/-- An operation that is open. -/
inductive Frame where
  /-- A parenthesis before which no expression has ended; its operation is still to come. -/
  | group
  | unary (operator : Token)
  | binary (operator : Token) (left : Expr)
  /-- A call, with the arguments that have ended. -/
  | call (opening : Token) (function : Expr) (arguments : List Expr)

/-- The expression that an open operation is when its last operand has ended. -/
def Frame.close? (last : Expr) : Frame → Option Expr
  | group => none
  | unary operator => some (.unary operator operator.literal last)
  | binary operator left => some (.binary operator operator.literal left last)
  | call opening function arguments => some (.call opening function (arguments ++ [last]))

/-- Trees that are being rebuilt. -/
structure Rebuilt where
  /-- The operations that are open, the innermost first. -/
  frames : List Frame
  /-- The expression that ends here, if one does. -/
  last? : Option Expr

namespace Rebuilt

def empty : Rebuilt := ⟨[], none⟩

/-- One token further. -/
def step : Rebuilt → Token → Option Rebuilt
  | ⟨frames, none⟩, t =>
    match Rules.standard.start? t.kind, frames with
    | some .leaf, frames => t.leaf?.map fun e => ⟨frames, some e⟩
    | some .group, frames => some ⟨.group :: frames, none⟩
    -- an operator behind a parenthesis, or behind its first operand, says what has been opened
    | some .unary, .group :: frames => some ⟨.unary t :: frames, none⟩
    | none, .call opening function [] :: frames =>
      if t.kind = .closeParen then some ⟨frames, some (.call opening function [])⟩ else none
    | _, _ => none
  | ⟨frames, some e⟩, t =>
    match Rules.standard.follow? t.kind, frames with
    | some (_, .call), frames => some ⟨.call t e [] :: frames, none⟩
    | some (_, .binary), .group :: frames => some ⟨.binary t e :: frames, none⟩
    | none, frame :: frames =>
      match t.kind, frame with
      | .closeParen, frame => (frame.close? e).map fun e => ⟨frames, some e⟩
      | .comma, .call opening function arguments =>
        some ⟨.call opening function (arguments ++ [e]) :: frames, none⟩
      | _, _ => none
    | _, _ => none

/-- All tokens from here. -/
def walk (b : Rebuilt) (ts : List Token) : Option Rebuilt :=
  ts.foldlM step b

variable {b b' : Rebuilt} {t : Token} {ts us : List Token} {frames : List Frame} {e : Expr}

theorem walk_cons (h : b.step t = some b') (ts : List Token) : b.walk (t :: ts) = b'.walk ts := by
  rw [walk, List.foldlM_cons, h]
  rfl

theorem walk_append (h : b.walk ts = some b') (us : List Token) :
    b.walk (ts ++ us) = b'.walk us := by
  rw [walk, List.foldlM_append, ← walk, h]
  rfl

/-! ## 2. Steps over printed tokens -/

theorem step_leaf (h : t.leaf? = some e) : step ⟨frames, none⟩ t = some ⟨frames, some e⟩ := by
  have hstart := start?_of_leaf? h
  simp only [step, hstart, h]
  rfl

theorem step_open (frames : List Frame) :
    step ⟨frames, none⟩ (Token.ofChar '(') = some ⟨.group :: frames, none⟩ := rfl

theorem step_unary (h : t.kind = .not ∨ t.kind = .dash) (frames : List Frame) :
    step ⟨.group :: frames, none⟩ t = some ⟨.unary t :: frames, none⟩ := by
  have hstart : Rules.standard.start? t.kind = some .unary := by
    rcases h with h | h <;> rw [h] <;> rfl
  simp only [step, hstart]

theorem step_binary {s : Stratum} (h : t.kind ∈ s.operators) (e : Expr) (frames : List Frame) :
    step ⟨.group :: frames, some e⟩ t = some ⟨.binary t e :: frames, none⟩ := by
  have hfollow := (Stratum.follow?_of_mem_operators h).1
  simp only [step, hfollow]

theorem step_call (h : t.kind = .openParen) (e : Expr) (frames : List Frame) :
    step ⟨frames, some e⟩ t = some ⟨.call t e [] :: frames, none⟩ := by
  have hfollow : Rules.standard.follow? t.kind = some (.call, .call) := by
    rw [h]
    rfl
  simp only [step, hfollow]

theorem step_comma (opening : Token) (function : Expr) (arguments : List Expr) (e : Expr)
    (frames : List Frame) :
    step ⟨.call opening function arguments :: frames, some e⟩ (Token.ofChar ',') =
      some ⟨.call opening function (arguments ++ [e]) :: frames, none⟩ := rfl

theorem step_close {frame : Frame} {e' : Expr} (h : frame.close? e = some e')
    (frames : List Frame) :
    step ⟨frame :: frames, some e⟩ (Token.ofChar ')') = some ⟨frames, some e'⟩ := by
  show (frame.close? e).map _ = _
  rw [h]
  rfl

theorem step_close_empty (opening : Token) (function : Expr) (frames : List Frame) :
    step ⟨.call opening function [] :: frames, none⟩ (Token.ofChar ')') =
      some ⟨frames, some (.call opening function [])⟩ := rfl

/-- Only a token that can stand in an expression is passed. -/
theorem step_eq_none (hstart : Rules.standard.start? t.kind = none)
    (hfollow : Rules.standard.follow? t.kind = none) (hclose : t.kind ≠ .closeParen)
    (hcomma : t.kind ≠ .comma) (b : Rebuilt) : b.step t = none := by
  obtain ⟨frames, _ | e⟩ := b
  · simp only [step, hstart]
    split <;> simp_all
  · simp only [step, hfollow]
    split <;> simp_all

theorem plain_of_step (h : b.step t = some b') : t.kind ≠ .semicolon ∧ t.kind ≠ .illegal := by
  constructor <;> intro hkind
  all_goals
    rw [step_eq_none (by rw [hkind]; rfl) (by rw [hkind]; rfl) (by rw [hkind]; decide)
      (by rw [hkind]; decide)] at h
    cases h

theorem plain_of_walk (h : b.walk ts = some b') :
    ∀ t ∈ ts, t.kind ≠ .semicolon ∧ t.kind ≠ .illegal := by
  induction ts generalizing b with
  | nil => exact nofun
  | cons t ts ih =>
    cases hstep : b.step t with
    | none =>
      rw [walk, List.foldlM_cons, hstep] at h
      cases h
    | some c =>
      rw [walk_cons hstep] at h
      exact List.forall_mem_cons.mpr ⟨plain_of_step hstep, ih h⟩

end Rebuilt

/-! ## 3. Trees from their tokens -/

open Rebuilt

mutual

/-- A walk over printed tokens opens nothing that it does not close, and ends with the tree. -/
theorem Expr.WellFormed.walk_printed {e : Expr} :
    e.WellFormed → ∀ frames, walk ⟨frames, none⟩ e.printed = some ⟨frames, some e⟩
  | @Expr.WellFormed.identifier t kind _, frames => by
    have hleaf : t.leaf? = some (.identifier (.ofToken t)) := by simp only [Token.leaf?, kind]
    exact walk_cons (step_leaf hleaf) []
  | @Expr.WellFormed.integer t v kind spelled value, frames => by
    have hvalue : Text.Decimal.int64? t.literal = some v := by
      have hlt := v.toInt_lt
      exact Text.Decimal.int64?_eq_some_iff.mpr ⟨spelled.isNumeral kind, by omega, value⟩
    have hleaf : t.leaf? = some (.integer t v) := by
      simp only [Token.leaf?, kind, hvalue, Option.map_some]
    exact walk_cons (step_leaf hleaf) []
  | @Expr.WellFormed.true t kind _, frames => by
    have hleaf : t.leaf? = some (.boolean t true) := by simp only [Token.leaf?, kind]
    exact walk_cons (step_leaf hleaf) []
  | @Expr.WellFormed.false t kind _, frames => by
    have hleaf : t.leaf? = some (.boolean t false) := by simp only [Token.leaf?, kind]
    exact walk_cons (step_leaf hleaf) []
  | @Expr.WellFormed.unary operator r kind _ right, frames => by
    rw [Expr.printed, walk_cons (step_open frames), walk_cons (step_unary kind frames),
      walk_append (right.walk_printed _), walk_cons (step_close rfl frames)]
    rfl
  | @Expr.WellFormed.binary operator s l r kind _ left right, frames => by
    rw [Expr.printed, walk_cons (step_open frames), List.append_assoc,
      walk_append (left.walk_printed _), List.cons_append, walk_cons (step_binary kind l frames),
      walk_append (right.walk_printed _), walk_cons (step_close rfl frames)]
    rfl
  | @Expr.WellFormed.call opening f es kind _ function arguments, frames => by
    -- the function has ended when its parenthesis comes, so the walk does not have to look ahead
    rw [Expr.printed, walk_append (function.walk_printed _), walk_cons (step_call kind f frames)]
    cases es with
    | nil => exact walk_cons (step_close_empty opening f frames) []
    | cons e es => exact arguments.walk_printed (List.cons_ne_nil e es) opening f [] frames

theorem Expr.AllWellFormed.walk_printed {es : List Expr} :
    Expr.AllWellFormed es → es ≠ [] → ∀ opening function before frames,
      walk ⟨.call opening function before :: frames, none⟩
          (Expr.argumentsPrinted es ++ [Token.ofChar ')']) =
        some ⟨frames, some (.call opening function (before ++ es))⟩
  | @Expr.AllWellFormed.cons e [] first .nil, _, opening, function, before, frames => by
    rw [Expr.argumentsPrinted, walk_append (first.walk_printed _), walk_cons (step_close rfl frames)]
    rfl
  | @Expr.AllWellFormed.cons e (e' :: es) first others, _, opening, function, before, frames => by
    rw [Expr.argumentsPrinted, List.append_assoc, walk_append (first.walk_printed _),
      List.cons_append, walk_cons (step_comma opening function before e frames),
      others.walk_printed (List.cons_ne_nil e' es), List.append_assoc]
    · rfl
    · exact nofun

end

/-- The expression whose printed tokens these are. -/
def Expr.ofTokens? (ts : List Token) : Option Expr :=
  (Rebuilt.empty.walk ts).bind Rebuilt.last?

namespace Expr

variable {e : Expr}

theorem WellFormed.ofTokens?_printed (h : e.WellFormed) : ofTokens? e.printed = some e := by
  rw [ofTokens?, Rebuilt.empty, h.walk_printed]
  rfl

theorem WellFormed.plain_printed (h : e.WellFormed) :
    ∀ t ∈ e.printed, t.kind ≠ .semicolon ∧ t.kind ≠ .illegal :=
  plain_of_walk (h.walk_printed [])

end Expr

/-! ## 4. Statements from their tokens -/

namespace Statement

/-- The tokens of the text of a statement, up to the semicolon behind it. -/
def printed (s : Statement) : List Token :=
  s.opening ++ s.valuePrinted

/-- The statement whose printed tokens these are, without the token of an expression by itself. -/
def ofTokens? : List Token → Option Statement
  | [] => none
  | t :: ts =>
    match Rules.standard.statement? t.kind, ts with
    | some .letStatement, name :: _ :: value =>
      (Expr.ofTokens? value).map fun e => .letStatement t (.ofToken name) (some e)
    | some .returnStatement, value => some (.returnStatement t (Expr.ofTokens? value))
    | _, _ => (Expr.ofTokens? (t :: ts)).map (.expression Token.eof)

variable {s s' : Statement} {ss ss' : List Statement}

theorem WellFormed.ofTokens?_printed (h : s.WellFormed) :
    ofTokens? s.printed = some s.withoutToken := by
  cases h with
  | @letStatement keyword name e keyword_kind keyword_spelled name_kind name_spelled value =>
    have hrule : Rules.standard.statement? keyword.kind = some .letStatement := by
      rw [keyword_kind]
      rfl
    have hvalue : Expr.ofTokens? ([] ++ e.printed) = some e := value.ofTokens?_printed
    show ofTokens? (keyword :: name :: Token.ofChar '=' :: ([] ++ e.printed)) = _
    simp only [ofTokens?, hrule, hvalue]
    rfl
  | @returnNothing keyword keyword_kind keyword_spelled =>
    have hrule : Rules.standard.statement? keyword.kind = some .returnStatement := by
      rw [keyword_kind]
      rfl
    show ofTokens? [keyword] = _
    simp only [ofTokens?, hrule]
    rfl
  | @returnValue keyword e keyword_kind keyword_spelled value =>
    have hrule : Rules.standard.statement? keyword.kind = some .returnStatement := by
      rw [keyword_kind]
      rfl
    show ofTokens? (keyword :: e.printed) = _
    simp only [ofTokens?, hrule, value.ofTokens?_printed]
    rfl
  | @expression _ e value =>
    obtain ⟨t, us, rule, hprinted, hstart⟩ := value.derives.starts
    have hrule := (Rules.of_start? hstart).1
    have hvalue := value.ofTokens?_printed
    show ofTokens? e.printed = _
    rw [hprinted] at hvalue ⊢
    simp only [ofTokens?, hrule, hvalue]
    rfl

theorem WellFormed.plain_opening (h : s.WellFormed) :
    ∀ t ∈ s.opening, t.kind ∈ [.kwLet, .kwReturn, .identifier, .assignment] := by
  cases h with
  | letStatement keyword_kind keyword_spelled name_kind name_spelled value =>
    simp [opening, Identifier.ofToken, keyword_kind, name_kind, Token.ofChar, Kind.ofChar]
  | returnNothing keyword_kind keyword_spelled => simp [opening, keyword_kind]
  | returnValue keyword_kind keyword_spelled value => simp [opening, keyword_kind]
  | expression value => simp [opening]

theorem WellFormed.plain_printed (h : s.WellFormed) :
    ∀ t ∈ s.printed, t.kind ≠ .semicolon ∧ t.kind ≠ .illegal := by
  intro t ht
  rcases List.mem_append.mp ht with hopening | hvalue
  · have hkind := h.plain_opening t hopening
    constructor <;> intro heq <;> rw [heq] at hkind <;> exact absurd hkind (by decide)
  · unfold valuePrinted at hvalue
    cases h with
    | letStatement keyword_kind keyword_spelled name_kind name_spelled value =>
      exact value.plain_printed t hvalue
    | returnNothing keyword_kind keyword_spelled => exact absurd hvalue List.not_mem_nil
    | returnValue keyword_kind keyword_spelled value => exact value.plain_printed t hvalue
    | expression value => exact value.plain_printed t hvalue

theorem listPrinted_cases (s : Statement) (rest : List Statement) :
    (rest = [] ∧ listPrinted (s :: rest) = s.printed) ∨
      listPrinted (s :: rest) = s.printed ++ Token.ofChar ';' :: listPrinted rest := by
  rw [listPrinted, printed, List.append_assoc]
  split
  · next hlast =>
    rw [Bool.and_eq_true, List.isEmpty_iff] at hlast
    exact .inl ⟨hlast.2, by rw [List.append_nil]⟩
  · exact .inr rfl

theorem WellFormed.withoutToken_of_printed (h : s.WellFormed) (h' : s'.WellFormed)
    (heq : s.printed = s'.printed) : s.withoutToken = s'.withoutToken := by
  have htree := congrArg ofTokens? heq
  rw [h.ofTokens?_printed, h'.ofTokens?_printed] at htree
  exact Option.some.inj htree

theorem WellFormed.semicolon_not_mem_printed (h : s.WellFormed) :
    Token.ofChar ';' ∉ s.printed :=
  fun hmem => (h.plain_printed _ hmem).1 rfl

theorem WellFormed.listPrinted_ne_nil (h : s.WellFormed) (rest : List Statement) :
    listPrinted (s :: rest) ≠ [] := by
  obtain ⟨t, ts, hts, -⟩ := h.exists_first rest
  rw [hts]
  exact List.cons_ne_nil t ts

/-- Printed statements are cut at their semicolons in one way. -/
theorem map_withoutToken_of_listPrinted (h : ∀ s ∈ ss, s.WellFormed)
    (h' : ∀ s ∈ ss', s.WellFormed) (heq : listPrinted ss = listPrinted ss') :
    ss.map withoutToken = ss'.map withoutToken := by
  induction ss generalizing ss' with
  | nil =>
    cases ss' with
    | nil => rfl
    | cons s' rest' =>
      exact absurd heq.symm ((h' s' List.mem_cons_self).listPrinted_ne_nil rest')
  | cons s rest ih =>
    cases ss' with
    | nil => exact absurd heq ((h s List.mem_cons_self).listPrinted_ne_nil rest)
    | cons s' rest' =>
      obtain ⟨hs, hrest⟩ := List.forall_mem_cons.mp h
      obtain ⟨hs', hrest'⟩ := List.forall_mem_cons.mp h'
      have hmark := hs.semicolon_not_mem_printed
      have hmark' := hs'.semicolon_not_mem_printed
      -- only an expression at the end of the list has no semicolon behind it
      rcases listPrinted_cases s rest with ⟨rfl, hlist⟩ | hlist <;>
        rcases listPrinted_cases s' rest' with ⟨rfl, hlist'⟩ | hlist' <;>
        rw [hlist, hlist'] at heq
      · rw [List.map_singleton, List.map_singleton, hs.withoutToken_of_printed hs' heq]
      · rw [heq] at hmark
        exact absurd (List.mem_append_right _ List.mem_cons_self) hmark
      · rw [← heq] at hmark'
        exact absurd (List.mem_append_right _ List.mem_cons_self) hmark'
      · obtain ⟨hprinted, hlater⟩ := Text.append_mark_inj hmark hmark' heq
        rw [List.map_cons, List.map_cons, hs.withoutToken_of_printed hs' hprinted,
          ih hrest hrest' hlater]

theorem legal_listPrinted (h : ∀ s ∈ ss, s.WellFormed) :
    ∀ t ∈ listPrinted ss, t.kind ≠ .illegal := by
  induction ss with
  | nil => exact nofun
  | cons s rest ih =>
    obtain ⟨hs, hrest⟩ := List.forall_mem_cons.mp h
    have hplain := fun t ht => (hs.plain_printed t ht).2
    rcases listPrinted_cases s rest with ⟨-, hlist⟩ | hlist <;> rw [hlist]
    · exact hplain
    · exact List.forall_mem_append.mpr ⟨hplain, List.forall_mem_cons.mpr ⟨by decide, ih hrest⟩⟩

end Statement

end LetLang
