import LetLang.Tree.Equality
import LetLang.Tree.Printer

/-!
# Traversals — how deep calls go that follow a tree

Trees are printed, copied, released and compared by recursion, with a call for each node that is
come to.  Here all four run on a number of calls that may stand inside each other, and have no
result where those are not enough.  The first three come to every node, so they need as many calls
as the tree is high.  A comparison stops at the first difference: it needs at most as many as
either tree is high, and as many as that only where it finds none.
-/

namespace LetLang

/-! ## 1. Calls inside each other -/

/-- A computation that may make so many calls inside each other; if they are not enough it has no
result. -/
abbrev Calls := ReaderT Nat Option

namespace Calls

variable {α β : Type}

/-- A computation inside one more call. -/
def deeper (body : Calls α) : Calls α
  | 0 => none
  | calls + 1 => body calls

/-- The computation has this result, and needs exactly so many calls inside each other for it. -/
def Needs (n : Nat) (c : Calls α) (a : α) : Prop :=
  ∀ calls, c calls = if n ≤ calls then some a else none

variable {m n : Nat} {a : α} {b : β} {c : Calls α} {f : α → Calls β}

theorem needs_pure (a : α) : Needs 0 (pure a) a := fun _ => rfl

theorem Needs.deeper (h : Needs n c a) : Needs (n + 1) (deeper c) a := by
  intro calls
  cases calls with
  | zero => rfl
  | succ calls =>
    rw [Calls.deeper, h calls]
    simp only [Nat.succ_le_succ_iff]

/-- Two computations one after the other need as many calls as the one that needs more. -/
theorem Needs.bind (h : Needs m c a) (h' : Needs n (f a) b) : Needs (max m n) (c >>= f) b := by
  intro calls
  show (c calls).bind (fun a => f a calls) = _
  rw [h calls]
  by_cases hm : m ≤ calls
  · rw [if_pos hm, Option.bind_some, h' calls]
    simp only [Nat.max_le, hm, true_and]
  · rw [if_neg hm, Option.bind_none, if_neg fun hmax => hm (Nat.max_le.mp hmax).1]

theorem Needs.bind_pure (h : Needs n c a) (f : α → β) :
    Needs n (c >>= fun a => pure (f a)) (f a) := by
  have hboth := h.bind (f := fun a => pure (f a)) (needs_pure (f a))
  rwa [Nat.max_zero] at hboth

/-- A test that needs at most so many calls by two counts, and exactly as many if it is passed. -/
def Tests (m n : Nat) (c : Calls Bool) (passed : Bool) : Prop :=
  ∃ k, k ≤ m ∧ k ≤ n ∧ (passed = true → k = m) ∧ Needs k c passed

variable {m' n' : Nat} {c c' : Calls Bool} {passed passed' : Bool}

theorem tests_pure (passed : Bool) : Tests 0 0 (pure passed) passed :=
  ⟨0, Nat.le_refl 0, Nat.le_refl 0, fun _ => rfl, needs_pure passed⟩

theorem Tests.deeper (h : Tests m n c passed) : Tests (m + 1) (n + 1) (deeper c) passed := by
  obtain ⟨k, hm, hn, hexact, hneeds⟩ := h
  exact ⟨k + 1, Nat.succ_le_succ hm, Nat.succ_le_succ hn, fun h => congrArg (· + 1) (hexact h),
    hneeds.deeper⟩

theorem tests_failed (hm : 0 < m) (hn : 0 < n) : Tests m n (Calls.deeper (pure false)) false :=
  ⟨1, hm, hn, nofun, (needs_pure false).deeper⟩

/-- The second test is made only if the first is passed. -/
theorem Tests.and (h : Tests m n c passed) (h' : passed = true → Tests m' n' c' passed') :
    Tests (max m m') (max n n') (c <&&> c') (passed && passed') := by
  obtain ⟨k, hm, hn, hexact, hneeds⟩ := h
  unfold andM
  cases passed with
  | false =>
    refine ⟨k, by omega, by omega, nofun, ?_⟩
    rw [← Nat.max_zero k]
    exact hneeds.bind (needs_pure false)
  | true =>
    obtain ⟨k', hm', hn', hexact', hneeds'⟩ := h' rfl
    refine ⟨max k k', by omega, by omega, fun h => ?_, hneeds.bind hneeds'⟩
    rw [hexact rfl, hexact' h]

end Calls

/-! ## 2. Heights -/

namespace Expr

mutual

/-- How many nodes there are on the longest way down. -/
def height : Expr → Nat
  | identifier _ => 1
  | integer _ _ => 1
  | boolean _ _ => 1
  | unary _ _ right => right.height + 1
  | binary _ _ left right => max left.height right.height + 1
  | call _ function arguments => max function.height (argumentsHeight arguments) + 1

def argumentsHeight : List Expr → Nat
  | [] => 0
  | argument :: arguments => max argument.height (argumentsHeight arguments)

end

theorem height_pos (e : Expr) : 0 < e.height := by
  cases e <;> exact Nat.succ_pos _

/-! ## 3. Printing -/

mutual

/-- Prints an expression; the arguments of a call are printed before what is called. -/
def printing : Expr → Calls String
  | identifier name => Calls.deeper do
    return name.name
  | integer token _ => Calls.deeper do
    return token.literal
  | boolean token _ => Calls.deeper do
    return token.literal
  | unary _ operator right => Calls.deeper do
    let right ← right.printing
    return "(" ++ operator ++ right ++ ")"
  | binary _ operator left right => Calls.deeper do
    let left ← left.printing
    let right ← right.printing
    return "(" ++ left ++ " " ++ operator ++ " " ++ right ++ ")"
  | call _ function arguments => Calls.deeper do
    let arguments ← printingArguments arguments
    let function ← function.printing
    return function ++ "(" ++ arguments ++ ")"

def printingArguments : List Expr → Calls String
  | [] => return ""
  | [argument] => argument.printing
  | argument :: arguments => do
    let argument ← argument.printing
    let arguments ← printingArguments arguments
    return argument ++ ", " ++ arguments

end

mutual

theorem needs_printing : ∀ e : Expr, Calls.Needs e.height e.printing e.text
  | identifier name => (Calls.needs_pure name.name).deeper
  | integer token _ => (Calls.needs_pure token.literal).deeper
  | boolean token _ => (Calls.needs_pure token.literal).deeper
  | unary _ _ right => (right.needs_printing.bind_pure _).deeper
  | binary _ _ left right => (left.needs_printing.bind (right.needs_printing.bind_pure _)).deeper
  | call _ function arguments => by
    rw [height, Nat.max_comm]
    exact ((needs_printingArguments arguments).bind (function.needs_printing.bind_pure _)).deeper

theorem needs_printingArguments :
    ∀ es : List Expr, Calls.Needs (argumentsHeight es) (printingArguments es) (argumentsText es)
  | [] => Calls.needs_pure ""
  | [argument] => by
    rw [argumentsHeight, argumentsHeight, Nat.max_zero]
    exact argument.needs_printing
  | argument :: argument' :: arguments =>
    argument.needs_printing.bind ((needs_printingArguments (argument' :: arguments)).bind_pure _)

end

/-! ## 4. Copying and releasing -/

mutual

/-- Copies an expression. -/
def copying : Expr → Calls Expr
  | identifier name => Calls.deeper do
    return .identifier name
  | integer token value => Calls.deeper do
    return .integer token value
  | boolean token value => Calls.deeper do
    return .boolean token value
  | unary token operator right => Calls.deeper do
    let right ← right.copying
    return .unary token operator right
  | binary token operator left right => Calls.deeper do
    let left ← left.copying
    let right ← right.copying
    return .binary token operator left right
  | call token function arguments => Calls.deeper do
    let function ← function.copying
    let arguments ← copyingAll arguments
    return .call token function arguments

def copyingAll : List Expr → Calls (List Expr)
  | [] => return []
  | argument :: arguments => do
    let argument ← argument.copying
    let arguments ← copyingAll arguments
    return argument :: arguments

end

mutual

/-- A copy is the expression itself. -/
theorem needs_copying : ∀ e : Expr, Calls.Needs e.height e.copying e
  | identifier name => (Calls.needs_pure (Expr.identifier name)).deeper
  | integer token value => (Calls.needs_pure (Expr.integer token value)).deeper
  | boolean token value => (Calls.needs_pure (Expr.boolean token value)).deeper
  | unary _ _ right => (right.needs_copying.bind_pure _).deeper
  | binary _ _ left right => (left.needs_copying.bind (right.needs_copying.bind_pure _)).deeper
  | call _ function arguments =>
    (function.needs_copying.bind ((needs_copyingAll arguments).bind_pure _)).deeper

theorem needs_copyingAll :
    ∀ es : List Expr, Calls.Needs (argumentsHeight es) (copyingAll es) es
  | [] => Calls.needs_pure []
  | argument :: arguments =>
    argument.needs_copying.bind ((needs_copyingAll arguments).bind_pure _)

end

mutual

/-- The tokens of the nodes, that of a node before those of its children. -/
def tokens : Expr → List Token
  | identifier name => [name.token]
  | integer token _ => [token]
  | boolean token _ => [token]
  | unary token _ right => token :: right.tokens
  | binary token _ left right => token :: (left.tokens ++ right.tokens)
  | call token function arguments => token :: (function.tokens ++ argumentsTokens arguments)

def argumentsTokens : List Expr → List Token
  | [] => []
  | argument :: arguments => argument.tokens ++ argumentsTokens arguments

end

mutual

/-- Releases an expression, node by node; the tokens that are let go, in their order. -/
def releasing : Expr → Calls (List Token)
  | identifier name => Calls.deeper do
    return [name.token]
  | integer token _ => Calls.deeper do
    return [token]
  | boolean token _ => Calls.deeper do
    return [token]
  | unary token _ right => Calls.deeper do
    let right ← right.releasing
    return token :: right
  | binary token _ left right => Calls.deeper do
    let left ← left.releasing
    let right ← right.releasing
    return token :: (left ++ right)
  | call token function arguments => Calls.deeper do
    let function ← function.releasing
    let arguments ← releasingAll arguments
    return token :: (function ++ arguments)

def releasingAll : List Expr → Calls (List Token)
  | [] => return []
  | argument :: arguments => do
    let argument ← argument.releasing
    let arguments ← releasingAll arguments
    return argument ++ arguments

end

mutual

theorem needs_releasing : ∀ e : Expr, Calls.Needs e.height e.releasing e.tokens
  | identifier name => (Calls.needs_pure [name.token]).deeper
  | integer token _ => (Calls.needs_pure [token]).deeper
  | boolean token _ => (Calls.needs_pure [token]).deeper
  | unary _ _ right => (right.needs_releasing.bind_pure _).deeper
  | binary _ _ left right =>
    (left.needs_releasing.bind (right.needs_releasing.bind_pure _)).deeper
  | call _ function arguments =>
    (function.needs_releasing.bind ((needs_releasingAll arguments).bind_pure _)).deeper

theorem needs_releasingAll :
    ∀ es : List Expr, Calls.Needs (argumentsHeight es) (releasingAll es) (argumentsTokens es)
  | [] => Calls.needs_pure []
  | argument :: arguments =>
    argument.needs_releasing.bind ((needs_releasingAll arguments).bind_pure _)

end

/-! ## 5. Comparing -/

mutual

/-- Compares two expressions, field by field in their order up to the first difference. -/
def comparing : Expr → Expr → Calls Bool
  | identifier name, identifier name' => Calls.deeper do
    return name = name'
  | integer token value, integer token' value' => Calls.deeper do
    return token = token' && value = value'
  | boolean token value, boolean token' value' => Calls.deeper do
    return token = token' && value = value'
  | unary token operator right, unary token' operator' right' => Calls.deeper <|
    pure (token = token' && operator = operator') <&&> right.comparing right'
  | binary token operator left right, binary token' operator' left' right' => Calls.deeper <|
    pure (token = token') <&&> left.comparing left' <&&> pure (operator = operator') <&&>
      right.comparing right'
  | call token function arguments, call token' function' arguments' => Calls.deeper <|
    -- lists of different lengths are told apart before their members are looked at
    pure (token = token') <&&> function.comparing function' <&&>
      pure (arguments.length = arguments'.length) <&&> comparingAll arguments arguments'
  | _, _ => Calls.deeper do
    return false

def comparingAll : List Expr → List Expr → Calls Bool
  | argument :: arguments, argument' :: arguments' =>
    argument.comparing argument' <&&> comparingAll arguments arguments'
  | _, _ => return true

end

theorem length_and_sameList :
    ∀ es es' : List Expr, (es.length = es'.length && sameList es es') = sameList es es'
  | [], [] => rfl
  | [], _ :: _ => rfl
  | _ :: _, [] => rfl
  | e :: es, e' :: es' => by
    have hrest := length_and_sameList es es'
    rw [sameList, List.length_cons, List.length_cons, Bool.and_left_comm, ← hrest]
    simp

mutual

/-- Where no difference is found the whole tree was looked at, and the other is as high. -/
theorem tests_comparing :
    ∀ e e' : Expr, Calls.Tests e.height e'.height (e.comparing e') (e.same e')
  | identifier name, e' => by
    cases e' with
    | identifier name' => exact (Calls.tests_pure (name = name')).deeper
    | _ => exact Calls.tests_failed (height_pos _) (height_pos _)
  | integer token value, e' => by
    cases e' with
    | integer token' value' => exact (Calls.tests_pure (token = token' && value = value')).deeper
    | _ => exact Calls.tests_failed (height_pos _) (height_pos _)
  | boolean token value, e' => by
    cases e' with
    | boolean token' value' => exact (Calls.tests_pure (token = token' && value = value')).deeper
    | _ => exact Calls.tests_failed (height_pos _) (height_pos _)
  | unary token operator right, e' => by
    cases e' with
    | unary token' operator' right' =>
      have htest := (Calls.tests_pure (token = token' && operator = operator')).and fun _ =>
        tests_comparing right right'
      simp only [Nat.zero_max] at htest
      exact htest.deeper
    | _ => exact Calls.tests_failed (height_pos _) (height_pos _)
  | binary token operator left right, e' => by
    cases e' with
    | binary token' operator' left' right' =>
      have htest := (Calls.tests_pure (token = token')).and fun _ =>
        (tests_comparing left left').and fun _ =>
          (Calls.tests_pure (operator = operator')).and fun _ => tests_comparing right right'
      simp only [Nat.zero_max, ← Bool.and_assoc] at htest
      exact htest.deeper
    | _ => exact Calls.tests_failed (height_pos _) (height_pos _)
  | call token function arguments, e' => by
    cases e' with
    | call token' function' arguments' =>
      have htest := (Calls.tests_pure (token = token')).and fun _ =>
        (tests_comparing function function').and fun _ =>
          (Calls.tests_pure (arguments.length = arguments'.length)).and fun h =>
            tests_comparingAll (of_decide_eq_true h)
      rw [length_and_sameList] at htest
      simp only [Nat.zero_max, ← Bool.and_assoc] at htest
      exact htest.deeper
    | _ => exact Calls.tests_failed (height_pos _) (height_pos _)

theorem tests_comparingAll : ∀ {es es' : List Expr}, es.length = es'.length →
    Calls.Tests (argumentsHeight es) (argumentsHeight es') (comparingAll es es') (sameList es es')
  | [], [], _ => Calls.tests_pure true
  | argument :: _, argument' :: _, h =>
    (tests_comparing argument argument').and fun _ => tests_comparingAll (Nat.succ.inj h)

end

/-- To find that a tree is equal to itself the whole of it is looked at. -/
theorem needs_comparing_self (e : Expr) : Calls.Needs e.height (e.comparing e) true := by
  have hsame : e.same e = true := (same_iff e e).mpr rfl
  obtain ⟨n, -, -, hexact, hneeds⟩ := e.tests_comparing e
  rw [hsame] at hexact hneeds
  rwa [hexact rfl] at hneeds

end Expr

end LetLang
