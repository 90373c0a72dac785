import LetLang.Tree.Basic

/-!
# Equality of trees — node by node, tokens included

An expression holds a list of expressions, so its equality is decided together with that of
lists.  Both tests are equality and nothing less (`Expr.same_iff`).
-/

namespace LetLang

namespace Expr

mutual

/-- Whether two expressions are the same in every field. -/
def same : Expr → Expr → Bool
  | identifier n, identifier n' => n = n'
  | integer t v, integer t' v' => t = t' && v = v'
  | boolean t v, boolean t' v' => t = t' && v = v'
  | unary t o r, unary t' o' r' => t = t' && o = o' && same r r'
  | binary t o l r, binary t' o' l' r' => t = t' && same l l' && o = o' && same r r'
  | call t f as, call t' f' as' => t = t' && same f f' && sameList as as'
  | _, _ => false

/-- Whether two lists hold the same expressions in the same order. -/
def sameList : List Expr → List Expr → Bool
  | [], [] => true
  | a :: as, b :: bs => same a b && sameList as bs
  | _, _ => false

end

mutual

theorem same_iff : ∀ a b : Expr, same a b = true ↔ a = b
  | identifier n, b => by cases b <;> simp [same]
  | integer t v, b => by cases b <;> simp [same]
  | boolean t v, b => by cases b <;> simp [same]
  | unary t o r, b => by cases b <;> simp [same, same_iff r, and_assoc]
  | binary t o l r, b => by
    cases b <;> simp [same, same_iff l, same_iff r, and_assoc, and_left_comm]
  | call t f as, b => by cases b <;> simp [same, same_iff f, sameList_iff as, and_assoc]

theorem sameList_iff : ∀ as bs : List Expr, sameList as bs = true ↔ as = bs
  | [], bs => by cases bs <;> simp [sameList]
  | a :: as, bs => by cases bs <;> simp [sameList, same_iff a, sameList_iff as]

end

instance : DecidableEq Expr := fun a b =>
  decidable_of_iff (same a b = true) (same_iff a b)

end Expr

deriving instance DecidableEq for Statement

deriving instance DecidableEq for Program

end LetLang
