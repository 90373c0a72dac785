import Mathlib.Data.List.Basic
import LetLang.Text.Quoted

/-!
# Written forms — texts that can be cut in one way

A written form delimits itself if its end can be told whatever text follows; such forms can be
written one after the other and lose nothing.  Any form does if it is followed by a mark that it
does not hold, as a line is by its line feed.  The characters of a quoted string do without a mark:
a backslash begins an escape and nothing else, and the escape shows where it ends.
-/

namespace LetLang

namespace Text

/-! ## 1. Forms that delimit themselves -/

variable {α β : Type} {P : α → Prop} {f : α → List β}

/-- What is written, and what follows it, can both be told from the text. -/
def SelfDelimiting (P : α → Prop) (f : α → List β) : Prop :=
  ∀ ⦃a b : α⦄, P a → P b → ∀ ⦃rest rest' : List β⦄,
    f a ++ rest = f b ++ rest' → a = b ∧ rest = rest'

/-- A text is cut at its first mark in one way. -/
theorem append_mark_inj {mark : β} {xs ys rest rest' : List β} (hxs : mark ∉ xs) (hys : mark ∉ ys)
    (h : xs ++ mark :: rest = ys ++ mark :: rest') : xs = ys ∧ rest = rest' := by
  induction xs generalizing ys with
  | nil =>
    cases ys with
    | nil => exact ⟨rfl, (List.cons.inj h).2⟩
    | cons y ys =>
      obtain ⟨hy, -⟩ := List.cons.inj h
      exact absurd (hy ▸ List.mem_cons_self) hys
  | cons x xs ih =>
    cases ys with
    | nil =>
      obtain ⟨hx, -⟩ := List.cons.inj h
      exact absurd (hx ▸ List.mem_cons_self) hxs
    | cons y ys =>
      obtain ⟨rfl, hrest⟩ := List.cons.inj h
      obtain ⟨rfl, rfl⟩ :=
        ih (fun hmem => hxs (.tail _ hmem)) (fun hmem => hys (.tail _ hmem)) hrest
      exact ⟨rfl, rfl⟩

theorem not_mem_append {x : Char} {s t : String} (hs : x ∉ s.toList) (ht : x ∉ t.toList) :
    x ∉ (s ++ t).toList := by
  rw [String.toList_append, List.mem_append, not_or]
  exact ⟨hs, ht⟩

namespace SelfDelimiting

/-- Forms that can be told apart delimit themselves with a mark behind them. -/
theorem of_mark {mark : β} (hinj : ∀ ⦃a b : α⦄, P a → P b → f a = f b → a = b)
    (hmark : ∀ ⦃a : α⦄, P a → mark ∉ f a) : SelfDelimiting P fun a => f a ++ [mark] := by
  intro a b ha hb rest rest' h
  rw [List.append_assoc, List.append_assoc] at h
  obtain ⟨hform, hrest⟩ := append_mark_inj (hmark ha) (hmark hb) h
  exact ⟨hinj ha hb hform, hrest⟩

/-- Forms that delimit themselves can be told apart when one is written after the other. -/
theorem flatMap_inj (hf : SelfDelimiting P f) (hne : ∀ ⦃a : α⦄, P a → f a ≠ []) {as bs : List α}
    (has : ∀ a ∈ as, P a) (hbs : ∀ b ∈ bs, P b) (h : as.flatMap f = bs.flatMap f) : as = bs := by
  -- no form is empty, so the lists end together
  induction as generalizing bs with
  | nil =>
    cases bs with
    | nil => rfl
    | cons b bs =>
      have hnil := List.append_eq_nil_iff.mp h.symm
      exact absurd hnil.1 (hne (hbs b List.mem_cons_self))
  | cons a as ih =>
    cases bs with
    | nil =>
      have hnil := List.append_eq_nil_iff.mp h
      exact absurd hnil.1 (hne (has a List.mem_cons_self))
    | cons b bs =>
      obtain ⟨ha, hlater⟩ := List.forall_mem_cons.mp has
      obtain ⟨hb, hlater'⟩ := List.forall_mem_cons.mp hbs
      obtain ⟨rfl, hrest⟩ := hf ha hb h
      exact congrArg (a :: ·) (ih hlater hlater' hrest)

end SelfDelimiting

/-! ## 2. Digits -/

theorem digitChar_inj : ∀ m < 16, ∀ n < 16, Nat.digitChar m = Nat.digitChar n → m = n := by
  decide

/-- The digits of a number are among the sixteen that there are. -/
theorem exists_digitChar_of_mem {x : Char} {base n : Nat} (hbase : 1 < base) (hle : base ≤ 16)
    (h : x ∈ Nat.toDigits base n) : ∃ d < 16, x = Nat.digitChar d := by
  induction n using Nat.strongRecOn with
  | ind n ih =>
    rw [Nat.toDigits_eq_if hbase] at h
    by_cases hlt : n < base
    · rw [if_pos hlt, List.mem_singleton] at h
      exact ⟨n, by omega, h⟩
    · rw [if_neg hlt, List.mem_append, List.mem_singleton] at h
      rcases h with hmem | hlast
      · exact ih (n / base) (Nat.div_lt_self (by omega) hbase) hmem
      · have hmod := Nat.mod_lt n (Nat.lt_trans Nat.one_pos hbase)
        exact ⟨n % base, by omega, hlast⟩

theorem not_mem_toDigits {x : Char} (hx : ∀ d < 16, x ≠ Nat.digitChar d) {base : Nat}
    (hbase : 1 < base) (hle : base ≤ 16) (n : Nat) : x ∉ Nat.toDigits base n := by
  intro hmem
  obtain ⟨d, hd, heq⟩ := exists_digitChar_of_mem hbase hle hmem
  exact hx d hd heq

/-- A number is told by its digits. -/
theorem toDigits_inj {base m n : Nat} (hbase : 1 < base) (hle : base ≤ 16)
    (h : Nat.toDigits base m = Nat.toDigits base n) : m = n := by
  induction m using Nat.strongRecOn generalizing n with
  | ind m ih =>
    rw [Nat.toDigits_eq_if hbase, Nat.toDigits_eq_if (n := n) hbase] at h
    split at h <;> split at h
    -- one digit is told from several by the length of the list
    · next hm hn => exact digitChar_inj m (by omega) n (by omega) (List.singleton_inj.mp h)
    · exact absurd (List.append_eq_singleton_iff.mp h.symm) (by simp)
    · exact absurd (List.append_eq_singleton_iff.mp h) (by simp)
    · next hm hn =>
      obtain ⟨hinit, hlast⟩ := List.append_inj' h rfl
      have hdiv := ih (m / base) (Nat.div_lt_self (by omega) hbase) hinit
      have hm := Nat.mod_lt m (Nat.lt_trans Nat.one_pos hbase)
      have hn := Nat.mod_lt n (Nat.lt_trans Nat.one_pos hbase)
      have hmod := digitChar_inj _ (by omega) _ (by omega) (List.singleton_inj.mp hlast)
      rw [← Nat.div_add_mod m base, ← Nat.div_add_mod n base, hdiv, hmod]

/-! ## 3. Quoted strings -/

theorem shortEscape?_inj {x y letter : Char} (hx : shortEscape? x = some letter)
    (hy : shortEscape? y = some letter) : x = y := by
  unfold shortEscape? at hx hy
  split at hx <;> cases hx <;> split at hy <;> first | rfl | cases hy

theorem ne_of_shortEscape? {x letter : Char} (h : shortEscape? x = some letter) :
    letter ≠ 'u' ∧ letter ≠ '\n' := by
  unfold shortEscape? at h
  split at h <;> cases h <;> decide

/-- The three ways in which a character is written. -/
theorem escape_cases (x : Char) :
    (∃ letter, shortEscape? x = some letter ∧ escape x = ['\\', letter]) ∨
    escape x = codePointEscape x ∨
    (escape x = [x] ∧ x ≠ '\\' ∧ x ≠ '\n') := by
  cases hshort : shortEscape? x with
  | some letter => exact .inl ⟨letter, rfl, by rw [escape, hshort]⟩
  | none =>
    by_cases hpoint : needsCodePoint x = true
    · exact .inr (.inl (by rw [escape, hshort]; exact if_pos hpoint))
    · refine .inr (.inr ⟨by rw [escape, hshort]; exact if_neg hpoint, ?_, ?_⟩)
      · rintro rfl
        cases hshort
      · rintro rfl
        cases hshort

theorem codePointEscape_append (x : Char) (rest : List Char) :
    codePointEscape x ++ rest = '\\' :: 'u' :: '{' :: (Nat.toDigits 16 x.toNat ++ '}' :: rest) := by
  simp [codePointEscape]

theorem escape_ne_nil (x : Char) : escape x ≠ [] := by
  rcases escape_cases x with ⟨letter, -, h⟩ | h | ⟨h, -, -⟩ <;> rw [h] <;> exact List.cons_ne_nil _ _

theorem lineFeed_not_mem_escape (x : Char) : '\n' ∉ escape x := by
  have hdigits := not_mem_toDigits (x := '\n') (by decide) (by decide) (Nat.le_refl 16) x.toNat
  rcases escape_cases x with ⟨letter, hletter, h⟩ | h | ⟨h, -, hx⟩ <;> rw [h]
  · simp [(ne_of_shortEscape? hletter).2.symm]
  · simp [codePointEscape, hdigits]
  · simp [hx.symm]

/-- Every character of a quoted string delimits itself: an escape begins with a backslash, and the
letter behind it or the brace at its end tells where it ends. -/
theorem selfDelimiting_escape : SelfDelimiting (fun _ => True) escape := by
  intro x y _ _ rest rest' h
  have hbrace := not_mem_toDigits (x := '}') (by decide) (by decide) (Nat.le_refl 16)
  rcases escape_cases x with ⟨letter, hletter, hx⟩ | hx | ⟨hx, hback, -⟩ <;>
    rcases escape_cases y with ⟨letter', hletter', hy⟩ | hy | ⟨hy, hback', -⟩ <;>
    rw [hx, hy] at h
  case inl.inl =>
    obtain ⟨hsame, hrest⟩ := List.cons.inj (List.cons.inj h).2
    exact ⟨shortEscape?_inj hletter (hsame ▸ hletter'), hrest⟩
  case inl.inr.inl =>
    obtain ⟨hu, -⟩ := List.cons.inj (List.cons.inj h).2
    exact absurd hu (ne_of_shortEscape? hletter).1
  case inr.inl.inl =>
    obtain ⟨hu, -⟩ := List.cons.inj (List.cons.inj h).2
    exact absurd hu.symm (ne_of_shortEscape? hletter').1
  case inr.inl.inr.inl =>
    rw [codePointEscape_append, codePointEscape_append] at h
    obtain ⟨-, hpoint⟩ := List.cons.inj (List.cons.inj (List.cons.inj h).2).2
    obtain ⟨hdigits, hrest⟩ := append_mark_inj (hbrace _) (hbrace _) hpoint
    exact ⟨Char.toNat_inj.mp (toDigits_inj (by decide) (Nat.le_refl 16) hdigits), hrest⟩
  case inr.inr.inr.inr =>
    obtain ⟨rfl, hrest⟩ := List.cons.inj h
    exact ⟨rfl, hrest⟩
  -- a character that stands for itself is not the backslash of an escape
  case inl.inr.inr | inr.inl.inr.inr => exact absurd (List.cons.inj h).1.symm hback'
  case inr.inr.inl | inr.inr.inr.inl => exact absurd (List.cons.inj h).1 hback

theorem toList_quoted (s : String) :
    (quoted s).toList = '"' :: (s.toList.flatMap escape ++ ['"']) := by
  simp [quoted]

/-- A quoted string tells the string. -/
theorem quoted_inj {s t : String} (h : quoted s = quoted t) : s = t := by
  have hlists := congrArg String.toList h
  rw [toList_quoted, toList_quoted] at hlists
  have hinside := List.append_cancel_right (List.cons.inj hlists).2
  exact String.toList_inj.mp <| selfDelimiting_escape.flatMap_inj (fun x _ => escape_ne_nil x)
    (fun _ _ => trivial) (fun _ _ => trivial) hinside

theorem lineFeed_not_mem_quoted (s : String) : '\n' ∉ (quoted s).toList := by
  rw [toList_quoted, List.mem_cons, List.mem_append, List.mem_flatMap, List.mem_singleton]
  rintro (h | ⟨x, -, h⟩ | h)
  · cases h
  · exact lineFeed_not_mem_escape x h
  · cases h

end Text

end LetLang
