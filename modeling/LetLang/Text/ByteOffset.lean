/-!
# Byte offsets — characters and slices of a text by where their bytes begin

A text is a list of characters, and each takes one to four bytes.  The offsets at which a
character begins are the lengths of the prefixes; at these, and only these, `characterAt?` and
`slice` are asked.  The lemmas say what both give there, in terms of the list.
-/

namespace LetLang

namespace Text

/-! ## 1. Lengths in bytes -/

/-- The number of bytes of a list of characters. -/
def byteLength : List Char → Nat
  | [] => 0
  | x :: xs => x.utf8Size + byteLength xs

@[simp] theorem byteLength_nil : byteLength [] = 0 := rfl

@[simp] theorem byteLength_cons (x : Char) (xs : List Char) :
    byteLength (x :: xs) = x.utf8Size + byteLength xs := rfl

@[simp] theorem byteLength_append (xs ys : List Char) :
    byteLength (xs ++ ys) = byteLength xs + byteLength ys := by
  induction xs with
  | nil => simp
  | cons x xs ih => simp [ih, Nat.add_assoc]

/-- A string is as long as its characters together. -/
theorem utf8ByteSize_eq_byteLength (s : String) : s.utf8ByteSize = byteLength s.toList := by
  suffices h : ∀ xs : List Char, (String.ofList xs).utf8ByteSize = byteLength xs by
    simpa using h s.toList
  intro xs
  induction xs with
  | nil => rfl
  | cons x xs ih =>
    rw [show x :: xs = [x] ++ xs from rfl, String.ofList_append, String.utf8ByteSize_append, ih,
      ← String.singleton_eq_ofList, String.utf8ByteSize_singleton]
    simp

/-! ## 2. One character -/

/-- The character that begins at a byte offset; none at the end of the text. -/
def characterAt? (s : String) (offset : Nat) : Option Char :=
  String.Pos.Raw.get? s ⟨offset⟩

private theorem utf8GetAux?_cons (x : Char) (xs : List Char) (i p : String.Pos.Raw) :
    String.Pos.Raw.utf8GetAux? (x :: xs) i p =
      if i = p then some x else String.Pos.Raw.utf8GetAux? xs (i + x) p := rfl

private theorem utf8GetAux?_append (suf : List Char) :
    ∀ (pre : List Char) (i : Nat),
      String.Pos.Raw.utf8GetAux? (pre ++ suf) ⟨i⟩ ⟨i + byteLength pre⟩ = suf.head?
  | [], i => by
    cases suf with
    | nil => rfl
    | cons x suf => exact if_pos rfl
  | x :: pre, i => by
    have hpos := x.utf8Size_pos
    have hne : (⟨i⟩ : String.Pos.Raw) ≠ ⟨i + byteLength (x :: pre)⟩ := by
      simp only [ne_eq, String.Pos.Raw.mk.injEq, byteLength_cons]
      omega
    have hnext : (⟨i⟩ : String.Pos.Raw) + x = ⟨i + x.utf8Size⟩ := rfl
    rw [List.cons_append, utf8GetAux?_cons, if_neg hne, hnext, byteLength_cons, ← Nat.add_assoc]
    exact utf8GetAux?_append suf pre (i + x.utf8Size)

private theorem utf8GetAux?_past :
    ∀ (xs : List Char) (i p : Nat), i + byteLength xs ≤ p →
      String.Pos.Raw.utf8GetAux? xs ⟨i⟩ ⟨p⟩ = none
  | [], _, _, _ => rfl
  | x :: xs, i, p, h => by
    have hpos := x.utf8Size_pos
    rw [byteLength_cons] at h
    have hne : (⟨i⟩ : String.Pos.Raw) ≠ ⟨p⟩ := by
      simp only [ne_eq, String.Pos.Raw.mk.injEq]
      omega
    have hnext : (⟨i⟩ : String.Pos.Raw) + x = ⟨i + x.utf8Size⟩ := rfl
    rw [utf8GetAux?_cons, if_neg hne, hnext]
    exact utf8GetAux?_past xs (i + x.utf8Size) p (by omega)

/-- At the length of a prefix begins the first character after it. -/
theorem characterAt?_byteLength {s : String} {pre suf : List Char} (h : s.toList = pre ++ suf) :
    characterAt? s (byteLength pre) = suf.head? := by
  have hget := utf8GetAux?_append suf pre 0
  rw [Nat.zero_add, ← h] at hget
  exact hget

/-- No character begins at the end or past it. -/
theorem characterAt?_eq_none {s : String} {offset : Nat} (h : s.utf8ByteSize ≤ offset) :
    characterAt? s offset = none := by
  rw [utf8ByteSize_eq_byteLength] at h
  exact utf8GetAux?_past s.toList 0 offset (by omega)

/-! ## 3. Slices -/

/-- The text from one byte offset up to another. -/
def slice (s : String) (first stop : Nat) : String :=
  String.Pos.Raw.extract s ⟨first⟩ ⟨stop⟩

private theorem extractGo₂_cons (x : Char) (xs : List Char) (i stop : String.Pos.Raw) :
    String.Pos.Raw.extract.go₂ (x :: xs) i stop =
      if i = stop then [] else x :: String.Pos.Raw.extract.go₂ xs (i + x) stop := rfl

private theorem extractGo₂_append (suf : List Char) :
    ∀ (mid : List Char) (i : Nat),
      String.Pos.Raw.extract.go₂ (mid ++ suf) ⟨i⟩ ⟨i + byteLength mid⟩ = mid
  | [], i => by
    cases suf with
    | nil => rfl
    | cons x suf => exact if_pos rfl
  | x :: mid, i => by
    have hpos := x.utf8Size_pos
    have hne : (⟨i⟩ : String.Pos.Raw) ≠ ⟨i + byteLength (x :: mid)⟩ := by
      simp only [ne_eq, String.Pos.Raw.mk.injEq, byteLength_cons]
      omega
    have hnext : (⟨i⟩ : String.Pos.Raw) + x = ⟨i + x.utf8Size⟩ := rfl
    rw [List.cons_append, extractGo₂_cons, if_neg hne, hnext, byteLength_cons, ← Nat.add_assoc]
    exact congrArg (x :: ·) (extractGo₂_append suf mid (i + x.utf8Size))

private theorem extractGo₁_cons (x : Char) (xs : List Char) (i first stop : String.Pos.Raw) :
    String.Pos.Raw.extract.go₁ (x :: xs) i first stop =
      if i = first then String.Pos.Raw.extract.go₂ (x :: xs) i stop
      else String.Pos.Raw.extract.go₁ xs (i + x) first stop := rfl

private theorem extractGo₁_append (stop : String.Pos.Raw) (suf : List Char) :
    ∀ (pre : List Char) (i : Nat),
      String.Pos.Raw.extract.go₁ (pre ++ suf) ⟨i⟩ ⟨i + byteLength pre⟩ stop =
        String.Pos.Raw.extract.go₂ suf ⟨i + byteLength pre⟩ stop
  | [], i => by
    cases suf with
    | nil => rfl
    | cons x suf => exact if_pos rfl
  | x :: pre, i => by
    have hpos := x.utf8Size_pos
    have hne : (⟨i⟩ : String.Pos.Raw) ≠ ⟨i + byteLength (x :: pre)⟩ := by
      simp only [ne_eq, String.Pos.Raw.mk.injEq, byteLength_cons]
      omega
    have hnext : (⟨i⟩ : String.Pos.Raw) + x = ⟨i + x.utf8Size⟩ := rfl
    rw [List.cons_append, extractGo₁_cons, if_neg hne, hnext, byteLength_cons, ← Nat.add_assoc]
    exact extractGo₁_append stop suf pre (i + x.utf8Size)

private theorem slice_eq (s : String) (first stop : Nat) :
    slice s first stop =
      if first ≥ stop then ""
      else String.ofList (String.Pos.Raw.extract.go₁ s.toList 0 ⟨first⟩ ⟨stop⟩) := rfl

/-- Between the lengths of two prefixes lies what the longer one adds to the shorter. -/
theorem slice_byteLength {s : String} {pre mid suf : List Char}
    (h : s.toList = pre ++ mid ++ suf) :
    slice s (byteLength pre) (byteLength (pre ++ mid)) = String.ofList mid := by
  rw [slice_eq]
  cases mid with
  | nil => rw [List.append_nil, if_pos (Nat.le_refl _), String.ofList_nil]
  | cons x mid =>
    have hpos := x.utf8Size_pos
    have hlt : ¬ byteLength pre ≥ byteLength (pre ++ x :: mid) := by
      rw [byteLength_append, byteLength_cons]
      omega
    have hgo₁ := extractGo₁_append ⟨byteLength (pre ++ x :: mid)⟩ (x :: mid ++ suf) pre 0
    have hgo₂ := extractGo₂_append suf (x :: mid) (byteLength pre)
    rw [Nat.zero_add] at hgo₁
    rw [← byteLength_append] at hgo₂
    rw [if_neg hlt, h, List.append_assoc]
    exact congrArg String.ofList (hgo₁.trans hgo₂)

end Text

end LetLang
