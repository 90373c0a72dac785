import LetLang.Proofs.Lexing.Layouts
import LetLang.Proofs.Text.Forms
import LetLang.Session

/-!
# Dumps — a dump tells the tokens

A dump shows the literal of a token only if its kind has more than one.  Nothing is lost by that:
the literal of any other kind is fixed by the kind, which a line of the dump names before the first
blank, and as no literal has a line feed in it the dump can be cut into its lines.
-/

namespace LetLang

open Token

namespace Token

/-! ## 1. One line -/

theorem Kind.name_inj {k l : Kind} (h : k.name = l.name) : k = l := by
  have hname := congrArg ofName? h
  rw [ofName?_name, ofName?_name] at hname
  exact Option.some.inj hname

/-- A kind whose literals are all alike is the end, or it has a spelling. -/
theorem Kind.fixed_of_not_varies {k : Kind} (h : k.varies = false) :
    k = .eof ∨ k.symbol? ≠ none := by
  cases k <;> first | exact .inl rfl | exact .inr (Option.some_ne_none _) | cases h

/-- The literal as a dump shows it. -/
def shown (t : Token) : String :=
  if t.kind.varies then t.literal else ""

theorem toList_dump (t : Token) :
    t.dump.toList = t.kind.name.toList ++ ' ' :: '(' :: (t.shown.toList ++ [')']) := by
  simp [dump, shown]

variable {t u : Token}

theorem Spelled.eq_of_shown (ht : t.Spelled) (hu : u.Spelled) (hkind : t.kind = u.kind)
    (hshown : t.shown = u.shown) : t = u := by
  obtain ⟨kind, literal⟩ := t
  obtain ⟨kind', literal'⟩ := u
  obtain rfl : kind = kind' := hkind
  cases hvaries : kind.varies with
  | true =>
    -- what is shown is the literal
    simp only [shown, hvaries, if_true] at hshown
    rw [hshown]
  | false =>
    -- nothing is shown, but there is one literal only
    rcases Kind.fixed_of_not_varies hvaries with rfl | hfixed
    · exact (ht.eq_eof rfl).trans (hu.eq_eof rfl).symm
    · have hliteral := (ht.symbol?_eq hfixed).symm.trans (hu.symbol?_eq hfixed)
      exact congrArg (Token.mk kind) (Option.some.inj hliteral)

/-- A token that is spelled as its kind allows is told by its line. -/
theorem Spelled.eq_of_dump (ht : t.Spelled) (hu : u.Spelled)
    (h : t.dump.toList = u.dump.toList) : t = u := by
  have hname : ∀ k ∈ Kind.all, ' ' ∉ k.name.toList := by decide
  rw [toList_dump, toList_dump] at h
  obtain ⟨hkind, hrest⟩ :=
    Text.append_mark_inj (hname _ (Kind.mem_all _)) (hname _ (Kind.mem_all _)) h
  have hshown := List.append_cancel_right (List.cons.inj hrest).2
  exact ht.eq_of_shown hu (Kind.name_inj (String.toList_inj.mp hkind))
    (String.toList_inj.mp hshown)

theorem Spelled.lineFeed_not_mem_dump (h : t.Spelled) : '\n' ∉ t.dump.toList := by
  have hname : ∀ k ∈ Kind.all, '\n' ∉ k.name.toList := by decide
  have hshown : '\n' ∉ t.shown.toList := by
    unfold shown
    split
    · intro hmem
      exact absurd (h.of_mem hmem).1 (by decide)
    · exact List.not_mem_nil
  rw [toList_dump]
  simp [hname _ (Kind.mem_all _), hshown]

theorem selfDelimiting_dump :
    Text.SelfDelimiting Spelled fun t => t.dump.toList ++ ['\n'] :=
  .of_mark (fun _ _ ht hu => ht.eq_of_dump hu) (fun _ ht => ht.lineFeed_not_mem_dump)

end Token

/-! ## 2. Whole dumps -/

theorem toList_dumpTokens (source : String) :
    (dumpTokens source).toList =
      ((tokenize source).takeWhile (!·.is .eof)).flatMap fun t => t.dump.toList ++ ['\n'] := by
  rw [dumpTokens, String.toList_join, List.flatMap_map]
  simp

theorem tokenize_eq_takeWhile (source : String) :
    tokenize source = (tokenize source).takeWhile (!·.is .eof) ++ [Token.eof] := by
  rw [takeWhile_tokenize]
  exact tokenize_eq source

theorem spelled_of_mem_dumped {source : String} {t : Token}
    (h : t ∈ (tokenize source).takeWhile (!·.is .eof)) : t.Spelled := by
  rw [takeWhile_tokenize] at h
  exact Lexing.spelled_of_mem_tokens (List.takeWhile_subset _ h)

/-- **A dump loses nothing.**  Two texts have the same dump exactly if they have the same tokens. -/
theorem dumpTokens_eq_iff (s t : String) :
    dumpTokens s = dumpTokens t ↔ tokenize s = tokenize t := by
  constructor
  · intro h
    have hlists := congrArg String.toList h
    rw [toList_dumpTokens, toList_dumpTokens] at hlists
    have htokens := selfDelimiting_dump.flatMap_inj
      (fun t _ => List.append_ne_nil_of_right_ne_nil _ (List.cons_ne_nil _ _))
      (fun _ => spelled_of_mem_dumped) (fun _ => spelled_of_mem_dumped) hlists
    rw [tokenize_eq_takeWhile s, tokenize_eq_takeWhile t, htokens]
  · intro h
    rw [dumpTokens, dumpTokens, h]

end LetLang
