import LetLang.Text.CodeRange

/-!
# Default ignorables — characters that show nothing

The Unicode property `Default_Ignorable_Code_Point`, version 17.0: joiners, fillers, variation
selectors, tags, and what is set aside for more of them.  A text is displayed as if such a character
were not there.  The Hangul fillers U+115F, U+1160, U+3164 and U+FFA0 are the letters among them.
-/

namespace LetLang

namespace Text

/-- The code points with the property `Default_Ignorable_Code_Point`, as ascending ranges. -/
def defaultIgnorableRanges : List CodeRange :=
  [⟨0xad, 0xad⟩, ⟨0x34f, 0x34f⟩, ⟨0x61c, 0x61c⟩, ⟨0x115f, 0x1160⟩, ⟨0x17b4, 0x17b5⟩,
    ⟨0x180b, 0x180f⟩, ⟨0x200b, 0x200f⟩, ⟨0x202a, 0x202e⟩, ⟨0x2060, 0x206f⟩, ⟨0x3164, 0x3164⟩,
    ⟨0xfe00, 0xfe0f⟩, ⟨0xfeff, 0xfeff⟩, ⟨0xffa0, 0xffa0⟩, ⟨0xfff0, 0xfff8⟩, ⟨0x1bca0, 0x1bca3⟩,
    ⟨0x1d173, 0x1d17a⟩, ⟨0xe0000, 0xe0fff⟩]

/-- Whether a character is left out when a text is displayed. -/
def isDefaultIgnorable (c : Char) : Bool :=
  CodeRange.covers defaultIgnorableRanges c

/-- The ranges ascend, and none is empty. -/
theorem ascending_defaultIgnorableRanges :
    CodeRange.ascending defaultIgnorableRanges = true ∧
      ∀ r ∈ defaultIgnorableRanges, r.first ≤ r.last := by
  decide +kernel

example : "\u115f\u1160\u3164\uffa0".toList.all isDefaultIgnorable = true := by decide +kernel

end Text

end LetLang
