import EdgeQuery.Text.Ranges

/-!
Blank characters: those with the Unicode property White_Space. They separate tokens and mean
nothing else.
-/

namespace EdgeQuery.Text

/-- The 25 code points with the property White_Space. -/
def blankRanges : List CodeRange :=
  [⟨0x9, 0xd⟩, ⟨0x20, 0x20⟩, ⟨0x85, 0x85⟩, ⟨0xa0, 0xa0⟩, ⟨0x1680, 0x1680⟩, ⟨0x2000, 0x200a⟩,
    ⟨0x2028, 0x2029⟩, ⟨0x202f, 0x202f⟩, ⟨0x205f, 0x205f⟩, ⟨0x3000, 0x3000⟩]

def isBlank (c : Char) : Bool :=
  inRanges blankRanges c

theorem isBlank_space : isBlank ' ' = true := by decide

theorem isBlank_lineFeed : isBlank '\n' = true := by decide

end EdgeQuery.Text
