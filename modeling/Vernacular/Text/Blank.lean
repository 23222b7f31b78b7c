import Vernacular.Text.Stretch

set_option autoImplicit false

namespace Vernacular.Text

def blankStretches : List Stretch :=
  [⟨0x9, 0xd, 1⟩, ⟨0x20, 0x20, 1⟩, ⟨0x85, 0x85, 1⟩, ⟨0xa0, 0xa0, 1⟩, ⟨0x1680, 0x1680, 1⟩,
    ⟨0x2000, 0x200a, 1⟩, ⟨0x2028, 0x2029, 1⟩, ⟨0x202f, 0x202f, 1⟩, ⟨0x205f, 0x205f, 1⟩,
    ⟨0x3000, 0x3000, 1⟩]

def isBlank (c : Char) : Bool :=
  blankStretches.any (·.covers c)

def isBlankText (s : String) : Bool :=
  s.toList.all isBlank

end Vernacular.Text
