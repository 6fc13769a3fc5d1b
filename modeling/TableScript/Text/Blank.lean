import TableScript.Text.CodePoints

/-!
The characters that separate tokens: the property `White_Space`.
-/

namespace TableScript

/-- Code points with the property `White_Space`. -/
def blanks : CodePoints where
  intervals := [
    (0x9, 0xD), (0x20, 0x20), (0x85, 0x85), (0xA0, 0xA0), (0x1680, 0x1680), (0x2000, 0x200A),
    (0x2028, 0x2029), (0x202F, 0x202F), (0x205F, 0x205F), (0x3000, 0x3000)]

/-- Whether a character only separates what stands around it. -/
def isBlank (c : Char) : Bool :=
  blanks.contains c

end TableScript
