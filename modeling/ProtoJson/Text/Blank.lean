import ProtoJson.Text.CodeRange

/-!
# White space

The characters with the Unicode property White_Space, and the text between them.
-/

namespace ProtoJson

/-- The ranges of white space. -/
def blankRanges : List (Nat × Nat) :=
  [(0x09, 0x0D), (0x20, 0x20), (0x85, 0x85), (0xA0, 0xA0), (0x1680, 0x1680), (0x2000, 0x200A),
    (0x2028, 0x2029), (0x202F, 0x202F), (0x205F, 0x205F), (0x3000, 0x3000)]

/-- Whether a character is white space. -/
def isWhiteSpace (c : Char) : Bool := inRanges blankRanges c.toNat

/-- A text without the white space at its two ends. -/
def trimBlank (cs : List Char) : List Char :=
  ((cs.dropWhile isWhiteSpace).reverse.dropWhile isWhiteSpace).reverse

end ProtoJson
