/-!
# Blank characters

The characters that Unicode gives the property `White_Space`, and what the relay does with them:
a text is *blank* when it holds nothing else, and *trimming* drops them at both ends. A link ends
at the first of them. ASCII alone would not do: callers write U+3000 and U+00A0 too.
-/

set_option autoImplicit false

namespace ModelRelay.Text

/-- The code points with the property `White_Space`, as closed ranges in ascending order. -/
def blankRanges : List (Nat × Nat) :=
  [(0x9, 0xD), (0x20, 0x20), (0x85, 0x85), (0xA0, 0xA0), (0x1680, 0x1680), (0x2000, 0x200A),
   (0x2028, 0x2029), (0x202F, 0x202F), (0x205F, 0x205F), (0x3000, 0x3000)]

/-- A character that separates words. -/
def isBlank (c : Char) : Bool :=
  blankRanges.any fun (low, high) => low ≤ c.toNat && c.toNat ≤ high

/-- Drops blanks at both ends of a list of characters. -/
def trimChars (s : List Char) : List Char :=
  ((s.dropWhile isBlank).reverse.dropWhile isBlank).reverse

/-- Drops blanks at both ends. -/
def trim (s : String) : String :=
  String.ofList (trimChars s.toList)

/-- Nothing but blanks. -/
def isBlankText (s : String) : Bool :=
  s.toList.all isBlank

end ModelRelay.Text
