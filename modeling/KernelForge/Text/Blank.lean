/-!
# Blank characters and trimming

A character is **blank** when it has the Unicode property White_Space. The table has 25
members; in particular the no-break space U+00A0 is blank and the zero-width space U+200B is not.
-/

namespace KernelForge.Text

/-- The closed ranges of code points that are blank. -/
def blankRanges : List (Nat × Nat) :=
  [(0x9, 0xD), (0x20, 0x20), (0x85, 0x85), (0xA0, 0xA0), (0x1680, 0x1680), (0x2000, 0x200A),
   (0x2028, 0x2029), (0x202F, 0x202F), (0x205F, 0x205F), (0x3000, 0x3000)]

/-- The character lies in one of the blank ranges. -/
def isBlank (c : Char) : Bool :=
  blankRanges.any fun r => r.1 ≤ c.toNat && c.toNat ≤ r.2

def trimChars (cs : List Char) : List Char :=
  ((cs.dropWhile isBlank).reverse.dropWhile isBlank).reverse

/-- Drop the blank characters at both ends of a text. -/
def trim (s : String) : String :=
  String.ofList (trimChars s.toList)

end KernelForge.Text
