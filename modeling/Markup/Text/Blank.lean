/-!
# Blank characters

The characters with the Unicode `White_Space` property, and trimming them from both ends
of a text. Declared namespace URIs and processing-instruction data are trimmed this way.
-/

namespace Markup.Text

/-- The code points with the Unicode `White_Space` property. -/
def blankCodes : List Nat :=
  [0x09, 0x0A, 0x0B, 0x0C, 0x0D, 0x20, 0x85, 0xA0, 0x1680,
   0x2000, 0x2001, 0x2002, 0x2003, 0x2004, 0x2005, 0x2006, 0x2007, 0x2008, 0x2009, 0x200A,
   0x2028, 0x2029, 0x202F, 0x205F, 0x3000]

/-- A character with the Unicode `White_Space` property. -/
def isBlank (c : Char) : Bool :=
  blankCodes.contains c.toNat

/-- Drops blank characters from the front of a character list. -/
def dropBlank (cs : List Char) : List Char :=
  cs.dropWhile isBlank

/-- Removes blank characters from both ends. -/
def trim (s : String) : String :=
  String.ofList (dropBlank (dropBlank s.toList).reverse).reverse

end Markup.Text
