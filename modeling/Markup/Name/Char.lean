/-!
# Name characters

The characters of XML 1.0 names (the `Name` production of the fifth edition of the
recommendation) with the colon left out, as namespaces require: the characters that may
start a name, and those that may only follow the first one. Both sets are given as
inclusive code point ranges.
-/

namespace Markup.Name

/-- Code point ranges, both ends included, of the characters that may start a name. -/
def startRanges : List (Nat × Nat) :=
  [(0x41, 0x5A), (0x5F, 0x5F), (0x61, 0x7A), (0xC0, 0xD6), (0xD8, 0xF6), (0xF8, 0x2FF),
   (0x370, 0x37D), (0x37F, 0x1FFF), (0x200C, 0x200D), (0x2070, 0x218F), (0x2C00, 0x2FEF),
   (0x3001, 0xD7FF), (0xF900, 0xFDCF), (0xFDF0, 0xFFFD), (0x10000, 0xEFFFF)]

/-- Code point ranges of the characters that may follow the first one without starting a
name: hyphen, full stop, digits, middle dot and the combining marks. -/
def followRanges : List (Nat × Nat) :=
  [(0x2D, 0x2E), (0x30, 0x39), (0xB7, 0xB7), (0x300, 0x36F), (0x203F, 0x2040)]

/-- Whether the code point of `c` lies in one of the ranges. -/
def inRanges (ranges : List (Nat × Nat)) (c : Char) : Bool :=
  ranges.any fun r => r.1 ≤ c.toNat && c.toNat ≤ r.2

/-- A character that may start a name. -/
def isStartChar (c : Char) : Bool :=
  inRanges startRanges c

/-- A character that may stand anywhere in a name after its first character. -/
def isNameChar (c : Char) : Bool :=
  isStartChar c || inRanges followRanges c

theorem isNameChar_of_isStartChar {c : Char} (h : isStartChar c = true) :
    isNameChar c = true := by
  simp [isNameChar, h]

/-- The colon separates a prefix from a local part, so it is no name character. -/
theorem isNameChar_colon : isNameChar ':' = false := by decide

end Markup.Name
