/-!
# Text

Requests, descriptions and reports are lists of characters, so that they can be read and written
by recursion on the list.  Positions count characters.  The tables
that sort characters into classes are those of Unicode 14.0.
-/

namespace TabletopDice

/-- A text is the list of its characters. -/
abbrev Text := List Char

/-- Whether the character lies in one of the stretches of code points, ends included. -/
def inRanges (ranges : List (Nat × Nat)) (c : Char) : Bool :=
  ranges.any fun r ↦ r.1 ≤ c.toNat && c.toNat ≤ r.2

/-- The Unicode white space characters, with the four information separators among them. -/
def blankRanges : List (Nat × Nat) :=
  [(0x9, 0xD), (0x1C, 0x20), (0x85, 0x85), (0xA0, 0xA0), (0x1680, 0x1680), (0x2000, 0x200A),
    (0x2028, 0x2029), (0x202F, 0x202F), (0x205F, 0x205F), (0x3000, 0x3000)]

def isBlank (c : Char) : Bool := inRanges blankRanges c

/-- The text without the characters of a class at its two ends. -/
def trimmed (outer : Char → Bool) (text : Text) : Text :=
  ((text.dropWhile outer).reverse.dropWhile outer).reverse

/-- The text without the blanks at its two ends. -/
def stripped (text : Text) : Text := trimmed isBlank text

end TabletopDice
