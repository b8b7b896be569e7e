/-!
Blank characters, and cutting a text at its ends.

`strip` removes blank characters on both sides; `dropTrailing`, `afterLast` and
`throughLast` work on the right end of a text and are what the path operations
are made of.
-/

set_option autoImplicit false

namespace FileSpec.Text

def blankRanges : List (Nat × Nat) :=
  [(0x09, 0x0D), (0x1C, 0x20), (0x85, 0x85), (0xA0, 0xA0), (0x1680, 0x1680),
    (0x2000, 0x200A), (0x2028, 0x2029), (0x202F, 0x202F), (0x205F, 0x205F),
    (0x3000, 0x3000)]

def inRanges (ranges : List (Nat × Nat)) (codePoint : Nat) : Bool :=
  ranges.any fun range => range.1 ≤ codePoint && codePoint ≤ range.2

def isBlankChar (character : Char) : Bool :=
  inRanges blankRanges character.toNat

/-- A text is blank when it shows nothing; the empty text is blank. -/
def isBlank (text : List Char) : Bool :=
  text.all isBlankChar

def dropTrailing (drop : Char → Bool) (text : List Char) : List Char :=
  (text.reverse.dropWhile drop).reverse

/-- What follows the last character satisfying `delimits`; the whole text if there is none. -/
def afterLast (delimits : Char → Bool) (text : List Char) : List Char :=
  (text.reverse.takeWhile fun character => !delimits character).reverse

/-- The text up to and with the last character satisfying `delimits`; empty if there is none. -/
def throughLast (delimits : Char → Bool) (text : List Char) : List Char :=
  (text.reverse.dropWhile fun character => !delimits character).reverse

def strip (text : List Char) : List Char :=
  dropTrailing isBlankChar (text.dropWhile isBlankChar)

@[simp]
theorem throughLast_append_afterLast (delimits : Char → Bool) (text : List Char) :
    throughLast delimits text ++ afterLast delimits text = text := by
  rw [throughLast, afterLast, ← List.reverse_append, List.takeWhile_append_dropWhile,
    List.reverse_reverse]

end FileSpec.Text
