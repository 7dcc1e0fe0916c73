/-!
# Words

A word is a maximal run of characters that are not white space.
-/
namespace Manuscript.Text

/-- The code points of white space that separates words, as closed ranges in ascending order. -/
def blankRanges : List (Nat × Nat) :=
  [(0x9, 0xd), (0x1c, 0x20), (0x85, 0x85), (0xa0, 0xa0), (0x1680, 0x1680), (0x2000, 0x200a),
    (0x2028, 0x2029), (0x202f, 0x202f), (0x205f, 0x205f), (0x3000, 0x3000)]

def isBlank (c : Char) : Bool :=
  blankRanges.any fun range => range.1 ≤ c.toNat && c.toNat ≤ range.2

/-- The number of words of a text that follows a character of a word (`inside`) or does not. A word is
counted where it starts. -/
def wordsFrom (inside : Bool) : List Char → Nat
  | [] => 0
  | c :: cs =>
    if isBlank c then wordsFrom false cs
    else if inside then wordsFrom true cs
    else wordsFrom true cs + 1

def wordCount (text : String) : Nat := wordsFrom false text.toList

/-- The number of words of a byte string. Only the white space of ASCII divides them. -/
def byteWordCount (bytes : List UInt8) : Nat :=
  let isBlankByte (b : UInt8) : Bool := b.toNat = 0x20 ∨ (0x9 ≤ b.toNat ∧ b.toNat ≤ 0xd)
  wordsFrom false (bytes.map fun b => if isBlankByte b then ' ' else 'x')

end Manuscript.Text
