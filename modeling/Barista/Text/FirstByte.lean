import Barista.Text.Letter

/-!
# First bytes

The first byte of a character in UTF-8.  Beyond ASCII many characters share it, so that a reader of
bytes who has seen no more than the first one cannot yet tell a letter from any other character.
-/

namespace Barista
namespace Text

def firstByte (code : Nat) : Nat :=
  if code < 0x80 then code
  else if code < 0x800 then 0xc0 + code / 0x40
  else if code < 0x10000 then 0xe0 + code / 0x1000
  else 0xf0 + code / 0x40000

/-- Some code in the ranges has the same first byte as `code`. -/
def firstByteInRanges (ranges : List (Nat × Nat)) (code : Nat) : Bool :=
  ranges.any fun range ↦
    firstByte range.1 ≤ firstByte code && firstByte code ≤ firstByte range.2

/-- Some letter or number beyond ASCII has the same first byte. -/
def startsLikeLetter (c : Char) : Bool :=
  0x80 ≤ c.toNat &&
    (firstByteInRanges letterRanges c.toNat || firstByteInRanges numberRanges c.toNat)

end Text
end Barista
