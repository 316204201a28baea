/-!
Words of 32 bits and their bytes. The byte form is big-endian everywhere, and
`ofBytesUnsigned_bytes` says that a word is recovered from its four bytes.
-/
namespace Mips

abbrev Byte := BitVec 8

abbrev Word := BitVec 32

namespace Word

/-- The low 32 bits of an integer in two's complement. -/
def ofInt (value : Int) : Word :=
  BitVec.ofInt 32 value

/-- The four bytes, most significant first. -/
def bytes (w : Word) : List Byte :=
  [w.extractLsb' 24 8, w.extractLsb' 16 8, w.extractLsb' 8 8, w.extractLsb' 0 8]

/-- The last `count` bytes; a count below one or above four is taken as one or four. -/
def lowBytes (w : Word) (count : Nat) : List Byte :=
  w.bytes.drop (4 - max 1 (min count 4))

/-- Moves a byte in from the right, as the top byte leaves on the left. -/
def pushByte (w : Word) (b : Byte) : Word :=
  (w <<< 8) ||| b.setWidth 32

/-- The word of a big-endian byte list, extended with zeros; only the last four bytes count. -/
def ofBytesUnsigned (bytes : List Byte) : Word :=
  bytes.foldl pushByte 0

/-- The word of a big-endian byte list, extended with the sign of the first byte. -/
def ofBytes (bytes : List Byte) : Word :=
  bytes.foldl pushByte (if bytes.head?.any BitVec.msb then BitVec.allOnes 32 else 0)

theorem ofBytesUnsigned_bytes (w : Word) : ofBytesUnsigned w.bytes = w := by
  apply BitVec.eq_of_getLsbD_eq
  intro i hi
  simp only [ofBytesUnsigned, bytes, pushByte, List.foldl_cons, List.foldl_nil,
    BitVec.getLsbD_or, BitVec.getLsbD_shiftLeft, BitVec.getLsbD_setWidth,
    BitVec.getLsbD_extractLsb']
  by_cases h0 : i < 8
  · simp [h0, hi]
  · by_cases h1 : i < 16
    · simp [h0, hi, show i - 8 < 8 by omega, show i - 8 < 32 by omega,
        show 8 + (i - 8) = i by omega]
    · by_cases h2 : i < 24
      · simp [h0, hi, show ¬ i - 8 < 8 by omega, show i - 8 < 32 by omega,
          show i - 8 - 8 < 8 by omega, show i - 8 - 8 < 32 by omega,
          show 16 + (i - 8 - 8) = i by omega]
      · simp [h0, hi, show ¬ i - 8 < 8 by omega, show i - 8 < 32 by omega,
          show ¬ i - 8 - 8 < 8 by omega, show i - 8 - 8 < 32 by omega,
          show i - 8 - 8 - 8 < 8 by omega, show i - 8 - 8 - 8 < 32 by omega,
          show 24 + (i - 8 - 8 - 8) = i by omega]

/-- The sum, unless it leaves the signed range. -/
def addChecked? (a b : Word) : Option Word :=
  if BitVec.saddOverflow a b then none else some (a + b)

/-- The difference, unless it leaves the signed range. -/
def subChecked? (a b : Word) : Option Word :=
  if BitVec.ssubOverflow a b then none else some (a - b)

/-- Hexadecimal digits without leading zeros. -/
def hex (w : Word) : String :=
  String.ofList (Nat.toDigits 16 w.toNat)

/-- Eight hexadecimal digits. -/
def paddedHex (w : Word) : String :=
  let digits := Nat.toDigits 16 w.toNat
  String.ofList (List.replicate (8 - digits.length) '0' ++ digits)

end Word

end Mips
