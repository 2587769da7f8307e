import Mathlib
import ClockedC.Vhdl.BitString

/-!
# Bit strings are read back

The digits of a bit string are the binary digits of its value modulo a power of two. A value that the width has room for
is read back by two's complement, whether it is negative or not.

* `bitString_twos_complement` : the text of a bit string.
-/

namespace ClockedC.Vhdl

/-! ## Reading digits -/

/-- The number that binary digits stand for, the highest digit first. -/
def binaryValue (digits : List Char) : Nat :=
  Nat.ofDigits 2 (digits.reverse.map fun digit => if digit = '1' then 1 else 0)

/-- The number that binary digits stand for by two's complement: the highest digit counts as negative. -/
def signedValue (digits : List Char) : Int :=
  if digits.head? = some '1' then binaryValue digits - 2 ^ digits.length else binaryValue digits

/-! ## Bits of a number -/

/-- The lowest bits of a number, the lowest first, make up its remainder. -/
theorem ofDigits_testBit (width n : Nat) :
    Nat.ofDigits 2 ((List.range width).map fun i => (n.testBit i).toNat) = n % 2 ^ width := by
  induction width generalizing n with
  | zero => simp [Nat.mod_one]
  | succ width ih =>
    -- the bits behind the lowest one are those of the half
    have hhalf : (fun i => (n.testBit i).toNat) ∘ Nat.succ = fun i => ((n / 2).testBit i).toNat := by
      funext i
      rw [Function.comp_apply, Nat.succ_eq_add_one, Nat.testBit_succ]
    rw [List.range_succ_eq_map, List.map_cons, List.map_map, hhalf, Nat.ofDigits_cons, ih, Nat.pow_succ',
      Nat.mod_mul, Nat.toNat_testBit]
    simp

/-- The bits of a number, read from the end, are the lowest bits of its remainder. -/
theorem reverse_bits (width : Nat) (value : Int) :
    (bits width value).reverse = (List.range width).map fun i => (BitVec.ofInt width value).toNat.testBit i := by
  apply List.ext_getElem
  · simp
  · intro i hi _
    have hi' : i < width := by simpa using hi
    simp only [bits, List.getElem_reverse, List.getElem_map, List.getElem_range, List.length_map, List.length_range,
      BitVec.getMsbD, BitVec.testBit_toNat]
    rw [show width - 1 - (width - 1 - i) = i by omega]
    simp [show width - 1 - i < width by omega]

theorem toNat_ofInt_emod (width : Nat) (value : Int) :
    ((BitVec.ofInt width value).toNat : Int) = value % 2 ^ width := by
  rw [BitVec.toNat_ofInt, Int.toNat_of_nonneg (Int.emod_nonneg _ (by positivity))]
  push_cast
  rfl

/-- Read as a binary number, the digits give the value modulo a power of two. -/
theorem binaryValue_bits (width : Nat) (value : Int) :
    (binaryValue ((bits width value).map bitDigit) : Int) = value % 2 ^ width := by
  have hdigit : ((fun digit => if digit = '1' then 1 else 0) ∘ bitDigit) = Bool.toNat := by
    funext bit
    cases bit <;> rfl
  rw [binaryValue, ← List.map_reverse, List.map_map, hdigit, reverse_bits, List.map_map]
  show ((Nat.ofDigits 2 ((List.range width).map fun i =>
    ((BitVec.ofInt width value).toNat.testBit i).toNat) : Nat) : Int) = _
  rw [ofDigits_testBit, Nat.mod_eq_of_lt (BitVec.isLt _), toNat_ofInt_emod]

/-! ## Two's complement -/

/-- Read by two's complement, the digits give the value that the bits stand for as a signed number. -/
theorem signedValue_bits_eq_toInt {width : Nat} (hwidth : 0 < width) (value : Int) :
    signedValue ((bits width value).map bitDigit) = (BitVec.ofInt width value).toInt := by
  have hhead : ((bits width value).map bitDigit).head? = some (bitDigit (BitVec.ofInt width value).msb) := by
    obtain ⟨n, rfl⟩ := Nat.exists_eq_add_of_le' hwidth
    rw [bits, List.range_succ_eq_map]
    rfl
  rw [signedValue, hhead, binaryValue_bits, List.length_map, length_bits, BitVec.toInt_eq_msb_cond, toNat_ofInt_emod]
  cases (BitVec.ofInt width value).msb
  · simp [bitDigit]
  · simp [bitDigit]

/-- A value that the width has room for is read back. -/
theorem signedValue_bits {width : Nat} {value : Int} (hwidth : 0 < width) (hlow : -2 ^ (width - 1) ≤ value)
    (hhigh : value < 2 ^ (width - 1)) : signedValue ((bits width value).map bitDigit) = value := by
  rw [signedValue_bits_eq_toInt hwidth, BitVec.toInt_ofInt_eq_self hwidth hlow hhigh]

/-! ## Texts -/

theorem toList_bitString (value : Int) (width : Nat) :
    (bitString value width).toList = '"' :: ((bits (clampWidth width) value).map bitDigit ++ ['"']) := by
  simp [bitString]

/-- The text of a constant is as many binary digits as its width, kept between 1 and 64, between quotes. They are those
of its value modulo a power of two. So a value that the width has room for is read back by two's complement, and no two
such values have the same text. -/
theorem bitString_twos_complement (value : Int) (width : Nat) :
    let w := max 1 (min width 64)
    ∃ digits : List Char, (bitString value width).toList = '"' :: (digits ++ ['"']) ∧ digits.length = w ∧
      (∀ digit ∈ digits, digit = '0' ∨ digit = '1') ∧ (binaryValue digits : Int) = value % 2 ^ w ∧
      (-2 ^ (w - 1) ≤ value → value < 2 ^ (w - 1) → signedValue digits = value ∧
        ∀ other : Int, -2 ^ (w - 1) ≤ other → other < 2 ^ (w - 1) → other ≠ value →
          bitString other width ≠ bitString value width) := by
  intro w
  have hw : clampWidth width = w := by
    simp only [clampWidth, w]
    omega
  have hpos : 0 < w := by
    simp only [w]
    omega
  refine ⟨(bits w value).map bitDigit, ?_, ?_, ?_, binaryValue_bits w value, ?_⟩
  · rw [toList_bitString, hw]
  · rw [List.length_map, length_bits]
  · intro digit hdigit
    obtain ⟨bit, -, rfl⟩ := List.mem_map.1 hdigit
    cases bit
    · exact .inl rfl
    · exact .inr rfl
  · intro hlow hhigh
    refine ⟨signedValue_bits hpos hlow hhigh, ?_⟩
    intro other hlow' hhigh' hne htext
    -- equal texts have equal digits, which are read back as equal values
    have hdigits : (bits w other).map bitDigit = (bits w value).map bitDigit := by
      have hlists := congrArg String.toList htext
      rw [toList_bitString, toList_bitString, hw] at hlists
      exact List.append_cancel_right (List.cons.inj hlists).2
    apply hne
    rw [← signedValue_bits hpos hlow' hhigh', hdigits, signedValue_bits hpos hlow hhigh]

/-- The least number of 64 bits is read back at the greatest width, and a wider one is no wider. -/
theorem bitString_twos_complement_least :
    ∃ digits : List Char, (bitString (-2 ^ 63) 100).toList = '"' :: (digits ++ ['"']) ∧ digits.length = 64 ∧
      binaryValue digits = 2 ^ 63 ∧ signedValue digits = -2 ^ 63 ∧
      bitString (2 ^ 63 - 1) 100 ≠ bitString (-2 ^ 63) 100 := by
  obtain ⟨digits, htext, hlength, -, hbinary, hsigned⟩ := bitString_twos_complement (-2 ^ 63) 100
  obtain ⟨hvalue, hdistinct⟩ := hsigned (by decide) (by decide)
  refine ⟨digits, htext, hlength, ?_, hvalue, hdistinct _ (by decide) (by decide) (by decide)⟩
  have hmod : (-2 ^ 63 : Int) % 2 ^ max 1 (min 100 64) = 2 ^ 63 := by decide
  rw [hmod] at hbinary
  exact_mod_cast hbinary

end ClockedC.Vhdl
