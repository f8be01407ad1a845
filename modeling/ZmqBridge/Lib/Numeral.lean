import ZmqBridge.Lib.Hex
import Mathlib

/-!
# Numerals

Numerals without leading zeros, as `printf` writes them, and `atoi`, which reads the
decimal ones.

* `numeral_take`   — the beginning of a numeral is the numeral of a quotient;
* `atoi_printInt`  — printing an `int` and reading it back;
* `atoi_hex`       — of a hexadecimal numeral only the `0` in front is read.
-/

namespace ZmqBridge.Lib

-- ---------------------------------------------------------------------------
-- Printing
-- ---------------------------------------------------------------------------

/-- The last `w` digits of `n`. -/
def digitsOf (b : Nat) : Nat → Nat → List Byte
  | 0, _ => []
  | w + 1, n => digitsOf b w (n / b) ++ [hexDigit (n % b)]

/-- The numeral of `n` in base `b`, most significant digit first. -/
def numeral (b n : Nat) : List Byte := digitsOf b (Nat.log b n + 1) n

/-- What `printf` writes for `%d`; `0x2d` is the minus sign. -/
def printInt (z : Int) : List Byte :=
  if z < 0 then 0x2d :: numeral 10 z.natAbs else numeral 10 z.natAbs

/-- The numeral behind `0x`. -/
def hexNumeral (n : Nat) : List Byte := 0x30 :: 0x78 :: numeral 16 n

theorem length_digitsOf (b w n : Nat) : (digitsOf b w n).length = w := by
  induction w generalizing n with
  | zero => rfl
  | succ w ih => rw [digitsOf, List.length_append, ih, List.length_singleton]

theorem length_numeral (b n : Nat) : (numeral b n).length = Nat.log b n + 1 :=
  length_digitsOf ..

theorem digitsOf_add (b w k n : Nat) :
    digitsOf b (w + k) n = digitsOf b w (n / b ^ k) ++ digitsOf b k n := by
  induction k generalizing n with
  | zero => rw [Nat.add_zero, pow_zero, Nat.div_one, digitsOf, List.append_nil]
  | succ k ih =>
    rw [← Nat.add_assoc, digitsOf, digitsOf, ih, Nat.div_div_eq_div_mul, ← pow_succ',
      List.append_assoc]

/-- **The beginning of a numeral is a numeral.** -/
theorem numeral_take {b n m : Nat} (hm : 0 < m) (hLen : m ≤ (numeral b n).length) :
    (numeral b n).take m = numeral b (n / b ^ ((numeral b n).length - m)) := by
  rw [length_numeral] at hLen ⊢
  obtain ⟨k, hk⟩ := Nat.exists_eq_add_of_le hLen
  have hSub : Nat.log b n + 1 - m = k := by omega
  have hLog : Nat.log b (n / b ^ k) + 1 = m := by
    rw [Nat.log_div_base_pow]
    omega
  rw [hSub, numeral, numeral, hLog, hk, digitsOf_add,
    List.take_left' (length_digitsOf b m _)]

-- ---------------------------------------------------------------------------
-- Reading
-- ---------------------------------------------------------------------------

/-- `isspace` in the POSIX locale. -/
def isSpace (b : Byte) : Bool := b = 0x20 || (decide (0x09 ≤ b) && decide (b ≤ 0x0d))

def isDecimalDigit (b : Byte) : Bool := decide (0x30 ≤ b) && decide (b ≤ 0x39)

/-- The number that the digits in front stand for. -/
def leadingNumber (text : List Byte) : Nat :=
  (text.takeWhile isDecimalDigit).foldl (fun n b => 10 * n + (b.toNat - 0x30)) 0

/-- The number `strtol` reads in base 10: white space, a sign, digits. -/
def leadingInt (text : List Byte) : Int :=
  let text := text.dropWhile isSpace
  if text.head? = some 0x2d then -(leadingNumber (text.drop 1))
  else if text.head? = some 0x2b then leadingNumber (text.drop 1)
  else leadingNumber text

/-- `atoi`; what it does with a number that is no `int` is undefined. -/
def atoi (text : List Byte) : Option Int :=
  let value := leadingInt text
  if -2 ^ 31 ≤ value ∧ value < 2 ^ 31 then some value else none

theorem hexDigit_decimal : ∀ d < 10, isDecimalDigit (hexDigit d) = true ∧
    (hexDigit d).toNat - 0x30 = d ∧ isSpace (hexDigit d) = false ∧
    hexDigit d ≠ 0x2d ∧ hexDigit d ≠ 0x2b := by
  decide

/-- Every digit of a decimal numeral comes from a number below ten. -/
theorem mem_digitsOf {w n : Nat} {b : Byte} (h : b ∈ digitsOf 10 w n) :
    ∃ d < 10, b = hexDigit d := by
  induction w generalizing n with
  | zero => cases h
  | succ w ih =>
    rcases List.mem_append.mp h with hFront | hLast
    · exact ih hFront
    · exact ⟨n % 10, Nat.mod_lt n (by decide), List.mem_singleton.mp hLast⟩

theorem takeWhile_digitsOf (w n : Nat) :
    (digitsOf 10 w n).takeWhile isDecimalDigit = digitsOf 10 w n := by
  rw [List.takeWhile_eq_self_iff]
  intro b hb
  obtain ⟨d, hd, rfl⟩ := mem_digitsOf hb
  exact (hexDigit_decimal d hd).1

theorem foldl_digitsOf (w n : Nat) :
    (digitsOf 10 w n).foldl (fun n b => 10 * n + (b.toNat - 0x30)) 0 = n % 10 ^ w := by
  induction w generalizing n with
  | zero => rw [digitsOf, List.foldl_nil, pow_zero, Nat.mod_one]
  | succ w ih =>
    have hDigit := (hexDigit_decimal (n % 10) (Nat.mod_lt n (by decide))).2.1
    rw [digitsOf, List.foldl_append, ih, List.foldl_cons, List.foldl_nil, hDigit, pow_succ',
      Nat.mod_mul]
    omega

theorem leadingNumber_numeral (n : Nat) : leadingNumber (numeral 10 n) = n := by
  rw [leadingNumber, numeral, takeWhile_digitsOf, foldl_digitsOf, Nat.mod_eq_of_lt]
  exact Nat.lt_pow_succ_log_self (by decide) n

theorem numeral_injective : Function.Injective (numeral 10) :=
  Function.LeftInverse.injective leadingNumber_numeral

theorem numeral_head (n : Nat) : ∃ d rest, d < 10 ∧ numeral 10 n = hexDigit d :: rest := by
  cases hNum : numeral 10 n with
  | nil =>
    have hLen := length_numeral 10 n
    rw [hNum] at hLen
    cases hLen
  | cons b rest =>
    obtain ⟨d, hd, rfl⟩ := mem_digitsOf (w := Nat.log 10 n + 1) (n := n) (b := b)
      (by rw [← numeral, hNum]; exact List.mem_cons_self)
    exact ⟨d, rest, hd, rfl⟩

theorem leadingInt_numeral (n : Nat) : leadingInt (numeral 10 n) = n := by
  obtain ⟨d, rest, hd, hNum⟩ := numeral_head n
  obtain ⟨-, -, hSpace, hMinus, hPlus⟩ := hexDigit_decimal d hd
  have hDrop : (numeral 10 n).dropWhile isSpace = numeral 10 n := by
    rw [hNum, List.dropWhile_cons_of_neg (by rw [hSpace]; exact Bool.false_ne_true)]
  have hHead : (numeral 10 n).head? = some (hexDigit d) := by rw [hNum, List.head?_cons]
  unfold leadingInt
  simp only [hDrop, hHead, Option.some.injEq, if_neg hMinus, if_neg hPlus,
    leadingNumber_numeral]

/-- **An `int` is read as it was printed.** -/
theorem atoi_printInt {z : Int} (hLow : -2 ^ 31 ≤ z) (hHigh : z < 2 ^ 31) :
    atoi (printInt z) = some z := by
  have hValue : leadingInt (printInt z) = z := by
    unfold printInt
    split
    · rename_i hNeg
      have hMinus : leadingInt (0x2d :: numeral 10 z.natAbs) = -(z.natAbs : Int) := by
        show -((leadingNumber (numeral 10 z.natAbs) : Nat) : Int) = _
        rw [leadingNumber_numeral]
      rw [hMinus]
      omega
    · rw [leadingInt_numeral]
      omega
  rw [atoi, hValue]
  exact if_pos ⟨hLow, hHigh⟩

theorem printInt_natCast (n : Nat) : printInt n = numeral 10 n := by
  rw [printInt, if_neg (by omega), Int.natAbs_natCast]

/-- **Of a hexadecimal numeral only the first character is read.** -/
theorem atoi_hex (n : Nat) : atoi (hexNumeral n) = some 0 := by
  have hDigits : (hexNumeral n).takeWhile isDecimalDigit = [0x30] := by
    rw [hexNumeral, List.takeWhile_cons_of_pos (by decide),
      List.takeWhile_cons_of_neg (by decide)]
  have hDrop : (hexNumeral n).dropWhile isSpace = hexNumeral n := by
    rw [hexNumeral, List.dropWhile_cons_of_neg (by decide)]
  have hHead : (hexNumeral n).head? = some 0x30 := by rw [hexNumeral, List.head?_cons]
  have hNumber : leadingNumber (hexNumeral n) = 0 := by
    rw [leadingNumber, hDigits]
    rfl
  have hSign : (0x30 : Byte) ≠ 0x2d ∧ (0x30 : Byte) ≠ 0x2b := by decide
  have hValue : leadingInt (hexNumeral n) = 0 := by
    unfold leadingInt
    simp only [hDrop, hHead, Option.some.injEq, if_neg hSign.1, if_neg hSign.2, hNumber]
    rfl
  rw [atoi, hValue]
  decide

end ZmqBridge.Lib
