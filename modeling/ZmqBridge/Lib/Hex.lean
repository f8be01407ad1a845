import ZmqBridge.Lib.CMemory

/-!
# Zero-padded hexadecimal numerals

`hexDigits w n` is what `printf` writes for `%0<w>llx` when `n` has at most `w`
hexadecimal digits: exactly `w` of `0`–`9`, `a`–`f`, most significant first.

* `hexDigits_length`, `hexDigits_nulFree`, `hexDigits_injective`.
-/

namespace ZmqBridge.Lib

/-- The digit for a value below sixteen. -/
def hexDigit (d : Nat) : Byte :=
  if d < 10 then UInt8.ofNat (0x30 + d) else UInt8.ofNat (0x61 + (d - 10))

def hexDigits : Nat → Nat → List Byte
  | 0, _ => []
  | w + 1, n => hexDigits w (n / 16) ++ [hexDigit (n % 16)]

theorem hexDigit_ne_zero {d : Nat} (h : d < 16) : hexDigit d ≠ 0 := by
  interval_cases d <;> decide

theorem hexDigit_injective {d e : Nat} (hd : d < 16) (he : e < 16)
    (h : hexDigit d = hexDigit e) : d = e := by
  have hAll : ∀ d : Fin 16, ∀ e : Fin 16, hexDigit d = hexDigit e → d = e := by decide
  exact congrArg Fin.val (hAll ⟨d, hd⟩ ⟨e, he⟩ h)

@[simp] theorem hexDigits_length (w n : Nat) : (hexDigits w n).length = w := by
  induction w generalizing n with
  | zero => rfl
  | succ w ih => simp [hexDigits, ih]

theorem hexDigits_nulFree (w n : Nat) : NulFree (hexDigits w n) := by
  induction w generalizing n with
  | zero => exact nulFree_nil
  | succ w ih =>
    rw [hexDigits, nulFree_append]
    exact ⟨ih _, by simpa using hexDigit_ne_zero (Nat.mod_lt n (by decide))⟩

/-- Numerals of the same width are equal only for equal numbers. -/
theorem hexDigits_injective {w m n : Nat} (hm : m < 16 ^ w) (hn : n < 16 ^ w)
    (h : hexDigits w m = hexDigits w n) : m = n := by
  induction w generalizing m n with
  | zero => simp_all
  | succ w ih =>
    rw [hexDigits, hexDigits] at h
    obtain ⟨hHigh, hLow⟩ := List.append_inj' h rfl
    have hDiv : m / 16 = n / 16 :=
      ih (Nat.div_lt_of_lt_mul (by rw [← pow_succ']; exact hm))
        (Nat.div_lt_of_lt_mul (by rw [← pow_succ']; exact hn)) hHigh
    have hMod : m % 16 = n % 16 :=
      hexDigit_injective (Nat.mod_lt m (by decide)) (Nat.mod_lt n (by decide))
        (List.cons.inj hLow).1
    omega

example : hexDigits 4 0x2f = [0x30, 0x30, 0x32, 0x66] := by decide

end ZmqBridge.Lib
