import Mathlib.Algebra.Group.Nat.Defs
import Mathlib.Data.List.Basic
import HttpExchange.Numeral

/-!
# Numerals and their values

A number that was written in decimal or hexadecimal digits is the value of these digits, and
nothing but digits is written.
-/

namespace HttpExchange

namespace Numeral

variable {base n : Nat} {h : 1 < base}

theorem render_of_lt (hn : n < base) : render base h n = [digit n] := by
  rw [render, if_pos hn]

theorem render_of_le (hn : base ≤ n) :
    render base h n = render base h (n / base) ++ [digit (n % base)] := by
  rw [render, if_neg (Nat.not_lt.mpr hn)]

theorem render_ne_nil : render base h n ≠ [] := by
  rcases Nat.lt_or_ge n base with hn | hn
  · rw [render_of_lt hn]
    exact List.cons_ne_nil _ _
  · rw [render_of_le hn]
    simp

/-- Digits are needed only as long as something is left to write. -/
theorem length_render_le {k : Nat} (hk : 0 < k) (hn : n < base ^ k) :
    (render base h n).length ≤ k := by
  induction k generalizing n with
  | zero => omega
  | succ k ih =>
      rcases Nat.lt_or_ge n base with hlt | hle
      · rw [render_of_lt hlt]
        exact Nat.succ_le_succ (Nat.zero_le k)
      · have hdiv : n / base < base ^ k := by
          rw [Nat.div_lt_iff_lt_mul (by omega), ← Nat.pow_succ]
          exact hn
        have hpos : 0 < k := by
          rcases Nat.eq_zero_or_pos k with rfl | hpos
          · rw [Nat.pow_one] at hn
            omega
          · exact hpos
        rw [render_of_le hle, List.length_append, List.length_singleton]
        exact Nat.succ_le_succ (ih hpos hdiv)

theorem mem_render {b : UInt8} (hb : b ∈ render base h n) : ∃ d, d < base ∧ b = digit d := by
  fun_induction render base h n with
  | case1 n hn => exact ⟨n, hn, List.mem_singleton.mp hb⟩
  | case2 n hn ih =>
      rcases List.mem_append.mp hb with hb | hb
      · exact ih hb
      · exact ⟨n % base, Nat.mod_lt n (by omega), List.mem_singleton.mp hb⟩

theorem hexValue?_digit {d : Nat} (hd : d < 16) :
    Byte.hexValue? (digit d) = some (UInt8.ofNat d) := by
  have : ∀ d : Fin 16, Byte.hexValue? (digit d) = some (UInt8.ofNat d) := by decide
  exact this ⟨d, hd⟩

theorem isDigit_digit {d : Nat} (hd : d < 10) : Byte.isDigit (digit d) = true := by
  have : ∀ d : Fin 10, Byte.isDigit (digit d) = true := by decide
  exact this ⟨d, hd⟩

theorem hexValue?_of_isDigit {b : UInt8} (h : Byte.isDigit b = true) :
    Byte.hexValue? b = some (b - 48) ∧ (b - 48).toNat < 10 := by
  refine ⟨if_pos h, ?_⟩
  simp only [Byte.isDigit, Bool.and_eq_true, decide_eq_true_eq, UInt8.le_iff_toNat_le] at h
  rw [UInt8.toNat_sub_of_le _ _ (UInt8.le_iff_toNat_le.mpr h.1)]
  have := h.2
  simp only [UInt8.reduceToNat] at *
  omega

/-! ## Values -/

theorem value_append_digit {d : Nat} (digits : Bytes) (hd : d < 16) :
    value base (digits ++ [digit d]) = base * value base digits + d := by
  unfold value
  rw [List.foldl_append, List.foldl_cons, List.foldl_nil, hexValue?_digit hd, Option.getD_some,
    UInt8.toNat_ofNat', Nat.mod_eq_of_lt (by omega)]

/-- **What was written is read again**, in every base up to sixteen. -/
theorem value_render (hbase : base ≤ 16) : value base (render base h n) = n := by
  fun_induction render base h n with
  | case1 n hn =>
      rw [← List.nil_append [digit n], value_append_digit [] (by omega)]
      show base * 0 + n = n
      omega
  | case2 n hn ih =>
      have hmod : n % base < base := Nat.mod_lt n (by omega)
      rw [value_append_digit _ (by omega), ih, Nat.div_add_mod]

theorem value_decimal (n : Nat) : value 10 (decimal n) = n := value_render (by decide)

theorem value_hexadecimal (n : Nat) : value 16 (hexadecimal n) = n := value_render (by decide)

theorem isDigit_of_mem_decimal {b : UInt8} (hb : b ∈ decimal n) : Byte.isDigit b = true := by
  obtain ⟨d, hd, rfl⟩ := mem_render hb
  exact isDigit_digit hd

theorem isSome_of_mem_hexadecimal {b : UInt8} (hb : b ∈ hexadecimal n) :
    (Byte.hexValue? b).isSome = true := by
  obtain ⟨d, hd, rfl⟩ := mem_render hb
  rw [hexValue?_digit hd]
  rfl

end Numeral

end HttpExchange
