import Mathlib.Algebra.Group.Nat.Defs
import Mathlib.Data.List.Forall2
import HttpExchange.Proofs.Base64Groups
import HttpExchange.Proofs.Lines

/-!
# Standard Base64

Said bit by bit: a text is a run of bits, eight to the byte, and its encoding is the same run, six
to the letter, with spare bits up to a whole letter and pads up to a whole quadruple of letters
(`Base64.IsEncoding`). That is what `encode` writes (`Base64.isEncoding_encode`), and `decode?`
reads it back (`Base64.decode?_encode`).
-/

namespace HttpExchange

namespace Base64

variable {s : Bytes}

/-! ## Bits -/

/-- The lower binary digits of a number, the highest of them first. -/
def bits : Nat → Nat → List Bool
  | 0, _ => []
  | width + 1, n => bits width (n / 2) ++ [n % 2 == 1]

theorem bits_add (v w n : Nat) : bits (v + w) n = bits v (n / 2 ^ w) ++ bits w n := by
  induction w generalizing n with
  | zero => simp [bits]
  | succ w ih =>
      show bits (v + w) (n / 2) ++ [n % 2 == 1] = _
      rw [ih, Nat.div_div_eq_div_mul, ← Nat.pow_succ', List.append_assoc]
      rfl

theorem bits_congr {m n : Nat} (w : Nat) (h : m % 2 ^ w = n % 2 ^ w) : bits w m = bits w n := by
  induction w generalizing m n with
  | zero => rfl
  | succ w ih =>
      have hlow : m % 2 = n % 2 := by
        have := congrArg (· % 2) h
        simpa [Nat.pow_succ', Nat.mod_mul_right_mod] using this
      have hhigh : m / 2 % 2 ^ w = n / 2 % 2 ^ w := by
        have := congrArg (· / 2) h
        simpa [Nat.pow_succ', Nat.mod_mul_right_div_self] using this
      show bits w (m / 2) ++ [m % 2 == 1] = bits w (n / 2) ++ [n % 2 == 1]
      rw [ih hhigh, hlow]

theorem bits_shift (w n : Nat) : bits w (n * 2 ^ w) = List.replicate w false := by
  have hzero (w : Nat) : bits w 0 = List.replicate w false := by
    induction w with
    | zero => rfl
    | succ w ih =>
        rw [List.replicate_succ']
        exact congrArg (· ++ [false]) ih
  rw [← hzero]
  exact bits_congr w (by simp)

/-! ## The standard -/

/-- The letters in the order of their values. -/
def alphabet : Bytes := ascii "ABCDEFGHIJKLMNOPQRSTUVWXYZabcdefghijklmnopqrstuvwxyz0123456789+/"

/-- Letters spell values. -/
def Spells (values : List Nat) (letters : Bytes) : Prop :=
  List.Forall₂ (fun value letter => alphabet[value]? = some letter) values letters

/-- **The standard encoding of a text.** Its letters spell the bits of the text and less than a
letter of zeros, and there are pads only behind them, up to a multiple of four. -/
def IsEncoding (s e : Bytes) : Prop :=
  ∃ values letters pads spare,
    e = letters ++ List.replicate pads pad ∧ e.length % 4 = 0 ∧ pads < 3 ∧
    Spells values letters ∧ spare < 6 ∧
    values.flatMap (bits 6) = s.flatMap (fun b => bits 8 b.toNat) ++ List.replicate spare false

theorem alphabet_letter {n : Nat} (h : n < 64) : alphabet[n]? = some (letter n) := by
  have hall : ∀ n : Fin 64, alphabet[n.val]? = some (letter n) := by decide +kernel
  exact hall ⟨n, h⟩

theorem bits_letter (n : Nat) : bits 6 (n % 64) = bits 6 n := bits_congr 6 (Nat.mod_mod n 64)

/-- One byte is two letters with four bits to spare. -/
theorem bits_one (a : Nat) : [a * 16 / 64, a * 16 % 64].flatMap (bits 6)
    = bits 8 a ++ List.replicate 4 false := by
  have hletters : bits 12 (a * 16) = bits 6 (a * 16 / 64) ++ bits 6 (a * 16) := bits_add 6 6 _
  have hbytes : bits 12 (a * 16) = bits 8 (a * 16 / 16) ++ bits 4 (a * 16) := bits_add 8 4 _
  have hspare : bits 4 (a * 16) = List.replicate 4 false := bits_shift 4 a
  simp only [List.flatMap_cons, List.flatMap_nil, List.append_nil, bits_letter]
  rw [← hletters, hbytes, hspare, Nat.mul_div_cancel _ (by decide)]

/-- Two bytes are three letters with two bits to spare. -/
theorem bits_two {a b n : Nat} (hb : b < 256) (hn : n = (a * 256 + b) * 4) :
    [n / 4096, n / 64 % 64, n % 64].flatMap (bits 6)
      = bits 8 a ++ (bits 8 b ++ List.replicate 2 false) := by
  have hletters : bits 18 n = bits 6 (n / 4096) ++ (bits 6 (n / 64) ++ bits 6 n) :=
    (bits_add 6 12 n).trans (congrArg _ (bits_add 6 6 n))
  have hbytes : bits 18 n = bits 8 (n / 1024) ++ (bits 8 (n / 4) ++ bits 2 n) :=
    (bits_add 8 10 n).trans (congrArg _ (bits_add 8 2 n))
  have hspare : bits 2 n = List.replicate 2 false := hn ▸ bits_shift 2 _
  have ha : n / 1024 = a := by omega
  have hb : bits 8 (n / 4) = bits 8 b := bits_congr 8 (by omega)
  simp only [List.flatMap_cons, List.flatMap_nil, List.append_nil, bits_letter]
  rw [← hletters, hbytes, hspare, ha, hb]

/-- Three bytes are four letters. -/
theorem bits_three {a b c n : Nat} (hb : b < 256) (hc : c < 256)
    (hn : n = a * 65536 + b * 256 + c) :
    [n / 262144, n / 4096 % 64, n / 64 % 64, n % 64].flatMap (bits 6)
      = bits 8 a ++ (bits 8 b ++ bits 8 c) := by
  have hletters : bits 24 n = bits 6 (n / 262144) ++ (bits 6 (n / 4096) ++
      (bits 6 (n / 64) ++ bits 6 n)) :=
    (bits_add 6 18 n).trans (congrArg _
      ((bits_add 6 12 n).trans (congrArg _ (bits_add 6 6 n))))
  have hbytes : bits 24 n = bits 8 (n / 65536) ++ (bits 8 (n / 256) ++ bits 8 n) :=
    (bits_add 8 16 n).trans (congrArg _ (bits_add 8 8 n))
  have ha : n / 65536 = a := by omega
  have hb : bits 8 (n / 256) = bits 8 b := bits_congr 8 (by omega)
  have hc : bits 8 n = bits 8 c := bits_congr 8 (by omega)
  simp only [List.flatMap_cons, List.flatMap_nil, List.append_nil, bits_letter]
  rw [← hletters, hbytes, ha, hb, hc]

theorem spells_map {values : List Nat} (h : ∀ n ∈ values, n < 64) :
    Spells values (values.map letter) :=
  List.forall₂_map_right_iff.mpr (List.forall₂_same.mpr fun n hn => alphabet_letter (h n hn))

/-- **What `encode` writes is the standard encoding.** -/
theorem isEncoding_encode (s : Bytes) : IsEncoding s (encode s) := by
  fun_induction encode s with
  | case1 => exact ⟨[], [], 0, 0, rfl, rfl, by decide, .nil, by decide, rfl⟩
  | case2 a n =>
      have ha : a.toNat < 256 := a.toNat_lt
      have hvalues : ∀ v ∈ [n / 64, n % 64], v < 64 := by
        simp only [List.mem_cons, List.not_mem_nil, or_false, forall_eq_or_imp, forall_eq]
        omega
      refine ⟨_, _, 2, 4, rfl, Nat.mod_self 4, by decide, spells_map hvalues, by decide, ?_⟩
      simpa using bits_one a.toNat
  | case3 a b n =>
      have ha : a.toNat < 256 := a.toNat_lt
      have hb : b.toNat < 256 := b.toNat_lt
      have hvalues : ∀ v ∈ [n / 4096, n / 64 % 64, n % 64], v < 64 := by
        simp only [List.mem_cons, List.not_mem_nil, or_false, forall_eq_or_imp, forall_eq]
        omega
      refine ⟨_, _, 1, 2, rfl, Nat.mod_self 4, by decide, spells_map hvalues, by decide, ?_⟩
      simpa using bits_two hb rfl
  | case4 a b c rest n ih =>
      have ha : a.toNat < 256 := a.toNat_lt
      have hb : b.toNat < 256 := b.toNat_lt
      have hc : c.toNat < 256 := c.toNat_lt
      have hvalues : ∀ v ∈ [n / 262144, n / 4096 % 64, n / 64 % 64, n % 64], v < 64 := by
        simp only [List.mem_cons, List.not_mem_nil, or_false, forall_eq_or_imp, forall_eq]
        omega
      have htriple := bits_three (a := a.toNat) hb hc (n := n) rfl
      obtain ⟨values, letters, pads, spare, he, hfour, hpads, hspells, hspare, hbits⟩ := ih
      refine ⟨_ ++ values, _ ++ letters, pads, spare, ?_, ?_, hpads,
        List.rel_append (spells_map hvalues) hspells, hspare, ?_⟩
      · rw [he, List.append_assoc]
        rfl
      · simp only [List.length_cons]
        omega
      · rw [List.flatMap_append, htriple, hbits]
        simp

/-! ## Reading back -/

theorem value?_letter {n : Nat} (h : n < 64) : value? (letter n) = some n := by
  have hall : ∀ n : Fin 64, value? (letter n) = some n.val := by decide +kernel
  exact hall ⟨n, h⟩

theorem letter_ne_pad {n : Nat} (h : n < 64) : letter n ≠ pad := by
  have hall : ∀ n : Fin 64, letter n ≠ pad := by decide +kernel
  exact hall ⟨n, h⟩

/-- Four letters without a pad are three bytes, and what follows is read alone. -/
theorem decode?_cons {a b c d : UInt8} (hd : d ≠ pad) (rest : Bytes) :
    decode? (a :: b :: c :: d :: rest) = do
      let n := (((← value? a) * 64 + (← value? b)) * 64 + (← value? c)) * 64 + (← value? d)
      return UInt8.ofNat (n / 65536) :: UInt8.ofNat (n / 256) :: UInt8.ofNat n
        :: (← decode? rest) := by
  cases rest with
  | nil => simp [decode?, hd]
  | cons e rest => rw [decode?]; exact List.cons_ne_nil e rest

/-- **Reading back** gives the text that was encoded. -/
theorem decode?_encode (s : Bytes) : decode? (encode s) = some s := by
  fun_induction encode s with
  | case1 => rfl
  | case2 a n =>
      have ha : a.toNat < 256 := a.toNat_lt
      have hn : n = a.toNat * 16 := rfl
      rw [decode?, if_pos rfl, if_pos rfl, value?_letter (by omega), value?_letter (by omega)]
      exact congrArg (fun b => some [b]) (Byte.ofNat_eq (by omega))
  | case3 a b n =>
      have ha : a.toNat < 256 := a.toNat_lt
      have hb : b.toNat < 256 := b.toNat_lt
      have hn : n = (a.toNat * 256 + b.toNat) * 4 := rfl
      rw [decode?, if_pos rfl, if_neg (letter_ne_pad (by omega)), value?_letter (by omega),
        value?_letter (by omega), value?_letter (by omega)]
      have hjoin : (n / 4096 * 64 + n / 64 % 64) * 64 + n % 64 = n := by omega
      have ha' : UInt8.ofNat (n / 1024) = a := Byte.ofNat_eq (by omega)
      have hb' : UInt8.ofNat (n / 4) = b := Byte.ofNat_eq (by omega)
      simp only [Option.bind_eq_bind, Option.bind_some, hjoin, ha', hb']
      rfl
  | case4 a b c rest n ih =>
      have ha : a.toNat < 256 := a.toNat_lt
      have hb : b.toNat < 256 := b.toNat_lt
      have hc : c.toNat < 256 := c.toNat_lt
      have hn : n = a.toNat * 65536 + b.toNat * 256 + c.toNat := rfl
      rw [decode?_cons (letter_ne_pad (by omega)), value?_letter (by omega),
        value?_letter (by omega), value?_letter (by omega), value?_letter (by omega), ih]
      have hjoin : ((n / 262144 * 64 + n / 4096 % 64) * 64 + n / 64 % 64) * 64 + n % 64 = n := by
        omega
      have ha' : UInt8.ofNat (n / 65536) = a := Byte.ofNat_eq (by omega)
      have hb' : UInt8.ofNat (n / 256) = b := Byte.ofNat_eq (by omega)
      have hc' : UInt8.ofNat n = c := Byte.ofNat_eq (by omega)
      simp only [Option.bind_eq_bind, Option.bind_some, hjoin, ha', hb', hc']
      rfl

end Base64

end HttpExchange
