import Mathlib.Data.List.Basic
import HttpExchange.Base64

/-!
# Base64 in groups

As long as the bytes before it are a multiple of three, a text is encoded behind them as it
would be alone (`Base64.encode_append`). So texts that are staged in groups of 48 bytes are encoded
as one text is (`Base64.flatten_staged`), and no group is ever longer (`Base64.Staging.Fed`).
-/

namespace HttpExchange

namespace Base64

variable {s : Bytes}

theorem encode_append (h : s.length % 3 = 0) (more : Bytes) :
    encode (s ++ more) = encode s ++ encode more := by
  fun_induction encode s with
  | case1 => rfl
  | case2 a => exact absurd h (by simp)
  | case3 a b => exact absurd h (by simp)
  | case4 a b c rest n ih =>
      have hrest : rest.length % 3 = 0 := by
        simp only [List.length_cons] at h
        omega
      rw [List.cons_append, List.cons_append, List.cons_append, encode, ih hrest]
      rfl

/-! ## Staging -/

theorem length_encode (s : Bytes) : (encode s).length = (s.length + 2) / 3 * 4 := by
  fun_induction encode s with
  | case1 => rfl
  | case2 => simp only [List.length_cons, List.length_nil]
  | case3 => simp only [List.length_cons, List.length_nil]
  | case4 a b c rest n ih =>
      simp only [List.length_cons, ih]
      omega

/-- Groups are made of whole triples, so nothing is padded between them. -/
theorem encode_groups_append (h : s.length % groupSize = 0) (more : Bytes) :
    encode (s ++ more) = encode s ++ encode more := by
  unfold groupSize at h
  exact encode_append (by omega) more

namespace Staging

variable {st : Staging} {text : Bytes}

/-- A text has been fed. Its full groups are encoded, and less than a group is held. -/
structure Fed (st : Staging) (text : Bytes) : Prop where
  split : ∃ full, text = full ++ st.held ∧ full.length % groupSize = 0 ∧
    st.written.flatten = encode full
  short : st.held.length < groupSize
  lengths : ∀ piece ∈ st.written, piece.length = 64

theorem fed_empty : Fed empty [] :=
  ⟨⟨[], rfl, rfl, rfl⟩, by decide, fun _ h => absurd h List.not_mem_nil⟩

theorem Fed.store (h : Fed st text) (b : UInt8) : Fed (st.store b) (text ++ [b]) := by
  obtain ⟨full, rfl, hfull, hwritten⟩ := h.split
  have hshort := h.short
  have hlength : (st.held ++ [b]).length = st.held.length + 1 := List.length_append
  unfold Staging.store
  dsimp only
  split
  · rename_i hgroup
    refine ⟨⟨full ++ (st.held ++ [b]), ?_, ?_, ?_⟩, Nat.succ_pos 47, ?_⟩
    · simp [emit]
    · rw [List.length_append, hgroup, Nat.add_mod_right, hfull]
    · simp [emit, hwritten, encode_groups_append hfull]
    · intro piece hpiece
      rcases List.mem_append.mp hpiece with hpiece | hpiece
      · exact h.lengths piece hpiece
      · rw [List.mem_singleton.mp hpiece, length_encode, hgroup]
        rfl
  · rename_i hgroup
    refine ⟨⟨full, List.append_assoc .., hfull, hwritten⟩, ?_, h.lengths⟩
    show (st.held ++ [b]).length < groupSize
    omega

theorem Fed.feed (h : Fed st text) (s : Bytes) : Fed (st.feed s) (text ++ s) := by
  induction s generalizing st text with
  | nil => rwa [List.append_nil]
  | cons b s ih =>
      rw [List.append_cons]
      exact ih (h.store b)

theorem foldl_feed (st : Staging) (texts : List Bytes) :
    texts.foldl Staging.feed st = st.feed texts.flatten := by
  induction texts generalizing st with
  | nil => rfl
  | cons s texts ih =>
      rw [List.foldl_cons, ih, List.flatten_cons]
      exact List.foldl_append.symm

theorem Fed.flatten_finish (h : Fed st text) : st.finish.flatten = encode text := by
  obtain ⟨full, rfl, hfull, hwritten⟩ := h.split
  unfold finish
  split
  · rename_i hheld
    rw [hwritten, hheld, List.append_nil]
  · simp [emit, hwritten, encode_groups_append hfull]

/-- The letters of a group and a NUL behind them are 65 bytes at most. -/
theorem Fed.length_finish (h : Fed st text) : ∀ piece ∈ st.finish, piece.length < 65 := by
  have hwritten (piece : Bytes) (hpiece : piece ∈ st.written) : piece.length < 65 := by
    rw [h.lengths piece hpiece]
    decide
  unfold finish
  split
  · exact hwritten
  · intro piece hpiece
    rcases List.mem_append.mp hpiece with hpiece | hpiece
    · exact hwritten piece hpiece
    · have hshort : st.held.length < 48 := h.short
      rw [List.mem_singleton.mp hpiece, length_encode]
      omega

end Staging

theorem fed_staged (texts : List Bytes) :
    Staging.Fed (texts.foldl Staging.feed .empty) texts.flatten := by
  rw [Staging.foldl_feed]
  exact Staging.fed_empty.feed _

/-- **Encoding in groups is encoding as a whole**, wherever the texts end. -/
theorem flatten_staged (texts : List Bytes) : (staged texts).flatten = encode texts.flatten :=
  (fed_staged texts).flatten_finish

/-! ## Encoded texts -/

/-- Letters are all that an encoded text has, and pads. -/
theorem mem_encode {x : UInt8} (hx : x ∈ encode s) : x = pad ∨ ∃ n, n < 64 ∧ x = letter n := by
  fun_induction encode s with
  | case1 => exact absurd hx List.not_mem_nil
  | case2 a n =>
      have ha := a.toNat_lt
      simp only [List.mem_cons, List.not_mem_nil, or_false] at hx
      rcases hx with rfl | rfl | rfl | rfl
      · exact .inr ⟨n / 64, by omega, rfl⟩
      · exact .inr ⟨n % 64, by omega, rfl⟩
      · exact .inl rfl
      · exact .inl rfl
  | case3 a b n =>
      have ha := a.toNat_lt
      have hb := b.toNat_lt
      simp only [List.mem_cons, List.not_mem_nil, or_false] at hx
      rcases hx with rfl | rfl | rfl | rfl
      · exact .inr ⟨n / 4096, by omega, rfl⟩
      · exact .inr ⟨n / 64 % 64, by omega, rfl⟩
      · exact .inr ⟨n % 64, by omega, rfl⟩
      · exact .inl rfl
  | case4 a b c rest n ih =>
      have ha := a.toNat_lt
      have hb := b.toNat_lt
      have hc := c.toNat_lt
      simp only [List.mem_cons] at hx
      rcases hx with rfl | rfl | rfl | rfl | hx
      · exact .inr ⟨n / 262144, by omega, rfl⟩
      · exact .inr ⟨n / 4096 % 64, by omega, rfl⟩
      · exact .inr ⟨n / 64 % 64, by omega, rfl⟩
      · exact .inr ⟨n % 64, by omega, rfl⟩
      · exact ih hx

/-- Neither blanks nor line breaks are in an encoded text. -/
theorem plain_of_mem_encode {x : UInt8} (hx : x ∈ encode s) :
    Byte.isBlank x = false ∧ x ≠ Byte.cr ∧ x ≠ Byte.lf := by
  have hletter : ∀ n : Fin 64, Byte.isBlank (letter n) = false ∧ letter n ≠ Byte.cr ∧
      letter n ≠ Byte.lf := by decide
  rcases mem_encode hx with rfl | ⟨n, hn, rfl⟩
  · decide
  · exact hletter ⟨n, hn⟩

theorem encode_ne_nil (h : s ≠ []) : encode s ≠ [] := by
  fun_cases encode s with
  | case1 => exact absurd rfl h
  | case2 => exact List.cons_ne_nil _ _
  | case3 => exact List.cons_ne_nil _ _
  | case4 => exact List.cons_ne_nil _ _

end Base64

end HttpExchange
