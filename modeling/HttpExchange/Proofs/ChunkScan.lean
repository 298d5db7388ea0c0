import HttpExchange.Proofs.ChunkText

/-!
# Scanners find the pieces of chunked text

The scanners of a body reader see one byte at a time. Fed with a text they say of it what
`ChunkText` says of the text as a whole: `scanText_sizeLine`, `scanText_dataEnd` and
`scanText_trailers`, one equation for each scanner and without conditions.
-/

namespace HttpExchange

namespace ChunkText

/-- A scanner that is fed with a text, until it has seen its end or met a fault. -/
def scanText {s α : Type} (step : s → UInt8 → Verdict s α) : s → Bytes → Piece α
  | _, [] => .cut
  | state, b :: text =>
    match step state b with
    | .more state => scanText step state text
    | .done value => .whole value text
    | .fault fault => .faulty fault

/-! ## The end of a chunk's data -/

theorem scanText_dataEnd (text : Bytes) :
    scanText DataEnd.step .wantsCr text = lineEnd .dataEnd .dataEnd text := by
  match text with
  | [] => rfl
  | [b] =>
      by_cases hb : b = Byte.cr <;> simp [scanText, DataEnd.step, lineEnd, hb]
  | b :: c :: rest =>
      by_cases hb : b = Byte.cr
      · by_cases hc : c = Byte.lf <;> simp [scanText, DataEnd.step, lineEnd, hb, hc]
      · simp [scanText, DataEnd.step, lineEnd, hb]

/-! ## Trailers -/

/-- Inside a line, the scanner goes on to the end of it. -/
theorem scanText_inLine (text : Bytes) :
    scanText Trailers.step .inLine text =
      match lineEnd .trailerEnd .trailerEnd (text.dropWhile (· ≠ Byte.cr)) with
      | .whole _ rest => scanText Trailers.step .lineStart rest
      | .cut => .cut
      | .faulty fault => .faulty fault := by
  induction text with
  | nil => rfl
  | cons b text ih =>
      by_cases hb : b = Byte.cr
      · subst hb
        cases text with
        | nil => rfl
        | cons c rest =>
            by_cases hc : c = Byte.lf <;>
              simp [scanText, Trailers.step, lineEnd, hc]
      · have hstep : scanText Trailers.step .inLine (b :: text)
            = scanText Trailers.step .inLine text := by
          simp [scanText, Trailers.step, hb]
        rw [hstep, ih]
        simp [hb]

theorem scanText_trailers (text : Bytes) :
    scanText Trailers.step .lineStart text = trailers text := by
  match text with
  | [] => rw [trailers_eq]; rfl
  | b :: rest =>
      by_cases hb : b = Byte.cr
      · subst hb
        rw [trailers_cr]
        cases rest with
        | nil => rfl
        | cons c rest =>
            by_cases hc : c = Byte.lf <;> simp [scanText, Trailers.step, lineEnd, hc]
      · have hstep : scanText Trailers.step .lineStart (b :: rest)
            = scanText Trailers.step .inLine rest := by
          simp [scanText, Trailers.step, hb]
        rw [trailers_line hb, hstep, scanText_inLine]
        cases hl : lineEnd .trailerEnd .trailerEnd (rest.dropWhile (· ≠ Byte.cr)) with
        | whole value more => exact scanText_trailers more
        | cut => rfl
        | faulty fault => rfl
termination_by text.length
decreasing_by
  have hlt := length_of_lineEnd_dropWhile hl
  simp only [List.length_cons]
  omega

/-! ## Size lines -/

/-- The value of more digits behind a value. -/
def sizeFrom (value : Nat) (digits : Bytes) : Nat :=
  digits.foldl (fun n b => 16 * n + ((Byte.hexValue? b).getD 0).toNat) value

theorem le_sizeFrom (value : Nat) (digits : Bytes) : value ≤ sizeFrom value digits := by
  induction digits generalizing value with
  | nil => exact Nat.le_refl _
  | cons b digits ih =>
      have hstep : value ≤ 16 * value + ((Byte.hexValue? b).getD 0).toNat := by omega
      exact Nat.le_trans hstep (ih _)

theorem toNat_sub_lt {b low high : UInt8} {n : Nat} (hlow : low ≤ b) (hhigh : b ≤ high)
    (hn : high.toNat < low.toNat + n) : (b - low).toNat < n := by
  rw [UInt8.toNat_sub_of_le _ _ hlow]
  rw [UInt8.le_iff_toNat_le] at hlow hhigh
  omega

theorem hexValue_lt {b d : UInt8} (h : Byte.hexValue? b = some d) : d.toNat < 16 := by
  unfold Byte.hexValue? Byte.isDigit at h
  simp only [Bool.and_eq_true, decide_eq_true_eq] at h
  split at h
  · rename_i hb
    cases h
    exact toNat_sub_lt hb.1 hb.2 (by decide)
  · split at h
    · rename_i hb
      cases h
      exact toNat_sub_lt (UInt8.le_trans (by decide) hb.1) hb.2 (by decide)
    · split at h
      · rename_i hb
        cases h
        exact toNat_sub_lt (UInt8.le_trans (by decide) hb.1) hb.2 (by decide)
      · cases h

/-- Where there is room for a digit, shifting it in loses nothing. -/
theorem toNat_shiftIn {size : UInt64} {d : UInt8} (hroom : size.toNat < 0x1000000000000000)
    (hd : d.toNat < 16) : (size <<< 4 ||| d.toUInt64).toNat = 16 * size.toNat + d.toNat := by
  have hshift : size.toNat <<< 4 % 2 ^ 64 = size.toNat <<< 4 := by
    rw [Nat.shiftLeft_eq]
    omega
  rw [UInt64.toNat_or, UInt64.toNat_shiftLeft, UInt8.toNat_toUInt64]
  show size.toNat <<< 4 % 2 ^ 64 ||| d.toNat = _
  rw [hshift, ← Nat.shiftLeft_add_eq_or_of_lt (i := 4) hd, Nat.shiftLeft_eq]
  omega

theorem full_iff (size : UInt64) :
    (0xFFFFFFFFFFFFFFFF : UInt64) >>> 4 < size ↔ 0x1000000000000000 ≤ size.toNat := by
  have hmax : ((0xFFFFFFFFFFFFFFFF : UInt64) >>> 4).toNat = 0xFFFFFFFFFFFFFFF := by decide
  rw [UInt64.lt_iff_toNat_lt, hmax]
  omega

theorem scanText_sizeEnding (count : Int32) (size : UInt64) (noCr : ChunkFault) (text : Bytes) :
    scanText SizeLine.step (.ending count size) text
      = (lineEnd noCr .sizeEnd (Byte.cr :: text)).sized (counted? count size.toNat) := by
  cases text with
  | nil => rfl
  | cons c rest =>
      by_cases hc : c = Byte.lf
      · by_cases hcount : count = 0 <;>
          simp [scanText, SizeLine.step, SizeLine.afterCr, lineEnd, Piece.sized, counted?, hc,
            hcount]
      · simp [scanText, SizeLine.step, SizeLine.afterCr, lineEnd, Piece.sized, hc]

theorem scanText_extension (count : Int32) (size : UInt64) (noCr : ChunkFault) (text : Bytes) :
    scanText SizeLine.step (.extension count size) text
      = (lineEnd noCr .sizeEnd (text.dropWhile (· ≠ Byte.cr))).sized
          (counted? count size.toNat) := by
  induction text with
  | nil => rfl
  | cons b text ih =>
      by_cases hb : b = Byte.cr
      · have hstep : scanText SizeLine.step (.extension count size) (b :: text)
            = scanText SizeLine.step (.ending count size) text := by
          simp [scanText, SizeLine.step, hb]
        rw [hstep, scanText_sizeEnding count size noCr]
        simp [hb]
      · have hstep : scanText SizeLine.step (.extension count size) (b :: text)
            = scanText SizeLine.step (.extension count size) text := by
          simp [scanText, SizeLine.step, hb]
        rw [hstep, ih]
        simp [hb]

/-- Behind digits that were counted, blanks and an extension may come before the end. -/
theorem scanText_blanks {count : Int32} (hcount : 0 < count) (size : UInt64) (text : Bytes) :
    scanText SizeLine.step (.blanks count size) text
      = (lineEnd .sizeCharacter .sizeEnd (skipExtension (text.dropWhile Byte.isBlank))).sized
          (counted? count size.toNat) := by
  induction text with
  | nil => rfl
  | cons b text ih =>
      by_cases hcr : b = Byte.cr
      · have hstep : scanText SizeLine.step (.blanks count size) (b :: text)
            = scanText SizeLine.step (.ending count size) text := by
          simp [scanText, SizeLine.step, SizeLine.beforeExtension, hcr]
        rw [hstep, scanText_sizeEnding count size .sizeCharacter, hcr]
        rfl
      · by_cases hsemi : b = Byte.semicolon
        · have hstep : scanText SizeLine.step (.blanks count size) (b :: text)
              = scanText SizeLine.step (.extension count size) text := by
            have hne : Byte.semicolon ≠ Byte.cr := by decide
            simp [scanText, SizeLine.step, SizeLine.beforeExtension, hsemi, hne, hcount]
          rw [hstep, scanText_extension count size .sizeCharacter, hsemi]
          rfl
        · by_cases hblank : Byte.isBlank b = true
          · have hstep : scanText SizeLine.step (.blanks count size) (b :: text)
                = scanText SizeLine.step (.blanks count size) text := by
              simp [scanText, SizeLine.step, SizeLine.beforeExtension, hcr, hsemi, hblank, hcount]
            rw [hstep, ih]
            simp [hblank]
          · simp [scanText, SizeLine.step, SizeLine.beforeExtension, hcr, hsemi, hblank,
              skipExtension, lineEnd, Piece.sized]

/-- A byte that is no digit is to digits that were counted what it is to the blanks behind
them; without them it can only be the end. -/
theorem scanText_digits_end (count : Int32) (size : UInt64) {b : UInt8}
    (hb : Byte.hexValue? b = none) (text : Bytes) :
    scanText SizeLine.step (.digits count size) (b :: text)
      = (lineEnd .sizeCharacter .sizeEnd (afterDigits count (b :: text))).sized
          (counted? count size.toNat) := by
  have hdigit : SizeLine.digit count size b = .fault .sizeCharacter := by
    simp only [SizeLine.digit, hb]
  by_cases hcount : 0 < count
  · have hblanks : scanText SizeLine.step (.digits count size) (b :: text)
        = scanText SizeLine.step (.blanks count size) (b :: text) := by
      simp only [scanText, SizeLine.step, hdigit]
    rw [hblanks, scanText_blanks hcount, afterDigits, if_pos hcount]
  · rw [afterDigits, if_neg hcount]
    by_cases hcr : b = Byte.cr
    · rw [hcr, ← scanText_sizeEnding count size .sizeCharacter]
      rfl
    · simp [scanText, SizeLine.step, SizeLine.beforeExtension, hdigit, hcr, hcount, lineEnd,
        Piece.sized]

theorem scanText_digit {count : Int32} {size : UInt64} {b d : UInt8}
    (hd : Byte.hexValue? b = some d) (text : Bytes) :
    scanText SizeLine.step (.digits count size) (b :: text) =
      if (0xFFFFFFFFFFFFFFFF : UInt64) >>> 4 < size then .faulty .sizeOverflow
      else scanText SizeLine.step (.digits (count + 1) (size <<< 4 ||| d.toUInt64)) text := by
  have hhex : isHexDigit b = true := by rw [isHexDigit, hd]; rfl
  have hblank : ¬ Byte.isBlank b = true := by
    intro hblank
    rw [isHexDigit_of_blank hblank] at hhex
    cases hhex
  have hstep : SizeLine.step (.digits count size) b = SizeLine.digit count size b := by
    rw [SizeLine.step, SizeLine.beforeExtension, if_neg (ne_cr_of_isHexDigit hhex),
      if_neg (fun h => ne_semicolon_of_isHexDigit hhex h.1), if_neg (fun h => hblank h.1)]
  rw [scanText, hstep, SizeLine.digit, hd]
  by_cases hfull : (0xFFFFFFFFFFFFFFFF : UInt64) >>> 4 < size
  · dsimp only
    rw [if_pos hfull, if_pos hfull]
  · dsimp only
    rw [if_neg hfull, if_neg hfull]

theorem digitCount_cons (count : Int32) (b : UInt8) (digits : Bytes) :
    count + digitCount (b :: digits) = count + 1 + digitCount digits := by
  rw [digitCount, List.length_cons, Int32.ofNat_add, Int32.add_comm (Int32.ofNat digits.length),
    ← Int32.add_assoc]
  rfl

/-- **A scanner counts what digits there are**, and their size as long as it fits, and then looks
for the end of the line. The words in which it counts lose nothing of the size. -/
theorem scanText_digits (count : Int32) (size : UInt64) (text : Bytes) :
    scanText SizeLine.step (.digits count size) text =
      if sizeLimit ≤ sizeFrom size.toNat (text.takeWhile isHexDigit) then .faulty .sizeOverflow
      else (lineEnd .sizeCharacter .sizeEnd
        (afterDigits (count + digitCount (text.takeWhile isHexDigit))
          (text.dropWhile isHexDigit))).sized
            (counted? (count + digitCount (text.takeWhile isHexDigit))
              (sizeFrom size.toNat (text.takeWhile isHexDigit))) := by
  have hsmall (size : UInt64) : ¬ sizeLimit ≤ size.toNat := Nat.not_le.mpr size.toNat_lt
  have hnone (count : Int32) : count + digitCount [] = count := Int32.add_zero count
  induction text generalizing count size with
  | nil =>
      show _ = if sizeLimit ≤ size.toNat then _ else _
      rw [if_neg (hsmall size), List.takeWhile_nil, List.dropWhile_nil, hnone]
      by_cases hcount : 0 < count
      · rw [afterDigits, if_pos hcount]
        rfl
      · rw [afterDigits, if_neg hcount]
        rfl
  | cons b text ih =>
      cases hd : Byte.hexValue? b with
      | none =>
          have hhex : isHexDigit b = false := by rw [isHexDigit, hd]; rfl
          rw [List.takeWhile_cons_of_neg (by simp [hhex]),
            List.dropWhile_cons_of_neg (by simp [hhex]), hnone, scanText_digits_end count size hd]
          show _ = if sizeLimit ≤ size.toNat then _ else _
          rw [if_neg (hsmall size)]
          rfl
      | some d =>
          have hhex : isHexDigit b = true := by rw [isHexDigit, hd]; rfl
          have hfrom : sizeFrom size.toNat ((b :: text).takeWhile isHexDigit)
              = sizeFrom (16 * size.toNat + d.toNat) (text.takeWhile isHexDigit) := by
            rw [List.takeWhile_cons_of_pos hhex]
            simp [sizeFrom, hd]
          rw [scanText_digit hd, hfrom, List.takeWhile_cons_of_pos hhex,
            List.dropWhile_cons_of_pos hhex, digitCount_cons]
          by_cases hfull : (0xFFFFFFFFFFFFFFFF : UInt64) >>> 4 < size
          · -- What is refused is out of reach already: the digits to come only add to it.
            have hlarge := (full_iff size).mp hfull
            have hle := le_sizeFrom (16 * size.toNat + d.toNat) (text.takeWhile isHexDigit)
            rw [if_pos hfull, if_pos (by unfold sizeLimit; omega)]
          · have hroom := Nat.not_le.mp (mt (full_iff size).mpr hfull)
            rw [if_neg hfull, ih, toNat_shiftIn hroom (hexValue_lt hd)]

theorem scanText_sizeLine (text : Bytes) :
    scanText SizeLine.step .start text = sizeLine text := by
  rw [SizeLine.start, scanText_digits, Int32.zero_add]
  rfl

end ChunkText

end HttpExchange
