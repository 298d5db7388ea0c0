import HttpExchange.Proofs.ChunkText
import Mathlib.Data.List.TakeWhile

/-!
# The decoder and the grammar of chunked text

A line that passes for a size line is read as one (`sizeLine_of_passesFor`,
`passesFor_of_sizeLine`), and with fewer digits than the limit of their count it is one of the
grammar's (`isSizeLine_iff`). So in a text whose digits can be counted `ChunkText.decode` finds
the end of a body exactly where the grammar has one (`decode_eq_complete_iff`), and if it holds no
whole body the longest payload with which one could begin (`opens_decode`, `payload_of_opens`).
-/

namespace HttpExchange

namespace ChunkText

/-! ## Runs of bytes -/

/-- A run is all that comes before the first byte that does not belong to it. -/
theorem takeWhile_run {p : UInt8 → Bool} {run : Bytes} {b : UInt8} (hrun : ∀ c ∈ run, p c = true)
    (hb : p b = false) (rest : Bytes) : (run ++ b :: rest).takeWhile p = run := by
  rw [List.takeWhile_append_of_pos hrun, List.takeWhile_cons_of_neg (by simp [hb]), List.append_nil]

theorem dropWhile_run {p : UInt8 → Bool} {run : Bytes} {b : UInt8} (hrun : ∀ c ∈ run, p c = true)
    (hb : p b = false) (rest : Bytes) : (run ++ b :: rest).dropWhile p = b :: rest := by
  rw [List.dropWhile_append_of_pos hrun, List.dropWhile_cons_of_neg (by simp [hb])]

theorem crlf_append (rest : Bytes) : Bytes.crlf ++ rest = Byte.cr :: Byte.lf :: rest := rfl

theorem ne_cr_of_mem_takeWhile {s : Bytes} {b : UInt8} (h : b ∈ s.takeWhile (· ≠ Byte.cr)) :
    b ≠ Byte.cr := by
  have := List.mem_takeWhile_imp h
  simpa using this

/-! ## Size lines -/

theorem skipExtension_cr {extension : Bytes} (h : IsExtension extension) (rest : Bytes) :
    skipExtension (extension ++ Byte.cr :: rest) = Byte.cr :: rest := by
  cases h with
  | none => rfl
  | some noCr =>
      show List.dropWhile _ _ = _
      exact dropWhile_run (by simpa using noCr) (by simp) _

theorem skipExtension_of_ne {b : UInt8} (h : b ≠ Byte.semicolon) (rest : Bytes) :
    skipExtension (b :: rest) = b :: rest := if_neg h

/-- Between the blanks and the rest of a size line stands an extension, if only an empty one. -/
theorem exists_extension (s : Bytes) :
    ∃ extension, IsExtension extension ∧ s = extension ++ skipExtension s := by
  cases s with
  | nil => exact ⟨[], .none, rfl⟩
  | cons b s =>
      by_cases hb : b = Byte.semicolon
      · refine ⟨b :: s.takeWhile (· ≠ Byte.cr), ?_, ?_⟩
        · rw [hb]
          exact .some fun c => ne_cr_of_mem_takeWhile
        · rw [skipExtension, if_pos hb, List.cons_append, List.takeWhile_append_dropWhile]
      · exact ⟨[], .none, by rw [skipExtension_of_ne hb, List.nil_append]⟩

/-- What stands behind the digits and blanks of a size line is neither digit nor blank. -/
theorem exists_cons_of_isExtension {extension : Bytes} (h : IsExtension extension)
    (rest : Bytes) : ∃ b more, extension ++ Byte.cr :: rest = b :: more ∧
      isHexDigit b = false ∧ Byte.isBlank b = false := by
  cases h with
  | none => exact ⟨Byte.cr, rest, rfl, by decide, by decide⟩
  | some noCr => exact ⟨Byte.semicolon, _, rfl, by decide, by decide⟩

/-- Blanks, or what stands in their place, end the digits. -/
theorem exists_cons_of_blanks {blanks : Bytes} {b : UInt8}
    (blank : ∀ b ∈ blanks, Byte.isBlank b = true) (notHex : blanks = [] → isHexDigit b = false)
    (more : Bytes) : ∃ c behind, blanks ++ b :: more = c :: behind ∧ isHexDigit c = false := by
  cases blanks with
  | nil => exact ⟨b, more, rfl, notHex rfl⟩
  | cons c blanks => exact ⟨c, _, rfl, isHexDigit_of_blank (blank c List.mem_cons_self)⟩

/-- No digit stands behind the digits of a size line. -/
theorem exists_cons_behind {blanks extension : Bytes} (blank : ∀ b ∈ blanks, Byte.isBlank b = true)
    (ext : IsExtension extension) (rest : Bytes) :
    ∃ c behind, blanks ++ (extension ++ Byte.cr :: rest) = c :: behind ∧ isHexDigit c = false := by
  obtain ⟨b, more, hb, hhex, -⟩ := exists_cons_of_isExtension ext rest
  rw [hb]
  exact exists_cons_of_blanks blank (fun _ => hhex) more

/-- What a size that was found tells of the text before its end. -/
theorem eq_of_sizeLine {s rest : Bytes} {n : Nat} (h : sizeLine s = .whole n rest) :
    counted? (digitCount (leadingDigits s)) (Numeral.value 16 (leadingDigits s)) = some n ∧
      afterDigits (digitCount (leadingDigits s)) (s.dropWhile isHexDigit) = Bytes.crlf ++ rest ∧
      Numeral.value 16 (leadingDigits s) < sizeLimit := by
  unfold sizeLine at h
  dsimp only at h
  split at h
  · cases h
  · rename_i hlimit
    obtain ⟨hseen, hend⟩ := eq_of_sized h
    exact ⟨hseen, eq_of_lineEnd hend, Nat.not_le.mp hlimit⟩

/-- Digits whose size fits are counted, and then the end of the line is looked for. -/
theorem sizeLine_digits {digits : Bytes} {c : UInt8} (hex : ∀ b ∈ digits, isHexDigit b = true)
    (small : Numeral.value 16 digits < sizeLimit) (hc : isHexDigit c = false) (behind : Bytes) :
    sizeLine (digits ++ c :: behind) =
      (lineEnd .sizeCharacter .sizeEnd (afterDigits (digitCount digits) (c :: behind))).sized
        (counted? (digitCount digits) (Numeral.value 16 digits)) := by
  unfold sizeLine
  dsimp only
  rw [leadingDigits, takeWhile_run hex hc, dropWhile_run hex hc, if_neg (Nat.not_le.mpr small)]

theorem afterDigits_front {digits blanks extension : Bytes} (h : Front digits blanks extension)
    (rest : Bytes) : afterDigits (digitCount digits) (blanks ++ (extension ++ Byte.cr :: rest))
      = Byte.cr :: rest := by
  unfold afterDigits
  split
  · obtain ⟨b, more, hb, -, hblank⟩ := exists_cons_of_isExtension h.ext rest
    rw [hb, dropWhile_run h.blank hblank, ← hb, skipExtension_cr h.ext]
  · rename_i hcount
    have hnone : blanks ++ extension = [] := by
      by_contra hne
      exact hcount (h.counted hne)
    rw [← List.append_assoc, hnone, List.nil_append]

/-- With the CR behind its front the whole of a size line is seen. -/
theorem sizeLine_front {digits blanks extension : Bytes} (h : Front digits blanks extension)
    (small : Numeral.value 16 digits < sizeLimit) (rest : Bytes) :
    sizeLine (digits ++ (blanks ++ (extension ++ Byte.cr :: rest))) =
      (lineEnd .sizeCharacter .sizeEnd (Byte.cr :: rest)).sized
        (counted? (digitCount digits) (Numeral.value 16 digits)) := by
  obtain ⟨c, behind, hc, hdigit⟩ := exists_cons_behind h.blank h.ext rest
  have hafter := afterDigits_front h rest
  rw [hc] at hafter ⊢
  rw [sizeLine_digits h.hex small hdigit, hafter]

/-- Every text begins with a front, if only an empty one. -/
theorem exists_front (s : Bytes) : ∃ blanks extension, Front (leadingDigits s) blanks extension ∧
    s.dropWhile isHexDigit = blanks ++ (extension ++
      afterDigits (digitCount (leadingDigits s)) (s.dropWhile isHexDigit)) := by
  have hex : ∀ b ∈ leadingDigits s, isHexDigit b = true := fun _ => List.mem_takeWhile_imp
  by_cases counted : 0 < digitCount (leadingDigits s)
  · obtain ⟨extension, ext, hext⟩ :=
      exists_extension ((s.dropWhile isHexDigit).dropWhile Byte.isBlank)
    refine ⟨(s.dropWhile isHexDigit).takeWhile Byte.isBlank, extension,
      ⟨hex, fun _ => List.mem_takeWhile_imp, ext, fun _ => counted⟩, ?_⟩
    rw [afterDigits, if_pos counted, ← hext, List.takeWhile_append_dropWhile]
  · refine ⟨[], [], ⟨hex, nofun, .none, fun h => absurd rfl h⟩, ?_⟩
    rw [afterDigits, if_neg counted]
    rfl

theorem leadingDigits_front {digits blanks extension : Bytes}
    (hex : ∀ b ∈ digits, isHexDigit b = true) (blank : ∀ b ∈ blanks, Byte.isBlank b = true)
    (ext : IsExtension extension) (rest : Bytes) :
    leadingDigits (digits ++ (blanks ++ (extension ++ Byte.cr :: rest))) = digits := by
  obtain ⟨c, behind, hc, hdigit⟩ := exists_cons_behind blank ext rest
  rw [hc, leadingDigits, takeWhile_run hex hdigit]

/-- The digits of a line are those with which it begins. -/
theorem leadingDigits_line {digits blanks extension : Bytes}
    (hex : ∀ b ∈ digits, isHexDigit b = true) (blank : ∀ b ∈ blanks, Byte.isBlank b = true)
    (ext : IsExtension extension) :
    leadingDigits (digits ++ (blanks ++ (extension ++ Bytes.crlf))) = digits :=
  leadingDigits_front hex blank ext [Byte.lf]

/-- A line that passes for a size line is read as one. -/
theorem sizeLine_of_passesFor {line : Bytes} {n : Nat} (h : PassesFor line n) (hn : n < sizeLimit)
    (rest : Bytes) : sizeLine (line ++ rest) = .whole n rest := by
  obtain ⟨front, shown⟩ := h
  simp only [List.append_assoc, crlf_append]
  rw [sizeLine_front front hn, ← crlf_append, lineEnd_crlf, counted?, if_neg shown]
  rfl

/-- Where a size is read, a line stands that passes for a size line. -/
theorem passesFor_of_sizeLine {s rest : Bytes} {n : Nat} (h : sizeLine s = .whole n rest) :
    ∃ line, s = line ++ rest ∧ PassesFor line n ∧ n < sizeLimit := by
  obtain ⟨hseen, hend, hlimit⟩ := eq_of_sizeLine h
  obtain ⟨blanks, extension, front, hbehind⟩ := exists_front s
  have hwhole : leadingDigits s ++ s.dropWhile isHexDigit = s := List.takeWhile_append_dropWhile
  rw [counted?] at hseen
  split at hseen
  · cases hseen
  · rename_i shown
    cases hseen
    refine ⟨_, ?_, .make front shown, hlimit⟩
    rw [hbehind, hend] at hwhole
    simpa only [List.append_assoc] using hwhole.symm

/-- A text that begins with a line begins with the digits of that line. -/
theorem PassesFor.leadingDigits_append {line : Bytes} {n : Nat} (h : PassesFor line n)
    (rest : Bytes) : leadingDigits (line ++ rest) = leadingDigits line := by
  obtain ⟨front, -⟩ := h
  simp only [List.append_assoc, crlf_append]
  rw [leadingDigits_front front.hex front.blank front.ext,
    leadingDigits_line front.hex front.blank front.ext]

/-- **With fewer digits than the limit the grammar has all lines that pass for size lines**, and no
others. -/
theorem isSizeLine_iff {line : Bytes} {n : Nat} :
    IsSizeLine line n ↔ PassesFor line n ∧ (leadingDigits line).length < countLimit := by
  constructor
  · rintro ⟨nonempty, few, hex, blank, ext⟩
    have counted := digitCount_pos nonempty few
    refine ⟨.make ⟨hex, blank, ext, fun _ => counted⟩ (ne_zero_of_pos counted), ?_⟩
    rw [leadingDigits_line hex blank ext]
    exact few
  · rintro ⟨⟨front, shown⟩, few⟩
    rw [leadingDigits_line front.hex front.blank front.ext] at few
    refine .make ?_ few front.hex front.blank front.ext
    rintro rfl
    exact shown rfl

theorem sizeLine_of_isSizeLine {line : Bytes} {n : Nat} (h : IsSizeLine line n)
    (hn : n < sizeLimit) (rest : Bytes) : sizeLine (line ++ rest) = .whole n rest :=
  sizeLine_of_passesFor (isSizeLine_iff.mp h).1 hn rest

theorem isSizeLine_of_sizeLine {s rest : Bytes} {n : Nat}
    (few : (leadingDigits s).length < countLimit) (h : sizeLine s = .whole n rest) :
    ∃ line, s = line ++ rest ∧ IsSizeLine line n ∧ n < sizeLimit := by
  obtain ⟨line, rfl, hline, hn⟩ := passesFor_of_sizeLine h
  rw [hline.leadingDigits_append] at few
  exact ⟨line, rfl, isSizeLine_iff.mpr ⟨hline, few⟩, hn⟩

/-! ## Trailers -/

theorem trailers_of_areTrailers {text : Bytes} (h : AreTrailers text) (rest : Bytes) :
    trailers (text ++ rest) = .whole () rest := by
  induction h with
  | done =>
      rw [crlf_append, trailers_cr]
      rfl
  | line nonempty noCr _ ih =>
      rename_i line text _
      have htext : (line ++ (Bytes.crlf ++ text)) ++ rest
          = line ++ Byte.cr :: (Byte.lf :: (text ++ rest)) := by
        simp only [List.append_assoc]
        rfl
      rw [trailers_eq, htext, takeWhile_run (by simpa using noCr) (by simp),
        dropWhile_run (by simpa using noCr) (by simp), ← crlf_append, lineEnd_crlf]
      dsimp only
      rw [if_neg nonempty, ih]

theorem areTrailers_of_trailers {s rest : Bytes} (h : trailers s = .whole () rest) :
    ∃ text, s = text ++ rest ∧ AreTrailers text := by
  fun_induction trailers s with
  | case1 s _ _ hend hempty =>
      cases h
      have hwhole : s.takeWhile (· ≠ Byte.cr) ++ s.dropWhile (· ≠ Byte.cr) = s :=
        List.takeWhile_append_dropWhile
      rw [hempty, List.nil_append, eq_of_lineEnd hend] at hwhole
      exact ⟨Bytes.crlf, hwhole.symm, .done⟩
  | case2 s _ _ hend hline ih =>
      obtain ⟨text, rfl, htext⟩ := ih h
      refine ⟨s.takeWhile (· ≠ Byte.cr) ++ (Bytes.crlf ++ text), ?_,
        .line hline (fun c => ne_cr_of_mem_takeWhile) htext⟩
      have hcut := eq_of_lineEnd hend
      rw [List.append_assoc, List.append_assoc, ← hcut, List.takeWhile_append_dropWhile]
  | case3 => cases h
  | case4 => cases h

/-! ## Countable texts -/

theorem Countable.front {s : Bytes} (h : Countable s) : (leadingDigits s).length < countLimit :=
  h [] s .nothing rfl

theorem Countable.behind_chunk {line data text : Bytes}
    (h : Countable (line ++ (data ++ (Bytes.crlf ++ text)))) (size : IsSizeLine line data.length)
    (nonempty : data ≠ []) (small : data.length < sizeLimit) : Countable text := by
  rintro chunks rest hchunks rfl
  refine h _ rest (.chunk size nonempty small hchunks) ?_
  simp only [List.append_assoc]

/-- In a text that is no longer than the limit all digits can be counted. -/
theorem countable_of_length {s : Bytes} (h : s.length < countLimit) : Countable s := by
  rintro chunks rest - rfl
  have hle : (leadingDigits rest).length ≤ rest.length := (List.takeWhile_prefix _).length_le
  rw [List.length_append] at h
  omega

/-! ## Bodies -/

/-- A whole chunk in front of a text adds its data to what the text holds. -/
theorem decode_chunk {line data : Bytes} (size : IsSizeLine line data.length)
    (nonempty : data ≠ []) (small : data.length < sizeLimit) (text : Bytes) :
    decode (line ++ (data ++ (Bytes.crlf ++ text))) = (decode text).prepend data := by
  have hpos : data.length ≠ 0 := by
    intro h
    exact nonempty (List.eq_nil_of_length_eq_zero h)
  show decodeAt _ .size = _
  rw [decodeAt_size, sizeLine_of_isSizeLine size small]
  show (if data.length = 0 then _ else _) = _
  rw [if_neg hpos, decodeAt_data_of_le (by simp), List.drop_left, List.take_left,
    decodeAt_dataEnd, lineEnd_crlf]
  rfl

theorem decode_of_isBody {text payload : Bytes} (h : IsBody text payload) (rest : Bytes) :
    decode (text ++ rest) = ⟨payload, .complete rest⟩ := by
  induction h with
  | last size trail =>
      show decodeAt _ .size = _
      rw [List.append_assoc, decodeAt_size, sizeLine_of_isSizeLine size (by decide)]
      show decodeAt _ .trailers = _
      rw [decodeAt_trailers, trailers_of_areTrailers trail]
      rfl
  | chunk size nonempty small more ih =>
      rw [List.append_assoc, List.append_assoc, List.append_assoc,
        decode_chunk size nonempty small, ih]
      rfl

/-- A chunk that the decoder reads is one of the grammar. -/
theorem exists_chunk {s behind more : Bytes} {size : Nat}
    (few : (leadingDigits s).length < countLimit) (hs : sizeLine s = .whole size behind)
    (hsize : size ≠ 0) (hlen : ¬ behind.length < size)
    (hend : lineEnd .dataEnd .dataEnd (behind.drop size) = .whole () more) :
    ∃ line, s = line ++ (behind.take size ++ (Bytes.crlf ++ more)) ∧
      IsSizeLine line (behind.take size).length ∧ behind.take size ≠ [] ∧
      (behind.take size).length < sizeLimit := by
  obtain ⟨line, rfl, hline, hsmall⟩ := isSizeLine_of_sizeLine few hs
  have hlength : (behind.take size).length = size := by
    rw [List.length_take, Nat.min_eq_left (Nat.not_lt.mp hlen)]
  refine ⟨line, ?_, ?_, ?_, ?_⟩
  · rw [← eq_of_lineEnd hend, List.take_append_drop]
  · rw [hlength]
    exact hline
  · rw [← List.length_pos_iff, hlength]
    exact Nat.pos_of_ne_zero hsize
  · rw [hlength]
    exact hsmall

theorem isBody_of_decode {s payload rest : Bytes} (hcount : Countable s)
    (h : decode s = ⟨payload, .complete rest⟩) : ∃ text, s = text ++ rest ∧ IsBody text payload := by
  fun_induction decode s generalizing payload with
  | case1 => cases h
  | case2 => cases h
  | case3 s behind hs =>
      obtain ⟨line, rfl, hline, -⟩ := isSizeLine_of_sizeLine hcount.front hs
      cases ht : trailers behind with
      | cut => rw [ht] at h; cases h
      | faulty fault => rw [ht] at h; cases h
      | whole value after =>
          rw [ht] at h
          cases h
          obtain ⟨text, rfl, htext⟩ := areTrailers_of_trailers ht
          exact ⟨line ++ text, by rw [List.append_assoc], .last hline htext⟩
  | case4 => cases h
  | case5 => cases h
  | case6 => cases h
  | case7 s size behind hs hsize hlen _ more hend ih =>
      obtain ⟨line, rfl, hline, hdata, hsmall⟩ := exists_chunk hcount.front hs hsize hlen hend
      cases hd : decode more with
      | mk data tail =>
          rw [hd] at h
          cases h
          obtain ⟨text, rfl, htext⟩ := ih (hcount.behind_chunk hline hdata hsmall) hd
          exact ⟨line ++ (behind.take size ++ (Bytes.crlf ++ text)),
            by simp only [List.append_assoc], .chunk hline hdata hsmall htext⟩

/-- **The decoder and the grammar see the same bodies**, in every text whose digits can be
counted. -/
theorem decode_eq_complete_iff {s payload rest : Bytes} (hcount : Countable s) :
    decode s = ⟨payload, .complete rest⟩ ↔ ∃ text, s = text ++ rest ∧ IsBody text payload := by
  constructor
  · exact isBody_of_decode hcount
  · rintro ⟨text, rfl, h⟩
    exact decode_of_isBody h rest

/-! ## Openings -/

/-- What the decoder finds is the data of a part of the text, in whole chunks and perhaps
the front of another. -/
theorem opens_decode {s : Bytes} (hcount : Countable s) :
    ∃ text rest, s = text ++ rest ∧ Opens text (decode s).payload := by
  fun_induction decode s with
  | case1 s => exact ⟨[], s, rfl, .nothing⟩
  | case2 s => exact ⟨[], s, rfl, .nothing⟩
  | case3 s behind =>
      -- Trailers hold no data, however they end.
      refine ⟨[], s, rfl, ?_⟩
      cases trailers behind <;> exact .nothing
  | case4 s size behind hs hsize hlen =>
      obtain ⟨line, rfl, hline, hsmall⟩ := isSizeLine_of_sizeLine hcount.front hs
      exact ⟨line ++ behind, [], by simp, .front hline hsmall (Nat.le_of_lt hlen)⟩
  | case5 s size behind hs =>
      obtain ⟨line, rfl, hline, hsmall⟩ := isSizeLine_of_sizeLine hcount.front hs
      exact ⟨line ++ behind.take size, behind.drop size, by simp,
        .front hline hsmall (List.length_take_le ..)⟩
  | case6 s size behind hs =>
      obtain ⟨line, rfl, hline, hsmall⟩ := isSizeLine_of_sizeLine hcount.front hs
      exact ⟨line ++ behind.take size, behind.drop size, by simp,
        .front hline hsmall (List.length_take_le ..)⟩
  | case7 s size behind hs hsize hlen _ more hend ih =>
      obtain ⟨line, rfl, hline, hdata, hsmall⟩ := exists_chunk hcount.front hs hsize hlen hend
      obtain ⟨text, rest, rfl, htext⟩ := ih (hcount.behind_chunk hline hdata hsmall)
      exact ⟨line ++ (behind.take size ++ (Bytes.crlf ++ text)), rest, by
        simp only [List.append_assoc], .chunk hline hdata hsmall htext⟩

theorem payload_decodeAt_data (s : Bytes) (n : Nat) :
    s.take n <+: (decodeAt s (.data n)).payload := by
  rcases Nat.lt_or_ge s.length n with hlt | hle
  · rw [decodeAt_data_of_lt hlt]
    exact List.take_prefix n s
  · rw [decodeAt_data_of_le hle]
    exact List.prefix_append _ _

/-- No part of a text opens a body with more data than the decoder finds. -/
theorem payload_of_opens {text payload : Bytes} (h : Opens text payload) (rest : Bytes) :
    payload <+: (decode (text ++ rest)).payload := by
  induction h with
  | nothing => exact List.nil_prefix
  | front size small within =>
      rename_i line data n
      show _ <+: (decodeAt _ .size).payload
      rw [List.append_assoc, decodeAt_size, sizeLine_of_isSizeLine size small]
      show _ <+: (if n = 0 then _ else _ : Decoded).payload
      -- With a size of zero no data can stand within it.
      split
      · rename_i hn
        subst hn
        obtain rfl : data = [] := List.eq_nil_of_length_eq_zero (Nat.le_zero.mp within)
        exact List.nil_prefix
      · refine List.IsPrefix.trans ?_ (payload_decodeAt_data _ n)
        rw [List.take_append, List.take_of_length_le within]
        exact List.prefix_append _ _
  | chunk size nonempty small more ih =>
      rename_i line data text payload
      rw [List.append_assoc, List.append_assoc, List.append_assoc,
        decode_chunk size nonempty small]
      exact (List.prefix_append_right_inj data).mpr ih

end ChunkText

end HttpExchange
