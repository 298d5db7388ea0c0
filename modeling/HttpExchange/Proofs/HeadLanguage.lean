import HttpExchange.Proofs.Lines
import HttpExchange.Proofs.Numerals
import HttpExchange.Response.Head

/-!
# The language of heads

What a status line is and what a header line is, said without a word on how they are read, and
what a text is that starts with a whole head. The scan of a text finds such a head, or else
that its status line is none, or that something of it is missing.

* `StatusLine.parse_eq_ok_iff`, `Header.lineFault?_eq_none_iff`: lines that are accepted.
* `HeadScan.of_head`, `HeadScan.of_bad_status`, `HeadScan.of_no_line`,
  `HeadScan.of_no_blank_line`: what a text amounts to.
-/

namespace HttpExchange

/-! ## Status lines -/

namespace StatusLine

/-- Three digits and the code that they stand for. -/
structure IsCode (digits : Bytes) (status : Status) : Prop where
  three : digits.length = 3
  isDigit : ∀ b ∈ digits, Byte.isDigit b = true
  code_eq : status.code.toNat = Numeral.value 10 digits

/-- A protocol without a space, a code and a reason, with a space before each of the two. The
reason may be missing, and its space with it. -/
def IsStatusLine (text : Bytes) (line : StatusLine) : Prop :=
  ∃ version digits tail,
    text = protocolMark ++ version ++ Byte.sp :: (digits ++ tail) ∧ Byte.sp ∉ version ∧
    IsCode digits line.status ∧
    (tail = [] ∧ line.reason = [] ∨ tail = Byte.sp :: line.reason)

theorem value_digits {a b c : UInt8} (ha : Byte.isDigit a = true) (hb : Byte.isDigit b = true)
    (hc : Byte.isDigit c = true) :
    (((a - 48).toUInt16 * 10 + (b - 48).toUInt16) * 10 + (c - 48).toUInt16).toNat
      = Numeral.value 10 [a, b, c] := by
  obtain ⟨ha, hla⟩ := Numeral.hexValue?_of_isDigit ha
  obtain ⟨hb, hlb⟩ := Numeral.hexValue?_of_isDigit hb
  obtain ⟨hc, hlc⟩ := Numeral.hexValue?_of_isDigit hc
  simp only [Numeral.value, List.foldl_cons, List.foldl_nil, ha, hb, hc, Option.getD_some,
    UInt16.toNat_add, UInt16.toNat_mul, UInt8.toNat_toUInt16, UInt16.reduceToNat]
  omega

theorem code?_eq_some_iff {a b c : UInt8} {status : Status} :
    code? a b c = some status ↔ IsCode [a, b, c] status := by
  unfold code?
  constructor
  · intro h
    split at h
    · rename_i hdigits
      cases h
      exact ⟨rfl, by simpa using hdigits, value_digits hdigits.1 hdigits.2.1 hdigits.2.2⟩
    · cases h
  · rintro ⟨-, hdigits, hcode⟩
    have hdigits : Byte.isDigit a ∧ Byte.isDigit b ∧ Byte.isDigit c := by simpa using hdigits
    rw [if_pos hdigits]
    rw [← value_digits hdigits.1 hdigits.2.1 hdigits.2.2, UInt16.toNat_inj] at hcode
    rw [← hcode]

/-- **The status lines that are accepted.** -/
theorem parse_eq_ok_iff {text : Bytes} {line : StatusLine} :
    parse text = .ok line ↔ IsStatusLine text line := by
  have hmark : Byte.sp ∉ protocolMark := by decide
  constructor
  · intro h
    unfold parse at h
    split at h
    · cases h
    · rename_i hstart
      obtain ⟨rest, rfl⟩ : protocolMark <+: text := by simpa using hstart
      rw [Bytes.cutAt?_append_left hmark] at h
      cases hcut : Bytes.cutAt? Byte.sp rest with
      | none => rw [hcut] at h; cases h
      | some found =>
          obtain ⟨version, right⟩ := found
          obtain ⟨rfl, hversion⟩ := Bytes.cutAt?_eq_some_iff.mp hcut
          rw [hcut, Option.map_some] at h
          rw [← List.append_assoc]
          match right, h with
          | [a, b, c], h =>
              cases hcode : code? a b c with
              | none => simp [hcode] at h
              | some status =>
                  simp only [hcode] at h
                  cases h
                  exact ⟨version, [a, b, c], [], rfl, hversion, code?_eq_some_iff.mp hcode,
                    .inl ⟨rfl, rfl⟩⟩
          | a :: b :: c :: d :: reason, h =>
              by_cases hd : d = Byte.sp
              · cases hcode : code? a b c with
                | none => simp [hd, hcode] at h
                | some status =>
                    simp only [hd, hcode, if_true] at h
                    cases h
                    exact ⟨version, [a, b, c], d :: reason, rfl, hversion,
                      code?_eq_some_iff.mp hcode, .inr (by rw [hd])⟩
              · simp [hd] at h
          | [], h => cases h
          | [_], h => cases h
          | [_, _], h => cases h
  · rintro ⟨version, digits, tail, rfl, hversion, hcode, htail⟩
    obtain ⟨a, b, c, rfl⟩ := List.length_eq_three.mp hcode.three
    have hno : Byte.sp ∉ protocolMark ++ version := by simp [hmark, hversion]
    obtain ⟨status, reason⟩ := line
    unfold parse
    rw [if_neg (by simp), Bytes.cutAt?_append hno]
    rcases htail with ⟨rfl, rfl⟩ | rfl
    · simp [code?_eq_some_iff.mpr hcode]
    · simp [code?_eq_some_iff.mpr hcode]

end StatusLine

/-! ## Header lines -/

namespace Header

/-- A name without a blank, which is not empty, a colon and anything. -/
def IsFieldLine (line : Bytes) : Prop :=
  ∃ name value, line = name ++ Byte.colon :: value ∧ name ≠ [] ∧ Byte.colon ∉ name ∧
    ∀ b ∈ name, Byte.isBlank b = false

/-- **The header lines that are accepted.** -/
theorem lineFault?_eq_none_iff {line : Bytes} : lineFault? line = none ↔ IsFieldLine line := by
  constructor
  · intro h
    cases line with
    | nil => cases h
    | cons b rest =>
        simp only [lineFault?] at h
        split at h
        · cases h
        · cases hcut : Bytes.cutAt? Byte.colon (b :: rest) with
          | none => rw [hcut] at h; cases h
          | some found =>
              obtain ⟨name, value⟩ := found
              obtain ⟨htext, hcolon⟩ := Bytes.cutAt?_eq_some_iff.mp hcut
              rw [hcut] at h
              dsimp only at h
              split at h
              · cases h
              · rename_i hne
                split at h
                · cases h
                · rename_i hblank
                  exact ⟨name, value, htext, hne, hcolon, by simpa using hblank⟩
  · rintro ⟨name, value, rfl, hne, hcolon, hblank⟩
    obtain ⟨b, name, rfl⟩ := List.exists_cons_of_ne_nil hne
    have hb : Byte.isBlank b = false := hblank b List.mem_cons_self
    have hany : (b :: name).any Byte.isBlank = false := by simpa using hblank
    have hcut := Bytes.cutAt?_append hcolon value
    rw [List.cons_append] at hcut ⊢
    simp [lineFault?, hb, hcut, hany]

end Header

theorem HeaderBlock.fault?_eq_none_iff {block : HeaderBlock} :
    block.fault? = none ↔ ∀ line ∈ Bytes.lines block.raw, Header.IsFieldLine line := by
  unfold fault?
  simp only [List.findSome?_eq_none_iff, Header.lineFault?_eq_none_iff]

/-! ## Scans -/

namespace HeadScan

variable {s text rest : Bytes}

/-- A scan goes by the first line and by what stands behind it. -/
theorem of_line (h : ¬ Bytes.crlf <:+: text) (rest : Bytes) :
    HeadScan.of (text ++ Bytes.crlf ++ rest) =
      match StatusLine.parse text with
      | .error fault => .malformed fault
      | .ok line =>
        match Bytes.cutBlankLine (Bytes.crlf ++ rest) with
        | none => .incomplete true
        | some (before, after) => .complete line ⟨(before ++ Bytes.crlf).drop 2⟩ after := by
  have hcut := Bytes.cutLine_line h rest
  cases hparse : StatusLine.parse text with
  | error fault => simp only [HeadScan.of, hcut, hparse]
  | ok line =>
      cases hblank : Bytes.cutBlankLine (Bytes.crlf ++ rest) with
      | none => simp only [HeadScan.of, hcut, hparse, hblank]
      | some found => simp only [HeadScan.of, hcut, hparse, hblank]

theorem of_no_line (h : ¬ Bytes.crlf <:+: s) : HeadScan.of s = .incomplete false := by
  unfold HeadScan.of
  rw [Bytes.cutLine_eq_none_iff.mpr h]

theorem of_bad_status (h : ¬ Bytes.crlf <:+: text) (hbad : ∀ line, ¬ StatusLine.IsStatusLine text line)
    (rest : Bytes) : ∃ fault, HeadScan.of (text ++ Bytes.crlf ++ rest) = .malformed fault := by
  rw [of_line h]
  cases hparse : StatusLine.parse text with
  | error fault => exact ⟨fault, rfl⟩
  | ok line => exact absurd (StatusLine.parse_eq_ok_iff.mp hparse) (hbad line)

theorem of_no_blank_line {line : StatusLine} (h : ¬ Bytes.crlf <:+: text)
    (hline : StatusLine.IsStatusLine text line)
    (hblank : ¬ Bytes.crlf ++ Bytes.crlf <:+: Bytes.crlf ++ rest) :
    HeadScan.of (text ++ Bytes.crlf ++ rest) = .incomplete true := by
  rw [of_line h, StatusLine.parse_eq_ok_iff.mpr hline]
  dsimp only
  rw [Bytes.cutBlankLine_eq_none_iff.mpr hblank]

/-- **A text with a whole head.** -/
theorem of_head {line : StatusLine} {fields : List Bytes} (h : ¬ Bytes.crlf <:+: text)
    (hline : StatusLine.IsStatusLine text line) (hfields : ∀ f ∈ fields, Bytes.IsLine f)
    (rest : Bytes) :
    HeadScan.of (text ++ Bytes.crlf ++ (Bytes.unlines fields ++ (Bytes.crlf ++ rest)))
      = .complete line ⟨Bytes.unlines fields⟩ rest := by
  obtain ⟨front, hcut, hfront⟩ := Bytes.cutBlankLine_unlines hfields rest
  rw [of_line h, StatusLine.parse_eq_ok_iff.mpr hline]
  dsimp only
  rw [hcut]
  dsimp only
  rw [hfront]
  rfl

end HeadScan

end HttpExchange
