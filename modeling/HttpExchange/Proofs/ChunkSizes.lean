import HttpExchange.Proofs.ChunkGrammar
import HttpExchange.Proofs.ReaderCalls
import HttpExchange.Proofs.ScriptFeed
import HttpExchange.Proofs.Transcripts
import Mathlib.Data.Nat.Digits.Defs

/-!
# Sizes of chunks

A size line says in hexadecimal digits how much data follows. A scanner counts the size in a word
of 64 bits, which is exact (`scanText_digits`, and `value_eq_ofDigits` for what digits stand for),
and how many digits there are in one of 32, which is not: it holds their number up to multiples
of 2 ^ 32 (`digitCount_eq_zero_iff`, `digitCount_pos_iff`).

Beside the lines that pass for size lines stand their faults: `Spoils` says with which byte a
text has ceased to be the front of such a line, and why. The scanner finds these faults and no
others (`sizeLine_eq_faulty_iff`), and every line that ends passes or is spoilt (`sizeLine_line`).
`Reading.sizes_exact` says of a reader what comes of it, and `Reading.zeros_uncounted` shows the one
place where this is not what the form of a line asks for: a line with too many digits is refused.
-/

namespace HttpExchange

namespace ChunkText

/-! ## The value of digits -/

/-- The value of a hexadecimal digit. -/
def digitValue (b : UInt8) : UInt8 := (Byte.hexValue? b).getD 0

theorem value_append (digits more : Bytes) :
    Numeral.value 16 (digits ++ more) = sizeFrom (Numeral.value 16 digits) more := by
  unfold Numeral.value sizeFrom
  rw [List.foldl_append]

/-- The value of digits is that of their positions: the last digit counts ones. -/
theorem value_eq_ofDigits (digits : Bytes) : Numeral.value 16 digits
    = Nat.ofDigits 16 (digits.map fun b => (digitValue b).toNat).reverse := by
  induction digits using List.reverseRecOn with
  | nil => rfl
  | append_singleton digits b ih =>
      have hvalue : Numeral.value 16 (digits ++ [b])
          = 16 * Numeral.value 16 digits + (digitValue b).toNat := value_append digits [b]
      rw [hvalue, ih, List.map_append, List.reverse_append, List.map_singleton,
        List.reverse_singleton, List.singleton_append, Nat.ofDigits_cons]
      omega

/-! ## Spoilt size lines -/

/-- With its last byte the text has ceased to be the front of a line that passes for a size line
with a size that fits, for this reason. -/
inductive Spoils : Bytes → ChunkFault → Prop
  | overflow {digits : Bytes} (hex : ∀ b ∈ digits, isHexDigit b = true)
      (large : sizeLimit ≤ Numeral.value 16 digits) : Spoils digits .sizeOverflow
  /-- There are no digits, or just so many that none is seen. -/
  | missing {digits : Bytes} (hex : ∀ b ∈ digits, isHexDigit b = true)
      (small : Numeral.value 16 digits < sizeLimit) (unseen : digitCount digits = 0) :
      Spoils (digits ++ Bytes.crlf) .sizeMissing
  /-- Digits stand together, so there is no other behind a blank. -/
  | character {digits blanks : Bytes} {b : UInt8} (hex : ∀ b ∈ digits, isHexDigit b = true)
      (small : Numeral.value 16 digits < sizeLimit) (blank : ∀ b ∈ blanks, Byte.isBlank b = true)
      (counted : blanks ≠ [] → 0 < digitCount digits)
      (notHex : blanks = [] → isHexDigit b = false)
      (unfit : 0 < digitCount digits → Byte.isBlank b = false ∧ b ≠ Byte.semicolon)
      (notCr : b ≠ Byte.cr) : Spoils (digits ++ (blanks ++ [b])) .sizeCharacter
  | unended {digits blanks extension : Bytes} {b : UInt8} (front : Front digits blanks extension)
      (small : Numeral.value 16 digits < sizeLimit) (notLf : b ≠ Byte.lf) :
      Spoils (digits ++ (blanks ++ (extension ++ [Byte.cr, b]))) .sizeEnd

/-! ### Spoilt lines are refused -/

theorem lineEnd_of_ne_cr {b : UInt8} (h : b ≠ Byte.cr) (noCr noLf : ChunkFault) (rest : Bytes) :
    lineEnd noCr noLf (b :: rest) = .faulty noCr := if_neg h

theorem lineEnd_of_ne_lf {b : UInt8} (h : b ≠ Byte.lf) (noCr noLf : ChunkFault) (rest : Bytes) :
    lineEnd noCr noLf (Byte.cr :: b :: rest) = .faulty noLf := if_neg h

/-- Blanks behind digits are skipped, and a byte that may not stand behind them is left. -/
theorem afterDigits_unfit {count : Int32} {blanks : Bytes} {b : UInt8}
    (blank : ∀ b ∈ blanks, Byte.isBlank b = true) (counted : blanks ≠ [] → 0 < count)
    (unfit : 0 < count → Byte.isBlank b = false ∧ b ≠ Byte.semicolon) (rest : Bytes) :
    afterDigits count (blanks ++ b :: rest) = b :: rest := by
  unfold afterDigits
  split
  · rename_i hcount
    rw [dropWhile_run blank (unfit hcount).1, skipExtension_of_ne (unfit hcount).2]
  · rename_i hcount
    obtain rfl : blanks = [] := by
      by_contra hne
      exact hcount (counted hne)
    rfl

theorem sizeLine_of_spoils {front : Bytes} {fault : ChunkFault} (h : Spoils front fault)
    (rest : Bytes) : sizeLine (front ++ rest) = .faulty fault := by
  cases h with
  | overflow hex large =>
      -- The digits may go on behind the one that was too many.
      have hvalue : Numeral.value 16 (leadingDigits (front ++ rest))
          = sizeFrom (Numeral.value 16 front) (leadingDigits rest) := by
        rw [leadingDigits, List.takeWhile_append_of_pos hex, value_append, leadingDigits]
      have hle := le_sizeFrom (Numeral.value 16 front) (leadingDigits rest)
      exact if_pos (by rw [hvalue]; omega)
  | missing hex small unseen =>
      rw [List.append_assoc, crlf_append, sizeLine_digits hex small (by decide), unseen]
      rfl
  | character hex small blank counted notHex unfit notCr =>
      rename_i digits blanks b
      obtain ⟨c, behind, hc, hdigit⟩ := exists_cons_of_blanks blank notHex rest
      have hafter := afterDigits_unfit blank counted unfit rest
      rw [hc] at hafter
      rw [List.append_assoc, List.append_assoc, List.singleton_append, hc,
        sizeLine_digits hex small hdigit, hafter, lineEnd_of_ne_cr notCr]
      rfl
  | unended front small notLf =>
      simp only [List.append_assoc, List.cons_append, List.nil_append]
      rw [sizeLine_front front small, lineEnd_of_ne_lf notLf]
      rfl

/-! ### What is refused is spoilt -/

theorem faulty_of_lineEnd {noCr noLf fault : ChunkFault} {s : Bytes}
    (h : lineEnd noCr noLf s = .faulty fault) :
    (∃ b rest, s = b :: rest ∧ b ≠ Byte.cr ∧ fault = noCr) ∨
      ∃ b rest, s = Byte.cr :: b :: rest ∧ b ≠ Byte.lf ∧ fault = noLf := by
  unfold lineEnd at h
  split at h
  · cases h
  · rename_i b s
    split at h
    · rename_i hb
      subst hb
      split at h
      · cases h
      · rename_i c rest
        split at h
        · cases h
        · rename_i hc
          cases h
          exact .inr ⟨c, rest, rfl, hc, rfl⟩
    · rename_i hb
      cases h
      exact .inl ⟨b, s, rfl, hb, rfl⟩

theorem faulty_of_sized {seen : Option Nat} {p : Piece Unit} {fault : ChunkFault}
    (h : p.sized seen = .faulty fault) :
    p = .faulty fault ∨ seen = none ∧ fault = .sizeMissing ∧ ∃ rest, p = .whole () rest := by
  cases p with
  | whole value rest =>
      cases seen with
      | none =>
          cases h
          exact .inr ⟨rfl, rfl, rest, rfl⟩
      | some n => cases h
  | cut => cases h
  | faulty fault' =>
      cases h
      exact .inl rfl

/-- What follows a run does not belong to it. -/
theorem head_dropWhile {p : UInt8 → Bool} {s rest : Bytes} {b : UInt8}
    (h : s.dropWhile p = b :: rest) : p b = false := by
  have hhead := List.head?_dropWhile_not p s
  rw [h] at hhead
  simpa using hhead

/-- Behind an extension stands a CR, if anything. -/
theorem eq_of_skipExtension {s rest : Bytes} {b : UInt8} (hb : b ≠ Byte.cr)
    (h : skipExtension s = b :: rest) : s = b :: rest ∧ b ≠ Byte.semicolon := by
  cases s with
  | nil => cases h
  | cons c s =>
      by_cases hc : c = Byte.semicolon
      · rw [skipExtension, if_pos hc] at h
        exact absurd (by simpa using head_dropWhile h) hb
      · rw [skipExtension_of_ne hc] at h
        cases h
        exact ⟨rfl, hc⟩

/-- Where only a byte that may not stand there is left, it spoils the line. -/
theorem spoils_of_character {s rest : Bytes} {b : UInt8}
    (small : Numeral.value 16 (leadingDigits s) < sizeLimit) (notCr : b ≠ Byte.cr)
    (h : afterDigits (digitCount (leadingDigits s)) (s.dropWhile isHexDigit) = b :: rest) :
    ∃ front behind, s = front ++ behind ∧ Spoils front .sizeCharacter := by
  have hwhole : leadingDigits s ++ s.dropWhile isHexDigit = s := List.takeWhile_append_dropWhile
  have hex : ∀ b ∈ leadingDigits s, isHexDigit b = true := fun _ => List.mem_takeWhile_imp
  unfold afterDigits at h
  split at h
  · -- No extension was skipped, since it would be the CR that is left.
    rename_i hcount
    obtain ⟨hrest, hsemicolon⟩ := eq_of_skipExtension notCr h
    have hblanks : (s.dropWhile isHexDigit).takeWhile Byte.isBlank ++ b :: rest
        = s.dropWhile isHexDigit := by
      rw [← hrest, List.takeWhile_append_dropWhile]
    have blank : ∀ b ∈ (s.dropWhile isHexDigit).takeWhile Byte.isBlank, Byte.isBlank b = true :=
      fun _ => List.mem_takeWhile_imp
    refine ⟨_, rest, ?_, .character hex small blank (fun _ => hcount) ?_
      (fun _ => ⟨head_dropWhile hrest, hsemicolon⟩) notCr⟩
    · rw [List.append_assoc, List.append_assoc, List.singleton_append, hblanks, hwhole]
    · intro hnone
      rw [hnone, List.nil_append] at hblanks
      exact head_dropWhile hblanks.symm
  · rename_i hcount
    refine ⟨leadingDigits s ++ ([] ++ [b]), rest, ?_, .character hex small nofun
      (fun hne => absurd rfl hne) (fun _ => head_dropWhile h) (fun hpos => absurd hpos hcount)
      notCr⟩
    rw [List.nil_append, List.append_assoc, List.singleton_append, ← h, hwhole]

/-- **A scanner finds these faults**, and no others. -/
theorem sizeLine_eq_faulty_iff {s : Bytes} {fault : ChunkFault} :
    sizeLine s = .faulty fault ↔ ∃ front rest, s = front ++ rest ∧ Spoils front fault := by
  constructor
  · intro h
    have hwhole : leadingDigits s ++ s.dropWhile isHexDigit = s := List.takeWhile_append_dropWhile
    obtain ⟨blanks, extension, front, hbehind⟩ := exists_front s
    unfold sizeLine at h
    dsimp only at h
    split at h
    · rename_i large
      cases h
      exact ⟨leadingDigits s, _, hwhole.symm, .overflow front.hex large⟩
    · rename_i hsmall
      have small : Numeral.value 16 (leadingDigits s) < sizeLimit := Nat.not_le.mp hsmall
      rcases faulty_of_sized h with hend | ⟨hseen, rfl, rest, hend⟩
      · rcases faulty_of_lineEnd hend with ⟨b, rest, hrest, hb, rfl⟩ | ⟨b, rest, hrest, hb, rfl⟩
        · exact spoils_of_character small hb hrest
        · refine ⟨_, rest, ?_, .unended front small hb⟩
          rw [hbehind, hrest] at hwhole
          simpa only [List.append_assoc, List.cons_append, List.nil_append] using hwhole.symm
      · -- The line has its end, so it can only be the digits that are missed.
        have unseen : digitCount (leadingDigits s) = 0 := by
          by_contra hne
          rw [counted?, if_neg hne] at hseen
          cases hseen
        have hnone : blanks ++ extension = [] := by
          by_contra hne
          exact ne_zero_of_pos (front.counted hne) unseen
        refine ⟨leadingDigits s ++ Bytes.crlf, rest, ?_, .missing front.hex small unseen⟩
        rw [hbehind, ← List.append_assoc blanks, hnone, eq_of_lineEnd hend] at hwhole
        rw [List.append_assoc]
        exact hwhole.symm
  · rintro ⟨front, rest, rfl, h⟩
    exact sizeLine_of_spoils h rest

/-! ## Lines that end -/

/-- Further on there is a CRLF, and no CR before it. -/
def Ended (s : Bytes) : Prop :=
  ∃ body rest, (∀ b ∈ body, b ≠ Byte.cr) ∧ s = body ++ (Bytes.crlf ++ rest)

theorem Ended.dropWhile {p : UInt8 → Bool} (hp : p Byte.cr = false) {s : Bytes} (h : Ended s) :
    Ended (s.dropWhile p) := by
  obtain ⟨body, rest, noCr, rfl⟩ := h
  induction body with
  | nil =>
      refine ⟨[], rest, noCr, ?_⟩
      rw [List.nil_append, crlf_append, List.dropWhile_cons_of_neg (by simp [hp])]
  | cons b body ih =>
      cases hb : p b with
      | false =>
          rw [List.cons_append, List.dropWhile_cons_of_neg (by simp [hb])]
          exact ⟨b :: body, rest, noCr, rfl⟩
      | true =>
          rw [List.cons_append, List.dropWhile_cons_of_pos hb]
          exact ih fun c hc => noCr c (List.mem_cons_of_mem b hc)

theorem Ended.skipExtension {s : Bytes} (h : Ended s) : Ended (skipExtension s) := by
  obtain ⟨body, rest, noCr, rfl⟩ := h
  cases body with
  | nil => exact ⟨[], rest, noCr, rfl⟩
  | cons b body =>
      rw [List.cons_append]
      by_cases hb : b = Byte.semicolon
      · have hbehind : Ended (body ++ (Bytes.crlf ++ rest)) :=
          ⟨body, rest, fun c hc => noCr c (List.mem_cons_of_mem b hc), rfl⟩
        rw [ChunkText.skipExtension, if_pos hb]
        exact hbehind.dropWhile (by simp)
      · rw [skipExtension_of_ne hb]
        exact ⟨b :: body, rest, noCr, rfl⟩

theorem Ended.lineEnd_ne_cut {s : Bytes} (h : Ended s) (noCr noLf : ChunkFault) :
    lineEnd noCr noLf s ≠ .cut := by
  obtain ⟨body, rest, hbody, rfl⟩ := h
  cases body with
  | nil =>
      rw [List.nil_append, lineEnd_crlf]
      nofun
  | cons b body =>
      rw [List.cons_append, lineEnd_of_ne_cr (hbody b List.mem_cons_self)]
      nofun

theorem cut_of_sized {seen : Option Nat} {p : Piece Unit} (h : p.sized seen = .cut) : p = .cut := by
  cases p with
  | whole value rest => cases seen <;> cases h
  | cut => rfl
  | faulty fault => cases h

theorem Ended.sizeLine_ne_cut {s : Bytes} (h : Ended s) : sizeLine s ≠ .cut := by
  have hdigits : Ended (s.dropWhile isHexDigit) := h.dropWhile (by decide)
  have hafter : Ended (afterDigits (digitCount (leadingDigits s)) (s.dropWhile isHexDigit)) := by
    unfold afterDigits
    split
    · exact (hdigits.dropWhile (by decide)).skipExtension
    · exact hdigits
  unfold sizeLine
  dsimp only
  split
  · nofun
  · intro hcut
    exact hafter.lineEnd_ne_cut _ _ (cut_of_sized hcut)

theorem PassesFor.ended {line : Bytes} {n : Nat} (h : PassesFor line n) :
    ∃ body, (∀ b ∈ body, b ≠ Byte.cr) ∧ line = body ++ Bytes.crlf := by
  obtain ⟨⟨hex, blank, ext, -⟩, -⟩ := h
  rename_i digits blanks extension
  refine ⟨digits ++ (blanks ++ extension), ?_, by simp only [List.append_assoc]⟩
  intro b hb
  rcases List.mem_append.mp hb with hb | hb
  · exact ne_cr_of_isHexDigit (hex b hb)
  · rcases List.mem_append.mp hb with hb | hb
    · rintro rfl
      exact absurd (blank _ hb) (by decide)
    · cases ext with
      | none => cases hb
      | some noCr =>
          rcases List.mem_cons.mp hb with rfl | hb
          · decide
          · exact noCr b hb

/-- A text has one first line. -/
theorem line_unique {body body' rest rest' : Bytes} (noCr : ∀ b ∈ body, b ≠ Byte.cr)
    (noCr' : ∀ b ∈ body', b ≠ Byte.cr)
    (h : body ++ (Bytes.crlf ++ rest) = body' ++ (Bytes.crlf ++ rest')) :
    body = body' ∧ rest = rest' := by
  have hbody : body = body' := by
    have htake := congrArg (List.takeWhile (· ≠ Byte.cr)) h
    rwa [crlf_append, crlf_append, takeWhile_run (by simpa using noCr) (by simp),
      takeWhile_run (by simpa using noCr') (by simp)] at htake
  subst hbody
  exact ⟨rfl, List.append_cancel_left (List.append_cancel_left h)⟩

/-- **A line that ends passes for a size line with a size that fits, or it is spoilt**, whatever
follows it. -/
theorem sizeLine_line {body : Bytes} (noCr : ∀ b ∈ body, b ≠ Byte.cr) (rest : Bytes) :
    (∃ n, PassesFor (body ++ Bytes.crlf) n ∧ n < sizeLimit) ∨
    (∀ n, PassesFor (body ++ Bytes.crlf) n → sizeLimit ≤ n) ∧
      ∃ front behind fault, body ++ (Bytes.crlf ++ rest) = front ++ behind ∧
        Spoils front fault := by
  cases hline : sizeLine (body ++ (Bytes.crlf ++ rest)) with
  | cut => exact absurd hline (Ended.sizeLine_ne_cut ⟨body, rest, noCr, rfl⟩)
  | whole n behind =>
      obtain ⟨line, hsplit, hsize, hn⟩ := passesFor_of_sizeLine hline
      -- Both end with the first CR of the text, so they are the same line.
      obtain ⟨body', noCr', rfl⟩ := hsize.ended
      rw [List.append_assoc] at hsplit
      obtain ⟨rfl, -⟩ := line_unique noCr noCr' hsplit
      exact .inl ⟨n, hsize, hn⟩
  | faulty fault =>
      obtain ⟨front, behind, hsplit, hspoils⟩ := sizeLine_eq_faulty_iff.mp hline
      refine .inr ⟨?_, front, behind, fault, hsplit, hspoils⟩
      intro n hsize
      by_contra hn
      rw [← List.append_assoc, sizeLine_of_passesFor hsize (Nat.not_le.mp hn)] at hline
      cases hline

/-- The size of a line is the value of the digits with which it begins. -/
theorem PassesFor.value_eq {line : Bytes} {n : Nat} (h : PassesFor line n) :
    n = Numeral.value 16 (leadingDigits line) := by
  obtain ⟨front, -⟩ := h
  rw [leadingDigits_line front.hex front.blank front.ext]

/-- Digits whose size does not fit spoil every line that begins with them. -/
theorem PassesFor.spoils {line : Bytes} {n : Nat} (h : PassesFor line n) (hn : sizeLimit ≤ n) :
    Spoils (leadingDigits line) .sizeOverflow := by
  refine .overflow (fun _ => List.mem_takeWhile_imp) ?_
  rw [← h.value_eq]
  exact hn

end ChunkText

/-! ## Readers -/

namespace Reading

open ChunkText

variable {σ : Type} [SecureTransport σ] {receive : σ → Nat → Except TransportFailure Bytes × σ}
  {ending : Ending} {x y : Reading σ} {text rest : Bytes} {n : Nat}

/-- The reader finds a size and stands right behind its line. Nothing else has changed. -/
def FindsSize (F : Feed receive ending) (x : Reading σ) (n : Nat) (rest : Bytes) : Prop :=
  ∃ y, scan SizeLine.step .start x = (.ok n, y) ∧ Before F y rest ∧
    y.reader.progress = x.reader.progress ∧ Link.Holds x.link y.link

/-- The reader fails at the framing of a size. -/
def RefusesSize (F : Feed receive ending) (x : Reading σ) (fault : ChunkFault) : Prop :=
  FailsWith F (.badChunk fault) (scan SizeLine.step .start x) ∧
    (Failure.badChunk fault).error = .chunkFraming

variable {F : Feed receive ending}

theorem findsSize_of_passesFor {line : Bytes} (h : Before F x (line ++ rest))
    (hline : PassesFor line n) (hn : n < sizeLimit) : FindsSize F x n rest := by
  have hscan : scanText SizeLine.step .start (line ++ rest) = .whole n rest := by
    rw [scanText_sizeLine]
    exact sizeLine_of_passesFor hline hn rest
  obtain ⟨y, hy, -, hrest⟩ := scan_whole h hscan
  obtain ⟨hlink, hprogress⟩ := holds_of_scan hy
  exact ⟨y, hy, hrest, hprogress, hlink⟩

theorem refusesSize_of_spoils {front : Bytes} {fault : ChunkFault} (h : Before F x (front ++ rest))
    (hfront : Spoils front fault) : RefusesSize F x fault := by
  refine ⟨scan_failing h ?_, rfl⟩
  rw [scanText_sizeLine, sizeLine_of_spoils hfront]
  rfl

/-- Whatever the transport does, a size that a reader finds is that of a line which it heard. -/
theorem exists_line_of_scan (h : x.reader.source.Sound)
    (hscan : scan SizeLine.step .start x = (.ok n, y)) :
    ∃ line heard, PassesFor line n ∧ n < sizeLimit ∧ x.link.Hears heard .silent y.link ∧
      x.reader.source.staged ++ heard = line ++ y.reader.source.staged := by
  have hscans := scans_scan h SizeLine.step .start
  rw [hscan] at hscans
  cases hscans with
  | @whole _ heard _ hears sound scan_eq =>
      have hwhole := scan_eq []
      rw [List.append_nil, List.append_nil, scanText_sizeLine] at hwhole
      obtain ⟨line, hsplit, hline, hn⟩ := passesFor_of_sizeLine hwhole
      exact ⟨line, heard, hline, hn, hears, hsplit⟩

/-- **Sizes are exact.** If a line that passes for a size line has digits that stand, by their
places, for a number below 2 ^ 64, then this number is found, and the line with its CRLF is what
was read. Any other line is refused, with the byte that spoils it, and on whatever transport no
reader finds a size whose line it has not heard. With fewer than 2 ^ 31 digits the lines that
pass are those of the grammar. With more they have the same form, and pass only if their digits
show in the count. -/
theorem sizes_exact (h : Before F x text) :
    (∀ {line rest : Bytes} {n : Nat}, PassesFor line n → text = line ++ rest →
      n = Nat.ofDigits 16 ((leadingDigits line).map fun b => (digitValue b).toNat).reverse ∧
      (n < 2 ^ 64 → FindsSize F x n rest) ∧ (2 ^ 64 ≤ n → RefusesSize F x .sizeOverflow)) ∧
    (∀ {front rest : Bytes} {fault : ChunkFault}, Spoils front fault → text = front ++ rest →
      RefusesSize F x fault) ∧
    (∀ {body rest : Bytes}, (∀ b ∈ body, b ≠ Byte.cr) → text = body ++ (Bytes.crlf ++ rest) →
      (∃ n, PassesFor (body ++ Bytes.crlf) n ∧ n < 2 ^ 64 ∧ FindsSize F x n rest) ∨
      (∀ n, PassesFor (body ++ Bytes.crlf) n → 2 ^ 64 ≤ n) ∧ ∃ fault, RefusesSize F x fault) ∧
    (∀ {n : Nat} {y : Reading σ}, scan SizeLine.step .start x = (.ok n, y) →
      ∃ line heard, PassesFor line n ∧ n < 2 ^ 64 ∧ x.link.Hears heard .silent y.link ∧
        x.reader.source.staged ++ heard = line ++ y.reader.source.staged) ∧
    (∀ {line : Bytes} {n : Nat},
      IsSizeLine line n ↔ PassesFor line n ∧ (leadingDigits line).length < 2 ^ 31) := by
  refine ⟨?_, ?_, ?_, exists_line_of_scan h.sound, isSizeLine_iff⟩
  · rintro line rest n hline rfl
    refine ⟨?_, findsSize_of_passesFor h hline, ?_⟩
    · rw [hline.value_eq, value_eq_ofDigits]
    · intro hn
      have hwhole : line ++ rest = leadingDigits line ++ (line.dropWhile isHexDigit ++ rest) := by
        rw [← List.append_assoc, leadingDigits, List.takeWhile_append_dropWhile]
      rw [hwhole] at h
      exact refusesSize_of_spoils h (hline.spoils hn)
  · rintro front rest fault hfront rfl
    exact refusesSize_of_spoils h hfront
  · rintro body rest noCr rfl
    rcases sizeLine_line noCr rest with
      ⟨n, hline, hn⟩ | ⟨hlarge, front, behind, fault, hsplit, hfront⟩
    · rw [← List.append_assoc] at h
      exact .inl ⟨n, hline, hn, findsSize_of_passesFor h hline hn⟩
    · rw [hsplit] at h
      exact .inr ⟨hlarge, fault, refusesSize_of_spoils h hfront⟩

/-- A reader with some bytes of a body staged, the rest of which comes in these segments. -/
def ofStaged (staged : Bytes) (segments : List Bytes) : Reading Script :=
  ⟨.make .chunked 8 staged, Script.connected segments⟩

theorem before_ofStaged (staged : Bytes) {segments : List Bytes} {text : Bytes}
    (h : segments.flatten = text) :
    Before (Script.connectedFeed segments) (ofStaged staged segments) (staged ++ text) :=
  ⟨Source.sound_ofStaged 8 staged, text, ⟨rfl, Script.connectedFeed_carries segments h⟩, by
    rw [ofStaged, BodyReader.make, Source.staged_ofStaged]⟩

/-- The largest size, in reads that part its digits, its extension and its CRLF; the next one, with
which a word would be back at zero; and a digit behind a blank. -/
theorem largest_size_found :
    FindsSize
      (Script.connectedFeed [ascii "FfFfFfFf", ascii "ffffffff \t;a=", ascii "b\r", ascii "\nx"])
      (ofStaged (ascii "00") [ascii "FfFfFfFf", ascii "ffffffff \t;a=", ascii "b\r", ascii "\nx"])
      (2 ^ 64 - 1) (ascii "x") ∧
    RefusesSize (Script.connectedFeed [ascii "10000000", ascii "000000000\r", ascii "\n"])
      (ofStaged (ascii "00") [ascii "10000000", ascii "000000000\r", ascii "\n"]) .sizeOverflow ∧
    RefusesSize (Script.connectedFeed [ascii " 4\r\n"]) (ofStaged (ascii "00") [ascii " 4\r\n"])
      .sizeCharacter := by
  refine ⟨?_, ?_, ?_⟩
  · have hext : IsExtension (Byte.semicolon :: ascii "a=b") := .some (by decide +kernel)
    have hline : IsSizeLine (ascii "00FfFfFfFfffffffff" ++
        (ascii " \t" ++ (Byte.semicolon :: ascii "a=b" ++ Bytes.crlf)))
        (Numeral.value 16 (ascii "00FfFfFfFfffffffff")) :=
      .make (by decide +kernel) (by decide +kernel) (by decide +kernel) (by decide +kernel) hext
    have hvalue : Numeral.value 16 (ascii "00FfFfFfFfffffffff") = 2 ^ 64 - 1 := by decide +kernel
    rw [hvalue] at hline
    exact ((sizes_exact (before_ofStaged _ rfl)).1 (isSizeLine_iff.mp hline).1
      (by decide +kernel)).2.1 (by decide)
  · have hline : IsSizeLine (ascii "0010000000000000000" ++ ([] ++ ([] ++ Bytes.crlf)))
        (Numeral.value 16 (ascii "0010000000000000000")) :=
      .make (by decide +kernel) (by decide +kernel) (by decide +kernel) (by simp) .none
    have hvalue : Numeral.value 16 (ascii "0010000000000000000") = 2 ^ 64 := by decide +kernel
    rw [hvalue] at hline
    have hsplit : ascii "00" ++ [ascii "10000000", ascii "000000000\r", ascii "\n"].flatten
        = (ascii "0010000000000000000" ++ ([] ++ ([] ++ Bytes.crlf))) ++ [] := by decide +kernel
    exact ((sizes_exact (before_ofStaged _ rfl)).1 (isSizeLine_iff.mp hline).1 hsplit).2.2
      (by decide)
  · have hfront : Spoils (ascii "00" ++ (ascii " " ++ [52])) .sizeCharacter :=
      .character (by decide +kernel) (by decide +kernel) (by decide +kernel)
        (fun _ => by decide +kernel) (fun h => absurd h (by decide +kernel))
        (fun _ => ⟨by decide, by decide⟩) (by decide)
    have hsplit : ascii "00" ++ [ascii " 4\r\n"].flatten
        = (ascii "00" ++ (ascii " " ++ [52])) ++ Bytes.crlf := by decide +kernel
    exact (sizes_exact (before_ofStaged _ rfl)).2.1 hfront hsplit

/-! ### Digits that are not seen -/

/-- No digits are seen where there are just 2 ^ 32 of them, or a multiple of that. -/
theorem uncounted_refused {digits : Bytes} (h : Before F x (digits ++ (Bytes.crlf ++ rest)))
    (hex : ∀ b ∈ digits, isHexDigit b = true) (small : Numeral.value 16 digits < sizeLimit)
    (many : digits.length % 2 ^ 32 = 0) : RefusesSize F x .sizeMissing := by
  rw [← List.append_assoc] at h
  exact refusesSize_of_spoils h (.missing hex small ((digitCount_eq_zero_iff digits).mpr many))

/-- A run of zeros. -/
def zeros (count : Nat) : Bytes := List.replicate count (Numeral.digit 0)

theorem hex_zeros (count : Nat) : ∀ b ∈ zeros count, isHexDigit b = true := by
  intro b hb
  rw [List.eq_of_mem_replicate hb]
  decide

theorem value_zeros (count : Nat) : Numeral.value 16 (zeros count) = 0 := by
  induction count with
  | zero => rfl
  | succ count ih => exact ih

/-- A line of 2 ^ 32 zeros has the form of a size line and the value 0, but to a reader it is one
without digits. -/
theorem zeros_uncounted :
    (∀ b ∈ zeros (2 ^ 32), isHexDigit b = true) ∧ Numeral.value 16 (zeros (2 ^ 32)) = 0 ∧
    RefusesSize (Script.connectedFeed [zeros (2 ^ 32), Bytes.crlf])
      (ofStaged [] [zeros (2 ^ 32), Bytes.crlf]) .sizeMissing := by
  have hbefore (count : Nat) : Before (Script.connectedFeed [zeros count, Bytes.crlf])
      (ofStaged [] [zeros count, Bytes.crlf]) (zeros count ++ (Bytes.crlf ++ [])) :=
    before_ofStaged [] rfl
  have hvalue := value_zeros (2 ^ 32)
  refine ⟨hex_zeros _, hvalue, uncounted_refused (hbefore (2 ^ 32)) (hex_zeros _) ?_ ?_⟩
  · rw [hvalue]
    decide
  · rw [zeros, List.length_replicate, Nat.mod_self]

end Reading

end HttpExchange
