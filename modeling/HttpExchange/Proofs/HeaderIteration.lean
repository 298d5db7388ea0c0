import Mathlib.Data.List.Forall2
import HttpExchange.Proofs.FramingLines
import HttpExchange.Proofs.HeaderFields

/-!
# What a header block says

A block is read twice, and both readers cut the same lines. A loop over a block comes by what its
lines with a colon say, in their order, whatever the block is. If no line is faulty, every line is
such a line, and its name is what stands before the colon as it is; and headers that are written
into lines of their own are read back (`HeaderBlock.read_alike`).
-/

namespace HttpExchange

namespace Header

variable {line : Bytes} {lines : List Bytes} {headers : List Header}

/-- A header is what a line says: what stands before its first colon and what stands behind it,
each without the blanks around it. -/
def Read (line : Bytes) (h : Header) : Prop :=
  ∃ name text, line = name ++ Byte.colon :: text ∧ Byte.colon ∉ name ∧
    h = ⟨Bytes.trim name, Bytes.trim text⟩

/-- A header is what a line says, and its name is all that stands before the first colon. -/
structure ReadExactly (line : Bytes) (h : Header) : Prop where
  line_eq : ∃ text, line = h.name ++ Byte.colon :: text ∧ h.value = Bytes.trim text
  named : h.name ≠ []
  noColon : Byte.colon ∉ h.name
  noBlank : ∀ b ∈ h.name, Byte.isBlank b = false

/-- Headers of some lines in their order, one for each line with a colon. -/
inductive OfLines : List Bytes → List Header → Prop
  | nil : OfLines [] []
  | skip {line : Bytes} {more : List Bytes} {headers : List Header} :
    Byte.colon ∉ line → OfLines more headers → OfLines (line :: more) headers
  | read {line : Bytes} {more : List Bytes} {h : Header} {headers : List Header} :
    Read line h → OfLines more headers → OfLines (line :: more) (h :: headers)

/-- A name without a blank, and a value that a line can hold. -/
structure Plain (h : Header) : Prop extends Sendable h where
  noBlank : ∀ b ∈ h.name, Byte.isBlank b = false

theorem ofLine?_eq_none_iff : ofLine? line = none ↔ Byte.colon ∉ line := by
  rw [ofLine?, Option.map_eq_none_iff, Bytes.cutAt?_eq_none_iff]

theorem ofLine?_eq_some_iff {h : Header} : ofLine? line = some h ↔ Read line h := by
  constructor
  · intro hof
    obtain ⟨⟨name, text⟩, hcut, rfl⟩ := Option.map_eq_some_iff.mp hof
    obtain ⟨rfl, hcolon⟩ := Bytes.cutAt?_eq_some_iff.mp hcut
    exact ⟨name, text, rfl, hcolon, rfl⟩
  · rintro ⟨name, text, rfl, hcolon, rfl⟩
    rw [ofLine?, Bytes.cutAt?_append hcolon, Option.map_some]

/-- A line says one thing at most. -/
theorem Read.unique {h k : Header} (hh : Read line h) (hk : Read line k) : h = k :=
  Option.some.inj ((ofLine?_eq_some_iff.mpr hh).symm.trans (ofLine?_eq_some_iff.mpr hk))

theorem ofLines_filterMap (lines : List Bytes) : OfLines lines (lines.filterMap ofLine?) := by
  induction lines with
  | nil => exact .nil
  | cons line more ih =>
      cases hof : ofLine? line with
      | none =>
          rw [List.filterMap_cons_none hof]
          exact .skip (ofLine?_eq_none_iff.mp hof) ih
      | some h =>
          rw [List.filterMap_cons_some hof]
          exact .read (ofLine?_eq_some_iff.mp hof) ih

/-- Of an accepted line nothing is trimmed off the name. -/
theorem IsFieldLine.readExactly {h : Header} (hline : IsFieldLine line) (hread : Read line h) :
    ReadExactly line h := by
  obtain ⟨name, text, rfl, hne, hcolon, hblank⟩ := hline
  have htrim : Bytes.trim name = name := Bytes.trim_of_trimmed (Bytes.trimmed_of_no_blank hblank)
  have hread' : Read (name ++ Byte.colon :: text) ⟨name, Bytes.trim text⟩ :=
    ⟨name, text, rfl, hcolon, by rw [htrim]⟩
  obtain rfl := Read.unique hread hread'
  exact ⟨⟨text, rfl, rfl⟩, hne, hcolon, hblank⟩

theorem IsFieldLine.colon_mem (hline : IsFieldLine line) : Byte.colon ∈ line := by
  obtain ⟨name, text, rfl, -⟩ := hline
  exact List.mem_append_right _ List.mem_cons_self

/-- **Of accepted lines** each one is a header. -/
theorem OfLines.readExactly (h : OfLines lines headers) (hlines : ∀ l ∈ lines, IsFieldLine l) :
    List.Forall₂ ReadExactly lines headers := by
  induction h with
  | nil => exact .nil
  | skip hskip _ ih => exact absurd (hlines _ List.mem_cons_self).colon_mem hskip
  | read hread _ ih =>
      rw [List.forall_mem_cons] at hlines
      exact .cons (hlines.1.readExactly hread) (ih hlines.2)

/-! ## Headers in lines of their own -/

variable {h : Header}

theorem Plain.isFieldLine (hh : h.Plain) : IsFieldLine h.line := by
  refine ⟨h.name, Byte.sp :: h.value, ?_, hh.isName.1, hh.isName.2.1, hh.noBlank⟩
  rw [line, List.append_assoc]
  rfl

theorem Plain.isLine (hh : h.Plain) : Bytes.IsLine h.line := by
  refine ⟨by simp [line, hh.isName.1], Bytes.OneLine.no_crlf ?_⟩
  exact (hh.isName.2.2.append (by decide)).append hh.oneLine

theorem Plain.ofLine?_line (hh : h.Plain) : ofLine? h.line = some h := by
  have hname : Bytes.trim h.name = h.name :=
    Bytes.trim_of_trimmed (Bytes.trimmed_of_no_blank hh.noBlank)
  have hvalue : Bytes.trim (Byte.sp :: h.value) = h.value := by
    rw [Bytes.trim_cons_of_isBlank (by decide), Bytes.trim_of_trimmed hh.trimmed]
  have hread := ofLine?_eq_some_iff.mpr ⟨h.name, Byte.sp :: h.value, rfl, hh.isName.2.1, rfl⟩
  rw [hname, hvalue] at hread
  rw [line, List.append_assoc]
  exact hread

end Header

namespace HeaderBlock

/-- What a block tells whom it is read by: some headers, which a loop comes by, no matter how the
cursor is moved on; how many they are; and what is found under a name, in any case of it. -/
structure Tells (block : HeaderBlock) (headers : List Header) : Prop where
  loop : Cursor.Visits Cursor.advance block.start headers
  postLoop : Cursor.Visits (fun c => c.post.2) block.start headers
  count_eq : block.count = headers.length
  found (name value : Bytes) : block.find? name = some value ↔
    ∃ before h after, headers = before ++ h :: after ∧ h.value = value ∧
      Bytes.equalsIgnoringCase h.name name = true ∧
      ∀ earlier ∈ before, Bytes.equalsIgnoringCase earlier.name name = false
  missing (name : Bytes) : block.find? name = none ↔
    ∀ h ∈ headers, Bytes.equalsIgnoringCase h.name name = false

theorem tells_headers (block : HeaderBlock) : block.Tells block.headers where
  loop := Cursor.visits_iff.mpr rfl
  postLoop := Cursor.visits_iff.mpr rfl
  count_eq := rfl
  found name value := by
    unfold find?
    rw [Option.map_eq_some_iff]
    constructor
    · rintro ⟨h, hfind, rfl⟩
      obtain ⟨hname, before, after, heq, hbefore⟩ := List.find?_eq_some_iff_append.mp hfind
      exact ⟨before, h, after, heq, rfl, hname, by simpa using hbefore⟩
    · rintro ⟨before, h, after, heq, rfl, hname, hbefore⟩
      refine ⟨h, List.find?_eq_some_iff_append.mpr ⟨hname, before, after, heq, ?_⟩, rfl⟩
      simpa using hbefore
  missing name := by
    unfold find?
    rw [Option.map_eq_none_iff, List.find?_eq_none]
    simp

/-- **The readers of a block agree.** Of any block a loop comes by what the lines with a colon say,
and if the block is accepted, by exactly one header for each line, with the name as it stands
before the colon. Headers that are written into lines of their own are accepted and read back. -/
theorem read_alike (block : HeaderBlock) :
    (∃ lines headers, Bytes.SplitsInto block.raw lines ∧ Header.OfLines lines headers ∧
      block.Tells headers ∧
      (block.fault? = none →
        List.Forall₂ Header.ReadExactly lines headers ∧ block.count = lines.length)) ∧
    ∀ headers : List Header, (∀ h ∈ headers, h.Plain) → block.raw = headers.flatMap Header.text →
      block.fault? = none ∧ block.Tells headers := by
  have htells := block.tells_headers
  refine ⟨?_, ?_⟩
  · have hof : Header.OfLines (Bytes.lines block.raw) block.headers :=
      block.headers_eq ▸ Header.ofLines_filterMap _
    refine ⟨_, _, Bytes.lines_eq_iff.mp rfl, hof, htells, ?_⟩
    intro hfault
    have hexact := hof.readExactly (fault?_eq_none_iff.mp hfault)
    exact ⟨hexact, hexact.length_eq.symm⟩
  · intro headers hplain hraw
    have hlines : Bytes.lines block.raw = headers.map Header.line := by
      rw [hraw, ← Header.unlines_map_line, Bytes.lines_unlines]
      exact List.forall_mem_map.mpr fun h hh => (hplain h hh).isLine
    have hheaders : block.headers = headers := by
      rw [headers_eq, hlines, List.filterMap_map]
      exact (List.filterMap_congr fun h hh => (hplain h hh).ofLine?_line).trans
        List.filterMap_some
    refine ⟨?_, hheaders ▸ htells⟩
    rw [fault?_eq_none_iff, hlines]
    exact List.forall_mem_map.mpr fun h hh => (hplain h hh).isFieldLine

/-- Cookies under one name in two spellings. A CR stands alone, a value is empty, and the last line
is not ended. -/
def cookies : HeaderBlock := ⟨ascii "Set-Cookie:a=1\r\nX:\r\nset-cookie: \rb \r\nY: \r"⟩

def cookieHeaders : List Header :=
  [⟨ascii "Set-Cookie", ascii "a=1"⟩, ⟨ascii "X", []⟩, ⟨ascii "set-cookie", ascii "\rb"⟩,
    ⟨ascii "Y", ascii "\r"⟩]

/-- Two headers under one name are written, one of them without a value. -/
def repeated : List Header := [⟨ascii "A", ascii "1"⟩, ⟨ascii "a", []⟩]

theorem read_alike_cookies :
    (∃ lines, Bytes.SplitsInto cookies.raw lines ∧
      List.Forall₂ Header.ReadExactly lines cookieHeaders ∧ cookies.count = lines.length ∧
      cookies.Tells cookieHeaders ∧ cookies.find? (ascii "SET-COOKIE") = some (ascii "a=1")) ∧
    (∀ h ∈ repeated, h.Plain) ∧ HeaderBlock.Tells ⟨ascii "A: 1\r\na: \r\n"⟩ repeated := by
  have hplain : ∀ h ∈ repeated, h.Plain := by
    have hparts : ∀ h ∈ repeated, h.Sendable ∧ ∀ b ∈ h.name, Byte.isBlank b = false := by
      decide +kernel
    exact fun h hh => ⟨(hparts h hh).1, (hparts h hh).2⟩
  have hheaders : cookies.headers = cookieHeaders := by decide +kernel
  obtain ⟨⟨lines, headers, hsplit, -, htells, hexact⟩, -⟩ := read_alike cookies
  obtain ⟨hforall, hcount⟩ := hexact (by decide +kernel)
  have hread := (read_alike ⟨ascii "A: 1\r\na: \r\n"⟩).2 repeated hplain (by decide)
  obtain rfl : headers = cookieHeaders :=
    (Cursor.visits_iff.mp htells.loop).trans hheaders
  exact ⟨⟨lines, hsplit, hforall, hcount, htells, by decide +kernel⟩, hplain, hread.2⟩

end HeaderBlock

end HttpExchange
