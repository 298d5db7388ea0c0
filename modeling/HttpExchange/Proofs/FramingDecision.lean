import HttpExchange.Proofs.HeaderFields
import HttpExchange.Proofs.HeadOutcome

/-!
# Where a body ends

Where the body behind a head ends follows from the method, the status code and the header lines
alone. The rules are said of the lines as they stand in the head (`Framing.Ruled`), with the
chunked coding as a parameter of them: a response that is read goes by the first line that names
a transfer coding (`Response.read_framing`), and so by any such line exactly if a later one does
not name the chunked coding where the first one does not.
-/

namespace HttpExchange

namespace Framing

/-- Nothing follows the head of a response with that code to a request with that method. -/
def HasNoBody (method : Method) (code : Nat) : Prop :=
  method = .head ∨ 100 ≤ code ∧ code < 200 ∨ code = 204 ∨ code = 304

/-- Nothing but decimal digits, at least one of them, of a number of 64 bits. -/
structure IsNumber (value : Bytes) (n : Nat) : Prop where
  ne_nil : value ≠ []
  isDigit : ∀ b ∈ value, Byte.isDigit b = true
  value_eq : Numeral.value 10 value = n
  lt : n < UInt64.size

/-- The first Content-Length line says a number. -/
def Declares (lines : List Bytes) (n : Nat) : Prop :=
  ∃ value, Header.FirstSays (ascii "Content-Length") lines value ∧ IsNumber value n

/-- A Transfer-Encoding line that lists the chunked coding. -/
def NamesChunked (line : Bytes) : Prop :=
  ∃ value, Header.Says (ascii "Transfer-Encoding") line value ∧
    Bytes.Lists value (ascii "chunked")

/-- The first Transfer-Encoding line lists the chunked coding. -/
def FirstNamesChunked (lines : List Bytes) : Prop :=
  ∃ value, Header.FirstSays (ascii "Transfer-Encoding") lines value ∧
    Bytes.Lists value (ascii "chunked")

/-- The rules of framing, where `chunked` says whether the lines name the chunked coding. -/
inductive Ruled (method : Method) (code : Nat) (lines : List Bytes) (chunked : Prop) :
    Framing → Prop
  | empty : HasNoBody method code → Ruled method code lines chunked (.fixed 0)
  | chunked : ¬ HasNoBody method code → chunked → Ruled method code lines chunked .chunked
  | fixed {n : Nat} : ¬ HasNoBody method code → ¬ chunked → Declares lines n →
    Ruled method code lines chunked (.fixed n)
  | toClose : ¬ HasNoBody method code → ¬ chunked → (∀ n, ¬ Declares lines n) →
    Ruled method code lines chunked .toClose

theorem isNumber_iff {value : Bytes} {n : Nat} :
    Numeral.word64? value = some n ↔ IsNumber value n := by
  unfold Numeral.word64? Numeral.decimal?
  constructor
  · intro h
    split at h
    · rename_i hvalue
      cases h
      exact ⟨hvalue.1, by simpa using hvalue.2.1, rfl, hvalue.2.2⟩
    · simp at h
  · rintro ⟨hne, hdigit, rfl, hlt⟩
    exact if_pos ⟨hne, by simpa using hdigit, hlt⟩

theorem hasNoBody_iff {method : Method} {status : Status} :
    method = .head ∨ status.hasBody = false ↔ HasNoBody method status.code.toNat := by
  have hcode (n : UInt16) : status.code = n ↔ status.code.toNat = n.toNat := UInt16.toNat_inj.symm
  unfold Status.hasBody Status.isInformational HasNoBody
  simp only [Bool.and_eq_false_iff, Bool.not_eq_false', Bool.and_eq_true, decide_eq_true_eq,
    bne_eq_false_iff_eq, UInt16.le_iff_toNat_le, UInt16.lt_iff_toNat_lt, hcode, or_assoc]
  rfl

/-- The name of the chunked coding is a word. -/
theorem isWord_chunked : Bytes.IsWord (ascii "chunked") := by
  have hblank : (ascii "chunked").any Byte.isBlank = false := by decide
  refine ⟨by decide, ?_, by decide⟩
  intro b hb
  exact Bool.eq_false_iff.mpr (List.any_eq_false.mp hblank b hb)

section Blocks

variable {fields : List Bytes}

theorem declaredLength?_eq_some_iff (hfields : ∀ f ∈ fields, Bytes.IsLine f ∧ Header.IsFieldLine f)
    {n : Nat} : declaredLength? ⟨Bytes.unlines fields⟩ = some n ↔ Declares fields n := by
  unfold declaredLength? Declares
  rw [Option.bind_eq_some_iff]
  constructor
  · rintro ⟨value, hfind, hnumber⟩
    have hfirst := (HeaderBlock.find?_eq_some_iff hfields).mp hfind
    rw [hfirst.trim_eq] at hnumber
    exact ⟨value, hfirst, isNumber_iff.mp hnumber⟩
  · rintro ⟨value, hfirst, hnumber⟩
    refine ⟨value, (HeaderBlock.find?_eq_some_iff hfields).mpr hfirst, ?_⟩
    rw [hfirst.trim_eq]
    exact isNumber_iff.mpr hnumber

theorem Declares.unique (hfields : ∀ f ∈ fields, Bytes.IsLine f ∧ Header.IsFieldLine f)
    {m n : Nat} (hm : Declares fields m) (hn : Declares fields n) : m = n := by
  rw [← declaredLength?_eq_some_iff hfields] at hm hn
  rw [hm, Option.some.injEq] at hn
  exact hn

theorem isChunked_iff (hfields : ∀ f ∈ fields, Bytes.IsLine f ∧ Header.IsFieldLine f) :
    isChunked ⟨Bytes.unlines fields⟩ = true ↔ FirstNamesChunked fields := by
  unfold isChunked FirstNamesChunked
  simp only [Option.any_eq_true, HeaderBlock.find?_eq_some_iff hfields,
    Bytes.hasToken_iff isWord_chunked]

/-- **A framing is decided by the rules**, with the first line that names a transfer coding. -/
theorem decide_ruled (hfields : ∀ f ∈ fields, Bytes.IsLine f ∧ Header.IsFieldLine f)
    (method : Method) (status : Status) :
    Ruled method status.code.toNat fields (FirstNamesChunked fields)
      (decide method status ⟨Bytes.unlines fields⟩) := by
  unfold decide
  by_cases hbody : method = .head ∨ status.hasBody = false
  · rw [if_pos hbody]
    exact .empty (hasNoBody_iff.mp hbody)
  · rw [if_neg hbody]
    rw [hasNoBody_iff] at hbody
    by_cases hchunked : isChunked ⟨Bytes.unlines fields⟩ = true
    · rw [if_pos hchunked]
      exact .chunked hbody ((isChunked_iff hfields).mp hchunked)
    · rw [if_neg hchunked]
      rw [isChunked_iff hfields] at hchunked
      rcases hlength : declaredLength? ⟨Bytes.unlines fields⟩ with _ | n
      · refine .toClose hbody hchunked ?_
        intro n hn
        simp [(declaredLength?_eq_some_iff hfields).mpr hn] at hlength
      · exact .fixed hbody hchunked ((declaredLength?_eq_some_iff hfields).mp hlength)

end Blocks

/-- The first Transfer-Encoding line is one of the lines. -/
theorem FirstNamesChunked.exists_line {lines : List Bytes} (h : FirstNamesChunked lines) :
    ∃ line ∈ lines, NamesChunked line := by
  obtain ⟨value, hfirst, hlists⟩ := h
  obtain ⟨line, hmem, hsaid⟩ := hfirst.exists_line
  exact ⟨line, hmem, value, hsaid, hlists⟩

/-- Where there is no body the coding does not matter, and elsewhere nothing else does: rules
that differ in what names the chunked coding agree on a framing only if they agree there. -/
theorem Ruled.congr_iff {method : Method} {code : Nat} {lines : List Bytes} {p q : Prop}
    {framing : Framing} (h : Ruled method code lines p framing) :
    Ruled method code lines q framing ↔ HasNoBody method code ∨ (q ↔ p) := by
  constructor
  · intro h'
    rcases h with hempty | ⟨hbody, hp⟩ | ⟨hbody, hp, -⟩ | ⟨hbody, hp, -⟩
    · exact .inl hempty
    · cases h' with
      | chunked _ hq => exact .inr (iff_of_true hq hp)
    · rcases h' with hempty | _ | ⟨-, hq, -⟩ | _
      · exact .inl hempty
      · exact .inr (iff_of_false hq hp)
    · cases h' with
      | toClose _ hq _ => exact .inr (iff_of_false hq hp)
  · rintro (hempty | heq)
    · rcases h with _ | ⟨hbody, -⟩ | ⟨hbody, -⟩ | ⟨hbody, -⟩
      · exact .empty hempty
      all_goals exact absurd hempty hbody
    · rwa [propext heq]

end Framing

/-! ## Responses -/

namespace Response

variable {σ : Type} [SecureTransport σ]
  {receive : σ → Nat → Except TransportFailure Bytes × σ} {ending : Ending}
  {F : Feed receive ending} {l : Link σ} {first body : Bytes} {line : StatusLine}
  {fields : List Bytes} {capacity : Nat}

theorem phaseAfter_eq (r : Response) :
    r.phaseAfter = if r.framing = .fixed 0 then .idle else .inBody := by
  simp [phaseAfter, Framing.isEmpty]

/-- **The framing of a response.** A response whose head is accepted is read on every idle link,
in whatever pieces it comes, and its framing goes by the rules with the first line that names a
transfer coding. With a body the connection stays in it, and without one it is idle again. By the
rules with any line that names the chunked coding the framing goes exactly if there is no body or
the first Transfer-Encoding line names that coding whenever one of them does. -/
theorem read_framing (hidle : l.phase = .idle) (method : Method)
    (hfirst : ¬ Bytes.crlf <:+: first) (hline : StatusLine.IsStatusLine first line)
    (hfields : ∀ f ∈ fields, Bytes.IsLine f ∧ Header.IsFieldLine f)
    (hfit : (first ++ Bytes.crlf ++ (Bytes.unlines fields ++ Bytes.crlf)).length ≤ capacity)
    (hon : F.On l (first ++ Bytes.crlf ++ (Bytes.unlines fields ++ Bytes.crlf) ++ body)) :
    ∃ r l', Response.read l method capacity = (.ok r, l') ∧
      Framing.Ruled method line.status.code.toNat fields (Framing.FirstNamesChunked fields)
        r.framing ∧
      l'.phase = (if r.framing = .fixed 0 then .idle else .inBody) ∧
      (Framing.Ruled method line.status.code.toNat fields (∃ f ∈ fields, Framing.NamesChunked f)
          r.framing
        ↔ Framing.HasNoBody method line.status.code.toNat ∨
          ((∃ f ∈ fields, Framing.NamesChunked f) → Framing.FirstNamesChunked fields)) := by
  have hhead := IsHead.of_fields hfirst hline hfields
  obtain ⟨staged, later, l', hread, -, -, -, hholds⟩ :=
    Response.read_isHead method hidle hhead hfit hon
  have hruled := Framing.decide_ruled hfields method line.status
  refine ⟨_, l', hread, hruled, ?_, ?_⟩
  · rw [hholds.phase_eq]
    exact phaseAfter_eq _
  · refine (Framing.Ruled.congr_iff hruled).trans (or_congr_right ?_)
    exact ⟨Iff.mp, fun h => ⟨h, Framing.FirstNamesChunked.exists_line⟩⟩

/-- Two codings, each in a line of its own, and a length that does not count. -/
def codedFields : List Bytes :=
  [ascii "Transfer-Encoding: gzip", ascii "Transfer-Encoding: chunked", ascii "Content-Length: 3"]

def codedSegments : List Bytes :=
  [ascii "HTTP/1.1 200 OK\r\nTransfer-Encoding: gzip\r\nTransfer-Encoding: chunked\r\n",
    ascii "Content-Length: 3\r\n\r\n2\r\nhi\r\n0\r\n\r\n"]

/-- The first line names another coding, so the body ends after three bytes, although a later line
names the chunked coding. -/
theorem read_framing_coded : ∃ r l',
    Response.read (Script.connected codedSegments) .get 256 = (.ok r, l') ∧
      r.framing = .fixed 3 ∧ l'.phase = .inBody ∧
      ¬ Framing.Ruled .get 200 codedFields (∃ f ∈ codedFields, Framing.NamesChunked f)
        r.framing := by
  have hon : (Script.connectedFeed codedSegments).On (Script.connected codedSegments)
      (ascii "HTTP/1.1 200 OK" ++ Bytes.crlf ++ (Bytes.unlines codedFields ++ Bytes.crlf)
        ++ ascii "2\r\nhi\r\n0\r\n\r\n") :=
    ⟨rfl, Script.connectedFeed_carries codedSegments (by decide +kernel)⟩
  have hfirst : Bytes.OneLine (ascii "HTTP/1.1 200 OK") := by decide +kernel
  have hline : StatusLine.IsStatusLine (ascii "HTTP/1.1 200 OK") ⟨⟨200⟩, ascii "OK"⟩ :=
    StatusLine.parse_eq_ok_iff.mp (by decide +kernel)
  have hfields : ∀ f ∈ codedFields, Bytes.IsLine f ∧ Header.IsFieldLine f := by
    have hlines : ∀ f ∈ codedFields, f ≠ [] ∧ Bytes.OneLine f ∧ Header.lineFault? f = none := by
      decide +kernel
    intro f hf
    obtain ⟨hne, hone, hfault⟩ := hlines f hf
    exact ⟨⟨hne, hone.no_crlf⟩, Header.lineFault?_eq_none_iff.mp hfault⟩
  have hbody : ¬ Framing.HasNoBody .get 200 := by simp [Framing.HasNoBody]
  have hnames : ∃ f ∈ codedFields, Framing.NamesChunked f :=
    ⟨ascii "Transfer-Encoding: chunked", by decide, ascii "chunked",
      ⟨ascii "Transfer-Encoding", ascii " chunked", by decide, by decide, by decide, by decide⟩,
      (Bytes.hasToken_iff Framing.isWord_chunked).mp (by decide)⟩
  have hother : ¬ Framing.FirstNamesChunked codedFields := by
    rw [← Framing.isChunked_iff hfields]
    decide +kernel
  have hlength : Framing.Declares codedFields 3 :=
    (Framing.declaredLength?_eq_some_iff hfields).mp (by decide +kernel)
  have hfit : (ascii "HTTP/1.1 200 OK" ++ Bytes.crlf
      ++ (Bytes.unlines codedFields ++ Bytes.crlf)).length ≤ 256 := by decide +kernel
  obtain ⟨r, l', hread, hruled, hphase, hexact⟩ :=
    read_framing rfl .get hfirst.no_crlf hline hfields hfit hon
  have hfixed : r.framing = .fixed 3 := by
    generalize r.framing = framing at hruled
    rcases hruled with hempty | ⟨-, hchunked⟩ | ⟨-, -, hn⟩ | ⟨-, -, hnone⟩
    · exact absurd hempty hbody
    · exact absurd hchunked hother
    · rw [Framing.Declares.unique hfields hn hlength]
    · exact absurd hlength (hnone 3)
  refine ⟨r, l', hread, hfixed, by rw [hphase, hfixed]; rfl, fun h => ?_⟩
  rcases hexact.mp h with hempty | hall
  · exact hbody hempty
  · exact hother (hall hnames)

end Response

end HttpExchange
