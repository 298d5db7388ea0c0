import HttpExchange.Proofs.Lines
import HttpExchange.Proofs.Numerals
import HttpExchange.Header

/-!
# Requests as a server reads them

The other side of a connection takes a request apart again: the request line at its first and
at its last space, header lines up to the first empty one, each at its first colon, and then
the body, by its transfer coding or else by its length. `Incoming.parse?` does that, and hands
back what follows the request.

* `Incoming.headers?_cons`: a header line is taken off the front of a text.
* `Incoming.dechunk?_chunk`: so is a chunk.
-/

namespace HttpExchange

structure Incoming where
  method : Bytes
  target : Bytes
  version : Bytes
  headers : List Header
  body : Bytes
deriving DecidableEq, Repr

namespace Incoming

/-! ## Taking a request apart -/

/-- Method, target and version: the parts before the first and behind the last space, and what
is between them. -/
def startLine? (line : Bytes) : Option (Bytes × Bytes × Bytes) :=
  match Bytes.cutAt? Byte.sp line with
  | none => none
  | some (method, rest) =>
    (Bytes.cutAt? Byte.sp rest.reverse).map fun (version, target) =>
      (method, target.reverse, version.reverse)

def header? (line : Bytes) : Option Header :=
  (Bytes.cutAt? Byte.colon line).map fun (name, value) => ⟨name, Bytes.trim value⟩

/-- The header lines up to the first empty one, and what follows it. -/
def headers? (text : Bytes) : Option (List Header × Bytes) :=
  match h : Bytes.cutLine text with
  | none => none
  | some ([], rest) => some ([], rest)
  | some (b :: line, rest) =>
    have := Bytes.length_of_cutLine h
    match header? (b :: line), headers? rest with
    | some header, some (headers, rest) => some (header :: headers, rest)
    | _, _ => none
termination_by text.length

/-- The value of the first header with a name, in any case of letters. -/
def lookup (headers : List Header) (name : Bytes) : Option Bytes :=
  (headers.find? fun h => Bytes.equalsIgnoringCase h.name name).map Header.value

/-- What follows a CRLF at the front of a text. -/
def afterCrlf? (text : Bytes) : Option Bytes :=
  if text.take 2 = Bytes.crlf then some (text.drop 2) else none

theorem length_of_afterCrlf? {text rest : Bytes} (h : afterCrlf? text = some rest) :
    rest.length ≤ text.length := by
  unfold afterCrlf? at h
  split at h
  · cases h
    rw [List.length_drop]
    omega
  · cases h

/-- The hexadecimal numeral on the first line, and what follows that line. -/
def chunkSize? (text : Bytes) : Option (Nat × Bytes) :=
  match Bytes.cutLine text with
  | none => none
  | some (digits, rest) =>
    if digits ≠ [] ∧ digits.all fun b => (Byte.hexValue? b).isSome then
      some (Numeral.value 16 digits, rest)
    else none

theorem length_of_chunkSize? {text rest : Bytes} {n : Nat} (h : chunkSize? text = some (n, rest)) :
    rest.length < text.length := by
  unfold chunkSize? at h
  split at h
  · cases h
  · rename_i hcut
    split at h
    · cases h
      exact Bytes.length_of_cutLine hcut
    · cases h

/-- The data of chunks of any size, up to the chunk of size zero and an empty trailer. -/
def dechunk? (text : Bytes) : Option (Bytes × Bytes) :=
  match h : chunkSize? text with
  | none => none
  | some (n, rest) =>
    match h' : afterCrlf? (rest.drop n) with
    | none => none
    | some more =>
      have : more.length < text.length := by
        have hsize := length_of_chunkSize? h
        have hmore := length_of_afterCrlf? h'
        rw [List.length_drop] at hmore
        omega
      if n = 0 then some ([], more)
      else (dechunk? more).map fun (data, behind) => (rest.take n ++ data, behind)
termination_by text.length

/-- As many bytes as a decimal numeral says. -/
def sized? (digits text : Bytes) : Option (Bytes × Bytes) :=
  if digits ≠ [] ∧ digits.all Byte.isDigit ∧ Numeral.value 10 digits ≤ text.length then
    some (text.splitAt (Numeral.value 10 digits))
  else none

/-- A transfer coding counts before a length. -/
def body? (headers : List Header) (text : Bytes) : Option (Bytes × Bytes) :=
  if (lookup headers (ascii "Transfer-Encoding")).any (Bytes.hasToken · (ascii "chunked")) then
    dechunk? text
  else
    match lookup headers (ascii "Content-Length") with
    | none => some ([], text)
    | some digits => sized? digits text

/-- A request at the front of a text, and what follows it. -/
def parse? (text : Bytes) : Option (Incoming × Bytes) := do
  let (line, rest) ← Bytes.cutLine text
  let (method, target, version) ← startLine? line
  let (headers, rest) ← headers? rest
  let (body, rest) ← body? headers rest
  return (⟨method, target, version, headers, body⟩, rest)

/-! ## Putting it together again -/

theorem startLine?_parts {method version : Bytes} (hmethod : Byte.sp ∉ method)
    (hversion : Byte.sp ∉ version) (target : Bytes) :
    startLine? (method ++ Byte.sp :: (target ++ Byte.sp :: version))
      = some (method, target, version) := by
  have hreverse : (target ++ Byte.sp :: version).reverse
      = version.reverse ++ Byte.sp :: target.reverse := by
    rw [List.reverse_append, List.reverse_cons, List.append_assoc]
    rfl
  unfold startLine?
  rw [Bytes.cutAt?_append hmethod]
  dsimp only
  rw [hreverse, Bytes.cutAt?_append (by rwa [List.mem_reverse])]
  simp only [Option.map_some, List.reverse_reverse]

end Incoming

/-- A header as it stands on the wire. -/
def Header.text (h : Header) : Bytes := h.name ++ ascii ": " ++ h.value ++ Bytes.crlf

namespace Header

/-- A name that can be told from the value behind it. -/
def IsName (name : Bytes) : Prop := name ≠ [] ∧ Byte.colon ∉ name ∧ name.OneLine

instance (name : Bytes) : Decidable (IsName name) :=
  inferInstanceAs (Decidable (name ≠ [] ∧ Byte.colon ∉ name ∧ name.OneLine))

/-- A header that a line can hold. -/
structure Sendable (h : Header) : Prop where
  isName : IsName h.name
  oneLine : h.value.OneLine
  trimmed : h.value.Trimmed

instance (h : Header) : Decidable h.Sendable :=
  decidable_of_iff (IsName h.name ∧ h.value.OneLine ∧ h.value.Trimmed)
    ⟨fun ⟨isName, oneLine, trimmed⟩ => ⟨isName, oneLine, trimmed⟩,
      fun h => ⟨h.isName, h.oneLine, h.trimmed⟩⟩

end Header

namespace Incoming

variable {h : Header} {more : Bytes}

theorem header?_of_sendable (hh : h.Sendable) :
    header? (h.name ++ ascii ": " ++ h.value) = some h := by
  unfold header?
  rw [List.append_assoc, show ascii ": " ++ h.value = Byte.colon :: Byte.sp :: h.value from rfl,
    Bytes.cutAt?_append hh.isName.2.1, Option.map_some]
  dsimp only
  rw [Bytes.trim_cons_of_isBlank (by decide), Bytes.trim_of_trimmed hh.trimmed]

theorem headers?_eq (text : Bytes) : headers? text =
    match Bytes.cutLine text with
    | none => none
    | some ([], rest) => some ([], rest)
    | some (b :: line, rest) =>
      match header? (b :: line), headers? rest with
      | some header, some (headers, rest) => some (header :: headers, rest)
      | _, _ => none := by
  rw [headers?]
  split <;> simp [*]

theorem headers?_blank (more : Bytes) : headers? (Bytes.crlf ++ more) = some ([], more) := by
  have hcut : Bytes.cutLine (Bytes.crlf ++ more) = some ([], more) := rfl
  rw [headers?_eq, hcut]

/-- **A header line is taken off the front of a text.** -/
theorem headers?_cons (hh : h.Sendable) {headers : List Header} {rest behind : Bytes}
    (hrest : headers? rest = some (headers, behind)) :
    headers? (h.text ++ rest) = some (h :: headers, behind) := by
  have hline : (h.name ++ ascii ": " ++ h.value).OneLine :=
    (hh.isName.2.2.append (by decide)).append hh.oneLine
  have hcut : Bytes.cutLine (h.text ++ rest) = some (h.name ++ ascii ": " ++ h.value, rest) :=
    Bytes.cutLine_line hline.no_crlf rest
  have hheader := header?_of_sendable hh
  obtain ⟨b, line, hcons⟩ : ∃ b line, h.name ++ ascii ": " ++ h.value = b :: line :=
    List.exists_cons_of_ne_nil (by simp [hh.isName.1])
  rw [hcons] at hcut hheader
  rw [headers?_eq, hcut]
  dsimp only
  rw [hheader, hrest]

theorem headers?_all {headers : List Header} (hheaders : ∀ h ∈ headers, h.Sendable) (more : Bytes) :
    headers? (headers.flatMap Header.text ++ (Bytes.crlf ++ more)) = some (headers, more) := by
  induction headers with
  | nil => exact headers?_blank more
  | cons h headers ih =>
      rw [List.forall_mem_cons] at hheaders
      rw [List.flatMap_cons, List.append_assoc]
      exact headers?_cons hheaders.1 (ih hheaders.2)

/-! ## Bodies -/

theorem chunkSize?_hexadecimal (n : Nat) (rest : Bytes) :
    chunkSize? (Numeral.hexadecimal n ++ (Bytes.crlf ++ rest)) = some (n, rest) := by
  have hhex {b : UInt8} (hb : b ∈ Numeral.hexadecimal n) := Numeral.isSome_of_mem_hexadecimal hb
  have hline : ¬ Bytes.crlf <:+: Numeral.hexadecimal n := by
    refine Bytes.no_crlf_of_not_mem fun hcr => ?_
    exact absurd (hhex hcr) (by decide)
  have hcut : Bytes.cutLine (Numeral.hexadecimal n ++ (Bytes.crlf ++ rest))
      = some (Numeral.hexadecimal n, rest) := by
    rw [← List.append_assoc, Bytes.cutLine_line hline]
  unfold chunkSize?
  rw [hcut]
  dsimp only
  rw [if_pos ⟨Numeral.render_ne_nil, List.all_eq_true.mpr fun b => hhex⟩,
    Numeral.value_hexadecimal]

theorem afterCrlf?_crlf (rest : Bytes) : afterCrlf? (Bytes.crlf ++ rest) = some rest := rfl

theorem dechunk?_eq (text : Bytes) : dechunk? text =
    match chunkSize? text with
    | none => none
    | some (n, rest) =>
      match afterCrlf? (rest.drop n) with
      | none => none
      | some more =>
        if n = 0 then some ([], more)
        else (dechunk? more).map fun (data, behind) => (rest.take n ++ data, behind) := by
  rw [dechunk?]
  split
  · simp [*]
  · split <;> simp [*]

/-- **A chunk is taken off the front of a text.** -/
theorem dechunk?_cons {data rest payload behind : Bytes} (hdata : data ≠ [])
    (hrest : dechunk? rest = some (payload, behind)) :
    dechunk? (Numeral.hexadecimal data.length ++ (Bytes.crlf ++ (data ++ (Bytes.crlf ++ rest))))
      = some (data ++ payload, behind) := by
  rw [dechunk?_eq, chunkSize?_hexadecimal]
  dsimp only
  rw [List.drop_left, afterCrlf?_crlf]
  dsimp only
  rw [if_neg (mt List.length_eq_zero_iff.mp hdata), hrest, List.take_left]
  rfl

theorem dechunk?_last (rest : Bytes) :
    dechunk? (ascii "0" ++ (Bytes.crlf ++ (Bytes.crlf ++ rest))) = some ([], rest) := by
  have hzero : Numeral.hexadecimal 0 = ascii "0" := Numeral.render_of_lt (by decide)
  rw [← hzero, dechunk?_eq, chunkSize?_hexadecimal]
  dsimp only
  rw [List.drop_zero, afterCrlf?_crlf]
  dsimp only
  rw [if_pos rfl]

theorem sized?_decimal (data more : Bytes) :
    sized? (Numeral.decimal data.length) (data ++ more) = some (data, more) := by
  unfold sized?
  rw [Numeral.value_decimal, if_pos, List.splitAt_eq, List.take_left, List.drop_left]
  refine ⟨Numeral.render_ne_nil, ?_, ?_⟩
  · exact List.all_eq_true.mpr fun b => Numeral.isDigit_of_mem_decimal
  · rw [List.length_append]
    omega

end Incoming

end HttpExchange
