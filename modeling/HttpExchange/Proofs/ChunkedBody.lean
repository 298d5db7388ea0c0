import HttpExchange.Proofs.BodyDelivery
import HttpExchange.Proofs.ChunkGrammar
import HttpExchange.Proofs.HeadReading
import HttpExchange.Proofs.ScriptFeed

/-!
# Chunked bodies, read by read

A chunked response is read in calls of any sizes, from a stream that comes in any pieces.
What the calls hand out is what the grammar of chunked text makes of the bytes behind the
head: the data of a body that is there, and otherwise all the data before the first fault.
-/

namespace HttpExchange

open ChunkText

/-! ## Chunked responses -/

/-- The whole data of a text without a whole body: some part of the text opens a body with
that data, and none does with more. -/
def ChunkText.MostData (text payload : Bytes) : Prop :=
  (∃ front rest, text = front ++ rest ∧ Opens front payload) ∧
    ∀ front rest data, text = front ++ rest → Opens front data → data <+: payload

theorem ChunkText.mostData_decode {text : Bytes} (hcount : Countable text) :
    MostData text (decode text).payload := by
  refine ⟨opens_decode hcount, ?_⟩
  intro front rest data htext hopens
  rw [htext]
  exact payload_of_opens hopens rest

variable {σ : Type} [SecureTransport σ]

theorem ChunkText.Tail.complete_or_failing (tail : Tail) :
    (∃ rest, tail = .complete rest) ∨ ∃ failure, tail.finale .finished = .failing failure := by
  cases tail with
  | complete rest => exact .inl ⟨rest, rfl⟩
  | faulty fault => exact .inr ⟨.badChunk fault, rfl⟩
  | cut place => exact .inr ⟨.cutOff place, rfl⟩

/-- **Chunked bodies are decoded as the grammar says**, in whatever pieces the response
arrives, however much of the body comes with the head and whatever sizes the calls ask for.
A whole body is handed out and leaves the connection idle. Without one, and where the digits of
its sizes can be counted, all the data before the first fault are handed out; then the calls fail
for that fault or, where there is none, for the end of the stream, and the connection is
poisoned. -/
theorem chunked_response_delivers {l : Link σ} (F : Feed l.connection.form.receive .finished)
    {head body : Bytes} {line : StatusLine} {block : HeaderBlock} {method : Method}
    {capacity : Nat} {sizes : Nat → Nat} (hidle : l.phase = .idle)
    (hhead : IsHead head line block) (hfit : head.length ≤ capacity)
    (hchunked : Framing.decide method line.status block = .chunked)
    (hcarries : F.carries l.wire (head ++ body)) (hsizes : ∀ i, 0 < sizes i) :
    ∃ r reader l', Response.read l method capacity = (.ok r, l') ∧ r.framing = .chunked ∧
      r.body.1 = .ok reader ∧
      (∀ text payload rest, IsBody text payload → body = text ++ rest →
        (Reading.mk reader l').Delivers sizes payload (.ok []) .idle) ∧
      (Countable body → (∀ text payload rest, IsBody text payload → body ≠ text ++ rest) →
        ∃ payload failure, MostData body payload ∧
          (decode body).tail.finale .finished = .failing failure ∧
          (Reading.mk reader l').Delivers sizes payload (.error failure) .poisoned) := by
  obtain ⟨staged, l', hread, hexpects, -⟩ :=
    Response.read_expects method hidle hhead hfit ⟨rfl, hcarries⟩
  rw [hchunked] at hexpects
  refine ⟨_, .make .chunked (capacity - head.length) staged, l', hread, hchunked, ?_,
    ?_, ?_⟩
  · show Except.ok (BodyReader.make (Framing.decide method line.status block) _ staged) = _
    rw [hchunked]
    rfl
  · intro text payload rest htext hbody
    subst hbody
    have hdecode : (Framing.chunked).outlook .finished (text ++ rest)
        = ⟨payload, .complete .idle rest⟩ :=
      congrArg (Decoded.outlook .finished) (decode_of_isBody htext rest)
    rw [hdecode] at hexpects
    exact hexpects.delivers (.complete .idle rest) hsizes
  · intro hcount hnone
    rcases Tail.complete_or_failing (decode body).tail with ⟨rest, htail⟩ | ⟨failure, htail⟩
    · have hdecode : decode body = ⟨(decode body).payload, .complete rest⟩ := by rw [← htail]
      obtain ⟨text, hsplit, htext⟩ := (decode_eq_complete_iff hcount).mp hdecode
      exact absurd hsplit (hnone text _ rest htext)
    · refine ⟨_, failure, mostData_decode hcount, htail, ?_⟩
      have hdecode : (Framing.chunked).outlook .finished body
          = ⟨(decode body).payload, .failing failure⟩ := by
        rw [← htail]
        rfl
      rw [hdecode] at hexpects
      exact hexpects.delivers (.failing failure) hsizes

theorem chunkedHead_chunked : Framing.decide .get ⟨200⟩
    ⟨ascii "Transfer-Encoding: chunked\r\n"⟩ = .chunked := by decide +kernel

/-- A body whose framing is cut by reads at its every joint. -/
theorem chunked_response_delivers_wiki : ∃ r reader l',
    Response.read (Script.connected
        [chunkedHead ++ ascii "4\r", ascii "\nWi", ascii "ki\r", ascii "\n0\r\n\r", ascii "\n"])
      .get 64 = (.ok r, l') ∧ r.framing = .chunked ∧ r.body.1 = .ok reader ∧
      (Reading.mk reader l').Delivers (fun i => i + 1) (ascii "Wiki") (.ok []) .idle := by
  have hfit : chunkedHead.length ≤ 64 := by decide +kernel
  have hsegments : [chunkedHead ++ ascii "4\r", ascii "\nWi", ascii "ki\r", ascii "\n0\r\n\r",
      ascii "\n"].flatten = chunkedHead ++ ascii "4\r\nWiki\r\n0\r\n\r\n" := by decide +kernel
  have hdecode : decode (ascii "4\r\nWiki\r\n0\r\n\r\n") = ⟨ascii "Wiki", .complete []⟩ := by
    decide +kernel
  obtain ⟨text, hbody, htext⟩ :=
    (decode_eq_complete_iff (countable_of_length (by decide +kernel))).mp hdecode
  obtain ⟨r, reader, l', hread, hchunked, hreader, hwhole, -⟩ :=
    chunked_response_delivers (Script.connectedFeed _) rfl isHead_chunkedHead hfit
      chunkedHead_chunked (Script.connectedFeed_carries _ hsegments) (fun i => Nat.succ_pos i)
  exact ⟨r, reader, l', hread, hchunked, hreader, hwhole text (ascii "Wiki") [] htext hbody⟩

/-- A size of 2 ^ 64 is one of the grammar's, but of the chunk that it announces not a byte is
handed out: sizes count in 64 bits, and the digit that leaves them is the fault. -/
theorem oversized_chunk_refused :
    (∃ line, ascii "10000000000000000\r\nabc" = line ++ ascii "abc" ∧ IsSizeLine line sizeLimit) ∧
    ∃ r reader l', Response.read (Script.connected
        [chunkedHead ++ ascii "10000000000000000\r\nabc"]) .get 128 = (.ok r, l') ∧
      r.framing = .chunked ∧ r.body.1 = .ok reader ∧
      (Reading.mk reader l').Delivers (fun _ => 16) [] (.error (.badChunk .sizeOverflow))
        .poisoned := by
  constructor
  · refine ⟨ascii "10000000000000000" ++ ([] ++ ([] ++ Bytes.crlf)), by decide +kernel, ?_⟩
    have hvalue : Numeral.value 16 (ascii "10000000000000000") = sizeLimit := by decide +kernel
    rw [← hvalue]
    exact .make (by decide +kernel) (by decide +kernel) (by decide +kernel) (by simp) .none
  · have hfit : chunkedHead.length ≤ 128 := by decide +kernel
    have hcarries := Script.connectedFeed_carries
      [chunkedHead ++ ascii "10000000000000000\r\nabc"] (List.append_nil _)
    obtain ⟨staged, l', hread, hexpects, -⟩ :=
      Response.read_expects (F := Script.connectedFeed _) .get rfl isHead_chunkedHead hfit
        ⟨rfl, hcarries⟩
    have houtlook : (Framing.decide .get ⟨200⟩ ⟨ascii "Transfer-Encoding: chunked\r\n"⟩).outlook
        .finished (ascii "10000000000000000\r\nabc")
          = ⟨[], .failing (.badChunk .sizeOverflow)⟩ := by decide +kernel
    rw [houtlook] at hexpects
    exact ⟨_, _, l', hread, chunkedHead_chunked, rfl,
      hexpects.delivers (.failing _) fun _ => by decide⟩

end HttpExchange
