import HttpExchange.Proofs.FailedRequests
import HttpExchange.Proofs.ReadingToEnd
import HttpExchange.Proofs.RoundTrip

/-!
# Bodies as they are framed

A body is framed by its size if it says one and in chunks if not, whatever fragments it hands over
and whatever is in them. With a size the fragments must come to it, or the request fails and is not
flushed. In chunks they are a body of the grammar (`ChunkText.isBody_chunks`), so a reader of
chunked bodies recovers them from the wire and stops behind the last byte
(`Request.body_framed`).
-/

namespace HttpExchange

/-! ## Chunks -/

theorem ChunkText.isSizeLine_hexadecimal {n : Nat} (hn : n < sizeLimit) :
    IsSizeLine (Numeral.hexadecimal n ++ Bytes.crlf) n := by
  have hlength : (Numeral.hexadecimal n).length ≤ 16 := Numeral.length_render_le (by decide) hn
  have few : (Numeral.hexadecimal n).length < countLimit := by
    unfold countLimit
    omega
  have hline : IsSizeLine (Numeral.hexadecimal n ++ ([] ++ ([] ++ Bytes.crlf)))
      (Numeral.value 16 (Numeral.hexadecimal n)) :=
    .make Numeral.render_ne_nil few (fun b hb => Numeral.isSome_of_mem_hexadecimal hb)
      (fun b hb => absurd hb List.not_mem_nil) .none
  rwa [Numeral.value_hexadecimal, List.nil_append, List.nil_append] at hline

/-- **Fragments in chunks are a body** whose data they are, as long as their lengths fit in 64
bits. An empty fragment has no chunk. -/
theorem ChunkText.isBody_chunks {fragments : List Bytes}
    (h : ∀ data ∈ fragments, data.length < sizeLimit) :
    IsBody ((fragments.flatMap Pen.chunkPieces).flatten ++ Pen.lastChunk) fragments.flatten := by
  induction fragments with
  | nil =>
      have hlast : Pen.lastChunk = Numeral.hexadecimal 0 ++ Bytes.crlf ++ Bytes.crlf := by
        decide +kernel
      rw [List.flatMap_nil, List.flatten_nil, List.nil_append, hlast]
      exact .last (isSizeLine_hexadecimal (by decide)) .done
  | cons data rest ih =>
      rw [List.forall_mem_cons] at h
      have hrest := ih h.2
      by_cases hdata : data = []
      · simpa [Pen.chunkPieces, hdata] using hrest
      · have hbody := IsBody.chunk (isSizeLine_hexadecimal h.1) hdata h.1 hrest
        simpa [Pen.chunkPieces, hdata] using hbody

/-! ## Reading a body back -/

namespace Reading

variable {σ : Type} [SecureTransport σ] {receive : σ → Nat → Except TransportFailure Bytes × σ}
  {ending : Ending} {F : Feed receive ending} {x : Reading σ} {payload rest : Bytes} {phase : Phase}
  {sizes : Nat → Nat}

/-- Calls of some sizes hand out the payload in pieces. After these the reader is done, and what
lies before it is `rest`. -/
def Recovers (F : Feed receive ending) (x : Reading σ) (sizes : Nat → Nat) (payload : Bytes)
    (phase : Phase) (rest : Bytes) : Prop :=
  ∃ pieces : List Bytes, pieces.flatten = payload ∧
    (∀ i piece, pieces[i]? = some piece → x.result sizes i = .ok piece) ∧
    ∀ i, pieces.length ≤ i → x.result sizes i = .ok [] ∧ (x.after sizes i).Ends F phase rest

theorem Ends.after {i : Nat} (h : (x.after sizes i).Ends F phase rest) (d : Nat) :
    (x.after sizes (i + d)).Ends F phase rest := by
  induction d with
  | zero => exact h
  | succ d ih =>
      show ((x.after sizes (i + d)).read (sizes (i + d))).2.Ends F phase rest
      rw [read_of_isDone ih.done]
      exact ih

theorem Ends.result {i : Nat} (h : (x.after sizes i).Ends F phase rest) :
    x.result sizes i = .ok [] := by
  obtain ⟨part, more, y, hread, heq, -⟩ := h.expects.read_part (sizes i)
  rw [List.nil_eq, List.append_eq_nil_iff] at heq
  rw [Reading.result, hread, heq.1]

/-- Calls leave no more than there was. -/
theorem Expects.remains {i : Nat} {left : Bytes}
    (h : Expects F (x.after sizes i) ⟨left, .complete phase rest⟩) (d : Nat) :
    ∃ now, Expects F (x.after sizes (i + d)) ⟨now, .complete phase rest⟩ ∧
      now.length ≤ left.length := by
  induction d with
  | zero => exact ⟨left, h, Nat.le_refl _⟩
  | succ d ih =>
      obtain ⟨now, hnow, hle⟩ := ih
      obtain ⟨part, more, y, hread, rfl, -, -, hy⟩ := hnow.read_part (sizes (i + d))
      rw [List.length_append] at hle
      refine ⟨more, ?_, by omega⟩
      show Expects F ((x.after sizes (i + d)).read (sizes (i + d))).2 _
      rwa [hread]

/-- Calls that go on to ask for something come to the end of what is left. -/
theorem Expects.ends {i : Nat} {left : Bytes}
    (h : Expects F (x.after sizes i) ⟨left, .complete phase rest⟩)
    (hsizes : ∀ i, ∃ j, i ≤ j ∧ 0 < sizes j) : ∃ n, (x.after sizes n).Ends F phase rest := by
  obtain ⟨j, hij, hj⟩ := hsizes i
  obtain ⟨d, rfl⟩ := Nat.exists_eq_add_of_le hij
  obtain ⟨now, hnow, hle⟩ := h.remains d
  by_cases hempty : now = []
  · subst hempty
    obtain ⟨y, hread, hdone, -, hy⟩ := (hnow.follows hj).complete rfl
    refine ⟨i + d + 1, ?_⟩
    show ((x.after sizes (i + d)).read (sizes (i + d))).2.Ends F phase rest
    rw [hread]
    exact ⟨hdone, hy⟩
  · obtain ⟨piece, more, y, hread, hne, -, heq, -, hy⟩ := (hnow.follows hj).piece hempty
    obtain rfl : now = piece ++ more := heq
    -- The induction is on what is left of the payload.
    have hshorter := Bytes.length_rest_lt hne more
    have hnext : Expects F (x.after sizes (i + d + 1)) ⟨more, .complete phase rest⟩ := by
      show Expects F ((x.after sizes (i + d)).read (sizes (i + d))).2 _
      rwa [hread]
    exact hnext.ends hsizes
termination_by left.length

/-- **A body is recovered** by calls of any sizes, as long as they go on to ask for something. -/
theorem Expects.recovers (h : Expects F x ⟨payload, .complete phase rest⟩)
    (hsizes : ∀ i, ∃ j, i ≤ j ∧ 0 < sizes j) : x.Recovers F sizes payload phase rest := by
  obtain ⟨n, hends⟩ := Expects.ends (i := 0) h hsizes
  obtain ⟨pieces, more, hlength, hpieces, rfl, hexpects⟩ := h.after_part sizes n
  obtain ⟨rfl, -⟩ := hexpects.ends_of_isDone hends.done
  refine ⟨pieces, (List.append_nil _).symm, hpieces, ?_⟩
  intro i hi
  obtain ⟨d, rfl⟩ := Nat.exists_eq_add_of_le hi
  rw [hlength]
  exact ⟨(hends.after d).result, hends.after d⟩

/-- A reader of chunked bodies recovers `payload` from `text`, however much of it has come before
the reader starts, in whatever pieces the rest comes and whatever sizes the calls ask for. -/
def Decodes (text payload : Bytes) : Prop :=
  ∀ {τ : Type} [SecureTransport τ] {receive : τ → Nat → Except TransportFailure Bytes × τ}
    {ending : Ending} (F : Feed receive ending) {l : Link τ} {room : Nat}
    {staged later rest : Bytes} {sizes : Nat → Nat}, F.On l later → staged ++ later = text ++ rest →
    (∀ i, ∃ j, i ≤ j ∧ 0 < sizes j) →
    Recovers F ⟨.make .chunked room staged, l⟩ sizes payload .idle rest

theorem decodes_of_isBody {text : Bytes} (h : ChunkText.IsBody text payload) :
    Decodes text payload := by
  intro τ _ receive ending F l room staged later rest sizes hon hstaged hsizes
  have hexpects : Expects F ⟨.make .chunked room staged, l⟩
      (Framing.chunked.outlook ending (staged ++ later)) :=
    expects_make hon (by simp)
  have hwhole : Framing.chunked.Whole ending (text ++ rest) payload .idle rest := .chunked h rest
  rw [hstaged, hwhole.outlook_eq] at hexpects
  exact hexpects.recovers hsizes

end Reading

/-! ## Bodies on the wire -/

namespace Request

theorem headPieces_blank (r : Request) :
    ∃ lines, r.headPieces.flatten = lines ++ (Bytes.crlf ++ Bytes.crlf) := by
  have hfields (headers : List Header) :
      ∃ lines, Bytes.crlf ++ headers.flatMap Header.text = lines ++ Bytes.crlf := by
    rcases List.eq_nil_or_concat headers with rfl | ⟨front, last, rfl⟩
    · exact ⟨[], by simp⟩
    · refine ⟨Bytes.crlf ++ front.flatMap Header.text
        ++ (last.name ++ ascii ": " ++ last.value), ?_⟩
      simp [Header.text]
  obtain ⟨lines, hlines⟩ := hfields r.sentHeaders
  refine ⟨r.method.token ++ Byte.sp :: (r.target ++ Byte.sp :: ascii "HTTP/1.1") ++ lines, ?_⟩
  rw [flatten_headPieces, ← List.append_assoc Bytes.crlf, hlines]
  simp only [List.append_assoc, List.cons_append]

variable {σ : Type} [SecureTransport σ] {offer : σ → Bytes → Except TransportFailure Nat × σ}
  {S : Sink offer} {l : Link σ} {r : Request} {body : Body} {text : Bytes}
  {failure : TransportFailure}

/-- The request is written and flushed, and behind the blank line of its head is `data`. -/
def Arrives (S : Sink offer) (r : Request) (l : Link σ) (text data : Bytes) : Prop :=
  ∃ lines l', r.headPieces.flatten = lines ++ (Bytes.crlf ++ Bytes.crlf) ∧
    r.write l = (.ok (), l') ∧ l'.Flushed ∧
    S.accepted l'.wire (text ++ (lines ++ (Bytes.crlf ++ Bytes.crlf) ++ data))

/-- The request fails before anything is flushed, and the connection is poisoned. -/
def FailsUnflushed (r : Request) (l : Link σ) (failure : TransportFailure) : Prop :=
  ∃ l' k, r.write l = (.error (.network failure), l') ∧ l'.phase = .poisoned ∧
    r.write l.tapped = (.error (.network failure), k) ∧ k.untapped = l' ∧
    ∀ answer, WireCall.flush answer ∉ k.wire.calls

theorem arrives_of_honest (hidle : l.phase = .idle) (hon : S.On l text) (hbody : r.body = some body)
    (honest : body.Honest) : r.Arrives S l text (framedBody body) := by
  obtain ⟨lines, hlines⟩ := r.headPieces_blank
  obtain ⟨l', hwrite, hon', hflushed, -⟩ := write_ok hidle hon ((honest_iff_body hbody).mpr honest)
  have haccepted := hon'.accepted hflushed
  unfold serialized at haccepted
  rw [hbody, Option.map_some, Option.getD_some, hlines] at haccepted
  exact ⟨lines, l', hlines, hwrite, hflushed, haccepted⟩

theorem failsUnflushed_of_streamed (hidle : l.phase = .idle)
    (h : (r.streamed l).failure = some failure) : r.FailsUnflushed l failure := by
  have hidle' : l.tapped.phase = .idle := hidle
  have hsimilar := Pen.Similar.streamed Link.simulation_tapped l.untapped_tapped r
  have h' : (r.streamed l.tapped).failure = some failure := by rw [hsimilar.failure_eq, h]
  have hwrite := r.write_of_idle hidle
  have hwrite' := r.write_of_idle hidle'
  rw [Pen.flush_of_failure h, h] at hwrite
  rw [Pen.flush_of_failure h', h'] at hwrite'
  refine ⟨_, _, hwrite, rfl, hwrite', ?_, r.flush_not_mem_streamed l⟩
  rw [← hsimilar.link]
  rfl

/-- A body whose every write succeeds and whose length is wrong fails the request. -/
theorem streamed_of_length {n : Nat} (hon : S.On l text) (hbody : r.body = some body)
    (hverdict : body.emission.verdict = .ok ()) (hsize : body.size = some n)
    (hlength : body.emission.fragments.flatten.length ≠ n) :
    (r.streamed l).failure
      = some (.wrongLength body.emission.fragments.flatten.length n) := by
  obtain ⟨-, hok, hfailed⟩ := r.streamed_stands (Sink.on_iff.mp hon) (r.hands_fragments l)
  rcases hfailure : (r.streamed l).failure with _ | failure
  · exact absurd (((hok hfailure).1 body hbody).length_eq hsize) hlength
  · rcases hfailed hfailure with hbroken | ⟨⟨other, hother, hfault⟩, -⟩
    · exact absurd hbroken id
    · obtain rfl : body = other := by simpa [hbody] using hother
      rcases hfault with hown | ⟨hsize', -, -⟩
      · simp [hverdict] at hown
      · obtain rfl := Option.some.inj (hsize.symm.trans hsize')
        rfl

/-- **A body is framed by its size or in chunks**, whatever its fragments are, on a wire that
accepts everything. -/
theorem body_framed (hidle : l.phase = .idle) (hon : S.On l text) (hbody : r.body = some body)
    (hverdict : body.emission.verdict = .ok ()) :
    (∀ {n}, body.size = some n →
      ((r.write l).1 = .ok () ↔ body.emission.fragments.flatten.length = n) ∧
      (body.emission.fragments.flatten.length = n →
        r.Arrives S l text body.emission.fragments.flatten) ∧
      (body.emission.fragments.flatten.length ≠ n →
        (TransportFailure.wrongLength body.emission.fragments.flatten.length n).error
            = .writeError ∧
          r.FailsUnflushed l (.wrongLength body.emission.fragments.flatten.length n))) ∧
    (body.size = none →
      r.Arrives S l text (framedBody body) ∧
      ((∀ data ∈ body.emission.fragments, data.length < ChunkText.sizeLimit) →
        Reading.Decodes (framedBody body) body.emission.fragments.flatten)) := by
  constructor
  · intro n hsize
    have hhonest := Body.honest_iff_length hverdict hsize
    refine ⟨?_, ?_, ?_⟩
    · rw [write_ok_iff hidle hon, honest_iff_body hbody, hhonest]
    · intro hlength
      have harrives := arrives_of_honest hidle hon hbody (hhonest.mpr hlength)
      rwa [framedBody, hsize] at harrives
    · intro hlength
      have hstreamed := streamed_of_length hon hbody hverdict hsize hlength
      exact ⟨rfl, failsUnflushed_of_streamed hidle hstreamed⟩
  · intro hsize
    have honest := Body.honest_of_unsized hverdict hsize
    refine ⟨arrives_of_honest hidle hon hbody honest, ?_⟩
    intro hsmall
    rw [framedBody, hsize]
    exact Reading.decodes_of_isBody (ChunkText.isBody_chunks hsmall)

/-- A body of two bytes that has declared three. -/
def shortRequest : Request :=
  { Request.make .put (ascii "/doc") with
    body := some ⟨some 3, .careful .done [ascii "hi"]⟩ }

/-- What is left on the wire of the body of a tricky request, and what follows it. -/
def trickySegments : List Bytes :=
  [ascii "\n0\r\n\r\n\r\n2\r\n\r\n\r", ascii "\n0\r\n\r\nHTTP"]

/-- Fragments that look like the frame around them are recovered in reads of no byte and of one,
and a body that is too short fails. -/
theorem body_framed_tricky :
    trickyRequest.Arrives Script.sink
      ⟨.plain, .empty, { Script.empty with maxWrite := some 3 }, []⟩ []
      (ascii "5\r\n0\r\n\r\n\r\n2\r\n\r\n\r\n0\r\n\r\n") ∧
    Reading.Recovers (Script.connectedFeed trickySegments)
      ⟨.make .chunked 8 (ascii "5\r"), Script.connected trickySegments⟩
      (fun i => i % 2) (ascii "0\r\n\r\n\r\n") .idle (ascii "HTTP") ∧
    shortRequest.FailsUnflushed ⟨.plain, .empty, Script.empty, []⟩ (.wrongLength 2 3) := by
  have hon : Script.sink.On ⟨.plain, .empty, { Script.empty with maxWrite := some 3 }, []⟩ [] :=
    ⟨rfl, ⟨rfl, rfl, by decide⟩, rfl, rfl⟩
  have hon' : Script.sink.On ⟨.plain, .empty, Script.empty, []⟩ [] :=
    ⟨rfl, ⟨rfl, rfl, by decide⟩, rfl, rfl⟩
  have hframed : framedBody (.ofFragments [ascii "0\r\n\r\n", [], ascii "\r\n"])
      = ascii "5\r\n0\r\n\r\n\r\n2\r\n\r\n\r\n0\r\n\r\n" := by decide +kernel
  have hbody : trickyRequest.body
      = some (.ofFragments [ascii "0\r\n\r\n", [], ascii "\r\n"]) := rfl
  have hbody' : shortRequest.body = some ⟨some 3, .careful .done [ascii "hi"]⟩ := rfl
  obtain ⟨-, hchunked⟩ := body_framed rfl hon hbody rfl
  obtain ⟨hsized, -⟩ := body_framed rfl hon' hbody' rfl
  obtain ⟨harrives, hdecodes⟩ := hchunked rfl
  obtain ⟨-, -, hshort⟩ := hsized rfl
  rw [hframed] at harrives
  refine ⟨harrives, ?_, (hshort (by decide)).2⟩
  have hwhole : ascii "5\r" ++ trickySegments.flatten
      = framedBody (.ofFragments [ascii "0\r\n\r\n", [], ascii "\r\n"]) ++ ascii "HTTP" := by
    decide +kernel
  refine hdecodes (by decide) _ ⟨rfl, Script.connectedFeed_carries _ rfl⟩ hwhole ?_
  intro i
  exact ⟨2 * i + 1, by omega, by omega⟩

end Request

end HttpExchange
