import HttpExchange.Proofs.RoundTrip

/-!
# Lines that frame a body

The head of a request is a start line and header lines, up to an empty line. The lines with the
name of a length or of a transfer coding tell a recipient where the body ends. A request with a
body has one such line of its own, behind all others. Any other is one of the headers that were
set for it, which are written as they are (`Request.framing_lines`): so there is one rule for the
body if those headers give none, and there are more if they do (`Request.framed_twice`).
-/

namespace HttpExchange

namespace Header

/-- The line that holds a header. -/
def line (h : Header) : Bytes := h.name ++ ascii ": " ++ h.value

/-- Whether a line says where a body ends. Its name is what stands before its first colon, in any
case and without the blanks around it. -/
def framesBody (line : Bytes) : Bool := (ofLine? line).any fun h => Request.framesBody h.name

theorem unlines_map_line (headers : List Header) :
    Bytes.unlines (headers.map line) = headers.flatMap text := by
  unfold Bytes.unlines
  rw [List.flatMap_map]
  rfl

theorem framesBody_line {h : Header} (hname : Byte.colon ∉ h.name) :
    framesBody h.line = Request.framesBody (Bytes.trim h.name) := by
  have hcut : Bytes.cutAt? Byte.colon h.line = some (h.name, Byte.sp :: h.value) := by
    rw [line, List.append_assoc]
    exact Bytes.cutAt?_append hname _
  rw [framesBody, ofLine?, hcut]
  rfl

/-- A header whose name frames nothing, if it is there. -/
theorem filter_optional {α : Type} {name : Bytes} (header : α → Header)
    (hheader : ∀ a, (header a).name = name) (hname : Byte.colon ∉ name)
    (hframes : Request.framesBody (Bytes.trim name) = false) (o : Option α) :
    ((o.map header).toList.map line).filter framesBody = [] := by
  cases o with
  | none => rfl
  | some a =>
      have hline : framesBody (header a).line = false := by
        rw [framesBody_line (by rwa [hheader]), hheader, hframes]
      simp [hline]

end Header

namespace Request

/-- No part of the head breaks its line. -/
structure Unbroken (r : Request) : Prop where
  target : r.target.OneLine
  host : ∀ host ∈ r.host, host.OneLine
  headers : ∀ h ∈ r.headers, h.name.OneLine ∧ h.value.OneLine

instance (r : Request) : Decidable r.Unbroken :=
  decidable_of_iff (r.target.OneLine ∧ (∀ host ∈ r.host, host.OneLine) ∧
      ∀ h ∈ r.headers, h.name.OneLine ∧ h.value.OneLine)
    ⟨fun ⟨target, host, headers⟩ => ⟨target, host, headers⟩,
      fun h => ⟨h.target, h.host, h.headers⟩⟩

/-! ## The lines of a head -/

def fieldLines (r : Request) : List Bytes := r.sentHeaders.map Header.line

/-- The line that a request has of its own for its body. -/
def framingLine (r : Request) : Option Bytes := r.body.map fun body => (framingHeader body).line

theorem flatten_headPieces_lines (r : Request) : r.headPieces.flatten
    = r.method.token ++ Byte.sp :: (r.target ++ Byte.sp :: ascii "HTTP/1.1")
      ++ (Bytes.crlf ++ (Bytes.unlines r.fieldLines ++ Bytes.crlf)) := by
  rw [flatten_headPieces, fieldLines, Header.unlines_map_line]

theorem Unbroken.sentHeaders {r : Request} (h : r.Unbroken) :
    ∀ x ∈ r.sentHeaders, x.name.OneLine ∧ x.value.OneLine := by
  have sendable {x : Header} (hx : x.Sendable) : x.name.OneLine ∧ x.value.OneLine :=
    ⟨hx.isName.2.2, hx.oneLine⟩
  intro x hx
  simp only [Request.sentHeaders, plainHeaders, List.mem_append, Option.mem_toList,
    Option.map_eq_some_iff] at hx
  rcases hx with (((⟨host, hhost, rfl⟩ | hx) | ⟨t, -, rfl⟩) | ⟨c, -, rfl⟩) | ⟨body, -, rfl⟩
  · have hname : Bytes.OneLine (ascii "Host") := by decide
    exact ⟨hname, h.host host hhost⟩
  · exact h.headers x hx
  · exact sendable (sendable_typeHeader t)
  · exact sendable (sendable_credentialHeader c)
  · exact sendable (sendable_framingHeader body)

theorem Unbroken.fieldLines {r : Request} (h : r.Unbroken) :
    ∀ line ∈ r.fieldLines, line ≠ [] ∧ line.OneLine := by
  intro line hline
  obtain ⟨x, hx, rfl⟩ := List.mem_map.mp hline
  obtain ⟨hname, hvalue⟩ := h.sentHeaders x hx
  refine ⟨?_, (hname.append (by decide)).append hvalue⟩
  simp [Header.line, show ascii ": " = [Byte.colon, Byte.sp] from by decide]

/-! ## Lines that frame the body -/

theorem framesBody_framingHeader (body : Body) :
    Header.framesBody (framingHeader body).line = true := by
  have hlength : framesBody (Bytes.trim (ascii "Content-Length")) = true := by decide +kernel
  have hcoding : framesBody (Bytes.trim (ascii "Transfer-Encoding")) = true := by decide +kernel
  rw [Header.framesBody_line (sendable_framingHeader body).isName.2.1]
  unfold framingHeader
  cases body.size with
  | none => exact hcoding
  | some n => exact hlength

/-- **The lines that frame the body** are those among the headers that were set, in their order,
and then the request's own. -/
theorem filter_fieldLines (r : Request) : r.fieldLines.filter Header.framesBody
    = (r.headers.map Header.line).filter Header.framesBody ++ r.framingLine.toList := by
  have hhost := Header.filter_optional (Header.mk (ascii "Host")) (fun _ => rfl)
    (by decide) (by decide +kernel) r.host
  have htype := Header.filter_optional (fun t : MediaType => ⟨ascii "Content-Type", t.name⟩)
    (fun _ => rfl) (by decide) (by decide +kernel) r.contentType
  have hcredentials := Header.filter_optional credentialHeader (fun _ => rfl)
    (by decide) (by decide +kernel) r.credentials
  have hown : ((r.body.map framingHeader).toList.map Header.line).filter Header.framesBody
      = r.framingLine.toList := by
    unfold framingLine
    cases r.body with
    | none => rfl
    | some body => simp [framesBody_framingHeader]
  unfold fieldLines sentHeaders plainHeaders
  simp only [List.map_append, List.filter_append, hhost, htype, hcredentials, hown,
    List.nil_append, List.append_nil]

/-- There is no line but the request's own if and only if no header that was set is one. -/
theorem filter_fieldLines_eq_iff (r : Request) :
    r.fieldLines.filter Header.framesBody = r.framingLine.toList
      ↔ ∀ h ∈ r.headers, Header.framesBody h.line = false := by
  rw [filter_fieldLines, List.append_left_eq_self, List.filter_eq_nil_iff, List.forall_mem_map]
  simp only [Bool.not_eq_true]

/-! ## Heads on the wire -/

variable {σ : Type} [SecureTransport σ] {offer : σ → Bytes → Except TransportFailure Nat × σ}
  {S : Sink offer} {l : Link σ} {r : Request} {text : Bytes}

theorem streamed_on (r : Request) (hon : S.On l text) :
    ∃ sent, S.channel.On (r.streamed l).link (text ++ r.headPieces.flatten ++ sent) := by
  have hhead := (Pen.stands_on (Sink.on_iff.mp hon)).putAll r.headPieces
  unfold streamed
  rcases r.body with _ | body
  · rcases hfailure : ((Pen.on l).putAll r.headPieces).failure with _ | failure
    · refine ⟨[], ?_⟩
      simpa using (hhead.on hfailure).1
    · exact absurd (hhead.broken hfailure) id
  · have hput := hhead.putBody body (Pen.hands_fragments _ _ _)
    rcases hfailure : (((Pen.on l).putAll r.headPieces).putBody body).failure with _ | failure
    · exact ⟨_, (hput.on hfailure).2.2⟩
    · rcases hput.failed hfailure with hbroken | ⟨-, sent, -, hon'⟩
      · exact absurd hbroken id
      · exact ⟨sent, hon'⟩

/-- Whatever comes of the body, its head is written as a whole. -/
theorem write_on (hidle : l.phase = .idle) (hon : S.On l text) :
    ∃ sent, S.On (r.write l).2 (text ++ r.headPieces.flatten ++ sent) := by
  obtain ⟨sent, hstreamed⟩ := r.streamed_on hon
  refine ⟨sent, ?_⟩
  rw [Sink.on_iff, r.write_of_idle hidle]
  rcases hfailure : (r.streamed l).failure with _ | failure
  · rcases hstreamed.flush with ⟨value, link, call, holds, -⟩ | ⟨failure, link, call, hbroken, -⟩
    · rw [Pen.flush_of_ok hfailure call]
      dsimp only
      rw [hfailure]
      exact holds.log _ _
    · exact absurd hbroken id
  · rw [Pen.flush_of_failure hfailure, hfailure]
    exact ⟨hstreamed.offer_eq, hstreamed.ready, hstreamed.split⟩

/-- **One rule for the body, and those that were set.** On a wire that accepts everything, a request
none of whose parts breaks its line is written as a start line, header lines and an empty line,
whatever comes of its body. What frames the body are the header lines that were set with such a
name, each as it is, and then the line of the request's own, if it has a body. -/
theorem framing_lines (hidle : l.phase = .idle) (hon : S.On l text) (h : r.Unbroken) :
    ∃ start lines sent,
      S.On (r.write l).2
        (text ++ (start ++ Bytes.crlf ++ (Bytes.unlines lines ++ (Bytes.crlf ++ sent)))) ∧
      start.OneLine ∧ (∀ line ∈ lines, line ≠ [] ∧ line.OneLine) ∧
      lines.filter Header.framesBody
        = (r.headers.map Header.line).filter Header.framesBody ++ r.framingLine.toList ∧
      (lines.filter Header.framesBody = r.framingLine.toList ↔
        ∀ h ∈ r.headers, Header.framesBody h.line = false) ∧
      ((r.write l).1 = .ok () → sent = (r.body.map framedBody).getD [] ∧
        ∀ body n, r.body = some body → body.size = some n → sent.length = n) := by
  have hparts (sent : Bytes) : text ++ r.headPieces.flatten ++ sent
      = text ++ (r.method.token ++ Byte.sp :: (r.target ++ Byte.sp :: ascii "HTTP/1.1")
        ++ Bytes.crlf ++ (Bytes.unlines r.fieldLines ++ (Bytes.crlf ++ sent))) := by
    rw [flatten_headPieces_lines]
    simp only [List.append_assoc]
  obtain ⟨sent, hsent, hok⟩ : ∃ sent, S.On (r.write l).2 (text ++ r.headPieces.flatten ++ sent) ∧
      ((r.write l).1 = .ok () → sent = (r.body.map framedBody).getD [] ∧
        ∀ body n, r.body = some body → body.size = some n → sent.length = n) := by
    by_cases hwritten : (r.write l).1 = .ok ()
    · have honest := (write_ok_iff hidle hon).mp hwritten
      obtain ⟨l', hwrite, hon', -⟩ := write_ok hidle hon honest
      refine ⟨(r.body.map framedBody).getD [], ?_, fun _ => ⟨rfl, ?_⟩⟩
      · rw [hwrite, List.append_assoc]
        exact hon'
      · intro body n hbody hsize
        rw [hbody, Option.map_some, Option.getD_some, framedBody, hsize]
        exact (honest body hbody).length_eq hsize
    · obtain ⟨sent, hsent⟩ := write_on (r := r) hidle hon
      exact ⟨sent, hsent, fun hok => absurd hok hwritten⟩
  rw [hparts] at hsent
  exact ⟨_, r.fieldLines, sent, hsent, oneLine_startLine h.target, h.fieldLines,
    r.filter_fieldLines, r.filter_fieldLines_eq_iff, hok⟩

/-- A header that was set says another length than the body has. -/
def framedTwice : Request :=
  { Request.make .post (ascii "/") with
    host := some (ascii "a.test")
    headers := [⟨ascii "Content-Length", ascii "5"⟩]
    body := some (.ofBytes (ascii "hi")) }

/-- Two lines of one head say where the body ends, and they do not say the same. -/
theorem framed_twice : framedTwice.Unbroken ∧
    ∃ l', framedTwice.write ⟨.plain, .empty, Script.empty, []⟩ = (.ok (), l') ∧
      l'.wire.taken = ascii "POST / HTTP/1.1" ++ Bytes.crlf ++
        (Bytes.unlines [ascii "Host: a.test", ascii "Content-Length: 5", ascii "Content-Length: 2"]
          ++ (Bytes.crlf ++ ascii "hi")) ∧
      ¬ ([ascii "Host: a.test", ascii "Content-Length: 5", ascii "Content-Length: 2"].filter
        Header.framesBody).length ≤ 1 := by
  have hon : Script.sink.On ⟨.plain, .empty, Script.empty, []⟩ [] :=
    ⟨rfl, ⟨rfl, rfl, by decide⟩, rfl, rfl⟩
  have honest : framedTwice.Honest := Payload.honest (.bytes (ascii "hi")) rfl
  obtain ⟨l', hwrite, hon', hflushed, -⟩ := write_ok rfl hon honest
  obtain ⟨-, -, htaken⟩ := hon'.accepted hflushed
  refine ⟨by decide +kernel, l', hwrite, ?_, by decide +kernel⟩
  rw [htaken]
  decide +kernel

/-- A header in another case is a second rule for the body, and one that only mentions such a name
in its value is none. -/
def mentioningRequest : Request :=
  { framedTwice with
    headers := [⟨ascii "content-LENGTH", ascii "5"⟩, ⟨ascii "X-Note", ascii "Content-Length: 1"⟩]
    body := some (.ofFragments [ascii "hi"]) }

theorem framing_lines_mentioned :
    ∃ start lines sent,
      Script.sink.On (mentioningRequest.write ⟨.plain, .empty, Script.empty, []⟩).2
        (start ++ Bytes.crlf ++ (Bytes.unlines lines ++ (Bytes.crlf ++ sent))) ∧
      lines.filter Header.framesBody
        = [ascii "content-LENGTH: 5", ascii "Transfer-Encoding: chunked"] := by
  have hon : Script.sink.On ⟨.plain, .empty, Script.empty, []⟩ [] :=
    ⟨rfl, ⟨rfl, rfl, by decide⟩, rfl, rfl⟩
  have hunbroken : mentioningRequest.Unbroken := by decide +kernel
  obtain ⟨start, lines, sent, hsent, -, -, hlines, -⟩ := framing_lines rfl hon hunbroken
  refine ⟨start, lines, sent, hsent, ?_⟩
  rw [hlines]
  decide +kernel

end Request

end HttpExchange
