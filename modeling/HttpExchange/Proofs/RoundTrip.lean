import HttpExchange.Proofs.Base64Groups
import HttpExchange.Proofs.RequestParsing
import HttpExchange.Proofs.RequestWriting
import HttpExchange.Proofs.ScriptWire

/-!
# Requests there and back

A server that takes a written request apart gets back what the request was made of: its
method, its target, its headers in their order with the ones that the client adds around
them, and its body. Nothing in a body is taken for a part of the frame around it, and what
follows the request on the wire is left as it is.

* `Request.flatten_headPieces`: what a head is made of.
* `Request.parse?_serialized`: the text of a request, taken apart.
* `Request.written_parses`: the same on the wire.
-/

namespace HttpExchange

namespace Request

/-! ## What a request says -/

/-- The target of a request: its base and its path with one slash between them. The base
alone stands for an empty path, and the root for an empty target. -/
def target (r : Request) : Bytes :=
  let base := r.basePath.getD []
  if base = [] ∧ r.path = [] then [Byte.slash]
  else if base = [] then r.path
  else if r.path = [] then base
  else (if base.getLast? = some Byte.slash then base.dropLast else base)
    ++ Byte.slash :: (if r.path.head? = some Byte.slash then r.path.tail else r.path)

/-- The header that says where a body ends. -/
def framingHeader (body : Body) : Header :=
  match body.size with
  | some n => ⟨ascii "Content-Length", Numeral.decimal n⟩
  | none => ⟨ascii "Transfer-Encoding", ascii "chunked"⟩

def credentialHeader (c : Credentials) : Header :=
  ⟨ascii "Authorization", ascii "Basic " ++ Base64.encode (c.user ++ Byte.colon :: c.password)⟩

/-- The headers that say nothing of the body. -/
def plainHeaders (r : Request) : List Header :=
  (r.host.map (Header.mk (ascii "Host"))).toList
    ++ r.headers
    ++ (r.contentType.map fun t => ⟨ascii "Content-Type", t.name⟩).toList
    ++ (r.credentials.map credentialHeader).toList

def sentHeaders (r : Request) : List Header :=
  r.plainHeaders ++ (r.body.map framingHeader).toList

/-! ## The text of a head -/

theorem flatten_pathBelow {base path : Bytes} (hpath : path ≠ []) :
    (pathBelow base path).flatten
      = (if base.getLast? = some Byte.slash then base.dropLast else base)
        ++ Byte.slash :: (if path.head? = some Byte.slash then path.tail else path) := by
  have hbase (h : base.getLast? = some Byte.slash) (more : Bytes) :
      base.dropLast ++ Byte.slash :: more = base ++ more := by
    rw [List.append_cons, List.dropLast_append_getLast? _ h]
  have hrest (h : path.head? = some Byte.slash) : Byte.slash :: path.tail = path :=
    List.cons_head?_tail h
  unfold pathBelow
  rw [if_neg hpath]
  by_cases hb : base.getLast? = some Byte.slash
  · by_cases hp : path.head? = some Byte.slash
    · simp [hb, hp, hbase]
    · simp [hb, hp, hbase]
  · by_cases hp : path.head? = some Byte.slash
    · simp [hb, hp, hrest]
    · simp [hb, hp, beq_false_of_ne hb, beq_false_of_ne hp]

theorem flatten_targetPieces (r : Request) : r.targetPieces.flatten = r.target := by
  unfold targetPieces target
  by_cases hpath : r.path = []
  · cases r.basePath with
    | none => simp [hpath]
    | some base => cases base <;> simp [hpath, pathBelow]
  · cases r.basePath with
    | none => simp [hpath]
    | some base =>
        cases base with
        | nil => simp [hpath]
        | cons b base => simp [hpath, flatten_pathBelow]

theorem flatten_headerPieces (name value : Bytes) :
    (headerPieces name value).flatten = (Header.mk name value).text := by
  simp [headerPieces, Header.text]

theorem flatten_credentialPieces (c : Credentials) :
    (credentialPieces c).flatten = (credentialHeader c).text := by
  have hmark : ascii "Authorization: Basic " = ascii "Authorization" ++ ascii ": " ++ ascii "Basic " :=
    by decide
  simp [credentialPieces, credentialHeader, Header.text, Base64.flatten_staged, hmark]

theorem flatten_framingPieces (body : Body) :
    (framingPieces body).flatten = (framingHeader body).text := by
  unfold framingPieces framingHeader
  cases body.size with
  | none => exact flatten_headerPieces _ _
  | some n =>
      have hmark : ascii "Content-Length: " = ascii "Content-Length" ++ ascii ": " := by decide
      simp [Header.text, hmark]

theorem flatten_getD {α : Type} (pieces : α → List Bytes) (header : α → Header)
    (h : ∀ a, (pieces a).flatten = (header a).text) (o : Option α) :
    ((o.map pieces).getD []).flatten = (o.map header).toList.flatMap Header.text := by
  cases o with
  | none => rfl
  | some a => simp [h]

theorem flatten_headPieces (r : Request) : r.headPieces.flatten
    = r.method.token ++ Byte.sp :: (r.target ++ Byte.sp :: ascii "HTTP/1.1")
      ++ (Bytes.crlf ++ (r.sentHeaders.flatMap Header.text ++ Bytes.crlf)) := by
  have hversion : ascii " HTTP/1.1\r\n" = Byte.sp :: ascii "HTTP/1.1" ++ Bytes.crlf := by decide
  have hspace : ascii " " = [Byte.sp] := by decide
  have hheaders : (r.headers.flatMap fun h => headerPieces h.name h.value).flatten
      = r.headers.flatMap Header.text := by
    induction r.headers with
    | nil => rfl
    | cons h headers ih => simp [ih, flatten_headerPieces]
  have htype := flatten_getD (fun t : MediaType => headerPieces (ascii "Content-Type") t.name)
    (fun t => ⟨ascii "Content-Type", t.name⟩) (fun t => flatten_headerPieces _ _) r.contentType
  unfold headPieces sentHeaders plainHeaders
  simp only [List.flatten_append, List.flatten_cons, List.flatten_nil, List.append_nil,
    flatten_targetPieces, flatten_getD _ _ (flatten_headerPieces _), htype,
    flatten_getD _ _ flatten_credentialPieces, flatten_getD _ _ flatten_framingPieces, hheaders,
    List.flatMap_append, hversion, hspace, List.append_assoc, List.cons_append, List.nil_append]

/-! ## What can be sent -/

/-- Whether a header with that name would say where the body ends. -/
def framesBody (name : Bytes) : Bool :=
  Bytes.equalsIgnoringCase name (ascii "Content-Length")
    || Bytes.equalsIgnoringCase name (ascii "Transfer-Encoding")

/-- A request none of whose parts can be taken for something else. -/
structure Sendable (r : Request) : Prop where
  path : r.path.OneLine
  base : ∀ base ∈ r.basePath, base.OneLine
  host : ∀ host ∈ r.host, host.OneLine ∧ host.Trimmed
  headers : ∀ h ∈ r.headers, h.Sendable ∧ framesBody h.name = false

instance (r : Request) : Decidable r.Sendable :=
  decidable_of_iff (r.path.OneLine ∧ (∀ base ∈ r.basePath, base.OneLine) ∧
      (∀ host ∈ r.host, host.OneLine ∧ host.Trimmed) ∧
      ∀ h ∈ r.headers, h.Sendable ∧ framesBody h.name = false)
    ⟨fun ⟨path, base, host, headers⟩ => ⟨path, base, host, headers⟩,
      fun h => ⟨h.path, h.base, h.host, h.headers⟩⟩

theorem no_sp_token (m : Method) : Byte.sp ∉ m.token := by cases m <;> decide

theorem oneLine_token (m : Method) : m.token.OneLine := by cases m <;> decide

theorem Sendable.oneLine_target {r : Request} (h : r.Sendable) : r.target.OneLine := by
  have hbase : (r.basePath.getD []).OneLine := by
    cases hb : r.basePath with
    | none => exact fun b hb => absurd hb List.not_mem_nil
    | some base => exact h.base base hb
  unfold target
  dsimp only
  generalize r.basePath.getD [] = base at hbase
  have hfront : Bytes.OneLine
      (if base.getLast? = some Byte.slash then base.dropLast else base) := by
    split
    · exact fun b hb => hbase b (List.mem_of_mem_dropLast hb)
    · exact hbase
  have hback : Bytes.OneLine
      (if r.path.head? = some Byte.slash then r.path.tail else r.path) := by
    split
    · exact fun b hb => h.path b (List.mem_of_mem_tail hb)
    · exact h.path
  split
  · decide
  · split
    · exact h.path
    · split
      · exact hbase
      · exact hfront.append (List.forall_mem_cons.mpr ⟨by decide, hback⟩)

theorem oneLine_startLine {r : Request} (h : r.target.OneLine) :
    Bytes.OneLine (r.method.token ++ Byte.sp :: (r.target ++ Byte.sp :: ascii "HTTP/1.1")) := by
  refine (oneLine_token r.method).append (List.forall_mem_cons.mpr ⟨by decide, ?_⟩)
  exact h.append (by decide)

theorem sendable_framingHeader (body : Body) : (framingHeader body).Sendable := by
  unfold framingHeader
  cases body.size with
  | none =>
      have hname : Header.IsName (ascii "Transfer-Encoding") := by decide
      exact ⟨hname, by decide, by decide⟩
  | some n =>
      have hname : Header.IsName (ascii "Content-Length") := by decide
      have hplain (b : UInt8) (hb : b ∈ Numeral.decimal n) :
          Byte.isBlank b = false ∧ b ≠ Byte.cr ∧ b ≠ Byte.lf :=
        Byte.plain_of_isDigit (Numeral.isDigit_of_mem_decimal hb)
      exact ⟨hname, fun b hb => (hplain b hb).2,
        Bytes.trimmed_of_no_blank fun b hb => (hplain b hb).1⟩

theorem sendable_credentialHeader (c : Credentials) : (credentialHeader c).Sendable := by
  have hname : Header.IsName (ascii "Authorization") := by decide
  have hne : Base64.encode (c.user ++ Byte.colon :: c.password) ≠ [] :=
    Base64.encode_ne_nil (by simp)
  refine ⟨hname, ?_, ?_, ?_⟩
  · exact Bytes.OneLine.append (by decide) fun b hb => (Base64.plain_of_mem_encode hb).2
  · intro b hb
    cases hb
    decide
  · intro b hb
    have hb : b ∈ (ascii "Basic " ++ Base64.encode (c.user ++ Byte.colon :: c.password)).getLast? :=
      hb
    rw [List.getLast?_append_of_ne_nil _ hne] at hb
    exact (Base64.plain_of_mem_encode (List.mem_of_mem_getLast? hb)).1

theorem sendable_typeHeader (t : MediaType) :
    (Header.mk (ascii "Content-Type") t.name).Sendable := by
  have hname : Header.IsName (ascii "Content-Type") := by decide
  have hvalue : t.name.OneLine ∧ t.name.Trimmed := by cases t <;> decide
  exact ⟨hname, hvalue.1, hvalue.2⟩

theorem Sendable.plainHeaders {r : Request} (h : r.Sendable) :
    ∀ x ∈ r.plainHeaders, x.Sendable ∧ framesBody x.name = false := by
  have hhost : Header.IsName (ascii "Host") ∧ framesBody (ascii "Host") = false := by decide
  have htype : framesBody (ascii "Content-Type") = false := by decide
  have hcredentials : framesBody (ascii "Authorization") = false := by decide
  intro x hx
  simp only [Request.plainHeaders, List.mem_append, Option.mem_toList, Option.map_eq_some_iff] at hx
  rcases hx with ((⟨host, hsome, rfl⟩ | hx) | ⟨t, -, rfl⟩) | ⟨c, -, rfl⟩
  · obtain ⟨hline, htrimmed⟩ := h.host host hsome
    exact ⟨⟨hhost.1, hline, htrimmed⟩, hhost.2⟩
  · exact h.headers x hx
  · exact ⟨sendable_typeHeader t, htype⟩
  · exact ⟨sendable_credentialHeader c, hcredentials⟩

theorem Sendable.sentHeaders {r : Request} (h : r.Sendable) :
    ∀ x ∈ r.sentHeaders, x.Sendable := by
  intro x hx
  rcases List.mem_append.mp hx with hx | hx
  · exact (h.plainHeaders x hx).1
  · obtain ⟨body, -, rfl⟩ := Option.map_eq_some_iff.mp (Option.mem_toList.mp hx)
    exact sendable_framingHeader body

end Request

/-! ## Bodies -/

namespace Incoming

theorem lookup_append {name : Bytes} {headers : List Header}
    (h : ∀ x ∈ headers, Bytes.equalsIgnoringCase x.name name = false) (more : List Header) :
    lookup (headers ++ more) name = lookup more name := by
  have hnone : headers.find? (fun x => Bytes.equalsIgnoringCase x.name name) = none :=
    List.find?_eq_none.mpr fun x hx => by simp [h x hx]
  unfold lookup
  rw [List.find?_append, hnone, Option.none_or]

theorem dechunk?_fragments (fragments : List Bytes) (more : Bytes) :
    dechunk? ((fragments.flatMap Pen.chunkPieces).flatten ++ (Pen.lastChunk ++ more))
      = some (fragments.flatten, more) := by
  induction fragments with
  | nil =>
      have hlast : Pen.lastChunk = ascii "0" ++ (Bytes.crlf ++ Bytes.crlf) := by decide
      rw [hlast, List.append_assoc, List.append_assoc]
      exact dechunk?_last more
  | cons data fragments ih =>
      by_cases hdata : data = []
      · subst hdata
        exact ih
      · have hpieces : Pen.chunkPieces data
            = [Numeral.hexadecimal data.length, Bytes.crlf, data, Bytes.crlf] := if_neg hdata
        rw [List.flatMap_cons, List.flatten_append, hpieces]
        simp only [List.flatten_cons, List.flatten_nil, List.append_nil, List.append_assoc]
        exact dechunk?_cons hdata ih

/-- The body of a request is told from what follows it. -/
theorem body?_payload {headers : List Header} {r : Request} {payload : Payload}
    (hheaders : ∀ x ∈ headers, Request.framesBody x.name = false) (hbody : r.body = payload.body?)
    (more : Bytes) :
    body? (headers ++ (r.body.map Request.framingHeader).toList)
        ((r.body.map Request.framedBody).getD [] ++ more) = some (payload.text, more) := by
  have hlength : ∀ x ∈ headers,
      Bytes.equalsIgnoringCase x.name (ascii "Content-Length") = false := by
    intro x hx
    exact (Bool.or_eq_false_iff.mp (hheaders x hx)).1
  have hcoding : ∀ x ∈ headers,
      Bytes.equalsIgnoringCase x.name (ascii "Transfer-Encoding") = false := by
    intro x hx
    exact (Bool.or_eq_false_iff.mp (hheaders x hx)).2
  unfold body?
  rw [lookup_append hlength, lookup_append hcoding, hbody]
  cases payload with
  | none => rfl
  | bytes data =>
      have hcoding : lookup [Request.framingHeader (.ofBytes data)] (ascii "Transfer-Encoding")
          = none := rfl
      have hlength : lookup [Request.framingHeader (.ofBytes data)] (ascii "Content-Length")
          = some (Numeral.decimal data.length) := rfl
      have htext : Request.framedBody (.ofBytes data) = data := List.append_nil data
      simp only [Payload.body?, Option.map_some, Option.toList_some, Option.getD_some, hcoding,
        hlength, htext, Option.any_none, Bool.false_eq_true, if_false]
      exact sized?_decimal data more
  | fragments pieces =>
      have hcoding : lookup [Request.framingHeader (.ofFragments pieces)]
          (ascii "Transfer-Encoding") = some (ascii "chunked") := rfl
      have htoken : Bytes.hasToken (ascii "chunked") (ascii "chunked") = true := by decide
      have htext : Request.framedBody (.ofFragments pieces)
          = (pieces.flatMap Pen.chunkPieces).flatten ++ Pen.lastChunk := by
        show (((Emission.done.careful pieces).fragments).flatMap Pen.chunkPieces).flatten ++ _ = _
        rw [Emission.fragments_careful]
      simp only [Payload.body?, Option.map_some, Option.toList_some, Option.getD_some, hcoding,
        htext, Option.any_some, htoken, if_true, List.append_assoc]
      exact dechunk?_fragments pieces more

end Incoming

/-! ## Requests -/

namespace Request

/-- What a server has of a request with some payload. -/
def incoming (r : Request) (payload : Payload) : Incoming where
  method := r.method.token
  target := r.target
  version := ascii "HTTP/1.1"
  headers := r.sentHeaders
  body := payload.text

/-- **The text of a request, taken apart**, is what the request was made of. -/
theorem parse?_serialized {r : Request} {payload : Payload} (hbody : r.body = payload.body?)
    (h : r.Sendable) (more : Bytes) :
    Incoming.parse? (r.serialized ++ more) = some (r.incoming payload, more) := by
  have hline := oneLine_startLine h.oneLine_target
  have hcut := Bytes.cutLine_line hline.no_crlf
    (r.sentHeaders.flatMap Header.text ++ (Bytes.crlf ++ ((r.body.map framedBody).getD [] ++ more)))
  have hversion : Byte.sp ∉ ascii "HTTP/1.1" := by decide
  have hstart := Incoming.startLine?_parts (no_sp_token r.method) hversion r.target
  have hheaders := Incoming.headers?_all h.sentHeaders ((r.body.map framedBody).getD [] ++ more)
  have hpayload : Incoming.body? r.sentHeaders ((r.body.map framedBody).getD [] ++ more)
      = some (payload.text, more) :=
    Incoming.body?_payload (fun x hx => (h.plainHeaders x hx).2) hbody more
  have htext : r.serialized ++ more
      = r.method.token ++ Byte.sp :: (r.target ++ Byte.sp :: ascii "HTTP/1.1") ++ Bytes.crlf
        ++ (r.sentHeaders.flatMap Header.text
          ++ (Bytes.crlf ++ ((r.body.map framedBody).getD [] ++ more))) := by
    unfold serialized
    rw [flatten_headPieces]
    simp only [List.append_assoc]
  unfold Incoming.parse?
  simp only [htext, hcut, hstart, hheaders, hpayload, Option.bind_eq_bind, Option.bind_some]
  rfl

variable {σ : Type} [SecureTransport σ] {offer : σ → Bytes → Except TransportFailure Nat × σ}
  {S : Sink offer} {l : Link σ} {text : Bytes} {r : Request} {payload : Payload}

/-- **What was written is read again.** Where everything is accepted, a request whose body is
given beforehand is written, and a server that takes apart what has arrived gets back the
request and is left with what comes behind it. -/
theorem written_parses (hidle : l.phase = .idle) (hon : S.On l text)
    (hbody : r.body = payload.body?) (h : r.Sendable) :
    ∃ sent l', r.write l = (.ok (), l') ∧ S.accepted l'.wire (text ++ sent) ∧
      ∀ more, Incoming.parse? (sent ++ more)
        = some (⟨r.method.token, r.target, ascii "HTTP/1.1", r.sentHeaders, payload.text⟩,
          more) := by
  obtain ⟨l', hwrite, hon', hflushed, -⟩ := write_ok hidle hon (payload.honest hbody)
  exact ⟨r.serialized, l', hwrite, hon'.accepted hflushed, parse?_serialized hbody h⟩

/-- A request with a base, credentials and fragments that look like the frame around them. -/
def trickyRequest : Request where
  method := .post
  path := ascii "/a b"
  host := some (ascii "example.org")
  basePath := some (ascii "/api/")
  headers := [⟨ascii "X-Note", ascii "a: b"⟩, ⟨ascii "Host", []⟩]
  contentType := some .textPlain
  credentials := some ⟨[0, 58, 255], ascii "\r\n"⟩
  body := some (.ofFragments [ascii "0\r\n\r\n", [], ascii "\r\n"])

theorem written_parses_tricky :
    ∃ sent l', trickyRequest.write ⟨.plain, .empty, { Script.empty with maxWrite := some 3 }, []⟩
        = (.ok (), l') ∧ l'.wire.taken = sent ∧
      Incoming.parse? sent = some (⟨ascii "POST", ascii "/api/a b", ascii "HTTP/1.1",
        [⟨ascii "Host", ascii "example.org"⟩, ⟨ascii "X-Note", ascii "a: b"⟩, ⟨ascii "Host", []⟩,
          ⟨ascii "Content-Type", ascii "text/plain"⟩,
          ⟨ascii "Authorization", ascii "Basic ADr/Og0K"⟩,
          ⟨ascii "Transfer-Encoding", ascii "chunked"⟩],
        ascii "0\r\n\r\n\r\n"⟩, []) := by
  have hon : Script.sink.On ⟨.plain, .empty, { Script.empty with maxWrite := some 3 }, []⟩ [] :=
    ⟨rfl, ⟨rfl, rfl, by decide⟩, rfl, rfl⟩
  have hbody : trickyRequest.body
      = (Payload.fragments [ascii "0\r\n\r\n", [], ascii "\r\n"]).body? := rfl
  obtain ⟨sent, l', hwrite, ⟨-, -, htaken⟩, hparse⟩ :=
    written_parses rfl hon hbody (by decide +kernel)
  refine ⟨sent, l', hwrite, htaken, ?_⟩
  have := hparse []
  rw [List.append_nil] at this
  rw [this]
  decide +kernel

end Request

end HttpExchange
