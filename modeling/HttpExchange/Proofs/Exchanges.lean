import HttpExchange.Proofs.ChunkGrammar
import HttpExchange.Proofs.Draining
import HttpExchange.Proofs.HalfDuplex
import HttpExchange.Proofs.HeadReading
import HttpExchange.Proofs.RequestWriting

/-!
# Runs of exchanges

One connection carries any number of exchanges, one after the other: a request is sent, the
head of its response is read and the body is drained. Between exchanges the connection is idle,
nothing is pending in it and nothing of a reply is left over, which is what an exchange needs
(`Stands.exchange`) and what it leaves behind, so that every request of a run is answered by
its own response (`exchanges_paired`).
-/

namespace HttpExchange

/-! ## Messages -/

/-- A body of which the framing finds the end: the second text is what it stands for. -/
inductive Framed : Framing → Bytes → Bytes → Prop
  | fixed (payload : Bytes) : Framed (.fixed payload.length) payload payload
  | chunked {body payload : Bytes} (isBody : ChunkText.IsBody body payload) :
      Framed .chunked body payload

theorem Framed.outlook_eq {framing : Framing} {body payload : Bytes}
    (h : Framed framing body payload) (ending : Ending) :
    framing.outlook ending body = ⟨payload, .complete .idle []⟩ := by
  cases h with
  | fixed =>
      show (Progress.fixed body.length).outlook ending body = _
      rw [Progress.outlook, if_neg (Nat.lt_irrefl _), List.take_length, List.drop_length]
  | chunked isBody =>
      have hdecode := ChunkText.decode_of_isBody isBody []
      rw [List.append_nil] at hdecode
      show (ChunkText.decode body).outlook ending = _
      rw [hdecode]
      rfl

/-- A whole response to a request of some method. -/
structure Message (method : Method) where
  head : Bytes
  line : StatusLine
  block : HeaderBlock
  isHead : IsHead head line block
  body : Bytes
  payload : Bytes
  framed : Framed (Framing.decide method line.status block) body payload

def Message.text {method : Method} (m : Message method) : Bytes := m.head ++ m.body

/-- A request, its response, a receive buffer that holds the head of it, and the uses that are
made of the body. -/
structure Exchange where
  request : Request
  honest : request.Honest
  answer : Message request.method
  capacity : Nat
  fits : answer.head.length ≤ capacity
  uses : List Use

namespace Exchange

/-- What the exchanges send. -/
def requests (es : List Exchange) : Bytes := (es.map fun e => e.request.serialized).flatten

/-- What they receive. -/
def answers (es : List Exchange) : Bytes := (es.map fun e => e.answer.text).flatten

theorem requests_cons (e : Exchange) (es : List Exchange) :
    requests (e :: es) = e.request.serialized ++ requests es := rfl

theorem answers_cons (e : Exchange) (es : List Exchange) :
    answers (e :: es) = e.answer.text ++ answers es := rfl

theorem requests_snoc (es : List Exchange) (e : Exchange) :
    requests (es ++ [e]) = requests es ++ e.request.serialized := by
  simp only [requests, List.map_append, List.flatten_append, List.map_cons, List.map_nil,
    List.flatten_cons, List.flatten_nil, List.append_nil]

theorem answers_snoc (es : List Exchange) (e : Exchange) :
    answers (es ++ [e]) = answers es ++ e.answer.text := by
  simp only [answers, List.map_append, List.flatten_append, List.map_cons, List.map_nil,
    List.flatten_cons, List.flatten_nil, List.append_nil]

/-- The server says the response to a request once it was sent that request, and nothing past
it before it was sent the next one. -/
def Answered (reply : Bytes → Bytes) (es : List Exchange) : Prop :=
  ∀ front, front <+: es → reply (requests front) = answers front

/-! ## Running exchanges -/

variable {σ : Type} [SecureTransport σ]

/-- Sends the request and takes the reader of the body. -/
def start (e : Exchange) (l : Link σ) : Except Failure (Response × Reading σ) :=
  match l.send e.request e.capacity with
  | (.error failure, _) => .error failure
  | (.ok response, l) => response.body.1.map fun reader => (response, ⟨reader, l⟩)

/-- The link after the exchange. -/
def run (e : Exchange) (l : Link σ) : Except Failure (Link σ) :=
  (e.start l).map fun (_, x) => (x.useAll e.uses).2.link

/-- The link after the exchanges, one after the other. -/
def runAll (l : Link σ) : List Exchange → Except Failure (Link σ)
  | [] => .ok l
  | e :: more =>
    match e.run l with
    | .error failure => .error failure
    | .ok l => runAll l more

/-- The uses drain the body to its end, and what is collected of it has room. -/
def Drains (e : Exchange) (x : Reading σ) : Prop :=
  x.HasRoom e.answer.payload.length e.uses ∧ (x.useAll e.uses).2.reader.isDone = true

instance (e : Exchange) (x : Reading σ) : Decidable (e.Drains x) :=
  inferInstanceAs (Decidable (_ ∧ _))

/-- Every exchange of a run drains its body. -/
def AllDrain (l : Link σ) : List Exchange → Prop
  | [] => True
  | e :: more =>
    match e.start l with
    | .error _ => True
    | .ok (_, x) => e.Drains x ∧ AllDrain (x.useAll e.uses).2.link more

instance decidableAllDrain (l : Link σ) : (es : List Exchange) → Decidable (AllDrain l es)
  | [] => isTrue trivial
  | e :: more =>
    match h : e.start l with
    | .error _ => isTrue (by rw [AllDrain, h]; trivial)
    | .ok (_, x) =>
      have := decidableAllDrain (x.useAll e.uses).2.link more
      decidable_of_iff (e.Drains x ∧ AllDrain (x.useAll e.uses).2.link more)
        (by rw [AllDrain, h])

/-! ## One exchange -/

variable {receive : σ → Nat → Except TransportFailure Bytes × σ}
  {offer : σ → Bytes → Except TransportFailure Nat × σ} {reply : Bytes → Bytes}
  {D : HalfDuplex receive offer reply} {l : Link σ} {sent taken : Bytes} {e : Exchange}

/-- What an exchange started on a link with nothing left over comes to. -/
structure Started (D : HalfDuplex receive offer reply) (e : Exchange) (sent : Bytes)
    (r : Response) (x : Reading σ) : Prop where
  status_eq : r.status = e.answer.line.status
  reason_eq : r.reason = e.answer.line.reason
  block_eq : r.block = e.answer.block
  expects : Reading.Expects (D.feed sent) x ⟨e.answer.payload, .complete .idle []⟩
  flushed : x.link.Flushed
  receive_eq : x.link.connection.form.receive = receive
  offer_eq : x.link.connection.form.offer = offer

theorem start_of_send {r : Response} {reader : BodyReader} {l' : Link σ}
    (hsend : l.send e.request e.capacity = (.ok r, l')) (hreader : r.body.1 = .ok reader) :
    e.start l = .ok (r, ⟨reader, l'⟩) := by
  unfold start
  rw [hsend]
  dsimp only
  rw [hreader]
  rfl

/-- **An exchange starts on a link with nothing left over**: the request is sent and the head
of the response is read. -/
theorem start_of_stands (h : D.Stands l sent taken)
    (hreply : reply (sent ++ e.request.serialized) = taken ++ e.answer.text) :
    ∃ r reader l', l.send e.request e.capacity = (.ok r, l') ∧ r.body.1 = .ok reader ∧
      Started D e (sent ++ e.request.serialized) r ⟨reader, l'⟩ := by
  obtain ⟨l₁, hwrite, hon, hflushed, hkeeps⟩ := e.request.write_ok h.idle h.on_sink e.honest
  have hfeed : (D.feed (sent ++ e.request.serialized)).On l₁ (e.answer.head ++ e.answer.body) :=
    ⟨hkeeps.receive_eq.trans h.receive_eq, taken, hon.accepted hflushed, hreply⟩
  obtain ⟨staged, l', hread, hexpects, hholds⟩ :=
    Response.read_expects e.request.method (hkeeps.phase_eq.trans h.idle) e.answer.isHead e.fits
      hfeed
  have hform : l'.connection.form = l₁.connection.form := by
    rw [hholds.connection_eq]
    rfl
  rw [e.answer.framed.outlook_eq] at hexpects
  refine ⟨.ofParts e.request.method e.answer.line e.answer.block
      (e.capacity - e.answer.head.length) staged, _, l', ?_, rfl,
    ⟨rfl, rfl, rfl, hexpects, ?_, ?_, ?_⟩⟩
  · unfold Link.send
    rw [hwrite]
    exact hread
  · show l'.Flushed
    unfold Link.Flushed at hflushed ⊢
    rwa [hform]
  · show l'.connection.form.receive = receive
    rw [hform, hkeeps.receive_eq, h.receive_eq]
  · show l'.connection.form.offer = offer
    rw [hform, hon.offer_eq]

/-- Once the body is drained nothing is left over again. -/
theorem Started.drained {r : Response} {x : Reading σ} (h : Started D e sent r x)
    (hdrains : e.Drains x) :
    Reading.Takes e.uses e.answer.payload (x.useAll e.uses).1 [] ∧
      D.Stands (x.useAll e.uses).2.link sent (reply sent) := by
  obtain ⟨tail, htakes, hrest⟩ := h.expects.useAll e.uses hdrains.1
  obtain ⟨rfl, hends⟩ := hrest.ends_of_isDone hdrains.2
  have hform := Reading.form_useAll x e.uses
  refine ⟨htakes, hends.phase_eq, ?_, ?_, ?_, HalfDuplex.stands_of_on_feed hends.before.on_nil⟩
  · have hflushed := h.flushed
    unfold Link.Flushed at hflushed ⊢
    rwa [hform]
  · rw [hform, h.receive_eq]
  · rw [hform, h.offer_eq]

/-! ## Runs -/

/-- **What an exchange needs is what it leaves behind**, so any number of them run one after
the other. -/
theorem runAll_stands {front more : List Exchange} (h : D.Stands l sent taken)
    (hreply : ∀ es, es <+: front → reply (sent ++ requests es) = taken ++ answers es)
    (hdrain : AllDrain l (front ++ more)) :
    ∃ l', runAll l front = .ok l' ∧
      D.Stands l' (sent ++ requests front) (taken ++ answers front) ∧ AllDrain l' more := by
  induction front generalizing l sent taken with
  | nil =>
      refine ⟨l, rfl, ?_, hdrain⟩
      show D.Stands l (sent ++ []) (taken ++ [])
      rwa [List.append_nil, List.append_nil]
  | cons e front ih =>
      have hfirst := hreply [e] (List.prefix_append [e] front)
      rw [requests_cons, answers_cons] at hfirst
      have hfirst : reply (sent ++ e.request.serialized) = taken ++ e.answer.text := by
        simpa [requests, answers] using hfirst
      -- After the first exchange the server stands one request and one response further on.
      obtain ⟨r, reader, l', hsend, hreader, hstarted⟩ := start_of_stands h hfirst
      have hstart := start_of_send hsend hreader
      rw [List.cons_append, AllDrain, hstart] at hdrain
      obtain ⟨-, hstands⟩ := hstarted.drained hdrain.1
      rw [hfirst] at hstands
      have hnext (es : List Exchange) (hes : es <+: front) :
          reply (sent ++ e.request.serialized ++ requests es)
            = taken ++ e.answer.text ++ answers es := by
        rw [List.append_assoc, List.append_assoc]
        exact hreply (e :: es) (List.cons_prefix_cons.mpr ⟨rfl, hes⟩)
      obtain ⟨l'', hrun, hstands', hdrain'⟩ := ih hstands hnext hdrain.2
      rw [List.append_assoc, List.append_assoc] at hstands'
      refine ⟨l'', ?_, hstands', hdrain'⟩
      rw [runAll, run, hstart]
      exact hrun

end Exchange

open Exchange in
/-- **Every request of a run is answered by its own response.** Whatever stands before an
exchange in a run, the connection is idle when its turn comes, its request is sent, the head
that is read is that of its own response and the uses of the body take just its payload.
Afterwards the connection is idle again, the requests so far are all that was sent and the
responses so far are all that was read. -/
theorem exchanges_paired {σ : Type} [SecureTransport σ] {l : Link σ} {reply : Bytes → Bytes}
    (D : HalfDuplex l.connection.form.receive l.connection.form.offer reply)
    {es front more : List Exchange} {e : Exchange} (hidle : l.phase = .idle)
    (hflushed : l.Flushed) (hfresh : D.stands l.wire [] []) (hreply : Answered reply es)
    (hdrain : AllDrain l es) (hsplit : es = front ++ e :: more) :
    ∃ l₁ r reader l₂ results x, runAll l front = .ok l₁ ∧ l₁.phase = .idle ∧
      l₁.send e.request e.capacity = (.ok r, l₂) ∧ r.status = e.answer.line.status ∧
      r.reason = e.answer.line.reason ∧ r.block = e.answer.block ∧ r.body.1 = .ok reader ∧
      (Reading.mk reader l₂).useAll e.uses = (results, x) ∧
      Reading.Takes e.uses e.answer.payload results [] ∧ x.link.phase = .idle ∧
      D.stands x.link.wire (requests (front ++ [e])) (answers (front ++ [e])) := by
  subst hsplit
  have hstands : D.Stands l [] [] := ⟨hidle, hflushed, rfl, rfl, hfresh⟩
  obtain ⟨l₁, hrun, hstands₁, hdrain₁⟩ := runAll_stands hstands
    (fun es hes => hreply es (hes.trans (List.prefix_append ..))) hdrain
  have hanswer : reply (requests front ++ e.request.serialized)
      = answers front ++ e.answer.text := by
    rw [← requests_snoc, ← answers_snoc]
    exact hreply (front ++ [e]) ⟨more, by rw [List.append_assoc]; rfl⟩
  obtain ⟨r, reader, l₂, hsend, hreader, hstarted⟩ := start_of_stands hstands₁ hanswer
  rw [AllDrain, start_of_send hsend hreader] at hdrain₁
  obtain ⟨htakes, hdone⟩ := hstarted.drained hdrain₁.1
  refine ⟨l₁, r, reader, l₂, _, _, hrun, hstands₁.idle, hsend, hstarted.status_eq,
    hstarted.reason_eq, hstarted.block_eq, hreader, rfl, htakes, hdone.idle, ?_⟩
  have hsaid := hdone.stands
  rw [List.nil_append, hanswer] at hsaid
  rw [requests_snoc, answers_snoc]
  exact hsaid

/-! ## Servers for runs -/

namespace Exchange

theorem serialized_ne_nil (r : Request) : r.serialized ≠ [] := by
  have hhead : r.headPieces.flatten ≠ [] := by
    rw [Request.headPieces, List.flatten_append]
    exact List.append_ne_nil_of_right_ne_nil _ (by decide)
  exact List.append_ne_nil_of_left_ne_nil hhead _

/-- The reply of a server that knows what is going to be exchanged: the responses to as many
requests as it was sent. -/
def replyTo : List Exchange → Bytes → Bytes
  | [], _ => []
  | e :: more, sent =>
    if e.request.serialized <+: sent then
      e.answer.text ++ replyTo more (sent.drop e.request.serialized.length)
    else []

/-- There is such a server for every run. -/
theorem answered_replyTo (es : List Exchange) : Answered (replyTo es) es := by
  induction es with
  | nil =>
      intro front hfront
      rw [List.prefix_nil.mp hfront]
      rfl
  | cons e more ih =>
      intro front hfront
      cases front with
      | nil =>
          show (if e.request.serialized <+: [] then _ else []) = _
          rw [if_neg fun h => serialized_ne_nil e.request (List.prefix_nil.mp h)]
          rfl
      | cons e' front =>
          obtain ⟨rfl, hrest⟩ := List.cons_prefix_cons.mp hfront
          rw [requests_cons, answers_cons, replyTo, if_pos (List.prefix_append ..), List.drop_left,
            ih front hrest]

end Exchange

/-! ## A run -/

namespace Exchange

theorem isBody_wiki : ChunkText.IsBody (ascii "4\r\nWiki\r\n0\r\n\r\n") (ascii "Wiki") := by
  have hdecode : ChunkText.decode (ascii "4\r\nWiki\r\n0\r\n\r\n")
      = ⟨ascii "Wiki", .complete []⟩ := by decide +kernel
  obtain ⟨text, heq, hbody⟩ :=
    (ChunkText.decode_eq_complete_iff (ChunkText.countable_of_length (by decide +kernel))).mp hdecode
  rwa [heq, List.append_nil]

def wikiMessage : Message .post where
  head := chunkedHead
  line := ⟨⟨200⟩, ascii "OK"⟩
  block := ⟨ascii "Transfer-Encoding: chunked\r\n"⟩
  isHead := isHead_chunkedHead
  body := ascii "4\r\nWiki\r\n0\r\n\r\n"
  payload := ascii "Wiki"
  framed := by
    have hframing : Framing.decide .post ⟨200⟩ ⟨ascii "Transfer-Encoding: chunked\r\n"⟩
        = .chunked := by decide +kernel
    rw [hframing]
    exact .chunked isBody_wiki

/-- A response to HEAD has no body, whatever its head says. -/
def bareMessage : Message .head where
  head := shortHead
  line := ⟨⟨200⟩, ascii "OK"⟩
  block := ⟨ascii "Content-Length: 2\r\n"⟩
  isHead := isHead_shortHead
  body := []
  payload := []
  framed := .fixed []

def hiMessage : Message .get where
  head := shortHead
  line := ⟨⟨200⟩, ascii "OK"⟩
  block := ⟨ascii "Content-Length: 2\r\n"⟩
  isHead := isHead_shortHead
  body := ascii "hi"
  payload := ascii "hi"
  framed := by
    have hframing : Framing.decide .get ⟨200⟩ ⟨ascii "Content-Length: 2\r\n"⟩
        = .fixed (ascii "hi").length := by decide +kernel
    rw [hframing]
    exact .fixed (ascii "hi")

/-- A request with a body in fragments, and a body in chunks of which the rest is collected. -/
def posting : Exchange where
  request := { Request.make .post (ascii "/a") with
    body := some (.ofFragments [ascii "ab", ascii "c"]) }
  honest := by
    rintro body h
    cases h
    exact Body.honest_ofFragments _
  answer := wikiMessage
  capacity := 64
  fits := by decide +kernel
  uses := [.read 3, .readToEnd]

/-- No body at all, and nothing to be read. -/
def asking : Exchange where
  request := .make .head (ascii "/b")
  honest := by
    rintro body h
    cases h
  answer := bareMessage
  capacity := 64
  fits := by decide +kernel
  uses := []

/-- A body of known length, of which the rest is only counted. -/
def getting : Exchange where
  request := .make .get (ascii "/c")
  honest := by
    rintro body h
    cases h
  answer := hiMessage
  capacity := 64
  fits := by decide +kernel
  uses := [.read 1, .discard]

/-- A coalescing connection to a server that hears and says at most three bytes at once. -/
def served : Link (Server (replyTo [posting, asking, getting])) :=
  ⟨.buffered 16, .empty, ⟨2, [], []⟩, []⟩

def servedDuplex : HalfDuplex (σ := Server (replyTo [posting, asking, getting]))
    served.connection.form.receive served.connection.form.offer
    (replyTo [posting, asking, getting]) :=
  Server.halfDuplex _

end Exchange

open Exchange in
/-- The last of three exchanges, which finds nothing left over from the others. -/
theorem exchanges_paired_third : ∃ l₁ r reader l₂ results x,
    runAll served [posting, asking] = .ok l₁ ∧ l₁.phase = .idle ∧
      l₁.send getting.request getting.capacity = (.ok r, l₂) ∧ r.status = ⟨200⟩ ∧
      r.reason = ascii "OK" ∧ r.block = ⟨ascii "Content-Length: 2\r\n"⟩ ∧
      r.body.1 = .ok reader ∧
      (Reading.mk reader l₂).useAll [.read 1, .discard] = (results, x) ∧
      Reading.Takes [.read 1, .discard] (ascii "hi") results [] ∧ x.link.phase = .idle ∧
      x.link.wire.heard = requests [posting, asking, getting] ∧
      x.link.wire.said = answers [posting, asking, getting] := by
  have hdrain : AllDrain served [posting, asking, getting] := by decide +kernel
  exact exchanges_paired servedDuplex rfl rfl ⟨rfl, rfl⟩ (answered_replyTo _) hdrain rfl

end HttpExchange
