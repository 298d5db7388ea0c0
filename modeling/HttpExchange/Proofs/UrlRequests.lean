import HttpExchange.Client.Handle
import HttpExchange.Proofs.Carrying
import HttpExchange.Proofs.RoundTrip
import HttpExchange.Proofs.Setup
import HttpExchange.Proofs.UrlText

/-!
# Requests that are made of URLs

A client makes a request of a URL and a method. When nothing more is set, what goes out is a
request line and one header line, with path and host of the URL in their places as they are
(`Url.requestText`). Since neither holds a byte that ends a word or a line, a server finds
exactly these in it: no text of a URL adds a header or a second request.

* `Url.serialized_request`: the text of such a request.
* `Url.parse?_requestText`: what a server makes of it.
* `Url.injects_nothing`: both for every text that is read as a URL, on every connection that a
  client sets up for it.
-/

namespace HttpExchange

namespace Url

/-- The request that is made of a URL. -/
def request (url : Url) (method : Method) : Request :=
  { Request.make method url.path with host := some url.host }

/-- The text of a request that is made of a URL, without anything else. -/
def requestText (url : Url) (method : Method) : Bytes :=
  method.token ++ ascii " " ++ url.path ++ ascii " HTTP/1.1\r\nHost: " ++ url.host
    ++ ascii "\r\n\r\n"

theorem target_request {url : Url} (hpath : url.path ≠ []) (method : Method) :
    (url.request method).target = url.path := by
  simp [Request.target, request, Request.make, hpath]

theorem serialized_request {url : Url} (hpath : url.path ≠ []) (method : Method) :
    (url.request method).serialized = url.requestText method := by
  have hline : ascii " HTTP/1.1\r\nHost: "
      = Byte.sp :: ascii "HTTP/1.1" ++ (Bytes.crlf ++ (ascii "Host" ++ ascii ": ")) := by decide
  have hend : ascii "\r\n\r\n" = Bytes.crlf ++ Bytes.crlf := by decide
  have hspace : ascii " " = [Byte.sp] := by decide
  have hheaders : (url.request method).sentHeaders = [⟨ascii "Host", url.host⟩] := rfl
  have hmethod : (url.request method).method = method := rfl
  have hbody : ((url.request method).body.map Request.framedBody).getD [] = [] := rfl
  rw [Request.serialized, Request.flatten_headPieces, target_request hpath, hheaders, hmethod,
    hbody, requestText, hline, hend, hspace]
  simp only [Header.text, List.flatMap_cons, List.flatMap_nil, List.append_nil, List.append_assoc,
    List.cons_append, List.nil_append]

/-! ## What a server makes of it -/

/-- A path without junk and a tidy host can be sent. -/
theorem sendable_request {text : Bytes} {url : Url} (hpath : ∀ b ∈ url.path, Byte.isJunk b = false)
    (hhost : UrlHost.Tidy text url.host) (method : Method) : (url.request method).Sendable := by
  have hbreaks : Byte.isJunk Byte.cr = true ∧ Byte.isJunk Byte.lf = true := by decide
  have hplain (b : UInt8) (hb : b ∈ url.host) :
      Byte.isBlank b = false ∧ b ≠ Byte.cr ∧ b ≠ Byte.lf :=
    Byte.forall_of_fin
      (p := fun b => 32 < b → Byte.isBlank b = false ∧ b ≠ Byte.cr ∧ b ≠ Byte.lf)
      (by decide +kernel) b (hhost.visible b hb)
  constructor
  · intro b hb
    have hb : Byte.isJunk b = false := hpath b hb
    constructor
    · rintro rfl
      exact absurd hb (by decide)
    · rintro rfl
      exact absurd hb (by decide)
  · intro base hbase
    cases hbase
  · intro host hsome
    cases hsome
    exact ⟨fun b hb => (hplain b hb).2, Bytes.trimmed_of_no_blank fun b hb => (hplain b hb).1⟩
  · intro h hh
    cases hh

/-- **A server finds the method, the path and one header**, and what follows the request is
left as it is. -/
theorem parse?_requestText {text : Bytes} {url : Url} (h : parse text = .ok url) (method : Method)
    (more : Bytes) : Incoming.parse? (url.requestText method ++ more)
      = some (⟨method.token, url.path, ascii "HTTP/1.1", [⟨ascii "Host", url.host⟩], []⟩,
        more) := by
  obtain ⟨hroot, hclean, htidy⟩ := tidy_of_parse h
  have hpath : url.path ≠ [] := by
    intro hnil
    rw [hnil] at hroot
    cases hroot
  have hbody : (url.request method).body = Payload.none.body? := rfl
  have hparse := Request.parse?_serialized hbody (sendable_request hclean htidy method) more
  rw [serialized_request hpath, Request.incoming, target_request hpath] at hparse
  exact hparse

end Url

/-! ## What goes out -/

/-- **A handle that nothing was set on writes the text of its request** and nothing else, once
it is sent on an idle connection whose wire accepts everything. -/
theorem Handle.send_make {σ : Type} [SecureTransport σ]
    {offer : σ → Bytes → Except TransportFailure Nat × σ} {S : Sink offer} {l : Link σ}
    {before : Bytes} {url : Url} (hpath : url.path ≠ []) (hidle : l.phase = .idle)
    (hon : S.On l before)
    (hreads : ∀ {w sent} n, S.accepted w sent →
      S.accepted (l.connection.form.receive w n).2 sent) (method : Method) (capacity : Nat) :
    ((Handle.make method url).send l capacity).2.1 = ⟨url, none⟩ ∧
      S.accepted ((Handle.make method url).send l capacity).2.2.wire
        (before ++ url.requestText method) := by
  have honest : (url.request method).Honest := Payload.none.honest rfl
  obtain ⟨l₁, hwrite, hon₁, hflushed, hkeeps⟩ := Request.write_ok hidle hon honest
  rw [Url.serialized_request hpath] at hon₁
  have hlink : ((Handle.make method url).send l capacity).2.2
      = (Response.read l₁ method capacity).2 := by
    show (l.send (url.request method) capacity).2 = _
    rw [Link.send, hwrite]
    rfl
  refine ⟨rfl, ?_⟩
  rw [hlink]
  exact Response.keeps_read (P := fun w => S.accepted w _) (fun n hw => hreads n hw)
    hkeeps.receive_eq (hon₁.accepted hflushed) method capacity

namespace Client

variable {σ : Type}

/-- A connection that was set up is idle, and nothing is pending on it. -/
theorem Exits.fresh {client : Client} {network : Network σ} {text : Bytes} {url : Url}
    {setup : Setup σ} (h : client.Exits network text (.ok url, setup)) :
    ∃ connection wire, setup.connection = .ok connection ∧ setup.wire = some wire ∧
      connection.phase = .idle ∧
      ∀ (scratch : Scratch) (wire : σ) (journal : Journal),
        (Link.mk connection scratch wire journal).Flushed := by
  cases h with
  | plain dials bare scheme =>
      exact ⟨_, _, rfl, rfl, rfl, fun scratch wire journal => trivial⟩
  | buffered dials secure scheme =>
      exact ⟨_, _, rfl, rfl, rfl, fun scratch wire journal => rfl⟩
  | secured dials secure scheme =>
      exact ⟨_, _, rfl, rfl, rfl, fun scratch wire journal => rfl⟩

end Client

/-! ## Nothing is injected -/

namespace Url

/-- What a text must not bring into a request: the path is rooted and printable throughout, and
so is the host, except for a DEL if one is escaped in the text. -/
structure Harmless (text : Bytes) (url : Url) : Prop where
  rooted : url.path.head? = some Byte.slash
  path : ∀ b ∈ url.path, 32 < b ∧ b ≠ Byte.del
  host : ∀ b ∈ url.host, 32 < b
  del : Byte.del ∈ url.host →
    [Byte.percent, 55, 102] <:+: text ∨ [Byte.percent, 55, 70] <:+: text

theorem harmless_of_parse {text : Bytes} {url : Url} (h : parse text = .ok url) :
    Harmless text url := by
  obtain ⟨hroot, hclean, htidy⟩ := tidy_of_parse h
  refine ⟨hroot, ?_, htidy.visible, ?_⟩
  · intro b hb
    exact Byte.forall_of_fin (p := fun b => Byte.isJunk b = false → 32 < b ∧ b ≠ Byte.del)
      (by decide +kernel) b (hclean b hb)
  · intro hdel
    obtain ⟨digit, hdigit, hpart⟩ := htidy.del hdel
    have hletter : digit = 102 ∨ digit = 70 :=
      Byte.forall_of_fin (p := fun b => Byte.hexValue? b = some 15 → b = 102 ∨ b = 70)
        (by decide +kernel) digit hdigit
    rcases hletter with rfl | rfl
    · exact .inl hpart
    · exact .inr hpart

/-- Escapes are undone in a host, so a DEL gets into it although none stands in the text. -/
theorem del_in_host :
    ¬ ∀ text url, parse text = .ok url → ∀ b ∈ url.host, 32 < b ∧ b ≠ Byte.del := by
  intro h
  have hparse : parse (ascii "http://a%7Fb/") = .ok ⟨.http, [97, 127, 98], 80, ascii "/"⟩ := by
    decide +kernel
  exact (h _ _ hparse Byte.del (by decide)).2 rfl

/-- **A URL cannot inject anything.** Of every text that is read as a URL, whatever stands in
it, path and host are harmless; a server that reads a request made of them finds its method, its
path and its host and nothing else; and on whatever connection a client sets up for the text,
such a request is all that goes out when it is sent, if the wire accepts what it is offered and
a read does not change that. -/
theorem injects_nothing {text : Bytes} {url : Url} (h : parse text = .ok url) (method : Method) :
    Harmless text url ∧
    (∀ more, Incoming.parse? (url.requestText method ++ more)
      = some (⟨method.token, url.path, ascii "HTTP/1.1", [⟨ascii "Host", url.host⟩], []⟩, more)) ∧
    ∀ {σ : Type} [SecureTransport σ] (client : Client) (network : Network σ) {reached : Url}
      {setup : Client.Setup σ}, client.reach network text = (.ok reached, setup) →
      reached = url ∧ ∃ connection wire, setup.connection = .ok connection ∧
        setup.wire = some wire ∧ ∀ (S : Sink (connection.form.offer (σ := σ))) {before : Bytes},
          S.accepted wire before →
          (∀ {w sent} n, S.accepted w sent →
            S.accepted (connection.form.receive w n).2 sent) →
          ∀ (scratch : Scratch) (journal : Journal) (capacity : Nat),
            ((Handle.make method url).send ⟨connection, scratch, wire, journal⟩ capacity).2.1
                = ⟨url, none⟩ ∧
              S.accepted ((Handle.make method url).send
                ⟨connection, scratch, wire, journal⟩ capacity).2.2.wire
                (before ++ url.requestText method) := by
  have harmless := harmless_of_parse h
  have hpath : url.path ≠ [] := by
    intro hnil
    have := harmless.rooted
    rw [hnil] at this
    cases this
  refine ⟨harmless, parse?_requestText h method, ?_⟩
  intro σ _ client network reached setup hreach
  have hexits := client.exits_reach network text
  rw [hreach] at hexits
  have hreached : Except.ok reached = Except.ok url := hexits.kind_eq.1.symm.trans h
  cases hreached
  obtain ⟨connection, wire, hconnection, hwire, hidle, hflushed⟩ := hexits.fresh
  refine ⟨rfl, connection, wire, hconnection, hwire, ?_⟩
  intro S before haccepted hreads scratch journal capacity
  have hon : S.On ⟨connection, scratch, wire, journal⟩ before :=
    Sink.on_of_accepted rfl (hflushed scratch wire journal) haccepted
  exact Handle.send_make (l := ⟨connection, scratch, wire, journal⟩) hpath hidle hon hreads method
    capacity

/-- Line breaks that are escaped or stand where they are not read stay out of the request. -/
theorem injects_nothing_breaks :
    let text := ascii "HTTP://u:p%0D%0A@a%2Eb/x/../%0D%0AX:%20y?q=%0A#f" ++ 0 :: ascii "\r\nX: y"
    let sent := ascii "GET /%0D%0AX:%20y?q=%0A HTTP/1.1\r\nHost: a.b\r\n\r\n"
    ∃ url l, parse text = .ok url ∧
      ((Handle.make .get url).send ⟨.plain, .empty, Script.empty, []⟩ 64).2.2 = l ∧
      l.wire.taken = sent ∧ Incoming.parse? sent = some (⟨ascii "GET", ascii "/%0D%0AX:%20y?q=%0A",
        ascii "HTTP/1.1", [⟨ascii "Host", ascii "a.b"⟩], []⟩, []) := by
  intro text sent
  let url : Url := ⟨.http, ascii "a.b", 80, ascii "/%0D%0AX:%20y?q=%0A"⟩
  let network : Network Script :=
    ⟨fun _ => .ok (.quad 127 0 0 1), fun _ _ => .ok Script.empty⟩
  have hparse : parse text = .ok url := by decide +kernel
  have hreach : Client.reach ⟨none, .empty⟩ network text
      = (.ok url, Client.connect ⟨none, .empty⟩ network url) := by
    rw [Client.reach, hparse]
    rfl
  have htext : url.requestText .get = sent := by decide +kernel
  have haccepted : Script.sink.accepted Script.empty [] := ⟨⟨rfl, rfl, by decide⟩, rfl, rfl⟩
  obtain ⟨-, hserver, hsent⟩ := injects_nothing hparse .get
  obtain ⟨-, connection, wire, hconnection, hwire, hwrites⟩ := hsent _ _ hreach
  cases hconnection
  cases hwire
  obtain ⟨-, -, -, htaken⟩ := hwrites Script.sink haccepted Script.sink_read .empty [] 64
  have hparsed := hserver []
  rw [List.append_nil, htext] at hparsed
  exact ⟨url, _, hparse, rfl, htaken.trans htext, hparsed⟩

end Url

end HttpExchange
