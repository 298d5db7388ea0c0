import HttpExchange.Client
import Mathlib.Logic.Function.Iterate

/-!
# What a setup touches

A client sets a connection up in a fixed order: it reads the URL, refuses it if it may, looks
the host up, dials, and shakes hands if the scheme asks for it. `Client.Exits` lists the ways
out, one for each of these checks and one for each form a connection is made in, with what
was looked up and dialled up to there and with the client as it is left (`Client.exits_reach`).

* `Client.Exits.undone`: the class of a failure tells what was looked up and dialled, and
  whether the seed has moved on.
* `Client.Exits.kind_eq`: a connection has the form that scheme and configuration ask for.
* `Client.Exits.secure_eq`: the configuration moves on with a handshake, and only then.
-/

namespace HttpExchange

/-- The configuration after a handshake was tried. -/
def SecureConfig.next (config : SecureConfig) : SecureConfig :=
  { config with seed := (Seed.step config.seed).next }

/-- After so many handshakes only the seed has moved. -/
theorem SecureConfig.next_iterate (config : SecureConfig) (n : Nat) :
    SecureConfig.next^[n] config =
      { config with seed := (fun seed => (Seed.step seed).next)^[n] config.seed } := by
  induction n with
  | zero => rfl
  | succ n ih =>
      rw [Function.iterate_succ_apply', Function.iterate_succ_apply', ih]
      rfl

theorem Url.error_of_parse {text : Bytes} {failure : Failure}
    (h : Url.parse text = .error failure) :
    (failure.error = .invalidUrl ∨ failure.error = .unsupportedScheme) ∧
      failure.retrySafe = true := by
  unfold Url.parse at h
  split at h
  · cases h
    exact ⟨.inl rfl, rfl⟩
  · split at h
    · cases h
      exact ⟨.inr rfl, rfl⟩
    · cases h

namespace SecureSession

variable {σ : Type} [SecureTransport σ]

/-- The seed moves on before the handshake, whatever comes of it. -/
theorem config_start (wire : σ) (server : Bytes) (config : SecureConfig) :
    (start wire server config).config = config.next := by
  unfold start
  dsimp only
  split <;> rfl

/-- A session starts with nothing pending in a buffer of the size that was set. -/
theorem session_start (wire : σ) (server : Bytes) (config : SecureConfig) :
    (∃ failure, (start wire server config).session = .error failure) ∨
      (start wire server config).session = .ok ⟨.empty config.sendCapacity, true⟩ := by
  unfold start
  dsimp only
  split
  · exact .inl ⟨_, rfl⟩
  · exact .inr rfl

/-- There is one handshake, and a session if it went well. -/
theorem handshake_start (wire : σ) (server : Bytes) (config : SecureConfig) :
    (start wire server config).wire = (SecureTransport.handshake wire config.receiveCapacity
      (Hello.make server config)).2 ∧
    ((∃ session, (start wire server config).session = .ok session) ↔
      (SecureTransport.handshake wire config.receiveCapacity (Hello.make server config)).1
        = .ok ()) := by
  unfold start Hello.make
  dsimp only
  rcases SecureTransport.handshake wire config.receiveCapacity
    ⟨Hello.serverNameOf server, Hello.usableKey config.sharedKey⟩ with ⟨failure | _, wire'⟩
  · exact ⟨rfl, ⟨nofun, nofun⟩⟩
  · exact ⟨rfl, ⟨fun _ => rfl, fun _ => ⟨_, rfl⟩⟩⟩

end SecureSession

namespace Client

/-! ## Refusals -/

theorem refusal?_of_secure {client : Client} {config : SecureConfig}
    (h : client.secure = some config) (url : Url) :
    client.refusal? url = if client.scratch.held then some .scratchInUse else none := by
  unfold refusal?
  rw [h]

theorem refusal?_of_bare {client : Client} (h : client.secure = none) (url : Url) :
    client.refusal? url = if url.scheme = .https then some .secureUnavailable else none := by
  unfold refusal?
  rw [h]

/-- There are two refusals, and both are safe to retry. -/
theorem eq_of_refusal? {client : Client} {url : Url} {failure : Failure}
    (h : client.refusal? url = some failure) :
    failure = .secureUnavailable ∨ failure = .scratchInUse := by
  cases hsecure : client.secure with
  | none =>
      rw [refusal?_of_bare hsecure] at h
      split at h
      · cases h
        exact .inl rfl
      · cases h
  | some config =>
      rw [refusal?_of_secure hsecure] at h
      split at h
      · cases h
        exact .inr rfl
      · cases h

/-! ## Ways out of a setup -/

/-- The text is a URL that is not refused. -/
structure Admits (client : Client) (text : Bytes) (url : Url) : Prop where
  parsed : Url.parse text = .ok url
  unrefused : client.refusal? url = none

variable {σ : Type}

/-- Its host was found, and the address was dialled with some result. -/
structure Dials (client : Client) (network : Network σ) (text : Bytes) (url : Url)
    (address : IpAddress) (dialled : Except TransportFailure σ) : Prop
    extends Admits client text url where
  found : network.resolve url.host = .ok address
  dialled : network.dial address url.portNumber = dialled

/-- The ways out of a setup for a text, in the order of its checks. -/
inductive Exits (client : Client) (network : Network σ) (text : Bytes) :
    Except Failure Url × Setup σ → Prop
  | unparsed {failure : Failure} (fault : Url.parse text = .error failure) :
      Exits client network text (.error failure, ⟨.error failure, client, none, [], [], []⟩)
  | refused {url : Url} {failure : Failure} (parsed : Url.parse text = .ok url)
      (refusal : client.refusal? url = some failure) :
      Exits client network text (.error failure, ⟨.error failure, client, none, [], [], []⟩)
  | unresolved {url : Url} {cause : TransportFailure} {journal : Journal}
      (admits : client.Admits text url) (lost : network.resolve url.host = .error cause) :
      Exits client network text (.error (.unresolved cause),
        ⟨.error (.unresolved cause), client, none, [url.host], [], journal⟩)
  | unreachable {url : Url} {address : IpAddress} {cause : TransportFailure} {journal : Journal}
      (dials : client.Dials network text url address (.error cause)) :
      Exits client network text (.error (.unreachable cause),
        ⟨.error (.unreachable cause), client, none, [url.host], [(address, url.portNumber)],
          journal⟩)
  | insecure {url : Url} {address : IpAddress} {wire wire' : σ} {config : SecureConfig}
      {cause : TransportFailure} {journal : Journal}
      (dials : client.Dials network text url address (.ok wire))
      (secure : client.secure = some config) (scheme : url.scheme = .https) :
      Exits client network text (.error (.insecure cause),
        ⟨.error (.insecure cause), { client with secure := some config.next }, some wire',
          [url.host], [(address, url.portNumber)], journal⟩)
  | plain {url : Url} {address : IpAddress} {wire : σ} {journal : Journal}
      (dials : client.Dials network text url address (.ok wire))
      (bare : client.secure = none) (scheme : url.scheme = .http) :
      Exits client network text (.ok url,
        ⟨.ok .plain, client, some wire, [url.host], [(address, url.portNumber)], journal⟩)
  | buffered {url : Url} {address : IpAddress} {wire : σ} {config : SecureConfig}
      {journal : Journal} (dials : client.Dials network text url address (.ok wire))
      (secure : client.secure = some config) (scheme : url.scheme = .http) :
      Exits client network text (.ok url,
        ⟨.ok { Connection.buffered config.sendCapacity with holdsLease := true }, client.lend,
          some wire, [url.host], [(address, url.portNumber)], journal⟩)
  | secured {url : Url} {address : IpAddress} {wire wire' : σ} {config : SecureConfig}
      {journal : Journal} (dials : client.Dials network text url address (.ok wire))
      (secure : client.secure = some config) (scheme : url.scheme = .https) :
      Exits client network text (.ok url,
        ⟨.ok { Connection.secured ⟨.empty config.sendCapacity, true⟩ with holdsLease := true },
          { client with secure := some config.next }.lend, some wire', [url.host],
          [(address, url.portNumber)], journal⟩)

/-- The host of a URL that is not refused is looked up. -/
theorem Exits.lookups_eq {client : Client} {network : Network σ} {text : Bytes} {url : Url}
    {r : Except Failure Url × Setup σ} (h : client.Exits network text r)
    (hadmits : client.Admits text url) : r.2.lookups = [url.host] := by
  have hsame {url' : Url} (h' : client.Admits text url') : url' = url := by
    have heq : Except.ok url' = Except.ok url := h'.parsed.symm.trans hadmits.parsed
    cases heq
    rfl
  cases h with
  | unparsed fault =>
      rw [hadmits.parsed] at fault
      cases fault
  | refused parsed refusal =>
      rw [hadmits.parsed] at parsed
      cases parsed
      rw [hadmits.unrefused] at refusal
      cases refusal
  | unresolved admits lost => rw [hsame admits]
  | unreachable dials => rw [hsame dials.toAdmits]
  | insecure dials secure scheme => rw [hsame dials.toAdmits]
  | plain dials bare scheme => rw [hsame dials.toAdmits]
  | buffered dials secure scheme => rw [hsame dials.toAdmits]
  | secured dials secure scheme => rw [hsame dials.toAdmits]

/-- What fails on the network or in the handshake was admitted, and leaves the memory alone. -/
theorem Exits.admitted {client : Client} {network : Network σ} {text : Bytes} {failure : Failure}
    {setup : Setup σ} (h : client.Exits network text (.error failure, setup))
    (hclass : failure.error = .dns ∨ failure.error = .network ∨ failure.error = .tls) :
    (∃ url, client.Admits text url) ∧ setup.client.scratch = client.scratch := by
  cases h with
  | unparsed fault =>
      rcases (Url.error_of_parse fault).1 with herror | herror
      · rw [herror] at hclass
        exact absurd hclass (by decide)
      · rw [herror] at hclass
        exact absurd hclass (by decide)
  | refused parsed refusal =>
      rcases eq_of_refusal? refusal with rfl | rfl
      · exact absurd hclass (by decide)
      · exact absurd hclass (by decide)
  | unresolved admits lost => exact ⟨⟨_, admits⟩, rfl⟩
  | unreachable dials => exact ⟨⟨_, dials.toAdmits⟩, rfl⟩
  | insecure dials secure scheme => exact ⟨⟨_, dials.toAdmits⟩, rfl⟩

/-! ## What was done, by the class of the outcome -/

/-- The form of a connection for a URL. -/
def kindFor (client : Client) (url : Url) : Kind :=
  match client.secure, url.scheme with
  | none, _ => .plain
  | some _, .http => .buffered
  | some _, .https => .secured

/-- What a setup has done that failed with a failure of some class. -/
def Undone (client : Client) (setup : Setup σ) : HttpError → Prop
  | .invalidUrl | .unsupportedScheme | .tlsBuffersInUse =>
    setup.lookups = [] ∧ setup.dials = [] ∧ setup.client = client
  | .dns => setup.lookups.length = 1 ∧ setup.dials = [] ∧ setup.client = client
  | .network => setup.lookups.length = 1 ∧ setup.dials.length = 1 ∧ setup.client = client
  | .tls => setup.lookups.length = 1 ∧ setup.dials.length = 1 ∧ setup.client.scratch.held = false ∧
    ∃ config, client.secure = some config ∧
      setup.client = { client with secure := some config.next }
  | _ => False

/-- What a setup for a text has done, by what came of it. -/
structure Accounted (client : Client) (text : Bytes) (r : Except Failure Url × Setup σ) :
    Prop where
  failed {failure : Failure} : r.1 = .error failure →
    r.2.connection = .error failure ∧ failure.retrySafe = true ∧ client.Undone r.2 failure.error
  made {url : Url} : r.1 = .ok url → Url.parse text = .ok url ∧
    (∃ connection, r.2.connection = .ok connection ∧ connection.kind = client.kindFor url) ∧
    r.2.lookups = [url.host] ∧ r.2.dials.length = 1
  /-- Without a configuration https is refused, whatever the network would have answered. -/
  bare {url : Url} : client.secure = none → Url.parse text = .ok url → url.scheme = .https →
    r.1 = .error .secureUnavailable

/-- A client with a configuration that admits a URL has its memory to lend. -/
theorem Admits.held_eq {client : Client} {text : Bytes} {url : Url} {config : SecureConfig}
    (h : client.Admits text url) (hsecure : client.secure = some config) :
    client.scratch.held = false := by
  have hrefusal := h.unrefused
  rw [refusal?_of_secure hsecure] at hrefusal
  cases hheld : client.scratch.held with
  | false => rfl
  | true =>
      rw [hheld] at hrefusal
      cases hrefusal

/-- Without a configuration only http is admitted. -/
theorem Admits.scheme_eq {client : Client} {text : Bytes} {url : Url}
    (h : client.Admits text url) (hbare : client.secure = none) : url.scheme = .http := by
  have hrefusal := h.unrefused
  rw [refusal?_of_bare hbare] at hrefusal
  cases hscheme : url.scheme with
  | http => rfl
  | https =>
      rw [hscheme] at hrefusal
      cases hrefusal

/-- A URL that is refused is refused before anything is looked up. -/
theorem Exits.eq_of_refused {client : Client} {network : Network σ} {text : Bytes} {url : Url}
    {failure : Failure} {r : Except Failure Url × Setup σ} (h : client.Exits network text r)
    (hparse : Url.parse text = .ok url) (hrefusal : client.refusal? url = some failure) :
    r = (.error failure, ⟨.error failure, client, none, [], [], []⟩) := by
  have hadmits {url' : Url} (h' : client.Admits text url') : False := by
    have heq : Except.ok url = Except.ok url' := hparse.symm.trans h'.parsed
    cases heq
    rw [h'.unrefused] at hrefusal
    cases hrefusal
  cases h with
  | unparsed fault =>
      rw [hparse] at fault
      cases fault
  | refused parsed refusal =>
      rw [hparse] at parsed
      cases parsed
      rw [hrefusal] at refusal
      cases refusal
      rfl
  | unresolved admits lost => exact (hadmits admits).elim
  | unreachable dials => exact (hadmits dials.toAdmits).elim
  | insecure dials secure scheme => exact (hadmits dials.toAdmits).elim
  | plain dials bare scheme => exact (hadmits dials.toAdmits).elim
  | buffered dials secure scheme => exact (hadmits dials.toAdmits).elim
  | secured dials secure scheme => exact (hadmits dials.toAdmits).elim

/-- What a setup that failed has done. -/
theorem Exits.undone {client : Client} {network : Network σ} {text : Bytes} {failure : Failure}
    {setup : Setup σ} (h : client.Exits network text (.error failure, setup)) :
    setup.connection = .error failure ∧ failure.retrySafe = true ∧
      client.Undone setup failure.error := by
  cases h with
  | unparsed fault =>
      obtain ⟨herror | herror, hsafe⟩ := Url.error_of_parse fault
      · refine ⟨rfl, hsafe, ?_⟩
        rw [herror]
        exact ⟨rfl, rfl, rfl⟩
      · refine ⟨rfl, hsafe, ?_⟩
        rw [herror]
        exact ⟨rfl, rfl, rfl⟩
  | refused parsed refusal =>
      rcases eq_of_refusal? refusal with rfl | rfl
      · exact ⟨rfl, rfl, rfl, rfl, rfl⟩
      · exact ⟨rfl, rfl, rfl, rfl, rfl⟩
  | unresolved admits lost => exact ⟨rfl, rfl, rfl, rfl, rfl⟩
  | unreachable dials => exact ⟨rfl, rfl, rfl, rfl, rfl⟩
  | insecure dials secure scheme =>
      exact ⟨rfl, rfl, rfl, rfl, dials.held_eq secure, _, secure, rfl⟩

theorem Exits.kind_eq {client : Client} {network : Network σ} {text : Bytes} {url : Url}
    {setup : Setup σ} (h : client.Exits network text (.ok url, setup)) :
    Url.parse text = .ok url ∧
    (∃ connection, setup.connection = .ok connection ∧ connection.kind = client.kindFor url) ∧
      setup.lookups = [url.host] ∧ setup.dials.length = 1 := by
  cases h with
  | plain dials bare scheme =>
      refine ⟨dials.parsed, ⟨_, rfl, ?_⟩, rfl, rfl⟩
      rw [kindFor, bare]
      rfl
  | buffered dials secure scheme =>
      refine ⟨dials.parsed, ⟨_, rfl, ?_⟩, rfl, rfl⟩
      rw [kindFor, secure, scheme]
      rfl
  | secured dials secure scheme =>
      refine ⟨dials.parsed, ⟨_, rfl, ?_⟩, rfl, rfl⟩
      rw [kindFor, secure, scheme]
      rfl

/-- A setup for an https URL that got through, so that a handshake followed. -/
def shook (text : Bytes) (setup : Setup σ) : Bool :=
  match Url.parse text with
  | .ok url => url.scheme == .https && setup.wire.isSome
  | .error _ => false

/-- The configuration moves on exactly if a handshake followed. -/
theorem Exits.secure_eq {client : Client} {network : Network σ} {text : Bytes}
    {outcome : Except Failure Url} {setup : Setup σ}
    (h : client.Exits network text (outcome, setup)) : setup.client.secure =
      client.secure.map SecureConfig.next^[if shook text setup then 1 else 0] := by
  have hquiet {secure : Option SecureConfig} :
      secure = secure.map SecureConfig.next^[if false then 1 else 0] := Option.map_id'.symm
  unfold shook
  cases h with
  | unparsed fault =>
      rw [fault]
      exact hquiet
  | refused parsed refusal =>
      simp only [parsed, Option.isSome_none, Bool.and_false]
      exact hquiet
  | unresolved admits lost =>
      simp only [admits.parsed, Option.isSome_none, Bool.and_false]
      exact hquiet
  | unreachable dials =>
      simp only [dials.parsed, Option.isSome_none, Bool.and_false]
      exact hquiet
  | plain dials bare scheme =>
      rw [bare]
      rfl
  | buffered dials secure scheme =>
      simp only [dials.parsed, scheme]
      exact hquiet
  | insecure dials secure scheme =>
      simp only [dials.parsed, scheme, secure]
      rfl
  | secured dials secure scheme =>
      simp only [dials.parsed, scheme, secure]
      rfl

/-! ## Setups -/

variable [SecureTransport σ]

/-- **A setup leaves by one of the ways out.** -/
theorem exits_reach (client : Client) (network : Network σ) (text : Bytes) :
    client.Exits network text (client.reach network text) := by
  unfold reach
  cases hparse : Url.parse text with
  | error failure => exact .unparsed hparse
  | ok url =>
      dsimp only [connect]
      cases hrefusal : client.refusal? url with
      | some failure => exact .refused hparse hrefusal
      | none =>
          have hadmits : client.Admits text url := ⟨hparse, hrefusal⟩
          dsimp only
          cases hresolve : network.resolve url.host with
          | error cause => exact .unresolved hadmits hresolve
          | ok address =>
              dsimp only
              cases hdial : network.dial address url.portNumber with
              | error cause => exact .unreachable ⟨hadmits, hresolve, hdial⟩
              | ok wire =>
                  have hdials : client.Dials network text url address (.ok wire) :=
                    ⟨hadmits, hresolve, hdial⟩
                  unfold furnish
                  cases hsecure : client.secure with
                  | none => exact .plain hdials hsecure (hadmits.scheme_eq hsecure)
                  | some config =>
                      cases hscheme : url.scheme with
                      | http => exact .buffered hdials hsecure hscheme
                      | https =>
                          dsimp only
                          rw [SecureSession.config_start]
                          rcases SecureSession.session_start wire url.host config with
                            ⟨cause, hsession⟩ | hsession
                          · rw [hsession]
                            exact .insecure hdials hsecure hscheme
                          · rw [hsession]
                            exact .secured hdials hsecure hscheme

/-- **Every setup is accounted for**, whatever the client, the text and the network. -/
theorem accounted_reach (client : Client) (network : Network σ) (text : Bytes) :
    client.Accounted text (client.reach network text) := by
  have hexits := client.exits_reach network text
  generalize client.reach network text = r at hexits ⊢
  obtain ⟨outcome, setup⟩ := r
  constructor
  · rintro failure rfl
    exact hexits.undone
  · rintro url rfl
    exact hexits.kind_eq
  · intro url hbare hparse hscheme
    have hrefusal : client.refusal? url = some .secureUnavailable := by
      rw [refusal?_of_bare hbare, if_pos hscheme]
    exact congrArg Prod.fst (hexits.eq_of_refused hparse hrefusal)

end Client

end HttpExchange
