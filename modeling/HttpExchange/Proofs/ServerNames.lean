import HttpExchange.Proofs.AddressText
import HttpExchange.Proofs.Setup
import HttpExchange.Script.Peer

/-!
# Names of servers

In a handshake the host of the URL is named to the far end, unless it is taken for an address. That
it is one is seen of dotted quads, and so of all IPv4 addresses that a URL is written with, as any
spelling of them gives way to a dotted quad. It is not seen of addresses in brackets, which is how a
URL holds IPv6 addresses (`Url.server_name_exact`).

* `UrlHost.ReadFrom.kinds`: hosts are dotted quads, in brackets, or names.
* `Hello.serverNameOf_eq`: which of them are named.
* `Client.greets_reach`: how often a setup shakes hands, and by what name.
-/

namespace HttpExchange

/-! ## Hosts of URLs -/

namespace UrlHost

variable {text host : Bytes}

/-- A host in brackets that fits a handshake. -/
def IsBracketed (host : Bytes) : Prop :=
  ∃ inner, host = Byte.openBracket :: inner ++ [Byte.closeBracket] ∧ inner.length ≤ 200

/-- A host without a mark, so that it is no IPv6 address. It is no IPv4 address either, unless that
was hidden by an escape. -/
structure IsName (text host : Bytes) : Prop where
  ne_nil : host ≠ []
  unmarked : ∀ b ∈ forbidden, b ∉ host
  written : Byte.percent ∉ text → Dotted.numbers? host = none

theorem unescape?_of_no_percent {s : Bytes} (h : Byte.percent ∉ s) : unescape? s = some s := by
  fun_induction unescape? s with
  | case1 sign high low rest decoded hescape _ =>
      exact absurd (.head _) ((escape?_eq_some hescape).1 ▸ h)
  | case2 sign high low rest decoded hescape _ _ =>
      exact absurd (.head _) ((escape?_eq_some hescape).1 ▸ h)
  | case3 sign high low rest _ ih =>
      rw [ih fun hmem => h (.tail _ hmem)]
      rfl
  | case4 => rfl

theorem unescape?_ne_nil {s name : Bytes} (h : unescape? s = some name) (hne : s ≠ []) :
    name ≠ [] := by
  fun_induction unescape? s with
  | case1 => cases h
  | case2 =>
      obtain ⟨more, -, rfl⟩ := Option.map_eq_some_iff.mp h
      exact List.cons_ne_nil _ _
  | case3 =>
      obtain ⟨more, -, rfl⟩ := Option.map_eq_some_iff.mp h
      exact List.cons_ne_nil _ _
  | case4 =>
      cases h
      exact hne

theorem isBracketed_of_bracketed? {inner : Bytes} (h : bracketed? inner = .ok host) :
    IsBracketed host := by
  unfold bracketed? at h
  dsimp only at h
  split at h
  · split at h
    · cases h
    · rename_i groups hgroups
      cases h
      have hlength := (Coloned.groups?_spells hgroups).2.2
      refine ⟨_, rfl, ?_⟩
      split
      · omega
      · exact hlength
  · cases h

theorem decoded?_cases {name : Bytes} (h : decoded? name = .ok host) :
    IsBracketed host ∨ host = name ∧ ∀ b ∈ forbidden, b ∉ name := by
  unfold decoded? at h
  split at h
  · split at h
    · exact .inl (isBracketed_of_bracketed? h)
    · cases h
  · split at h
    · cases h
    · rename_i hforbidden
      cases h
      refine .inr ⟨rfl, ?_⟩
      intro b hb hmem
      exact hforbidden (List.any_eq_true.mpr ⟨b, hmem, List.contains_iff_mem.mpr hb⟩)

/-- **What the host of a URL is**: a dotted quad, something in brackets, or a name. -/
theorem ReadFrom.kinds (h : ReadFrom text host) :
    (∃ address, Dotted.quad? host = some address) ∨ IsBracketed host ∨ IsName text host := by
  cases h with
  | brackets read => exact .inr (.inl (isBracketed_of_bracketed? read))
  | @plain raw part clean read =>
      unfold plain? at read
      split at read
      · cases read
      · rename_i hne
        split at read
        · rename_i address hnumbers
          cases read
          obtain ⟨a, b, c, d, rfl⟩ := Dotted.exists_of_numbers? hnumbers
          exact .inl ⟨_, Dotted.quad?_text a b c d⟩
        · rename_i hnumbers
          split at read
          · cases read
          · rename_i name hname
            rcases decoded?_cases read with hbracketed | ⟨rfl, hunmarked⟩
            · exact .inr (.inl hbracketed)
            · refine .inr (.inr ⟨unescape?_ne_nil hname hne, hunmarked, ?_⟩)
              intro hpercent
              have hraw : Byte.percent ∉ raw := fun hmem => hpercent (part.subset hmem)
              rw [unescape?_of_no_percent hraw] at hname
              cases hname
              exact hnumbers

theorem ReadFrom.not_mem_nul (h : ReadFrom text host) : (0 : UInt8) ∉ host := fun hmem =>
  absurd (h.tidy.visible 0 hmem) (by decide)

theorem IsBracketed.quad?_eq_none (h : IsBracketed host) : Dotted.quad? host = none := by
  obtain ⟨inner, rfl, -⟩ := h
  refine Option.eq_none_iff_forall_ne_some.mpr fun quad hquad => ?_
  exact absurd ((Dotted.quad?_short hquad).1 _ (.head _)) (by decide)

theorem IsBracketed.head?_eq (h : IsBracketed host) : host.head? = some Byte.openBracket := by
  obtain ⟨inner, rfl, -⟩ := h
  rfl

theorem IsBracketed.length_le (h : IsBracketed host) : host.length ≤ 202 := by
  obtain ⟨inner, rfl, hlength⟩ := h
  simp only [List.length_append, List.length_cons, List.length_nil]
  omega

theorem IsName.not_mem_colon (h : IsName text host) : Byte.colon ∉ host :=
  h.unmarked _ (by decide +kernel)

theorem IsName.not_mem_openBracket (h : IsName text host) : Byte.openBracket ∉ host :=
  h.unmarked _ (by decide +kernel)

end UrlHost

/-! ## Hosts that are addresses -/

namespace Literal

variable {text host : Bytes} {address : IpAddress}

theorem unbracket_of_not_mem (h : Byte.openBracket ∉ host) : unbracket host = host := by
  unfold unbracket
  rw [if_neg]
  rintro ⟨-, hfirst, -⟩
  exact h (List.mem_of_mem_head? hfirst)

/-- Without a bracket and a NUL the text itself is looked at. -/
theorem resolve_eq_ok_iff (hbracket : Byte.openBracket ∉ host) (hnul : (0 : UInt8) ∉ host) :
    resolve host = .ok address ↔
      (Dotted.numbers? host <|> Coloned.scoped? host) = some address := by
  have htext : Bytes.untilNul host = host := Bytes.before_of_not_mem hnul
  unfold resolve
  dsimp only
  rw [unbracket_of_not_mem hbracket, htext]
  rcases Dotted.numbers? host <|> Coloned.scoped? host with _ | found
  · exact ⟨nofun, nofun⟩
  · simp

theorem scoped?_of_no_colon (h : Byte.colon ∉ host) : Coloned.scoped? host = none := by
  have hnone {s : Bytes} (hs : Byte.colon ∉ s) : Coloned.groups? s = none := by
    rcases hgroups : Coloned.groups? s with _ | gs
    · rfl
    · exact absurd (Coloned.groups?_spells hgroups).1 hs
  unfold Coloned.scoped?
  split
  · rw [Coloned.address?, hnone h]
    rfl
  · rename_i before zone hcut
    obtain ⟨rfl, -⟩ := Bytes.cutAt?_eq_some_iff.mp hcut
    rw [hnone fun hmem => h (List.mem_append_left _ hmem)]

/-- **A dotted quad is an address** without anyone being asked. -/
theorem resolve_of_quad? (hquad : Dotted.quad? host = some address) (hnul : (0 : UInt8) ∉ host) :
    resolve host = .ok address := by
  have hbracket : Byte.openBracket ∉ host := fun hmem =>
    absurd ((Dotted.quad?_short hquad).1 _ hmem) (by decide)
  rw [resolve_eq_ok_iff hbracket hnul, Dotted.numbers?_of_quad? hquad]
  rfl

end Literal

/-! ## The name that is sent -/

namespace Hello

variable {text host : Bytes}

/-- Of what a URL holds, dotted quads are all that is not named, but for what does not fit. -/
theorem serverNameOf_eq (hhost : UrlHost.ReadFrom text host) : serverNameOf host =
    if (Dotted.quad? host).isSome = true ∨ 255 < host.length then none else some host := by
  have hname : Bytes.untilNul host = host := Bytes.before_of_not_mem hhost.not_mem_nul
  have hother : (Dotted.quad? host).isSome = true ∨ Coloned.groups? host = none ∧ host ≠ [] := by
    rcases hhost.kinds with ⟨address, hquad⟩ | ⟨inner, rfl, -⟩ | hname
    · exact .inl (hquad ▸ rfl)
    · refine .inr ⟨Option.eq_none_iff_forall_ne_some.mpr fun gs hgroups => ?_, by simp⟩
      exact absurd ((Coloned.groups?_spells hgroups).2.1 _ (.head _)) (by decide)
    · refine .inr ⟨Option.eq_none_iff_forall_ne_some.mpr fun gs hgroups => ?_, hname.ne_nil⟩
      exact hname.not_mem_colon (Coloned.groups?_spells hgroups).1
  unfold serverNameOf
  dsimp only
  rw [hname, Literal.isStrict]
  rcases hother with hquad | ⟨hgroups, hne⟩
  · simp [hquad]
  · simp [hgroups, hne]

end Hello

/-! ## Handshakes of a setup -/

namespace Client

variable {σ : Type} [SecureTransport σ]

/-- What a setup for an https URL has said to the far end. If there was none, it has said nothing
and failed. Else there was one handshake, by some name or by none, and what came of the handshake
has come of the setup. -/
inductive Greets (client : Client) (network : Network σ) (url : Url) (name : Option Bytes) :
    Setup σ → Prop
  | silent {setup : Setup σ} (failed : ∃ failure, setup.connection = .error failure)
      (unsaid : setup.wire = none) : Greets client network url name setup
  | shakes {setup : Setup σ} {config : SecureConfig} {address : IpAddress} {wire : σ}
      {handshake : Except TransportFailure Unit × σ}
      (secure : client.secure = some config)
      (found : network.resolve url.host = .ok address)
      (dialled : network.dial address url.portNumber = .ok wire)
      (shaken : handshake = SecureTransport.handshake wire config.receiveCapacity
        ⟨name, Hello.usableKey config.sharedKey⟩)
      (said : setup.wire = some handshake.2)
      (outcome : (∃ connection, setup.connection = .ok connection) ↔ handshake.1 = .ok ()) :
      Greets client network url name setup

/-- For an https URL there is a connection if there is a session. -/
theorem furnish_https {client : Client} {config : SecureConfig} {url : Url}
    (hsecure : client.secure = some config) (hscheme : url.scheme = .https) (wire : σ) :
    (client.furnish url wire).2.2.1 = (SecureSession.start wire url.host config).wire ∧
    ((∃ connection, (client.furnish url wire).1 = .ok connection) ↔
      ∃ session, (SecureSession.start wire url.host config).session = .ok session) := by
  unfold furnish
  rw [hsecure, hscheme]
  dsimp only
  rcases (SecureSession.start wire url.host config).session with cause | session
  · exact ⟨rfl, ⟨nofun, nofun⟩⟩
  · exact ⟨rfl, ⟨fun _ => ⟨_, rfl⟩, fun _ => ⟨_, rfl⟩⟩⟩

/-- **A setup shakes hands once**, by the name that goes with the host of the URL. -/
theorem greets_reach {text : Bytes} {url : Url} (hparse : Url.parse text = .ok url)
    (hscheme : url.scheme = .https) (client : Client) (network : Network σ) :
    client.Greets network url (Hello.serverNameOf url.host) (client.reach network text).2 := by
  unfold reach
  rw [hparse]
  dsimp only [connect]
  rcases hrefusal : client.refusal? url with _ | failure
  · dsimp only
    rcases hresolve : network.resolve url.host with cause | address
    · exact .silent ⟨_, rfl⟩ rfl
    · dsimp only
      rcases hdial : network.dial address url.portNumber with cause | wire
      · exact .silent ⟨_, rfl⟩ rfl
      · rcases hsecure : client.secure with _ | config
        · rw [refusal?_of_bare hsecure, if_pos hscheme] at hrefusal
          cases hrefusal
        · obtain ⟨hwire, hsession⟩ := SecureSession.handshake_start wire url.host config
          obtain ⟨hsaid, houtcome⟩ := furnish_https hsecure hscheme wire
          exact .shakes hsecure hresolve hdial rfl (congrArg some (hsaid.trans hwire))
            (houtcome.trans hsession)
  · exact .silent ⟨_, rfl⟩ rfl

end Client

/-! ## Which servers are named -/

/-- **Which servers are named.** The setup of a secure connection shakes hands once at most, by a
name that depends on the host of the URL alone. If the host is an address, it is named unless it is
a dotted quad; and it is one unless it stands in brackets, or an escape in the text has hidden what
it is. A host that is no address is named as it is, if it is not too long. -/
theorem Url.server_name_exact {σ : Type} [SecureTransport σ] {text : Bytes} {url : Url}
    (hparse : Url.parse text = .ok url) (hscheme : url.scheme = .https) :
    (∀ (client : Client) (network : Network σ),
      client.Greets network url (Hello.serverNameOf url.host) (client.reach network text).2) ∧
    (∀ address, Literal.resolve url.host = .ok address →
      Dotted.quad? url.host = some address ∧ Hello.serverNameOf url.host = none ∨
      url.host.head? = some Byte.openBracket ∧ Hello.serverNameOf url.host = some url.host ∨
      Byte.percent ∈ text ∧ Dotted.quad? url.host = none ∧
        Hello.serverNameOf url.host = if 255 < url.host.length then none else some url.host) ∧
    ((∀ address, Literal.resolve url.host ≠ .ok address) → url.host.length ≤ 255 →
      Hello.serverNameOf url.host = some url.host) := by
  have hhost : UrlHost.ReadFrom text url.host := (Url.readFrom_of_parse hparse).2.2
  have hnul : (0 : UInt8) ∉ url.host := hhost.not_mem_nul
  have hname := Hello.serverNameOf_eq hhost
  refine ⟨Client.greets_reach hparse hscheme, ?_, ?_⟩
  · intro address hresolve
    rcases hhost.kinds with ⟨quad, hquad⟩ | hbracketed | hunmarked
    · have hsame := (Literal.resolve_of_quad? hquad hnul).symm.trans hresolve
      cases hsame
      exact .inl ⟨hquad, by rw [hname, hquad]; rfl⟩
    · have hfits : ¬ 255 < url.host.length := by
        have := hbracketed.length_le
        omega
      exact .inr (.inl ⟨hbracketed.head?_eq, by simp [hname, hbracketed.quad?_eq_none, hfits]⟩)
    · rw [Literal.resolve_eq_ok_iff hunmarked.not_mem_openBracket hnul,
        Literal.scoped?_of_no_colon hunmarked.not_mem_colon] at hresolve
      rcases hquad : Dotted.quad? url.host with _ | quad
      · -- Only an escape hides a number from the parser and not from the resolver.
        by_cases hpercent : Byte.percent ∈ text
        · exact .inr (.inr ⟨hpercent, rfl, by simp [hname, hquad]⟩)
        · rw [hunmarked.written hpercent] at hresolve
          cases hresolve
      · rw [Dotted.numbers?_of_quad? hquad] at hresolve
        cases hresolve
        exact .inl ⟨rfl, by simp [hname, hquad]⟩
  · intro hlost hfits
    have hquad : Dotted.quad? url.host = none :=
      Option.eq_none_iff_forall_ne_some.mpr fun quad hquad =>
        hlost quad (Literal.resolve_of_quad? hquad hnul)
    simp [hname, hquad, hfits]

/-- An address that is found in its brackets is named with them. -/
theorem Url.server_name_exact_bracketed :
    let text := ascii "https://[::1]/"
    let host := ascii "[::1]"
    let key := (ascii "id", ascii "secret-secret-16")
    let network : Network Script :=
      ⟨Literal.resolve, fun _ _ => .ok { Script.empty with peer := some ⟨key.1, key.2, true⟩ }⟩
    let setup := (Client.reach ⟨some ⟨17, 4096, 4096, some key⟩, .empty⟩ network text).2
    Literal.resolve host = .ok (.v6 #v[0, 0, 0, 0, 0, 0, 0, 1]) ∧ setup.lookups = [host] ∧
      ∃ connection wire, setup.connection = .ok connection ∧ setup.wire = some wire ∧
        wire.trace.serverName = host := by
  intro text host key network setup
  have hparse : Url.parse text = .ok ⟨.https, host, 443, ascii "/"⟩ := by decide +kernel
  have hresolve : Literal.resolve host = .ok (.v6 #v[0, 0, 0, 0, 0, 0, 0, 1]) := by decide +kernel
  obtain ⟨hgreets, haddress, -⟩ := server_name_exact (σ := Script) hparse rfl
  have hnamed : Hello.serverNameOf host = some host := by
    rcases haddress _ hresolve with ⟨hquad, -⟩ | ⟨-, hnamed⟩ | ⟨hpercent, -⟩
    · exact absurd hquad (by decide +kernel)
    · exact hnamed
    · exact absurd hpercent (by decide +kernel)
  refine ⟨hresolve, by decide +kernel, ?_⟩
  rcases hgreets ⟨some ⟨17, 4096, 4096, some key⟩, .empty⟩ network with ⟨-, hunsaid⟩ |
    ⟨hsecure, -, hdialled, hshaken, hsaid, houtcome⟩
  · exact absurd hunsaid (by decide +kernel)
  · cases hsecure
    cases hdialled
    rw [hnamed] at hshaken
    subst hshaken
    obtain ⟨connection, hconnection⟩ := houtcome.mpr rfl
    exact ⟨connection, _, hconnection, hsaid, rfl⟩

end HttpExchange
