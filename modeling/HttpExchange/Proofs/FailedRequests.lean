import HttpExchange.Proofs.ScriptWire
import HttpExchange.Proofs.Tapping

/-!
# Requests that fail

A request that fails on an idle link has sent a front of its text and nothing else
(`Request.write_fails`). Either a call on the wire has failed, and then it was the last one, with
nothing flushed before it; or no call has failed and the body has; or the session was closed, and
then there was no call at all. This is said of the log of a tapped wire, so it holds of every
transport, in whatever form the connection sends and whatever the body makes of the answers to its
writes.
-/

namespace HttpExchange

/-! ## Logs of calls -/

namespace WireCall

/-- A call that has sent a text. -/
inductive Sends : WireCall → Bytes → Prop
  | write {data : Bytes} {n : Nat} : 0 < n → Sends (.write data (.ok n)) (data.take n)
  | records (data : Bytes) : Sends (.sendRecords data (.ok ())) data

/-- A call that has failed, and what it was offered. To accept nothing is a failure, too. -/
inductive Fails : WireCall → TransportFailure → Bytes → Prop
  | write (data : Bytes) (failure : TransportFailure) :
    Fails (.write data (.error failure)) failure data
  | nothing {data : Bytes} : data ≠ [] → Fails (.write data (.ok 0)) .nothingAccepted data
  | records (data : Bytes) (failure : TransportFailure) :
    Fails (.sendRecords data (.error failure)) failure data
  | flush (failure : TransportFailure) : Fails (.flush (.error failure)) failure []

/-- A call that has not failed. -/
inductive Passes : WireCall → Bytes → Prop
  | sends {call : WireCall} {text : Bytes} : Sends call text → Passes call text
  | flush : Passes (.flush (.ok ())) []

/-- Calls each of which goes well in its way, and the text that they have sent together. -/
inductive Log (Well : WireCall → Bytes → Prop) : List WireCall → Bytes → Prop
  | nil : Log Well [] []
  | snoc {calls : List WireCall} {call : WireCall} {sent text : Bytes} :
    Log Well calls sent → Well call text → Log Well (calls ++ [call]) (sent ++ text)

/-- Where nothing was flushed, everything has sent. -/
theorem Log.sends {calls : List WireCall} {sent : Bytes} (h : Log Passes calls sent)
    (hflush : flush (.ok ()) ∉ calls) : Log Sends calls sent := by
  induction h with
  | nil => exact .nil
  | snoc _ hcall ih =>
      rw [List.mem_append, not_or] at hflush
      rcases hcall with hsends | _
      · exact .snoc (ih hflush.1) hsends
      · exact absurd (List.mem_singleton_self _) hflush.2

end WireCall

open WireCall

/-! ## Tapped wires as channels -/

namespace Tapped

variable {σ : Type}

/-- The last call has failed, and all that was sent or offered is a front of the text. -/
def Broken (t : Tapped σ) (failure : TransportFailure) (text : Bytes) : Prop :=
  ∃ calls last sent offered, t.calls = calls ++ [last] ∧ Log Passes calls sent ∧
    last.Fails failure offered ∧ sent ++ offered <+: text

theorem broken_of_fails {t t' : Tapped σ} {text offered : Bytes} {last : WireCall}
    {failure : TransportFailure} (h : Log Passes t.calls text)
    (hcalls : t'.calls = t.calls ++ [last]) (hfails : last.Fails failure offered) :
    t'.Broken failure (text ++ offered) :=
  ⟨t.calls, last, text, offered, hcalls, h, hfails, List.prefix_rfl⟩

theorem log_of_passes {t t' : Tapped σ} {text sent : Bytes} {call : WireCall}
    (h : Log Passes t.calls text) (hcalls : t'.calls = t.calls ++ [call])
    (hpasses : Passes call sent) : Log Passes t'.calls (text ++ sent) := by
  rw [hcalls]
  exact .snoc h hpasses

variable [SecureTransport σ]

/-- A wire with a log, as it is used by a connection whose session is open if it has one. -/
def channel (form : Form) (hopen : ∀ {session}, form = .secured session → session.isOpen = true) :
    Channel (form.offer : Tapped σ → Bytes → _) where
  accepted t text := Log Passes t.calls text
  broken := Broken
  broken_append more h := by
    obtain ⟨calls, last, sent, offered, hcalls, hlog, hfails, hfront⟩ := h
    exact ⟨calls, last, sent, offered, hcalls, hlog, hfails, hfront.trans (List.prefix_append ..)⟩
  offers {t text data} h hdata := by
    have hwrite : Outcome (Transport.write t data)
        (fun n t' => (n = 0 → t'.Broken .nothingAccepted (text ++ data)) ∧
          (0 < n → Log Passes t'.calls (text ++ data.take n)))
        fun failure t' => t'.Broken failure (text ++ data) := by
      rcases hcall : Transport.write t data with ⟨failure | n, t'⟩
      · obtain ⟨-, hcalls⟩ := note_eq hcall
        exact .fails failure t' rfl (broken_of_fails h hcalls (.write ..))
      · obtain ⟨-, hcalls⟩ := note_eq hcall
        refine .succeeds n t' rfl ⟨?_, ?_⟩
        · rintro rfl
          exact broken_of_fails h hcalls (.nothing hdata)
        · intro hpos
          exact log_of_passes h hcalls (.sends (.write hpos))
    cases form with
    | plain => exact hwrite
    | buffered buffer => exact hwrite
    | secured session =>
        unfold Form.offer
        dsimp only
        rw [if_pos (hopen rfl)]
        -- A record is sent as a whole or not at all.
        rcases hcall : SecureTransport.sendRecords t data with ⟨failure | value, t'⟩
        · obtain ⟨-, hcalls⟩ := note_eq hcall
          exact .fails failure t' rfl (broken_of_fails h hcalls (.records ..))
        · obtain ⟨-, hcalls⟩ := note_eq hcall
          have hpos := List.length_pos_iff.mpr hdata
          refine .succeeds data.length t' rfl ⟨by omega, ?_⟩
          intro _
          rw [List.take_length]
          exact log_of_passes h hcalls (.sends (.records data))
  flushes {t text} h := by
    rcases hcall : Transport.flush t with ⟨failure | value, t'⟩
    · obtain ⟨-, hcalls⟩ := note_eq hcall
      refine .fails failure t' rfl ?_
      simpa using broken_of_fails h hcalls (.flush failure)
    · obtain ⟨-, hcalls⟩ := note_eq hcall
      refine .succeeds value t' rfl ?_
      simpa using log_of_passes h hcalls .flush

/-- Only a flush is logged as one. -/
theorem written_flushes (answer : Except TransportFailure Unit) :
    WireWritten fun t t' : Tapped σ =>
      WireCall.flush answer ∈ t'.calls → WireCall.flush answer ∈ t.calls where
  refl t := id
  trans h h' := h ∘ h'
  write t data h := by
    rcases List.mem_append.mp h with h | h
    · exact h
    · simp at h
  sendRecords t data h := by
    rcases List.mem_append.mp h with h | h
    · exact h
    · simp at h

theorem unflushed_of_error {t t' : Tapped σ} {failure : TransportFailure}
    (hcall : Transport.flush t = (.error failure, t'))
    (h : WireCall.flush (.ok ()) ∈ t'.calls) : WireCall.flush (.ok ()) ∈ t.calls := by
  rw [(note_eq hcall).2] at h
  rcases List.mem_append.mp h with h | h
  · exact h
  · simp at h

end Tapped

/-! ## What a body hands over -/

namespace Pen.Similar

variable {σ τ : Type} {S : Link σ → Link τ → Prop} {p : Pen σ} {q : Pen τ}

/-- A body is told the same on related links, and so it hands over the same. -/
theorem handed {emit : Pen σ → Bytes → Pen σ} {emit' : Pen τ → Bytes → Pen τ}
    (hemit : ∀ {p q}, Similar S p q → ∀ data, Similar S (emit p data) (emit' q data))
    (h : Similar S p q) (emission : Emission) :
    Pen.handed emit' emission q = Pen.handed emit emission p := by
  induction emission generalizing p q with
  | done => rfl
  | failed failure => rfl
  | write data next ih =>
      have h' := hemit h data
      have hstatus : (emit' q data).status = (emit p data).status := by
        simp only [Pen.status, h'.failure_eq]
      rw [Pen.handed, Pen.handed, hstatus, ih _ h']

theorem emitter [SecureTransport σ] [SecureTransport τ] (hS : Link.Simulation S)
    (h : Similar S p q) (size : Option Nat) (data : Bytes) :
    Similar S (Pen.emitter size p data) (Pen.emitter size q data) := by
  cases size with
  | some declared => exact h.putFragment hS data
  | none => exact h.putAll hS (Pen.chunkPieces data)

end Pen.Similar

namespace Request

variable {σ τ : Type} [SecureTransport σ] [SecureTransport τ]

/-- The fragments that the body of a request hands over, also to a pen that has failed; none if
the head has failed. -/
def handed (r : Request) (l : Link σ) : List Bytes :=
  match r.body with
  | none => []
  | some body =>
    if ((Pen.on l).putAll r.headPieces).failure.isSome then []
    else Pen.handed (Pen.emitter body.size) body.emission ((Pen.on l).putAll r.headPieces)

theorem hands_handed (r : Request) (l : Link σ) : r.Hands l (r.handed l) := by
  intro body hbody
  unfold handed
  rw [hbody]
  dsimp only
  split
  · rename_i hfailed
    obtain ⟨failure, hfailure⟩ := Option.isSome_iff_exists.mp hfailed
    exact .stopped hfailure _
  · exact Pen.hands_handed _ _ _

theorem handed_of_failed {r : Request} {l : Link σ}
    (h : ((Pen.on l).putAll r.headPieces).failure.isSome = true) : r.handed l = [] := by
  unfold handed
  cases r.body with
  | none => rfl
  | some body => exact if_pos h

/-- The request whose body does something else. -/
def withEmission (r : Request) (emission : Emission) : Request :=
  { r with body := r.body.map fun body => { body with emission } }

theorem headPieces_withEmission (r : Request) (emission : Emission) :
    (r.withEmission emission).headPieces = r.headPieces := by
  obtain ⟨method, path, host, basePath, headers, contentType, credentials, body⟩ := r
  cases body <;> rfl

theorem streamed_of_failed {r : Request} {l : Link σ}
    (h : ((Pen.on l).putAll r.headPieces).failure.isSome = true) :
    r.streamed l = (Pen.on l).putAll r.headPieces := by
  obtain ⟨failure, hfailure⟩ := Option.isSome_iff_exists.mp h
  unfold streamed
  cases r.body with
  | none => rfl
  | some body => exact Pen.putBody_of_failure hfailure body

/-- **A body is not streamed** when the head has failed. -/
theorem write_withEmission {r : Request} {l : Link σ} (hidle : l.phase = .idle)
    (h : ((Pen.on l).putAll r.headPieces).failure.isSome = true) (emission : Emission) :
    (r.withEmission emission).write l = r.write l := by
  have hpieces := r.headPieces_withEmission emission
  have hstreamed : (r.withEmission emission).streamed l = r.streamed l := by
    rw [streamed_of_failed h, streamed_of_failed (by rwa [hpieces]), hpieces]
  rw [write_of_idle _ hidle, write_of_idle _ hidle, hstreamed]
  rfl

/-- How the request fails: the calls that are made, and the failure. -/
inductive Fails (r : Request) (l : Link σ) : List WireCall → TransportFailure → Prop
  | wire {calls : List WireCall} {last : WireCall} {sent offered : Bytes}
    {failure : TransportFailure} : Log Sends calls sent → last.Fails failure offered →
    sent ++ offered <+: r.textOf (r.handed l) → Fails r l (calls ++ [last]) failure
  | body {calls : List WireCall} {sent : Bytes} {failure : TransportFailure} :
    Log Sends calls sent → sent <+: r.textOf (r.handed l) → r.Fault failure →
    Fails r l calls failure
  | shut {session : SecureSession} : l.connection.form = .secured session →
    session.isOpen = false → Fails r l [] .sessionClosed

theorem handed_eq {S : Link σ → Link τ → Prop} (hS : Link.Simulation S) {l : Link σ} {k : Link τ}
    (h : S l k) (r : Request) : r.handed k = r.handed l := by
  have hhead := (Pen.Similar.on h).putAll hS r.headPieces
  unfold handed
  rw [hhead.failure_eq]
  cases r.body with
  | none => rfl
  | some body =>
      dsimp only
      rw [hhead.handed (fun h data => h.emitter hS body.size data)]

variable {l : Link σ} {r : Request} {failure : TransportFailure}

/-! ## How a request fails -/

/-- On a closed session the first piece of the head fails. -/
theorem streamed_of_shut {session : SecureSession} (hform : l.connection.form = .secured session)
    (hshut : session.isOpen = false) (r : Request) :
    (r.streamed l).failure = some .sessionClosed ∧ (r.streamed l).link = l := by
  have hwrite (data : Bytes) : l.write data = (.error .sessionClosed, l) := by
    unfold Link.write
    rw [hform]
    simp [hshut]
  have htoken : r.method.token ≠ [] := by cases r.method <;> decide
  have hall : l.writeAll r.method.token = (.error .sessionClosed, l) := by
    unfold Link.writeAll
    rw [writeAll, if_neg htoken, hwrite]
  obtain ⟨rest, hpieces⟩ : ∃ rest, r.headPieces = r.method.token :: rest := ⟨_, rfl⟩
  have hhead : (Pen.on l).putAll r.headPieces = ⟨l, some .sessionClosed, 0⟩ := by
    have hput : (Pen.on l).put r.method.token = ⟨l, some .sessionClosed, 0⟩ := by
      unfold Pen.put
      rw [if_neg (by simp [Pen.on, htoken]), show (Pen.on l).link = l from rfl, hall]
      rfl
    rw [hpieces, Pen.putAll, List.foldl_cons, hput]
    exact Pen.putAll_of_failure rfl rest
  have hfailed : ((Pen.on l).putAll r.headPieces).failure.isSome = true := by rw [hhead]; rfl
  rw [streamed_of_failed hfailed, hhead]
  exact ⟨rfl, rfl⟩

/-- Nothing is flushed before head and body are written. -/
theorem flush_not_mem_streamed (r : Request) (l : Link σ) (answer : Except TransportFailure Unit) :
    WireCall.flush answer ∉ (r.streamed l.tapped).link.wire.calls :=
  fun hmem => List.not_mem_nil ((Tapped.written_flushes answer).link.streamed r l.tapped hmem)

theorem write_error {l' : Link σ} {e : Failure} (hidle : l.phase = .idle)
    (h : r.write l = (.error e, l')) : ∃ failure, e = .network failure ∧ l'.phase = .poisoned := by
  rw [write_of_idle r hidle] at h
  split at h
  · cases h
    exact ⟨_, rfl, rfl⟩
  · simp at h

theorem fails_of_broken {t : Tapped σ} (h : t.Broken failure (r.textOf (r.handed l)))
    (hflush : WireCall.flush (.ok ()) ∉ t.calls) : r.Fails l t.calls failure := by
  obtain ⟨calls, last, sent, offered, hcalls, hlog, hfails, hfront⟩ := h
  rw [hcalls] at hflush ⊢
  exact .wire (hlog.sends fun hmem => hflush (List.mem_append_left _ hmem)) hfails hfront

/-- What the log of a tapped wire shows when a request fails. -/
theorem fails_tapped (hidle : l.phase = .idle) (hflushed : l.Flushed) {k : Link (Tapped σ)}
    (h : r.write l.tapped = (.error (.network failure), k)) : r.Fails l k.wire.calls failure := by
  have hidle' : l.tapped.phase = .idle := hidle
  rw [write_of_idle r hidle'] at h
  by_cases hopen : ∀ {session}, l.connection.form = .secured session → session.isOpen = true
  · have hon : (Tapped.channel l.connection.form hopen).On l.tapped [] :=
      Channel.on_of_accepted rfl hopen hflushed .nil
    have hhanded := handed_eq Link.simulation_tapped l.untapped_tapped r
    obtain ⟨-, hok, hfailed⟩ := r.streamed_stands hon (r.hands_handed l.tapped)
    rw [hhanded, List.nil_append] at hfailed
    rw [hhanded, List.nil_append] at hok
    have hunflushed := flush_not_mem_streamed r l (.ok ())
    -- Something has failed before the flush, or the flush itself fails.
    rcases hfailure : (r.streamed l.tapped).failure with _ | first
    · obtain ⟨-, htext, hon'⟩ := hok hfailure
      rcases hon'.flush with ⟨value, link, call, holds⟩ | ⟨first, link, call, hbroken, -⟩
      · rw [Pen.flush_of_ok hfailure call] at h
        simp [hfailure] at h
      · rw [Pen.flush_of_error hfailure call] at h
        cases h
        rw [← htext] at hbroken
        apply fails_of_broken hbroken
        intro hmem
        apply hunflushed
        exact (Tapped.written_flushes _).flush_of_error Tapped.unflushed_of_error call hmem
    · rw [Pen.flush_of_failure hfailure, hfailure] at h
      cases h
      rcases hfailed hfailure with hbroken | ⟨hfault, sent, hsent, -, -, front, hlog, rfl⟩
      · exact fails_of_broken hbroken hunflushed
      · exact .body (hlog.sends hunflushed) ((List.prefix_append ..).trans hsent) hfault
  · -- The session was closed, so not even the first piece is offered to the wire.
    push Not at hopen
    obtain ⟨session, hform, hshut⟩ := hopen
    have hshut : session.isOpen = false := by simpa using hshut
    obtain ⟨hfailure, hlink⟩ := streamed_of_shut (l := l.tapped) hform hshut r
    rw [Pen.flush_of_failure hfailure, hfailure] at h
    cases h
    have hcalls : (r.streamed l.tapped).link.wire.calls = [] := by
      rw [hlink]
      rfl
    show r.Fails l (r.streamed l.tapped).link.wire.calls _
    rw [hcalls]
    exact .shut hform hshut

end Request

/-- **A request that fails** on an idle link with nothing pending. -/
theorem Request.write_fails {σ : Type} [SecureTransport σ] {l l' : Link σ} {r : Request}
    {e : Failure} (hidle : l.phase = .idle) (hflushed : l.Flushed)
    (h : r.write l = (.error e, l')) :
    ∃ failure k, e = .network failure ∧ l'.phase = .poisoned ∧
      r.write l.tapped = (.error (.network failure), k) ∧ k.untapped = l' ∧
      r.Fails l k.wire.calls failure ∧
      (((Pen.on l).putAll r.headPieces).failure.isSome = true →
        r.handed l = [] ∧ ∀ emission, (r.withEmission emission).write l = r.write l) := by
  obtain ⟨outcome, l₁, k, hl, hk, huntapped⟩ :=
    Link.simulation_tapped.writeRequest l.untapped_tapped r
  obtain ⟨failure, rfl, hpoisoned⟩ := write_error hidle h
  rw [h] at hl
  cases hl
  exact ⟨failure, k, rfl, hpoisoned, hk, huntapped, fails_tapped hidle hflushed hk,
    fun hhead => ⟨handed_of_failed hhead, write_withEmission hidle hhead⟩⟩

/-- A body that goes on whatever it is told, on a wire that takes fifty-four bytes. -/
def heedlessRequest : Request :=
  { Request.make .put (ascii "/doc") with
    body := some ⟨none, .heedless .done [ascii "Wiki", ascii "pedia"]⟩ }

def tightLink : Link Script :=
  ⟨.buffered 8, .empty, { Script.empty with writeBudget := some 54 }, []⟩

/-- The wire fails within the first chunk. -/
theorem Request.write_fails_heedless : ∃ failure l' k,
    heedlessRequest.write tightLink = (.error (.network failure), l') ∧ l'.phase = .poisoned ∧
      heedlessRequest.write tightLink.tapped = (.error (.network failure), k) ∧
      heedlessRequest.Fails tightLink k.wire.calls failure := by
  have hfails : (heedlessRequest.write tightLink).1.isOk = false := by decide +kernel
  have hflushed : tightLink.Flushed := rfl
  rcases hwrite : heedlessRequest.write tightLink with ⟨e | value, l'⟩
  · obtain ⟨failure, k, rfl, hpoisoned, hk, -, hcalls, -⟩ := write_fails rfl hflushed hwrite
    exact ⟨failure, l', k, rfl, hpoisoned, hk, hcalls⟩
  · rw [hwrite] at hfails
    simp [Except.isOk, Except.toBool] at hfails

end HttpExchange
