import HttpExchange.Proofs.BodyDelivery
import HttpExchange.Proofs.HeadReading
import HttpExchange.Proofs.ScriptFeed

/-!
# Responses behind responses without a body

A server may send any number of interim responses before the final one, and a response
without a body leaves its connection idle, so the next response can be read at once. What
a read of the head has brought of the next message stays with the response before it,
though, where nobody reads it. The responses of a stream come out one after the other
exactly if no read brings bytes of two messages (`bodiless_responses_returned_iff`).
-/

namespace HttpExchange

/-! ## Streams end in one way -/

section Uniqueness

variable {σ : Type} {receive : σ → Nat → Except TransportFailure Bytes × σ}

/-- A stream that ends has only one text to come. -/
theorem Feed.carries_unique (F : Feed receive .finished) {w : σ} {text text' : Bytes}
    (h : F.carries w text) (h' : F.carries w text') : text = text' := by
  by_cases htext : text = []
  · by_cases htext' : text' = []
    · rw [htext, htext']
    · subst htext
      obtain ⟨w', hread, -⟩ := F.finished rfl h Nat.one_pos
      obtain ⟨piece, rest, w'', hread', hne, -⟩ := F.piece h' htext' Nat.one_pos
      rw [hread] at hread'
      cases hread'
      exact absurd rfl hne
  · obtain ⟨piece, rest, w', hread, hne, -, rfl, hrest⟩ := F.piece h htext Nat.one_pos
    by_cases htext' : text' = []
    · subst htext'
      obtain ⟨w'', hread', -⟩ := F.finished rfl h' Nat.one_pos
      rw [hread] at hread'
      cases hread'
      exact absurd rfl hne
    · obtain ⟨piece', rest', w'', hread', -, -, rfl, hrest'⟩ := F.piece h' htext' Nat.one_pos
      rw [hread] at hread'
      cases hread'
      have hshorter := Bytes.length_rest_lt hne rest
      rw [carries_unique F hrest hrest']
termination_by text.length

end Uniqueness

/-! ## Messages without a body -/

/-- A message that has no body when it answers `method`, and a receive buffer that holds its
head. -/
structure Bodiless where
  head : Bytes
  line : StatusLine
  block : HeaderBlock
  method : Method
  capacity : Nat
  isHead : IsHead head line block
  fits : head.length ≤ capacity
  bodiless : Framing.decide method line.status block = .fixed 0

/-- Every interim response is one. -/
def Bodiless.interim {head : Bytes} {line : StatusLine} {block : HeaderBlock} (method : Method)
    {capacity : Nat} (isHead : IsHead head line block) (fits : head.length ≤ capacity)
    (interim : line.status.isInformational = true) : Bodiless where
  head
  line
  block
  method
  capacity
  isHead
  fits
  bodiless := if_pos (.inr (by rw [Status.hasBody, interim]; rfl))

namespace Bodiless

/-- The messages one after another, and what follows them. -/
def stream : List Bodiless → Bytes → Bytes
  | [], behind => behind
  | m :: more, behind => m.head ++ stream more behind

variable {σ : Type} [SecureTransport σ]
  {receive : σ → Nat → Except TransportFailure Bytes × σ}

def read (m : Bodiless) (l : Link σ) : Except Failure Response × Link σ :=
  Response.read l m.method m.capacity

/-- The link after the messages were read from it. -/
def readAll (l : Link σ) : List Bodiless → Link σ
  | [] => l
  | m :: more => readAll (m.read l).2 more

/-- The message, as it is read. -/
def Answers (m : Bodiless) (r : Response) : Prop :=
  r.status = m.line.status ∧ r.reason = m.line.reason ∧ r.block = m.block ∧ r.framing = .fixed 0

/-- The messages are read in turn, each of them from the first byte behind the one before. -/
def Returned (F : Feed receive .finished) (l : Link σ) (behind : Bytes) : List Bodiless → Prop
  | [] => F.On l behind
  | m :: more => F.On l (stream (m :: more) behind) ∧
      ∃ r, (m.read l).1 = .ok r ∧ m.Answers r ∧ Returned F (m.read l).2 behind more

/-- No read of a head brings anything of the message behind it. -/
def NothingStaged (l : Link σ) : List Bodiless → Prop
  | [] => True
  | m :: more => ∃ r, (m.read l).1 = .ok r ∧ r.staged = [] ∧ NothingStaged (m.read l).2 more

instance decidableNothingStaged (l : Link σ) : (ms : List Bodiless) →
    Decidable (NothingStaged l ms)
  | [] => isTrue trivial
  | m :: more =>
    match h : (m.read l).1 with
    | .error failure => isFalse fun ⟨r, hread, _⟩ => by rw [h] at hread; cases hread
    | .ok r =>
      have := decidableNothingStaged (m.read l).2 more
      decidable_of_iff (r.staged = [] ∧ NothingStaged (m.read l).2 more)
        ⟨fun hr => ⟨r, h, hr⟩, fun ⟨r', hread, hr⟩ => by
          rw [h] at hread
          cases hread
          exact hr⟩

variable {F : Feed receive .finished} {l : Link σ} {behind : Bytes} {m : Bodiless}

/-- **Reading a message without a body**: what is staged behind its head is lost, and the
link goes on behind that. -/
theorem read_of_idle (hidle : l.phase = .idle) (hon : F.On l (m.head ++ behind)) :
    ∃ r later, (m.read l).1 = .ok r ∧ m.Answers r ∧ behind = r.staged ++ later ∧
      F.On (m.read l).2 later ∧ (m.read l).2.phase = .idle := by
  obtain ⟨staged, later, l', hread, hbehind, -, hlater, hholds⟩ :=
    Response.read_isHead m.method hidle m.isHead m.fits hon
  have hphase : l'.phase = .idle := by
    rw [hholds.phase_eq]
    show (if (Framing.decide m.method m.line.status m.block).isEmpty then Phase.idle
      else .inBody) = _
    rw [m.bodiless]
    rfl
  have hread' : m.read l =
      (.ok (.ofParts m.method m.line m.block (m.capacity - m.head.length) staged), l') := hread
  refine ⟨.ofParts m.method m.line m.block (m.capacity - m.head.length) staged, later, ?_,
    ⟨rfl, rfl, rfl, m.bodiless⟩, hbehind, ?_, ?_⟩
  · rw [hread']
  · rw [hread']
    exact hlater
  · rw [hread']
    exact hphase

/-- The next read starts at the first byte behind the head exactly if nothing was staged. -/
theorem on_iff_nothing_staged {r : Response} (hidle : l.phase = .idle)
    (hon : F.On l (m.head ++ behind)) (hread : (m.read l).1 = .ok r) :
    F.On (m.read l).2 behind ↔ r.staged = [] := by
  obtain ⟨r', later, hread', -, rfl, hlater, -⟩ := read_of_idle hidle hon
  rw [hread] at hread'
  cases hread'
  constructor
  · intro h
    have hlength := congrArg List.length (F.carries_unique h.carries hlater.carries)
    rw [List.length_append] at hlength
    exact List.eq_nil_of_length_eq_zero (by omega)
  · intro h
    rw [h]
    exact hlater

theorem returned_iff (hidle : l.phase = .idle) {ms : List Bodiless}
    (hon : F.On l (stream ms behind)) : Returned F l behind ms ↔ NothingStaged l ms := by
  induction ms generalizing l with
  | nil => exact ⟨fun _ => trivial, fun _ => hon⟩
  | cons m more ih =>
      obtain ⟨r, later, hread, hanswers, hbehind, hlater, hphase⟩ := read_of_idle hidle hon
      have hnext := on_iff_nothing_staged hidle hon hread
      -- The next message stands in front exactly if nothing of it was staged.
      constructor
      · rintro ⟨-, r', hread', -, hreturned⟩
        have hon' : F.On (m.read l).2 (stream more behind) := by
          cases more with
          | nil => exact hreturned
          | cons => exact hreturned.1
        exact ⟨r, hread, hnext.mp hon', (ih hphase hon').mp hreturned⟩
      · rintro ⟨r', hread', hstaged, hnothing⟩
        rw [hread] at hread'
        cases hread'
        have hon' := hnext.mpr hstaged
        exact ⟨hon, r, hread, hanswers, (ih hphase hon').mpr hnothing⟩

/-- Once the messages were returned, the link stands idle at what follows them. -/
theorem readAll_of_returned (hidle : l.phase = .idle) {ms : List Bodiless}
    (h : Returned F l behind ms) :
    (readAll l ms).phase = .idle ∧ F.On (readAll l ms) behind := by
  induction ms generalizing l with
  | nil => exact ⟨hidle, h⟩
  | cons m more ih =>
      obtain ⟨hon, r, hread, -, hreturned⟩ := h
      obtain ⟨-, -, -, -, -, -, hphase⟩ := read_of_idle hidle hon
      exact ih hphase hreturned

end Bodiless

/-- **The responses of a stream come out one after the other exactly if no read brings bytes
of two messages**, and then the final one comes with its complete body. -/
theorem bodiless_responses_returned_iff {σ : Type} [SecureTransport σ] {l : Link σ}
    (F : Feed l.connection.form.receive .finished) (ms : List Bodiless) (method : Method)
    {head body : Bytes} {line : StatusLine} {block : HeaderBlock} {capacity : Nat}
    (hidle : l.phase = .idle) (hcarries : F.carries l.wire (Bodiless.stream ms (head ++ body)))
    (hhead : IsHead head line block) (hfit : head.length ≤ capacity) :
    (Bodiless.Returned F l (head ++ body) ms ↔ Bodiless.NothingStaged l ms) ∧
    (Bodiless.NothingStaged l ms → ∃ r reader l',
      Response.read (Bodiless.readAll l ms) method capacity = (.ok r, l') ∧
      r.status = line.status ∧ r.reason = line.reason ∧ r.block = block ∧
      r.body.1 = .ok reader ∧
      ∀ payload phase rest sizes, (∀ i, 0 < sizes i) →
        (Framing.decide method line.status block).outlook .finished body
          = ⟨payload, .complete phase rest⟩ →
        (Reading.mk reader l').Delivers sizes payload (.ok []) phase) := by
  have hiff : Bodiless.Returned F l (head ++ body) ms ↔ Bodiless.NothingStaged l ms :=
    Bodiless.returned_iff hidle ⟨rfl, hcarries⟩
  refine ⟨hiff, ?_⟩
  intro hnothing
  obtain ⟨hstill, hon⟩ := Bodiless.readAll_of_returned hidle (hiff.mpr hnothing)
  obtain ⟨staged, l', hread, hexpects, -⟩ := Response.read_expects method hstill hhead hfit hon
  refine ⟨_, _, l', hread, rfl, rfl, rfl, rfl, ?_⟩
  intro payload phase rest sizes hsizes houtlook
  have hexpects : Reading.Expects F _ ⟨payload, .complete phase rest⟩ := houtlook ▸ hexpects
  exact hexpects.delivers (.complete phase rest) hsizes

theorem continueHead_fits : continueHead.length ≤ 256 := by decide +kernel

theorem shortHead_fits : shortHead.length ≤ 256 := by decide +kernel

def continueMessage : Bodiless := .interim .get isHead_continueHead continueHead_fits rfl

/-- An interim response and the final one. In segments of their own both are returned; in one
segment the final response is lost, and the stream seems to end in its head. -/
theorem interim_response_lost :
    (∃ r reader l', Response.read (Bodiless.readAll
        (Script.connected [continueHead, shortHead ++ ascii "hi"]) [continueMessage]) .get 256
          = (.ok r, l') ∧ r.status = ⟨200⟩ ∧ r.body.1 = .ok reader ∧
        (Reading.mk reader l').Delivers (fun i => i + 1) (ascii "hi") (.ok []) .idle) ∧
    ¬ Bodiless.Returned (Script.connectedFeed [continueHead ++ (shortHead ++ ascii "hi")])
      (Script.connected [continueHead ++ (shortHead ++ ascii "hi")]) (shortHead ++ ascii "hi")
      [continueMessage] ∧
    (Response.read (Bodiless.readAll (Script.connected [continueHead ++ (shortHead ++ ascii "hi")])
      [continueMessage]) .get 256).1 = .error (.cutOff .head) := by
  refine ⟨?_, ?_, ?_⟩
  · have hcarries := Script.connectedFeed_carries [continueHead, shortHead ++ ascii "hi"]
      (List.append_cancel_left_eq continueHead _ _ |>.mpr (List.append_nil _))
    have hnothing : Bodiless.NothingStaged
        (Script.connected [continueHead, shortHead ++ ascii "hi"]) [continueMessage] := by
      decide +kernel
    obtain ⟨r, reader, l', hread, hstatus, -, -, hreader, hdelivers⟩ :=
      (bodiless_responses_returned_iff (Script.connectedFeed _) [continueMessage] .get rfl hcarries
        isHead_shortHead shortHead_fits).2 hnothing
    exact ⟨r, reader, l', hread, hstatus, hreader,
      hdelivers (ascii "hi") .idle [] _ (fun i => Nat.succ_pos i) (by decide +kernel)⟩
  · have hcarries := Script.connectedFeed_carries [continueHead ++ (shortHead ++ ascii "hi")]
      (List.append_nil _)
    have hstaged : ¬ Bodiless.NothingStaged
        (Script.connected [continueHead ++ (shortHead ++ ascii "hi")]) [continueMessage] := by
      decide +kernel
    rw [(bodiless_responses_returned_iff (Script.connectedFeed _) [continueMessage] .get rfl
      hcarries isHead_shortHead shortHead_fits).1]
    exact hstaged
  · have hcarries := Script.connectedFeed_carries [continueHead ++ (shortHead ++ ascii "hi")]
      (List.append_nil _)
    have hstaged : ((continueMessage.read (Script.connected
        [continueHead ++ (shortHead ++ ascii "hi")])).1.map Response.staged).toOption
          = some (shortHead ++ ascii "hi") := by decide +kernel
    obtain ⟨r, later, hread, -, hbehind, hlater, hphase⟩ :=
      Bodiless.read_of_idle (m := continueMessage) (F := Script.connectedFeed _) rfl
        ⟨rfl, hcarries⟩
    rw [hread] at hstaged
    have hrest : later = [] := by
      rw [← Option.some.inj hstaged] at hbehind
      exact List.append_cancel_left (hbehind.symm.trans (List.append_nil _).symm)
    subst hrest
    exact Response.read_ended .get hphase rfl hlater (by decide)

end HttpExchange
