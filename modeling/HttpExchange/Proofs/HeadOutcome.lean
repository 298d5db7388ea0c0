import HttpExchange.Proofs.HeadLanguage
import HttpExchange.Proofs.HeadReading
import HttpExchange.Proofs.ScriptFeed

/-!
# What becomes of a head

The head of a response is read piece by piece, but what becomes of it depends on the stream
alone: on its bytes as far as they fit, on its end, and on the room there is
(`Head.verdict`). The rules are those of the language of heads (`Head.Rules`). And nothing is
read without need: every read is made while nothing is decided and there is room, and none
after the end of the stream (`Head.Polls`, `Head.Settles`).

* `Head.receive_polls`: reading a head is polling and then settling.
* `Head.rules_verdict`: the verdict goes by the rules.
* `Response.read_head`: so does every response that is read on an idle link.
-/

namespace HttpExchange

/-- The head that a status line and accepted header lines make. -/
theorem IsHead.of_fields {first : Bytes} {line : StatusLine} {fields : List Bytes}
    (hfirst : ¬ Bytes.crlf <:+: first) (hline : StatusLine.IsStatusLine first line)
    (hfields : ∀ f ∈ fields, Bytes.IsLine f ∧ Header.IsFieldLine f) :
    IsHead (first ++ Bytes.crlf ++ (Bytes.unlines fields ++ Bytes.crlf)) line
      ⟨Bytes.unlines fields⟩ := by
  have hlines (f : Bytes) (hf : f ∈ fields) : Bytes.IsLine f := (hfields f hf).1
  refine ⟨by simpa using HeadScan.of_head hfirst hline hlines [], ?_⟩
  rw [HeaderBlock.fault?_eq_none_iff, Bytes.lines_unlines hlines]
  exact fun f hf => (hfields f hf).2

/-! ## Verdicts -/

/-- How a stream fails a head that it ends in. -/
inductive Ending.Fails : Ending → Failure → Prop
  | finished : Fails .finished (.cutOff .head)
  | broken (failure : TransportFailure) : Fails (.broken failure) (.network failure)

namespace Head

/-- Why a head is not there as a whole: there is no room for it, or the stream has ended. -/
def shortage (ended : Failure) (capacity : Nat) (text : Bytes) (statusSeen : Bool) : Failure :=
  if capacity ≤ text.length then .tooLong (overflow statusSeen) else ended

/-- What the bytes of a stream amount to, as far as they fit. -/
def verdict (ended : Failure) (capacity : Nat) (text : Bytes) :
    Except Failure (StatusLine × List Bytes) :=
  match HeadScan.of (text.take capacity) with
  | .malformed fault => .error (.badStatus fault)
  | .incomplete statusSeen => .error (shortage ended capacity text statusSeen)
  | .complete line block _ =>
    match block.fault? with
    | some fault => .error (.badHeader fault)
    | none => .ok (line, Bytes.lines block.raw)

/-- The rules of heads: what becomes of a text that ends with the failure `ended`, and of which
`capacity` bytes fit. -/
structure Rules (ended : Failure) (capacity : Nat) (text : Bytes)
    (outcome : Except Failure (StatusLine × List Bytes)) : Prop where
  noLine : ¬ Bytes.crlf <:+: text.take capacity →
    outcome = .error (shortage ended capacity text false)
  badStatus {first rest : Bytes} :
    text.take capacity = first ++ Bytes.crlf ++ rest → ¬ Bytes.crlf <:+: first →
    (∀ line, ¬ StatusLine.IsStatusLine first line) →
    ∃ fault, outcome = .error (.badStatus fault)
  noBlankLine {first rest : Bytes} {line : StatusLine} :
    text.take capacity = first ++ Bytes.crlf ++ rest → ¬ Bytes.crlf <:+: first →
    StatusLine.IsStatusLine first line → ¬ Bytes.crlf ++ Bytes.crlf <:+: Bytes.crlf ++ rest →
    outcome = .error (shortage ended capacity text true)
  blankLine {first rest : Bytes} {line : StatusLine} :
    text.take capacity = first ++ Bytes.crlf ++ rest → ¬ Bytes.crlf <:+: first →
    StatusLine.IsStatusLine first line → Bytes.crlf ++ Bytes.crlf <:+: Bytes.crlf ++ rest →
    ∃ fields after, (∀ f ∈ fields, Bytes.IsLine f) ∧
      rest = Bytes.unlines fields ++ (Bytes.crlf ++ after) ∧
      ((∃ f ∈ fields, ¬ Header.IsFieldLine f) → ∃ fault, outcome = .error (.badHeader fault)) ∧
      ((∀ f ∈ fields, Header.IsFieldLine f) → outcome = .ok (line, fields))
  fits {first : Bytes} {line : StatusLine} {fields : List Bytes} {head body : Bytes} :
    head = first ++ Bytes.crlf ++ (Bytes.unlines fields ++ Bytes.crlf) → text = head ++ body →
    ¬ Bytes.crlf <:+: first → StatusLine.IsStatusLine first line →
    (∀ f ∈ fields, Bytes.IsLine f ∧ Header.IsFieldLine f) →
    (head.length ≤ capacity → outcome = .ok (line, fields)) ∧
    (capacity < head.length → ∃ part, outcome = .error (.tooLong part))

theorem verdict_of_complete {ended : Failure} {capacity : Nat} {text after : Bytes}
    {line : StatusLine} {fields : List Bytes} (hfields : ∀ f ∈ fields, Bytes.IsLine f)
    (h : HeadScan.of (text.take capacity) = .complete line ⟨Bytes.unlines fields⟩ after) :
    ((∃ f ∈ fields, ¬ Header.IsFieldLine f) →
      ∃ fault, verdict ended capacity text = .error (.badHeader fault)) ∧
    ((∀ f ∈ fields, Header.IsFieldLine f) → verdict ended capacity text = .ok (line, fields)) := by
  have hlines := Bytes.lines_unlines hfields
  have hfault : HeaderBlock.fault? ⟨Bytes.unlines fields⟩ = none
      ↔ ∀ f ∈ fields, Header.IsFieldLine f := by
    rw [HeaderBlock.fault?_eq_none_iff, hlines]
  unfold verdict
  rw [h]
  dsimp only
  cases hf : HeaderBlock.fault? ⟨Bytes.unlines fields⟩ with
  | none =>
      rw [hlines]
      refine ⟨?_, fun _ => rfl⟩
      rintro ⟨f, hmem, hnot⟩
      exact absurd (hfault.mp hf f hmem) hnot
  | some fault =>
      refine ⟨fun _ => ⟨fault, rfl⟩, ?_⟩
      intro hall
      rw [hfault.mpr hall] at hf
      cases hf

/-- **The verdict goes by the rules.** -/
theorem rules_verdict (ended : Failure) (capacity : Nat) (text : Bytes) :
    Rules ended capacity text (verdict ended capacity text) where
  noLine h := by
    unfold verdict
    rw [HeadScan.of_no_line h]
  badStatus {first rest} htext hfirst hbad := by
    obtain ⟨fault, hof⟩ := HeadScan.of_bad_status hfirst hbad rest
    refine ⟨fault, ?_⟩
    unfold verdict
    rw [htext, hof]
  noBlankLine {first rest line} htext hfirst hline hblank := by
    unfold verdict
    rw [htext, HeadScan.of_no_blank_line hfirst hline hblank]
  blankLine {first rest line} htext hfirst hline hblank := by
    obtain ⟨fields, after, hfields, rfl⟩ := Bytes.exists_fields hblank
    have hof : HeadScan.of (text.take capacity)
        = .complete line ⟨Bytes.unlines fields⟩ after := by
      rw [htext, HeadScan.of_head hfirst hline hfields]
    exact ⟨fields, after, hfields, rfl, verdict_of_complete hfields hof⟩
  fits {first line fields head body} hhead htext hfirst hline hfields := by
    have hlines (f : Bytes) (hf : f ∈ fields) : Bytes.IsLine f := (hfields f hf).1
    have hof (more : Bytes) :
        HeadScan.of (head ++ more) = .complete line ⟨Bytes.unlines fields⟩ more := by
      rw [hhead]
      simpa only [List.append_assoc] using HeadScan.of_head hfirst hline hlines more
    constructor
    · intro hfit
      have htake : text.take capacity = head ++ body.take (capacity - head.length) := by
        rw [htext, List.take_append, List.take_of_length_le hfit]
      refine (verdict_of_complete hlines (by rw [htake, hof])).2 ?_
      exact fun f hf => (hfields f hf).2
    · intro hfull
      have hhead' : IsHead (head.take capacity ++ head.drop capacity) line
          ⟨Bytes.unlines fields⟩ := by
        rw [List.take_append_drop, hhead]
        exact .of_fields hfirst hline hfields
      have hmissing : head.drop capacity ≠ [] := by
        rw [Ne, List.drop_eq_nil_iff]
        omega
      obtain ⟨statusSeen, hincomplete⟩ := hhead'.of_front hmissing
      have htake : text.take capacity = head.take capacity := by
        rw [htext, List.take_append_of_le_length (Nat.le_of_lt hfull)]
      have hroom : capacity ≤ text.length := by
        rw [htext, List.length_append]
        omega
      refine ⟨overflow statusSeen, ?_⟩
      unfold verdict
      rw [htake, hincomplete]
      dsimp only
      rw [shortage, if_pos hroom]

/-! ## Polling -/

variable {σ : Type} [SecureTransport σ]

/-- Reads into a buffer of `capacity` bytes, from what was received so far and a link to what
is received then and the link after that. Each is made while nothing is decided, asks for no
more than there is room for, and brings something. -/
inductive Polls (capacity : Nat) : Bytes → Link σ → Bytes → Link σ → Prop
  | done (received : Bytes) (l : Link σ) : Polls capacity received l received l
  | read {received received' piece : Bytes} {l l₁ l' : Link σ} {statusSeen : Bool} :
    HeadScan.of received = .incomplete statusSeen → received.length < capacity →
    l.read (capacity - received.length) = (.ok piece, l₁) → piece ≠ [] →
    Polls capacity (received ++ piece) l₁ received' l' → Polls capacity received l received' l'

/-- What ends the reading of a head: it is decided, or the buffer is full, and then nothing
more is read; or the stream ends, with one read that says so. -/
inductive Settles (capacity : Nat) (received : Bytes) (l : Link σ) :
    Except Failure Head × Link σ → Prop
  | malformed {fault : StatusFault} : HeadScan.of received = .malformed fault →
    Settles capacity received l (.error (.badStatus fault), l)
  | faulty {line : StatusLine} {block : HeaderBlock} {rest : Bytes} {fault : HeaderFault} :
    HeadScan.of received = .complete line block rest → block.fault? = some fault →
    Settles capacity received l (.error (.badHeader fault), l)
  | whole {line : StatusLine} {block : HeaderBlock} {rest : Bytes} :
    HeadScan.of received = .complete line block rest → block.fault? = none →
    Settles capacity received l
      (.ok ⟨line, block, rest, capacity - (received.length - rest.length)⟩, l)
  | full {statusSeen : Bool} : HeadScan.of received = .incomplete statusSeen →
    capacity ≤ received.length →
    Settles capacity received l (.error (.tooLong (overflow statusSeen)), l)
  | ended {statusSeen : Bool} {l' : Link σ} : HeadScan.of received = .incomplete statusSeen →
    received.length < capacity → l.read (capacity - received.length) = (.ok [], l') →
    Settles capacity received l (.error (.cutOff .head), l')
  | failed {statusSeen : Bool} {failure : TransportFailure} {l' : Link σ} :
    HeadScan.of received = .incomplete statusSeen → received.length < capacity →
    l.read (capacity - received.length) = (.error failure, l') →
    Settles capacity received l (.error (.network failure), l')

/-- **Reading a head is polling and then settling**, whatever the transport does. -/
theorem receive_polls (l : Link σ) (capacity : Nat) (received : Bytes) :
    ∃ received' l', Polls capacity received l received' l' ∧
      Settles capacity received' l' (receive l capacity received) := by
  rw [receive]
  cases hof : HeadScan.of received with
  | malformed fault => exact ⟨received, l, .done received l, .malformed hof⟩
  | complete line block rest =>
      dsimp only
      cases hfault : block.fault? with
      | some fault => exact ⟨received, l, .done received l, .faulty hof hfault⟩
      | none => exact ⟨received, l, .done received l, .whole hof hfault⟩
  | incomplete statusSeen =>
      dsimp only
      by_cases hfull : capacity ≤ received.length
      · rw [if_pos hfull]
        exact ⟨received, l, .done received l, .full hof hfull⟩
      · have hroom : received.length < capacity := Nat.lt_of_not_le hfull
        rw [if_neg hfull]
        cases hread : l.read (capacity - received.length) with
        | mk outcome l₁ =>
            cases outcome with
            | error failure => exact ⟨received, l, .done received l, .failed hof hroom hread⟩
            | ok piece =>
                cases piece with
                | nil => exact ⟨received, l, .done received l, .ended hof hroom hread⟩
                | cons b bytes =>
                    obtain ⟨received', l', hpolls, hsettles⟩ :=
                      receive_polls l₁ capacity (received ++ b :: bytes)
                    exact ⟨received', l', .read hof hroom hread (List.cons_ne_nil b bytes) hpolls,
                      hsettles⟩
termination_by capacity - received.length
decreasing_by simp only [List.length_append, List.length_cons]; omega

/-! ## Polling a stream -/

variable {receive : σ → Nat → Except TransportFailure Bytes × σ} {ending : Ending}
  {F : Feed receive ending} {ended : Failure} {capacity : Nat} {received : Bytes} {l : Link σ}

/-- What a stream comes to that has ended. -/
theorem read_ended (hend : ending.Fails ended) (hon : F.On l []) {n : Nat} (hn : 0 < n) :
    (∃ l', l.read n = (.ok [], l') ∧ ended = .cutOff .head) ∨
      ∃ failure l', l.read n = (.error failure, l') ∧ ended = .network failure := by
  cases hend with
  | finished =>
      obtain ⟨wire, hread, -⟩ := Feed.on_read_finished hon rfl hn
      exact .inl ⟨_, hread, rfl⟩
  | broken failure =>
      obtain ⟨wire, hread, -⟩ := Feed.on_read_broken hon rfl hn
      exact .inr ⟨failure, _, hread, rfl⟩

/-- What was received and what is still to come are together the stream. -/
theorem Polls.on (hend : ending.Fails ended) {received' coming : Bytes} {l' : Link σ}
    (h : Polls capacity received l received' l') (hon : F.On l coming)
    (hfit : received.length ≤ capacity) :
    ∃ later, F.On l' later ∧ received' ++ later = received ++ coming ∧
      received'.length ≤ capacity := by
  induction h generalizing coming with
  | done received l => exact ⟨coming, hon, rfl, hfit⟩
  | read hof hroom hread hne _ ih =>
      have hpos : 0 < capacity - List.length _ := Nat.sub_pos_of_lt hroom
      by_cases hcoming : coming = []
      · -- At its end the stream brings nothing.
        subst hcoming
        rcases read_ended hend hon hpos with ⟨l', hend', -⟩ | ⟨failure, l', hend', -⟩
        · rw [hread] at hend'
          cases hend'
          exact absurd rfl hne
        · rw [hread] at hend'
          cases hend'
      · obtain ⟨piece, rest, wire, hread', -, hle, rfl, hrest⟩ := Feed.on_read hon hcoming hpos
        rw [hread] at hread'
        cases hread'
        obtain ⟨later, hlater, heq, hfit'⟩ := ih hrest (by rw [List.length_append]; omega)
        exact ⟨later, hlater, by rw [heq, List.append_assoc], hfit'⟩

/-- What a head says. -/
def stated (head : Head) : StatusLine × List Bytes := (head.line, Bytes.lines head.block.raw)

theorem Settles.ends (hend : ending.Fails ended) {later : Bytes} (hon : F.On l later)
    {statusSeen : Bool} (hof : HeadScan.of received = .incomplete statusSeen)
    (hroom : received.length < capacity) {result : Except TransportFailure Bytes} {l' : Link σ}
    (hread : l.read (capacity - received.length) = (result, l'))
    (hnothing : ∀ piece, result = .ok piece → piece = []) :
    verdict ended capacity (received ++ later) = .error ended ∧
      (result = .ok [] ∧ ended = .cutOff .head ∨
        ∃ failure, result = .error failure ∧ ended = .network failure) := by
  have hpos : 0 < capacity - received.length := Nat.sub_pos_of_lt hroom
  have hlater : later = [] := by
    by_contra hne
    obtain ⟨piece, rest, wire, hread', hpiece, -⟩ := Feed.on_read hon hne hpos
    rw [hread] at hread'
    exact hpiece (hnothing piece (congrArg Prod.fst hread'))
  subst hlater
  constructor
  · unfold verdict
    rw [List.append_nil, List.take_of_length_le (Nat.le_of_lt hroom), hof]
    dsimp only
    rw [shortage, if_neg (Nat.not_le_of_lt hroom)]
  · rcases read_ended hend hon hpos with ⟨l₂, hread', hended⟩ | ⟨failure, l₂, hread', hended⟩
    · rw [hread] at hread'
      exact .inl ⟨congrArg Prod.fst hread', hended⟩
    · rw [hread] at hread'
      exact .inr ⟨failure, congrArg Prod.fst hread', hended⟩

/-- **What is settled is the verdict on the stream.** -/
theorem Settles.verdict_eq (hend : ending.Fails ended) {later : Bytes}
    {result : Except Failure Head × Link σ} (h : Settles capacity received l result)
    (hon : F.On l later) (hfit : received.length ≤ capacity) :
    result.1.map stated = verdict ended capacity (received ++ later) := by
  have htake : (received ++ later).take capacity
      = received ++ later.take (capacity - received.length) := by
    rw [List.take_append, List.take_of_length_le hfit]
  cases h with
  | malformed hof =>
      unfold verdict
      rw [htake, HeadScan.of_malformed_append hof]
      rfl
  | faulty hof hfault =>
      unfold verdict
      rw [htake, HeadScan.of_complete_append hof]
      dsimp only
      rw [hfault]
      rfl
  | whole hof hfault =>
      unfold verdict
      rw [htake, HeadScan.of_complete_append hof]
      dsimp only
      rw [hfault]
      rfl
  | full hof hfull =>
      unfold verdict
      rw [htake, Nat.sub_eq_zero_of_le hfull, List.take_zero, List.append_nil, hof]
      dsimp only
      rw [shortage, if_pos (by rw [List.length_append]; omega)]
      rfl
  | ended hof hroom hread =>
      obtain ⟨hverdict, ⟨-, rfl⟩ | ⟨failure, hfailure, -⟩⟩ :=
        Settles.ends hend hon hof hroom hread fun piece h => (Except.ok.inj h).symm
      · rw [hverdict]
        rfl
      · cases hfailure
  | failed hof hroom hread =>
      obtain ⟨hverdict, ⟨hnothing, -⟩ | ⟨failure, hfailure, rfl⟩⟩ :=
        Settles.ends hend hon hof hroom hread fun piece h => by cases h
      · cases hnothing
      · cases hfailure
        rw [hverdict]
        rfl

end Head

/-! ## Responses -/

namespace Response

/-- What the head of a response said. -/
def stated (r : Response) : StatusLine × List Bytes :=
  (⟨r.status, r.reason⟩, Bytes.lines r.block.raw)

variable {σ : Type} [SecureTransport σ]
  {receive : σ → Nat → Except TransportFailure Bytes × σ} {ending : Ending}
  {F : Feed receive ending} {ended : Failure} {l : Link σ}

theorem read_of_receive (hidle : l.phase = .idle) (method : Method) (capacity : Nat) :
    (Response.read l method capacity).1.map stated
        = (Head.receive l capacity []).1.map Head.stated ∧
      (Response.read l method capacity).2.wire = (Head.receive l capacity []).2.wire := by
  unfold Response.read
  rw [Connection.ensureReusable_of_idle hidle]
  dsimp only
  cases Head.receive l capacity [] with
  | mk outcome l' =>
      cases outcome with
      | error failure => exact ⟨rfl, rfl⟩
      | ok head => exact ⟨rfl, rfl⟩

/-- **What becomes of a head.** On an idle link the outcome of a read is the verdict on the
stream, which goes by the rules; and the reads that are made of the transport are those of
polling and settling. -/
theorem read_head (hend : ending.Fails ended) (hidle : l.phase = .idle) {text : Bytes}
    (hon : F.On l text) (method : Method) (capacity : Nat) :
    (Response.read l method capacity).1.map stated = Head.verdict ended capacity text ∧
    Head.Rules ended capacity text ((Response.read l method capacity).1.map stated) ∧
    ∃ received l₁, Head.Polls capacity [] l received l₁ ∧
      Head.Settles capacity received l₁ (Head.receive l capacity []) ∧
      (Response.read l method capacity).2.wire = (Head.receive l capacity []).2.wire := by
  obtain ⟨houtcome, hwire⟩ := read_of_receive hidle method capacity
  obtain ⟨received, l₁, hpolls, hsettles⟩ := Head.receive_polls l capacity []
  obtain ⟨later, hlater, htext, hfit⟩ := hpolls.on hend hon (Nat.zero_le capacity)
  have hverdict := hsettles.verdict_eq hend hlater hfit
  rw [htext, List.nil_append, ← houtcome] at hverdict
  refine ⟨hverdict, ?_, received, l₁, hpolls, hsettles, hwire⟩
  rw [hverdict]
  exact Head.rules_verdict ended capacity text

def tightHead : Bytes := ascii "HTTP/1.1 204 No Content\r\nA: b\r\n\r\n"

/-- A head and what follows it, cut within each CRLF. -/
def tightSegments : List Bytes :=
  [ascii "HTTP/1.1 204 No Content\r", ascii "\nA: b\r", ascii "\n\r", ascii "\nHTTP"]

/-- With room for every byte of the head it is read, and with one byte less it is too long. -/
theorem read_head_tight :
    (Response.read (Script.connected tightSegments) .get 33).1.map stated
        = .ok (⟨⟨204⟩, ascii "No Content"⟩, [ascii "A: b"]) ∧
    ∃ part, (Response.read (Script.connected tightSegments) .get 32).1.map stated
        = .error (.tooLong part) := by
  have hon : (Script.connectedFeed tightSegments).On (Script.connected tightSegments)
      (tightHead ++ ascii "HTTP") :=
    ⟨rfl, Script.connectedFeed_carries tightSegments (by decide +kernel)⟩
  have hhead : tightHead = ascii "HTTP/1.1 204 No Content" ++ Bytes.crlf
      ++ (Bytes.unlines [ascii "A: b"] ++ Bytes.crlf) := by decide +kernel
  have hfirst : Bytes.OneLine (ascii "HTTP/1.1 204 No Content") := by decide +kernel
  have hline : StatusLine.IsStatusLine (ascii "HTTP/1.1 204 No Content")
      ⟨⟨204⟩, ascii "No Content"⟩ := StatusLine.parse_eq_ok_iff.mp (by decide +kernel)
  have hfields : ∀ f ∈ [ascii "A: b"], Bytes.IsLine f ∧ Header.IsFieldLine f := by
    have hfield : Bytes.OneLine (ascii "A: b") := by decide
    rw [List.forall_mem_singleton]
    exact ⟨⟨by decide, hfield.no_crlf⟩, Header.lineFault?_eq_none_iff.mp (by decide)⟩
  have hlength : tightHead.length = 33 := by decide +kernel
  obtain ⟨-, hrules, -⟩ := read_head .finished rfl hon .get 33
  obtain ⟨-, hrules', -⟩ := read_head .finished rfl hon .get 32
  exact ⟨(hrules.fits hhead rfl hfirst.no_crlf hline hfields).1 (by omega),
    (hrules'.fits hhead rfl hfirst.no_crlf hline hfields).2 (by omega)⟩

end Response

end HttpExchange
