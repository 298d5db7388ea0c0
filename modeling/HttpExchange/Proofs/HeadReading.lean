import HttpExchange.Proofs.BodyOutlook
import HttpExchange.Proofs.Lines
import HttpExchange.Proofs.ReaderCalls
import HttpExchange.Response

/-!
# Heads on a stream

What the first bytes of a stream amount to does not change as more of it arrives, once it
is decided. A head that stands at the front of a stream is therefore found whole in
whatever pieces it comes (`Head.receive_isHead`), and a response that was read has the whole
text behind its head before it (`Response.read_isHead`).
-/

namespace HttpExchange

/-! ## Decided scans -/

namespace HeadScan

theorem of_complete_append {s rest : Bytes} {line : StatusLine} {block : HeaderBlock}
    (h : HeadScan.of s = .complete line block rest) (more : Bytes) :
    HeadScan.of (s ++ more) = .complete line block (rest ++ more) := by
  unfold HeadScan.of at h
  split at h
  · cases h
  · rename_i text behind hline
    split at h
    · cases h
    · rename_i hparse
      split at h
      · cases h
      · rename_i hblank
        cases h
        unfold HeadScan.of
        rw [Bytes.cutLine_append hline more]
        dsimp only
        rw [hparse]
        dsimp only
        rw [← List.append_assoc, Bytes.cutBlankLine_append hblank more]

theorem of_malformed_append {s : Bytes} {fault : StatusFault}
    (h : HeadScan.of s = .malformed fault) (more : Bytes) :
    HeadScan.of (s ++ more) = .malformed fault := by
  unfold HeadScan.of at h
  split at h
  · cases h
  · rename_i text behind hline
    split at h
    · rename_i hparse
      cases h
      unfold HeadScan.of
      rw [Bytes.cutLine_append hline more]
      dsimp only
      rw [hparse]
    · split at h <;> cases h

end HeadScan

/-! ## Heads -/

/-- The text of a head that is accepted: a status line, a header block without a fault and
the empty line. -/
structure IsHead (text : Bytes) (line : StatusLine) (block : HeaderBlock) : Prop where
  complete : HeadScan.of text = .complete line block []
  faultless : block.fault? = none

namespace IsHead

variable {text more : Bytes} {line : StatusLine} {block : HeaderBlock}

theorem of_append (h : IsHead text line block) (more : Bytes) :
    HeadScan.of (text ++ more) = .complete line block more :=
  HeadScan.of_complete_append h.complete more

/-- As long as something of a head is missing, nothing is decided. -/
theorem of_front {front : Bytes} (h : IsHead (front ++ more) line block) (hmore : more ≠ []) :
    ∃ statusSeen, HeadScan.of front = .incomplete statusSeen := by
  have hcomplete := h.complete
  cases hof : HeadScan.of front with
  | incomplete statusSeen => exact ⟨statusSeen, rfl⟩
  | malformed fault =>
      rw [HeadScan.of_malformed_append hof] at hcomplete
      cases hcomplete
  | complete line' block' rest =>
      rw [HeadScan.of_complete_append hof, HeadScan.complete.injEq, List.append_eq_nil_iff]
        at hcomplete
      exact absurd hcomplete.2.2.2 hmore

end IsHead

variable {σ : Type} [SecureTransport σ]
  {receive : σ → Nat → Except TransportFailure Bytes × σ} {ending : Ending}
  {F : Feed receive ending}

/-- **A head at the front of a stream is found**, together with some of what follows it,
and the rest is still to come. -/
theorem Head.receive_isHead {l : Link σ} {head body received coming : Bytes}
    {line : StatusLine} {block : HeaderBlock} {capacity : Nat} (hhead : IsHead head line block)
    (hfit : head.length ≤ capacity) (hon : F.On l coming)
    (htext : received ++ coming = head ++ body) (hreceived : received.length ≤ capacity) :
    ∃ staged later wire,
      Head.receive l capacity received
        = (.ok ⟨line, block, staged, capacity - head.length⟩, { l with wire }) ∧
      body = staged ++ later ∧ head.length + staged.length ≤ capacity ∧
      F.On { l with wire } later := by
  have hwhole (staged : Bytes) (hr : received = head ++ staged) (hb : body = staged ++ coming) :
      ∃ staged later wire,
        Head.receive l capacity received
          = (.ok ⟨line, block, staged, capacity - head.length⟩, { l with wire }) ∧
        body = staged ++ later ∧ head.length + staged.length ≤ capacity ∧
        F.On { l with wire } later := by
    subst hr
    refine ⟨staged, coming, l.wire, ?_, hb, by rwa [← List.length_append], hon⟩
    rw [Head.receive, hhead.of_append]
    dsimp only
    rw [hhead.faultless, List.length_append, Nat.add_sub_cancel]
  -- Either something of the head is missing, or it was received with some of the body.
  rcases List.append_eq_append_iff.mp htext with ⟨missing, rfl, rfl⟩ | ⟨staged, hr, hb⟩
  · by_cases hmissing : missing = []
    · subst hmissing
      exact hwhole [] (by simp) rfl
    · obtain ⟨statusSeen, hof⟩ := hhead.of_front hmissing
      have hlen : 0 < missing.length := List.length_pos_iff.mpr hmissing
      have hroom : ¬ capacity ≤ received.length := by
        rw [List.length_append] at hfit
        omega
      obtain ⟨piece, rest, wire, hread, hne, hle, heq, hrest⟩ :=
        Feed.on_read hon (List.append_ne_nil_of_left_ne_nil hmissing body)
          (n := capacity - received.length) (by omega)
      obtain ⟨b, bytes, rfl⟩ := List.exists_cons_of_ne_nil hne
      have hmore : (received ++ b :: bytes) ++ rest = (received ++ missing) ++ body := by
        rw [List.append_assoc, List.append_assoc, heq]
      obtain ⟨staged, later, wire', hreceive, hbody, hstaged, hlater⟩ :=
        Head.receive_isHead hhead hfit hrest hmore (by rw [List.length_append]; omega)
      refine ⟨staged, later, wire', ?_, hbody, hstaged, hlater⟩
      rw [← hreceive]
      conv => lhs; rw [Head.receive]
      simp only [hof, hroom, if_false, hread]
  · exact hwhole staged hr hb
termination_by capacity - received.length
decreasing_by simp only [List.length_append, List.length_cons]; omega

/-! ## Responses -/

/-- What a body amounts to for the first reader of it. -/
def Framing.outlook (framing : Framing) (ending : Ending) (text : Bytes) : Outlook :=
  match framing with
  | .fixed n => (Progress.fixed n).outlook ending text
  | .chunked => (Progress.chunked .size).outlook ending text
  | .toClose => Progress.toClose.outlook ending text

/-- A first reader expects what its framing makes of the text behind the head. -/
theorem Reading.expects_make {l : Link σ} {framing : Framing} {room : Nat} {staged later : Bytes}
    (hon : F.On l later) (hphase : framing = .fixed 0 → l.phase = .idle) :
    Expects F ⟨.make framing room staged, l⟩ (framing.outlook ending (staged ++ later)) := by
  have before : Before F ⟨.make framing room staged, l⟩ (staged ++ later) :=
    ⟨Source.sound_ofStaged room staged, later, hon, by
      rw [BodyReader.make, Source.staged_ofStaged]⟩
  match framing with
  | .fixed 0 =>
      refine .finished rfl before ?_
      show Outlook.mk [] (.complete l.phase (staged ++ later)) = _
      rw [hphase rfl]
      rfl
  | .fixed (n + 1) => exact .unfinished rfl (Nat.succ_pos n) before rfl
  | .chunked => exact .unfinished rfl trivial before rfl
  | .toClose => exact .unfinished rfl trivial before rfl

/-- The response that a head makes, with the bytes that came with it. -/
def Response.ofParts (method : Method) (line : StatusLine) (block : HeaderBlock)
    (room : Nat) (staged : Bytes) : Response :=
  .ofHead method ⟨line, block, staged, room⟩

/-- **Reading a response on an idle link**: the head is taken off the stream, and what
follows it lies before a reader of the body. -/
theorem Response.read_isHead {l : Link σ} {head body : Bytes} {line : StatusLine}
    {block : HeaderBlock} {capacity : Nat} (method : Method) (hidle : l.phase = .idle)
    (hhead : IsHead head line block) (hfit : head.length ≤ capacity)
    (hon : F.On l (head ++ body)) :
    ∃ staged later l',
      Response.read l method capacity
        = (.ok (.ofParts method line block (capacity - head.length) staged), l') ∧
      body = staged ++ later ∧ head.length + staged.length ≤ capacity ∧ F.On l' later ∧
      Link.Holds (l.enter
        (Response.ofParts method line block (capacity - head.length) staged).phaseAfter) l' := by
  obtain ⟨staged, later, wire, hreceive, hbody, hstaged, hlater⟩ :=
    Head.receive_isHead hhead hfit hon (List.nil_append _) (Nat.zero_le capacity)
  refine ⟨staged, later, _, ?_, hbody, hstaged, (hlater.enter _).log .debug
    (Response.ofParts method line block (capacity - head.length) staged).summary, ⟨rfl, rfl⟩⟩
  unfold Response.read
  rw [Connection.ensureReusable_of_idle hidle]
  dsimp only
  rw [hreceive]
  rfl

/-- A stream that has ended seems to end in the head of a response. -/
theorem Response.read_ended {l : Link σ} {capacity : Nat} (method : Method)
    (hidle : l.phase = .idle) (hend : ending = .finished) (hon : F.On l [])
    (hcapacity : 0 < capacity) :
    (Response.read l method capacity).1 = .error (.cutOff .head) := by
  obtain ⟨wire, hread, -⟩ := Feed.on_read_finished hon hend hcapacity
  have hreceive : Head.receive l capacity [] = (.error (.cutOff .head), { l with wire }) := by
    have hroom : ¬ capacity ≤ ([] : Bytes).length := by
      rw [List.length_nil]
      omega
    have hof : HeadScan.of [] = .incomplete false := by decide
    rw [Head.receive, hof]
    dsimp only
    rw [if_neg hroom, List.length_nil, Nat.sub_zero, hread]
  unfold Response.read
  rw [Connection.ensureReusable_of_idle hidle]
  dsimp only
  rw [hreceive]

/-- The reader that a response hands out expects what its framing makes of the text behind
the head. -/
theorem Response.read_expects {l : Link σ} {head body : Bytes} {line : StatusLine}
    {block : HeaderBlock} {capacity : Nat} (method : Method) (hidle : l.phase = .idle)
    (hhead : IsHead head line block) (hfit : head.length ≤ capacity)
    (hon : F.On l (head ++ body)) :
    ∃ staged l', Response.read l method capacity
        = (.ok (.ofParts method line block (capacity - head.length) staged), l') ∧
      Reading.Expects F ⟨.make (Framing.decide method line.status block)
          (capacity - head.length) staged, l'⟩
        ((Framing.decide method line.status block).outlook ending body) ∧
      Link.Holds (l.enter l'.phase) l' := by
  obtain ⟨staged, later, l', hread, rfl, -, hlater, hholds⟩ :=
    Response.read_isHead method hidle hhead hfit hon
  refine ⟨staged, l', hread, Reading.expects_make hlater ?_, ?_⟩
  · intro hempty
    rw [hholds.phase_eq]
    show (if (Framing.decide method line.status block).isEmpty then Phase.idle else .inBody) = .idle
    rw [hempty]
    rfl
  · rw [hholds.phase_eq]
    exact hholds

/-! ## Some heads -/

def continueHead : Bytes := ascii "HTTP/1.1 100 Continue\r\n\r\n"

def chunkedHead : Bytes := ascii "HTTP/1.1 200 OK\r\nTransfer-Encoding: chunked\r\n\r\n"

def shortHead : Bytes := ascii "HTTP/1.1 200 OK\r\nContent-Length: 2\r\n\r\n"

theorem isHead_continueHead : IsHead continueHead ⟨⟨100⟩, ascii "Continue"⟩ ⟨[]⟩ :=
  ⟨by decide +kernel, by decide +kernel⟩

theorem isHead_chunkedHead : IsHead chunkedHead ⟨⟨200⟩, ascii "OK"⟩
    ⟨ascii "Transfer-Encoding: chunked\r\n"⟩ :=
  ⟨by decide +kernel, by decide +kernel⟩

theorem isHead_shortHead : IsHead shortHead ⟨⟨200⟩, ascii "OK"⟩ ⟨ascii "Content-Length: 2\r\n"⟩ :=
  ⟨by decide +kernel, by decide +kernel⟩

end HttpExchange
