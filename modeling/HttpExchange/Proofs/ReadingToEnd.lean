import HttpExchange.Proofs.ChunkedBody
import HttpExchange.Proofs.ReceiveRegion

/-!
# Three ways to the end of a body

What is left of a body can be read on, counted or collected in the receive buffer. The three
agree, after any number of reads, on what is left and on the phase in which the connection is
then; only what does not fit into the part of the buffer behind the head is not collected.
That part is filled to its last byte, and nothing outside it is written.

* `Framing.Whole.outlook_eq`: what a whole body makes a reader expect.
* `Reading.Expects.after_part`: what reads leave of it.
* `readToEnd_agrees`: the three ways, for every framing.
-/

namespace HttpExchange

open Relation (ReflTransGen)

/-! ## Whole bodies -/

/-- A text that starts with a whole body: what the body stands for, the phase that it leaves and
what follows it. -/
inductive Framing.Whole (ending : Ending) : Framing → Bytes → Bytes → Phase → Bytes → Prop
  | fixed (payload rest : Bytes) :
      Whole ending (.fixed payload.length) (payload ++ rest) payload .idle rest
  | chunked {text payload : Bytes} (isBody : ChunkText.IsBody text payload) (rest : Bytes) :
      Whole ending .chunked (text ++ rest) payload .idle rest
  | toClose (ended : ending = .finished) (payload : Bytes) :
      Whole ending .toClose payload payload .closed []

theorem Framing.Whole.outlook_eq {ending : Ending} {framing : Framing} {body payload rest : Bytes}
    {phase : Phase} (h : Whole ending framing body payload phase rest) :
    framing.outlook ending body = ⟨payload, .complete phase rest⟩ := by
  cases h with
  | fixed =>
      show (Progress.fixed payload.length).outlook ending (payload ++ rest) = _
      have hlong : ¬ (payload ++ rest).length < payload.length := by
        rw [List.length_append]
        omega
      rw [Progress.outlook, if_neg hlong, List.take_left, List.drop_left]
  | chunked isBody =>
      show (ChunkText.decode _).outlook ending = _
      rw [ChunkText.decode_of_isBody isBody]
      rfl
  | toClose ended =>
      subst ended
      rfl

namespace Reading

variable {σ : Type} [SecureTransport σ]
  {receive : σ → Nat → Except TransportFailure Bytes × σ} {ending : Ending}
  {F : Feed receive ending} {x : Reading σ} {left rest : Bytes} {phase : Phase}

/-! ## Reads before -/

/-- Reads keep a source inside its part of the buffer. -/
theorem contained_after (h : x.reader.source.Contained) (sizes : Nat → Nat) (i : Nat) :
    (x.after sizes i).reader.source.Contained ∧
      (x.after sizes i).reader.source.capacity = x.reader.source.capacity := by
  induction i with
  | zero => exact ⟨h, rfl⟩
  | succ i ih =>
      obtain ⟨hi, hcapacity⟩ := ih
      obtain ⟨hcontained, hcapacity'⟩ :=
        Source.contained_of_moves (obeys_read hi (sizes i)).1.moves hi
      exact ⟨hcontained, hcapacity'.trans hcapacity⟩

/-- **Reads take a part of what is left**, piece by piece. -/
theorem Expects.after_part (h : Expects F x ⟨left, .complete phase rest⟩) (sizes : Nat → Nat)
    (i : Nat) : ∃ (pieces : List Bytes) (more : Bytes), pieces.length = i ∧
      (∀ j piece, pieces[j]? = some piece → x.result sizes j = .ok piece) ∧
      left = pieces.flatten ++ more ∧ Expects F (x.after sizes i) ⟨more, .complete phase rest⟩ := by
  induction i with
  | zero =>
      refine ⟨[], left, rfl, ?_, rfl, h⟩
      intro j piece hj
      cases hj
  | succ i ih =>
      obtain ⟨pieces, more, hlength, hpieces, rfl, hi⟩ := ih
      obtain ⟨part, more, y, hread, rfl, -, -, hy⟩ := hi.read_part (sizes i)
      refine ⟨pieces ++ [part], more, ?_, ?_, ?_, ?_⟩
      · rw [List.length_append, hlength]
        rfl
      · intro j piece hj
        rcases Nat.lt_trichotomy j pieces.length with hlt | rfl | hgt
        · rw [List.getElem?_append_left hlt] at hj
          exact hpieces j piece hj
        · rw [List.getElem?_concat_length] at hj
          cases hj
          rw [hlength, result, hread]
        · have hout : (pieces ++ [part]).length ≤ j := by
            rw [List.length_append, List.length_singleton]
            omega
          rw [List.getElem?_eq_none hout] at hj
          cases hj
      · rw [List.flatten_append, List.flatten_singleton, List.append_assoc]
      · rw [Reading.after, hread]
        exact hy

/-! ## The three ways -/

/-- What is left of a body can be taken in three ways, in a receive buffer with some room behind
the head. -/
structure Drains (x : Reading σ) (left : Bytes) (phase : Phase) (room : Nat) : Prop where
  /-- It is read on, in reads of one size. -/
  read {n : Nat} : 0 < n → ∃ pieces y, x.readAll n = (pieces, .ok (), y) ∧ pieces.flatten = left ∧
    y.link.phase = phase
  /-- It is counted. -/
  counted : ∃ y, x.discard = (.ok left.length, y) ∧ y.link.phase = phase
  /-- It is collected at the front of the room if it fits. -/
  collected : left.length ≤ room → ∃ y, x.readToEnd = (.ok left, y) ∧
    y.reader.source.memory.take left.length = left ∧ y.link.phase = phase
  excess : room < left.length → ∃ y, x.readToEnd = (.error (.tooLong .body), y) ∧
    y.link.phase = .poisoned
  /-- To that end the room is used by moves that lose nothing, and nothing else is. -/
  moves : ReflTransGen Source.Move x.reader.source x.readToEnd.2.reader.source
  within : x.reader.source.Contained ∧ x.reader.source.capacity = room ∧
    x.readToEnd.2.reader.source.memory.length ≤ room

theorem Expects.drains (h : Expects F x ⟨left, .complete phase rest⟩)
    (hcontained : x.reader.source.Contained) :
    x.Drains left phase x.reader.source.capacity := by
  have hmoves := moves_readToEnd hcontained
  constructor
  · intro n hn
    obtain ⟨pieces, y, hread, hpieces, hy⟩ := h.readAll hn
    exact ⟨pieces, y, hread, hpieces, hy.phase_eq⟩
  · obtain ⟨y, hdiscard, hy⟩ := h.discard
    exact ⟨y, hdiscard, hy.phase_eq⟩
  · intro hroom
    obtain ⟨y, hread, hmemory, hy⟩ := h.readToEnd hroom
    exact ⟨y, hread, hmemory, hy.phase_eq⟩
  · intro hexcess
    obtain ⟨y, hread, -, hphase⟩ := h.readToEnd_excess hexcess
    exact ⟨y, hread, hphase⟩
  · exact hmoves
  · obtain ⟨hlast, hcapacity⟩ := Source.contained_of_moves hmoves hcontained
    exact ⟨hcontained, rfl, hcapacity ▸ hlast.within⟩

end Reading

/-- **The three ways to the end of a body agree.** A response with a whole body, of whatever
framing, is read in whatever pieces it arrives, and then read from any number of times. What is
left is what was not handed out; reading on, counting and collecting take exactly that and leave
the same phase, and collecting fails only for what does not fit behind the head. The head is left
as it was. -/
theorem readToEnd_agrees {σ : Type} [SecureTransport σ] {l : Link σ} {ending : Ending}
    (F : Feed l.connection.form.receive ending) {head body payload rest : Bytes}
    {line : StatusLine} {block : HeaderBlock} {method : Method} {capacity : Nat} {phase : Phase}
    (hidle : l.phase = .idle) (hhead : IsHead head line block) (hfit : head.length ≤ capacity)
    (hcarries : F.carries l.wire (head ++ body))
    (hwhole : (Framing.decide method line.status block).Whole ending body payload phase rest) :
    ∃ r reader l', Response.read l method capacity = (.ok r, l') ∧ r.body.1 = .ok reader ∧
      ∀ sizes i, ∃ (pieces : List Bytes) (left : Bytes), pieces.length = i ∧
        (∀ j piece, pieces[j]? = some piece →
          (Reading.mk reader l').result sizes j = .ok piece) ∧
        payload = pieces.flatten ++ left ∧
        ((Reading.mk reader l').after sizes i).Drains left phase (capacity - head.length) ∧
        ∃ memory, ((Reading.mk reader l').after sizes i).readToEnd.2.reader.source.memory = memory ∧
          (head ++ memory).length ≤ capacity ∧
          HeadScan.of (head ++ memory) = .complete line block memory := by
  obtain ⟨staged, later, l', hread, rfl, hstaged, hlater, hholds⟩ :=
    Response.read_isHead method hidle hhead hfit ⟨rfl, hcarries⟩
  refine ⟨_, _, l', hread, rfl, ?_⟩
  intro sizes i
  have hexpects : Reading.Expects F ⟨.make (Framing.decide method line.status block)
      (capacity - head.length) staged, l'⟩ ⟨payload, .complete phase rest⟩ := by
    rw [← hwhole.outlook_eq]
    refine Reading.expects_make hlater ?_
    intro hempty
    rw [hholds.phase_eq]
    show (if (Framing.decide method line.status block).isEmpty then Phase.idle else .inBody) = .idle
    rw [hempty]
    rfl
  have hmade : (Source.ofStaged (capacity - head.length) staged).Contained :=
    ⟨Source.sound_ofStaged _ _, by show staged.length ≤ capacity - head.length; omega⟩
  obtain ⟨pieces, left, hlength, hpieces, heq, hi⟩ := hexpects.after_part sizes i
  obtain ⟨hcontained, hcapacity⟩ := Reading.contained_after
    (x := ⟨.make (Framing.decide method line.status block) _ staged, l'⟩) hmade sizes i
  have hdrains := hi.drains hcontained
  rw [hcapacity] at hdrains
  refine ⟨pieces, left, hlength, hpieces, heq, hdrains, _, rfl, ?_, hhead.of_append _⟩
  obtain ⟨-, -, hwithin⟩ := hdrains.within
  rw [List.length_append]
  exact Nat.add_le_of_le_sub' hfit hwithin

/-- A chunked body fills the room behind the head to its last byte, and its end is yet to come. -/
theorem readToEnd_agrees_wiki : ∃ r reader l' y,
    Response.read (Script.connected
        [chunkedHead ++ ascii "4\r", ascii "\nWiki\r\n0\r", ascii "\n\r\n"])
      .get (chunkedHead.length + 4) = (.ok r, l') ∧ r.body.1 = .ok reader ∧
      (Reading.mk reader l').readToEnd = (.ok (ascii "Wiki"), y) ∧ y.link.phase = .idle := by
  have hsegments : [chunkedHead ++ ascii "4\r", ascii "\nWiki\r\n0\r", ascii "\n\r\n"].flatten
      = chunkedHead ++ ascii "4\r\nWiki\r\n0\r\n\r\n" := by decide +kernel
  have hdecode : ChunkText.decode (ascii "4\r\nWiki\r\n0\r\n\r\n")
      = ⟨ascii "Wiki", .complete []⟩ := by decide +kernel
  obtain ⟨text, htext, hbody⟩ :=
    (ChunkText.decode_eq_complete_iff (ChunkText.countable_of_length (by decide +kernel))).mp hdecode
  have hwhole : (Framing.decide .get ⟨200⟩ ⟨ascii "Transfer-Encoding: chunked\r\n"⟩).Whole
      .finished (ascii "4\r\nWiki\r\n0\r\n\r\n") (ascii "Wiki") .idle [] := by
    rw [chunkedHead_chunked, htext]
    exact .chunked hbody []
  obtain ⟨r, reader, l', hread, hreader, hall⟩ :=
    readToEnd_agrees (Script.connectedFeed _) rfl isHead_chunkedHead (Nat.le_add_right _ 4)
      (Script.connectedFeed_carries _ hsegments) hwhole
  obtain ⟨pieces, left, hnone, -, hpayload, hdrains, -⟩ := hall (fun _ => 1) 0
  obtain rfl := List.eq_nil_of_length_eq_zero hnone
  obtain rfl : ascii "Wiki" = left := hpayload
  obtain ⟨y, hcollected, -, hphase⟩ := hdrains.collected (by
    rw [Nat.add_sub_cancel_left]
    decide)
  exact ⟨r, reader, l', y, hread, hreader, hcollected, hphase⟩

end HttpExchange
