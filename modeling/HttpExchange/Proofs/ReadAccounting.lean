import HttpExchange.Proofs.FailedRequests
import HttpExchange.Proofs.InertReaders
import HttpExchange.Proofs.ReadingToEnd
import HttpExchange.Proofs.Transcripts

/-!
# What a response costs in reads

Reading a response makes a call on the wire only where it needs more, and every such call brings a
byte at least or is the last one. So over the whole life of a response, its head and all uses of
its body, there is at most one call more than bytes were received, and none after the one that told
of the end of the stream or of a failure (`WireCall.Thrifty`), whatever the bytes are, in whatever
pieces they come and whatever the size of the buffer.

Every use of the body comes to an end: the loops inside go down with the budget of the reading, and
so does a loop of reads around it (`Reading.exists_isDone_after`).

* `Reading.attends_use`: the step, for every use of a reader.
* `Response.thrifty_reads`: the account of a response.
-/

namespace HttpExchange

/-! ## Logs of reads -/

namespace WireCall

/-- A read of a wire with this answer. -/
inductive IsRead (answer : Except TransportFailure Bytes) : WireCall → Prop
  | read (n : Nat) : IsRead answer (.read n answer)
  | receiveRecord (n : Nat) : IsRead answer (.receiveRecord n answer)

/-- A read that brings a piece. -/
def Brings (call : WireCall) (piece : Bytes) : Prop := IsRead (.ok piece) call ∧ piece ≠ []

/-- A read that tells of the end of the stream or of a failure. -/
def Ends (call : WireCall) : Prop :=
  IsRead (.ok []) call ∨ ∃ failure, IsRead (.error failure) call

/-- The bytes that a call has brought. -/
def received : WireCall → Bytes
  | .read _ (.ok data) | .receiveRecord _ (.ok data) => data
  | _ => []

/-- Reads of which every one brings something, but for the last one, which may tell of the end. -/
inductive Reads : List WireCall → Bytes → Prop
  | bringing {calls : List WireCall} {text : Bytes} : Log Brings calls text → Reads calls text
  | ended {calls : List WireCall} {last : WireCall} {text : Bytes} :
    Log Brings calls text → Ends last → Reads (calls ++ [last]) text

/-- The account of calls that have received a text: they are reads, at most one more than the text
has bytes, and none comes after one that told of the end of the stream or of a failure. -/
structure Thrifty (calls : List WireCall) (text : Bytes) : Prop where
  reads : ∀ call ∈ calls, ∃ answer, IsRead answer call
  received_eq : (calls.map received).flatten = text
  length_le : calls.length ≤ text.length + 1
  last {before after : List WireCall} {call : WireCall} :
    calls = before ++ call :: after → call.Ends → after = []

variable {calls more : List WireCall} {call : WireCall} {text text' piece : Bytes}

theorem IsRead.received_eq (h : IsRead (.ok piece) call) : call.received = piece := by
  cases h <;> rfl

theorem Ends.isRead (h : Ends call) : ∃ answer, IsRead answer call := by
  rcases h with h | ⟨failure, h⟩
  · exact ⟨_, h⟩
  · exact ⟨_, h⟩

theorem Ends.received_eq (h : Ends call) : call.received = [] := by
  rcases h with h | ⟨failure, h⟩
  · exact h.received_eq
  · cases h <;> rfl

theorem Brings.not_ends (h : Brings call piece) : ¬ Ends call := fun hends =>
  h.2 (h.1.received_eq.symm.trans hends.received_eq)

theorem Log.append {Well : WireCall → Bytes → Prop} (h : Log Well calls text)
    (h' : Log Well more text') : Log Well (calls ++ more) (text ++ text') := by
  induction h' with
  | nil =>
      rw [List.append_nil, List.append_nil]
      exact h
  | snoc _ hcall ih =>
      rw [← List.append_assoc, ← List.append_assoc]
      exact .snoc ih hcall

theorem Log.singleton {Well : WireCall → Bytes → Prop} (h : Well call piece) :
    Log Well [call] piece := by
  have hlog := Log.snoc .nil h
  rwa [List.nil_append, List.nil_append] at hlog

/-- Reads may follow those that have only brought something. -/
theorem Reads.after (h : Log Brings calls text) (h' : Reads more text') :
    Reads (calls ++ more) (text ++ text') := by
  cases h' with
  | bringing hmore => exact .bringing (h.append hmore)
  | ended hmore hends =>
      rw [← List.append_assoc]
      exact .ended (h.append hmore) hends

/-! ### Accounts -/

/-- What calls have received that have all brought something. -/
theorem Log.account (h : Log Brings calls text) :
    (∀ call ∈ calls, ∃ piece, Brings call piece) ∧ (calls.map received).flatten = text ∧
      calls.length ≤ text.length := by
  induction h with
  | nil => simp
  | snoc _ hcall ih =>
      obtain ⟨hbring, hreceived, hle⟩ := ih
      have hpos := List.length_pos_iff.mpr hcall.2
      refine ⟨?_, ?_, ?_⟩
      · intro call hmem
        rcases List.mem_append.mp hmem with hmem | hmem
        · exact hbring call hmem
        · obtain rfl := List.mem_singleton.mp hmem
          exact ⟨_, hcall⟩
      · rw [List.map_append, List.flatten_append, hreceived, List.map_singleton,
          List.flatten_singleton, hcall.1.received_eq]
      · rw [List.length_append, List.length_append, List.length_singleton]
        omega

/-- **Reads of which only the last tells of an end are thrifty.** -/
theorem Reads.thrifty (h : Reads calls text) : Thrifty calls text := by
  cases h with
  | bringing hlog =>
      obtain ⟨hbring, hreceived, hle⟩ := hlog.account
      refine ⟨?_, hreceived, Nat.le_succ_of_le hle, ?_⟩
      · intro call hmem
        obtain ⟨piece, hpiece⟩ := hbring call hmem
        exact ⟨_, hpiece.1⟩
      · rintro before after call rfl hends
        obtain ⟨piece, hpiece⟩ := hbring call (List.mem_append_right _ List.mem_cons_self)
        exact absurd hends hpiece.not_ends
  | @ended calls last _ hlog hlast =>
      obtain ⟨hbring, hreceived, hle⟩ := hlog.account
      refine ⟨?_, ?_, ?_, ?_⟩
      · intro call hmem
        rcases List.mem_append.mp hmem with hmem | hmem
        · obtain ⟨piece, hpiece⟩ := hbring call hmem
          exact ⟨_, hpiece.1⟩
        · obtain rfl := List.mem_singleton.mp hmem
          exact hlast.isRead
      · rw [List.map_append, List.flatten_append, hreceived, List.map_singleton,
          List.flatten_singleton, hlast.received_eq, List.append_nil]
      · rw [List.length_append, List.length_singleton]
        omega
      · -- What ends is not among the calls that bring something, so it is the last one.
        intro before after call heq hends
        rcases List.eq_nil_or_concat after with hafter | ⟨front, final, hafter⟩
        · exact hafter
        · rw [hafter, List.concat_eq_append, ← List.cons_append, ← List.append_assoc] at heq
          obtain ⟨hfront, -⟩ := List.append_inj' heq rfl
          have hmem : call ∈ calls := by
            rw [hfront]
            exact List.mem_append_right _ List.mem_cons_self
          obtain ⟨piece, hpiece⟩ := hbring call hmem
          exact absurd hends hpiece.not_ends

end WireCall

open WireCall

/-! ## What was heard, as a log -/

section

variable {σ : Type} [SecureTransport σ] {w w' : Tapped σ} {form : Form} {n : Nat} {text : Bytes}
  {heard : Ending}

/-- A read is logged with its answer. Only a session that is not open refuses it without a call. -/
theorem Form.calls_receive {answer : Except TransportFailure Bytes} (hn : 0 < n)
    (h : form.receive w n = (answer, w')) :
    (∃ call, w'.calls = w.calls ++ [call] ∧ IsRead answer call) ∨
      w' = w ∧ ∃ failure, answer = .error failure := by
  have hread (h : Transport.read w n = (answer, w')) :
      ∃ call, w'.calls = w.calls ++ [call] ∧ IsRead answer call :=
    ⟨_, (Tapped.note_eq h).2, .read n⟩
  cases form with
  | plain => exact .inl (hread h)
  | buffered buffer => exact .inl (hread h)
  | secured session =>
      unfold Form.receive at h
      dsimp only at h
      split at h
      · rw [if_neg (Nat.pos_iff_ne_zero.mp hn)] at h
        exact .inl ⟨_, (Tapped.note_eq h).2, .receiveRecord n⟩
      · cases h
        exact .inr ⟨rfl, _, rfl⟩

theorem Brought.log (h : Brought form.receive w text w') :
    ∃ calls, w'.calls = w.calls ++ calls ∧ Log Brings calls text := by
  induction h with
  | nothing w => exact ⟨[], (List.append_nil _).symm, .nil⟩
  | piece pos read_eq ne _ ih =>
      obtain ⟨calls, hcalls, hlog⟩ := ih
      rcases Form.calls_receive pos read_eq with ⟨call, hcall, hread⟩ | ⟨-, failure, hfailed⟩
      · refine ⟨call :: calls, ?_, Log.append (.singleton ⟨hread, ne⟩) hlog⟩
        rw [hcalls, hcall, List.append_assoc]
        rfl
      · cases hfailed

theorem Ending.Told.calls (h : heard.Told form.receive w w') :
    w'.calls = w.calls ∨ ∃ last, w'.calls = w.calls ++ [last] ∧ Ends last := by
  cases h with
  | silent => exact .inl rfl
  | finished pos read_eq =>
      rcases Form.calls_receive pos read_eq with ⟨last, hlast, hread⟩ | ⟨-, failure, hfailed⟩
      · exact .inr ⟨last, hlast, .inl hread⟩
      · cases hfailed
  | broken pos read_eq =>
      rcases Form.calls_receive pos read_eq with ⟨last, hlast, hread⟩ | ⟨hsame, -⟩
      · exact .inr ⟨last, hlast, .inr ⟨_, hread⟩⟩
      · exact .inl (congrArg Tapped.calls hsame)

namespace Link

variable {l l' : Link (Tapped σ)}

/-- **What was heard on a tapped link is in its log.** -/
theorem Hears.reads (h : l.Hears text heard l') :
    ∃ calls, l'.wire.calls = l.wire.calls ++ calls ∧ Reads calls text := by
  obtain ⟨wire, hbrought, htold⟩ := h.transcript
  obtain ⟨calls, hcalls, hlog⟩ := hbrought.log
  rcases htold.calls with hnone | ⟨last, hlast, hends⟩
  · exact ⟨calls, hnone.trans hcalls, .bringing hlog⟩
  · refine ⟨calls ++ [last], ?_, .ended hlog hends⟩
    rw [hlast, hcalls, List.append_assoc]

end Link

end

variable {σ : Type} [SecureTransport σ]

theorem Form.unread_of_receive {form : Form} {w w' : σ} {n : Nat} {piece : Bytes}
    (h : form.receive w n = (.ok piece, w')) :
    Transport.unread w' + piece.length ≤ Transport.unread w := by
  cases form with
  | plain => exact Transport.unread_of_read h
  | buffered buffer => exact Transport.unread_of_read h
  | secured session =>
      unfold Form.receive at h
      dsimp only at h
      split at h
      · split at h
        · cases h
          exact Nat.le_refl _
        · exact SecureTransport.unread_of_receiveRecord h
      · cases h

/-- Only so much can be brought as there was to come. -/
theorem Brought.unread_le {form : Form} {w w' : σ} {text : Bytes}
    (h : Brought form.receive w text w') :
    Transport.unread w' + text.length ≤ Transport.unread w := by
  induction h with
  | nothing w => exact Nat.le_refl _
  | piece pos read_eq ne _ ih =>
      have hread := Form.unread_of_receive read_eq
      rw [List.length_append]
      omega

namespace Link

variable {l l' : Link σ} {text : Bytes} {heard : Ending}

theorem Hears.length_le (h : l.Hears text heard l') : text.length ≤ l.unread := by
  obtain ⟨wire, hbrought, -⟩ := h.transcript
  have hunread := hbrought.unread_le
  show text.length ≤ Transport.unread l.wire
  omega

/-- Where no end was told, what was heard is no longer to come. -/
theorem Hears.unread_le (h : l.Hears text .silent l') : l'.unread + text.length ≤ l.unread := by
  obtain ⟨wire, hbrought, htold⟩ := h.transcript
  cases htold
  exact hbrought.unread_le

end Link

/-! ## Readers at work -/

namespace Reading

variable {l : Link σ} {x y : Reading σ} {text : Bytes} {heard : Ending} {n out : Nat}

/-- A reading that has come from a link by reads. It may be read on, and then no end was told and
there is no more before it than was to come on that link; or it is done. -/
inductive Attends (l : Link σ) (x : Reading σ) : Prop
  | live {text : Bytes} (hears : l.Hears text .silent x.link) (fit : x.Fit)
      (contained : x.reader.source.Contained) (budget_le : x.budget ≤ l.unread) : Attends l x
  | done {text : Bytes} {heard : Ending} (hears : l.Hears text heard x.link)
      (isDone : x.reader.isDone = true) : Attends l x

theorem Attends.hears (h : Attends l x) : ∃ text heard, l.Hears text heard x.link := by
  cases h with
  | live hears => exact ⟨_, _, hears⟩
  | done hears => exact ⟨_, _, hears⟩

omit [SecureTransport σ] in
theorem Over.isDone {last : Except Failure Bytes} {phase : Phase} (h : x.Over last phase) :
    x.reader.isDone = true := by
  cases h with
  | finished hprogress => exact isDone_of_finished hprogress
  | failed hprogress => exact isDone_of_failed hprogress

/-- A call that hands out a piece leaves a reading that may be read on, where nothing but text was
heard. -/
theorem Heeds.of_ok {piece : Bytes} (h : x.Heeds (.ok piece, y)) (hne : piece ≠ []) :
    y.Fit ∧ ∃ text, x.link.Hears text .silent y.link := by
  cases h with
  | piece ne fit advances => exact ⟨fit, _, advances.hears⟩
  | last advances ended =>
      cases ended with
      | finished => exact absurd rfl hne

theorem Heeds.hears {call : Except Failure Bytes × Reading σ} (h : x.Heeds call) :
    ∃ text heard, x.link.Hears text heard call.2.link := by
  cases h with
  | piece ne fit advances => exact ⟨_, _, advances.hears⟩
  | last advances ended => exact ⟨_, _, advances.hears⟩

theorem heeds_of_read {call : Except Failure Bytes × Reading σ} (h : x.Fit) (hn : 0 < n)
    (hread : x.read n = call) : x.Heeds call := hread ▸ heeds_read h hn

/-! ### Collecting -/

omit [SecureTransport σ] in
/-- A reading that may be read on may be so behind what is collected. -/
theorem Gathering.fit (h : Gathering x out) (hfit : x.Fit) : (x.above out).Fit :=
  ⟨(h.raise.contained h.contained).1.toSound, hfit.proper, hfit.unfailed⟩

theorem hears_collect (h : Gathering x out) (hfit : x.Fit) :
    ∃ text heard, x.link.Hears text heard (x.collect out).2.link := by
  fun_induction Reading.collect x out with
  | case1 x out hfull failure y hread =>
      exact (heeds_of_read (h.fit hfit) Nat.one_pos hread).hears
  | case2 x out hfull y hread => exact (heeds_of_read (h.fit hfit) Nat.one_pos hread).hears
  | case3 x out hfull b bytes y hread =>
      obtain ⟨text, heard, hears⟩ := (heeds_of_read (h.fit hfit) Nat.one_pos hread).hears
      exact ⟨text, heard, hears.of_eq rfl rfl⟩
  | case4 x out hroom failure y hread =>
      exact (heeds_of_read (h.fit hfit) (by omega) hread).hears
  | case5 x out hroom y hread => exact (heeds_of_read (h.fit hfit) (by omega) hread).hears
  | case6 x out hroom b bytes y hread ih =>
      obtain ⟨hminds, hle, -⟩ := h.read hread
      have hfits : out + (b :: bytes).length ≤ x.reader.source.capacity := by
        unfold amountOf at hle
        dsimp only at hle
        omega
      obtain ⟨-, hmore⟩ := h.store hminds hfits
      obtain ⟨hy, text, hears⟩ :=
        (heeds_of_read (h.fit hfit) (by omega) hread).of_ok (List.cons_ne_nil b bytes)
      obtain ⟨text', heard, hears'⟩ := ih hmore ⟨hmore.contained.toSound, hy.proper, hy.unfailed⟩
      exact ⟨text ++ text', heard, hears.trans hears'⟩

theorem hears_readToEnd (hcontained : x.reader.source.Contained) (hfit : x.Fit) :
    ∃ text heard, x.link.Hears text heard x.readToEnd.2.link := by
  have hgathering := gathering_compact hcontained
  have hcollect := hears_collect hgathering
    ⟨hgathering.contained.toSound, hfit.proper, hfit.unfailed⟩
  unfold readToEnd
  split
  · rename_i failure hfailed
    exact absurd hfailed (hfit.unfailed failure)
  · split <;> rename_i heq <;> rw [heq] at hcollect <;> exact hcollect

/-! ### Steps and runs -/

theorem isDone_discard (x : Reading σ) : x.discard.2.reader.isDone = true :=
  BodyReader.isDone_of_verdict (verdict_discard x)

theorem isDone_readToEnd (x : Reading σ) : x.readToEnd.2.reader.isDone = true :=
  BodyReader.isDone_of_verdict (verdict_readToEnd x)

theorem hears_discard (hfit : x.Fit) : ∃ text heard, x.link.Hears text heard x.discard.2.link := by
  obtain ⟨pieces, last, phase, y, text, heard, hall, hadvances, -⟩ :=
    readAll_heard hfit (n := discardStep) (by decide)
  refine ⟨text, heard, ?_⟩
  unfold discard
  rw [hall]
  cases last with
  | error failure => exact hadvances.hears
  | ok data => exact hadvances.hears

/-- A read of no bytes leaves everything as it is. -/
theorem read_zero (x : Reading σ) : (x.read 0).2 = x := by
  unfold Reading.read
  split <;> simp

theorem isDone_use (h : x.reader.isDone = true) (u : Use) :
    (x.use u).2.reader.isDone = true := by
  rw [← h]
  unfold BodyReader.isDone
  rw [(isCall_use u).progress_eq h]

/-- A reader that is done asks for nothing. -/
theorem attends_of_isDone (hears : l.Hears text heard x.link) (hdone : x.reader.isDone = true)
    (u : Use) : Attends l (x.use u).2 := by
  have hlink := (isCall_use u).link_eq hdone
  refine .done (hears.of_eq ?_ (congrArg Link.wire hlink)) (isDone_use hdone u)
  exact congrArg (fun l : Link σ => l.connection.form) hlink

theorem attends_read (hears : l.Hears text .silent x.link) (hfit : x.Fit)
    (hcontained : x.reader.source.Contained) (hbudget : x.budget ≤ l.unread) (n : Nat) :
    Attends l (x.read n).2 := by
  rcases Nat.eq_zero_or_pos n with rfl | hn
  · rw [read_zero]
    exact .live hears hfit hcontained hbudget
  · have hkept := (obeys_read hcontained n).1.contained hcontained
    cases hread : x.read n with
    | mk outcome y =>
        rw [hread] at hkept
        cases heeds_of_read hfit hn hread with
        | piece ne fit advances =>
            have hlower := budget_of_read hread
            have hle : y.budget ≤ l.unread := by omega
            exact .live (hears.trans advances.hears) fit hkept hle
        | last advances ended => exact .done (hears.trans advances.hears) ended.isDone

/-- **Every use of a reader attends to what there is.** -/
theorem attends_use (h : Attends l x) (u : Use) : Attends l (x.use u).2 := by
  cases h with
  | done hears hdone => exact attends_of_isDone hears hdone u
  | live hears fit contained budget_le =>
      cases u with
      | read n => exact attends_read hears fit contained budget_le n
      | readToEnd =>
          obtain ⟨more, heard, hmore⟩ := hears_readToEnd contained fit
          exact .done (hears.trans hmore) (isDone_readToEnd x)
      | discard =>
          obtain ⟨more, heard, hmore⟩ := hears_discard fit
          exact .done (hears.trans hmore) (isDone_discard x)

theorem attends_useAll (h : Attends l x) (us : List Use) : Attends l (x.useAll us).2 := by
  induction us generalizing x with
  | nil => exact h
  | cons u us ih => exact ih (attends_use h u)

theorem isDone_useAll (h : x.reader.isDone = true) (us : List Use) :
    (x.useAll us).2.reader.isDone = true := by
  induction us generalizing x with
  | nil => exact h
  | cons u us ih => exact ih (isDone_use h u)

/-- A use that goes on to the end of the body comes to it. -/
theorem isDone_useAll_of_mem {us : List Use} (h : .readToEnd ∈ us ∨ .discard ∈ us) :
    (x.useAll us).2.reader.isDone = true := by
  induction us generalizing x with
  | nil => simp at h
  | cons u us ih =>
      cases u with
      | readToEnd => exact isDone_useAll (isDone_readToEnd x) us
      | discard => exact isDone_useAll (isDone_discard x) us
      | read n =>
          refine ih ?_
          rcases h with h | h
          · exact .inl (List.mem_of_ne_of_mem Use.noConfusion h)
          · exact .inr (List.mem_of_ne_of_mem Use.noConfusion h)

/-- **A loop of reads ends**: every read that is not the last one lowers the budget. -/
theorem exists_isDone_after {x : Reading σ} {sizes : Nat → Nat} (h : x.Fit)
    (hsizes : ∀ i, 0 < sizes i) :
    ∃ i, i ≤ x.budget + 1 ∧ (x.after sizes i).reader.isDone = true := by
  cases hread : x.read (sizes 0) with
  | mk outcome y =>
      cases heeds_of_read h (hsizes 0) hread with
      | last advances ended =>
          refine ⟨1, Nat.le_add_left .., ?_⟩
          show (x.read (sizes 0)).2.reader.isDone = true
          rw [hread]
          exact ended.isDone
      | piece ne fit advances =>
          have hbudget := budget_of_read hread
          have hlength := List.length_pos_iff.mpr ne
          obtain ⟨i, hi, hdone⟩ := exists_isDone_after fit fun j => hsizes (j + 1)
          refine ⟨i + 1, by omega, ?_⟩
          rw [after_succ, hread]
          exact hdone
termination_by x.budget

theorem Attends.exists_isDone_after (h : Attends l x) {sizes : Nat → Nat}
    (hsizes : ∀ i, 0 < sizes i) :
    ∃ i, i ≤ l.unread + 1 ∧ (x.after sizes i).reader.isDone = true := by
  cases h with
  | done hears hdone => exact ⟨0, Nat.zero_le _, hdone⟩
  | live hears fit contained budget_le =>
      obtain ⟨i, hi, hdone⟩ := Reading.exists_isDone_after fit hsizes
      exact ⟨i, by omega, hdone⟩

end Reading

/-! ## Responses -/

omit [SecureTransport σ] in
theorem HeadScan.length_le_of_complete {text rest : Bytes} {line : StatusLine}
    {block : HeaderBlock} (h : HeadScan.of text = .complete line block rest) :
    rest.length ≤ text.length := by
  unfold HeadScan.of at h
  split at h
  · cases h
  · rename_i first behind hline
    have hshorter := Bytes.length_of_cutLine hline
    split at h
    · cases h
    · split at h
      · cases h
      · rename_i front after hblank
        cases h
        have hlength := congrArg List.length (Bytes.eq_of_cutBlankLine hblank)
        simp only [List.length_append] at hlength
        omega

/-- No more is received than there is room for. -/
theorem Head.Polls.length_le {capacity : Nat} {received received' : Bytes} {l l' : Link σ}
    (h : Head.Polls capacity received l received' l') (hfit : received.length ≤ capacity) :
    received'.length ≤ capacity := by
  induction h with
  | done => exact hfit
  | read _ _ hread _ _ ih =>
      have hle := Link.read_length_le hread
      refine ih ?_
      rw [List.length_append]
      omega

namespace Response

variable {l l' : Link σ} {r : Response} {method : Method} {capacity : Nat}

/-- Reading the head of a response, well or badly, is hearing some text. -/
theorem hears_read (l : Link σ) (method : Method) (capacity : Nat) :
    ∃ text heard, l.Hears text heard (read l method capacity).2 := by
  obtain ⟨received, l₁, hpolls, hsettles⟩ := Head.receive_polls l capacity []
  obtain ⟨text, -, hears⟩ := hpolls.hears
  unfold read
  split
  · exact ⟨[], .silent, .refl l⟩
  · generalize Head.receive l capacity [] = result at hsettles ⊢
    cases hsettles with
    | malformed => exact ⟨text, .silent, hears.of_eq rfl rfl⟩
    | faulty => exact ⟨text, .silent, hears.of_eq rfl rfl⟩
    | whole => exact ⟨text, .silent, hears.of_eq rfl rfl⟩
    | full => exact ⟨text, .silent, hears.of_eq rfl rfl⟩
    | ended _ hroom hread =>
        have hend := Link.hears_finished (Nat.sub_pos_of_lt hroom) hread
        exact ⟨_, _, (hears.trans hend).of_eq rfl rfl⟩
    | failed _ hroom hread =>
        have hend := Link.hears_broken (Nat.sub_pos_of_lt hroom) hread
        exact ⟨_, _, (hears.trans hend).of_eq rfl rfl⟩

/-- The bytes that came with the head have their place behind it. -/
theorem length_staged_le (h : read l method capacity = (.ok r, l')) :
    r.staged.length ≤ r.room := by
  obtain ⟨received, l₁, hpolls, hsettles⟩ := Head.receive_polls l capacity []
  have hfit := hpolls.length_le (Nat.zero_le _)
  unfold read at h
  split at h
  · cases h
  · generalize Head.receive l capacity [] = result at h hsettles
    cases hsettles with
    | @whole line block rest hof hfault =>
        cases h
        have hrest := HeadScan.length_le_of_complete hof
        show rest.length ≤ capacity - (received.length - rest.length)
        omega
    | _ => cases h

/-- The reader of a response attends to what there is on its link. -/
theorem attends_body (h : read l method capacity = (.ok r, l')) :
    Reading.Attends l ⟨.make r.framing r.room r.staged, l'⟩ := by
  have hroom := length_staged_le h
  obtain ⟨text, line, block, room, behind, hears, hof, -, rfl, hphase⟩ := read_heard h
  have hidle : (ofParts method line block room behind).framing = .fixed 0 → l'.phase = .idle := by
    intro hempty
    rw [hphase, phaseAfter, hempty]
    rfl
  obtain ⟨hfit, -⟩ := Reading.outlook_make room behind hidle
  have hunread := hears.unread_le
  have hbehind := HeadScan.length_le_of_complete hof
  refine .live hears hfit ⟨hfit.sound, hroom⟩ ?_
  show behind.length - 0 + l'.unread ≤ l.unread
  omega

/-- **The account of a response.** However a response is read on whatever link, and its body used
in whatever way: the calls on the wire are reads, there is one more of them at most than bytes were
received, and none follows one that told of the end of the stream or of a failure. A use that goes
on to the end comes to it, and a loop of reads, each of which asks for something, is done after no
more of them than bytes were to come, and one. -/
theorem thrifty_reads (l : Link σ) (method : Method) (capacity : Nat) :
    (∃ text, Thrifty (read l.tapped method capacity).2.wire.calls text ∧
      text.length ≤ l.unread) ∧
    ∀ r l', read l.tapped method capacity = (.ok r, l') →
      ∃ reader, r.body = (.ok reader, r.take) ∧ ∀ us,
        (∃ text, Thrifty ((Reading.mk reader l').useAll us).2.link.wire.calls text ∧
          text.length ≤ l.unread) ∧
        (.readToEnd ∈ us ∨ .discard ∈ us →
          ((Reading.mk reader l').useAll us).2.reader.isDone = true) ∧
        ∀ sizes : Nat → Nat, (∀ i, 0 < sizes i) → ∃ i, i ≤ l.unread + 1 ∧
          (((Reading.mk reader l').useAll us).2.after sizes i).reader.isDone = true := by
  have haccount {k : Link (Tapped σ)} {text : Bytes} {heard : Ending}
      (hears : l.tapped.Hears text heard k) :
      ∃ text, Thrifty k.wire.calls text ∧ text.length ≤ l.unread := by
    obtain ⟨calls, hcalls, hreads⟩ := hears.reads
    refine ⟨text, ?_, hears.length_le⟩
    rw [hcalls]
    exact hreads.thrifty
  constructor
  · obtain ⟨text, heard, hears⟩ := hears_read l.tapped method capacity
    exact haccount hears
  · intro r l' hread
    obtain ⟨huntaken, -⟩ := Link.readResponse_ok hread
    have hbody : r.body = (.ok (.make r.framing r.room r.staged), r.take) := by
      unfold body
      rw [huntaken]
      rfl
    refine ⟨_, hbody, ?_⟩
    intro us
    have hattends := Reading.attends_useAll (attends_body hread) us
    refine ⟨?_, Reading.isDone_useAll_of_mem, ?_⟩
    · obtain ⟨text, heard, hears⟩ := hattends.hears
      exact haccount hears
    · intro sizes hsizes
      exact hattends.exists_isDone_after hsizes

/-- A chunk size with an extension that goes on until the stream ends. -/
def endlessExtension : Link Script :=
  Script.connected [chunkedHead ++ ascii "5;", ascii "x=", ascii "yyyyyyyy"]

/-- The reader that is caught in it is done when the stream ends, and its reads are accounted for. -/
theorem endlessExtension_thrifty : ∃ r reader l',
    read endlessExtension.tapped .get 256 = (.ok r, l') ∧ r.body = (.ok reader, r.take) ∧
      ((Reading.mk reader l').useAll [.read 4, .discard]).2.reader.isDone = true ∧
      ∃ text, Thrifty
        ((Reading.mk reader l').useAll [.read 4, .discard]).2.link.wire.calls text := by
  have hok : (read endlessExtension.tapped .get 256).1.isOk = true := by decide +kernel
  rcases hread : read endlessExtension.tapped .get 256 with ⟨failure | r, l'⟩
  · rw [hread] at hok
    cases hok
  · obtain ⟨reader, hreader, hall⟩ := (thrifty_reads endlessExtension .get 256).2 r l' hread
    obtain ⟨⟨text, hthrifty, -⟩, hdone, -⟩ := hall [.read 4, .discard]
    exact ⟨r, reader, l', rfl, hreader, hdone (.inr (by decide)), text, hthrifty⟩

end Response

end HttpExchange
