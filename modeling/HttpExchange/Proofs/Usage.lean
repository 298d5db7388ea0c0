import HttpExchange.Proofs.ReaderCalls
import HttpExchange.Proofs.ScriptFeed
import HttpExchange.Response
import Mathlib.Data.List.Induction

/-!
# Connections that take no more requests

A connection that was closed or has failed is meant for good. What a caller can do with a
connection, with the responses read from it and with their readers is a `Call`, and a
`Usage` is what the calls have led to. A barred connection stays barred under every call
but one (`Usage.phase_step`): a reader that was left unfinished when the connection was
closed still serves the bytes it has, and when it finishes it makes the connection idle.

* `Usage.barred_run_iff`: a run leaves a barred connection barred exactly if it finishes no
  such reader.
* `Usage.Orderly`: where bodies are read to their end before the connection is closed there
  is no such reader, and a barred connection is barred for good (`Usage.barred_of_orderly`).
-/

namespace HttpExchange

/-- Closed or poisoned. -/
def Phase.Barred (phase : Phase) : Prop := phase = .closed ∨ phase = .poisoned

theorem Phase.Barred.ne_idle {phase : Phase} (h : phase.Barred) : phase ≠ .idle := by
  rcases h with rfl | rfl <;> exact Phase.noConfusion

theorem Phase.Barred.ne_inBody {phase : Phase} (h : phase.Barred) : phase ≠ .inBody := by
  rcases h with rfl | rfl <;> exact Phase.noConfusion

/-! ## What leaves the phase of a link alone -/

namespace Link

variable {σ : Type}

/-- The link of a connection that starts to coalesce its writes, in a memory of its own. -/
def intoBuffered (l : Link σ) (capacity : Nat) : Link σ :=
  { l with
    connection := l.connection.intoBuffered capacity
    scratch := if l.connection.kind = .plain then .empty else l.scratch }

theorem phase_intoBuffered (l : Link σ) (capacity : Nat) :
    (l.intoBuffered capacity).phase = l.phase := by
  unfold intoBuffered phase Connection.intoBuffered
  split <;> rfl

variable [SecureTransport σ]

theorem phase_read (l : Link σ) (n : Nat) : (l.read n).2.phase = l.phase :=
  (holds_read l n).phase_eq

theorem phase_write (l : Link σ) (data : Bytes) : (l.write data).2.phase = l.phase := by
  unfold write
  split
  · rfl
  · rfl
  · split <;> rfl

theorem phase_flush (l : Link σ) : l.flush.2.phase = l.phase := by
  unfold flush
  split
  · rfl
  · rfl
  · split <;> rfl

theorem phase_close (l : Link σ) : l.close.phase = .closed := by
  unfold close releaseLease
  split <;> rfl

/-! ## Links that are not idle -/

variable {l : Link σ} {method : Method} {request : Request} {capacity : Nat}

/-- A link that is not idle takes no request: it is refused before anything is written. -/
theorem write_of_not_idle (h : l.phase ≠ .idle) (request : Request) :
    ∃ why, request.write l = (.error (.notReusable why), l) := by
  obtain ⟨why, hwhy⟩ := Connection.ensureReusable_of_not_idle h
  refine ⟨why, ?_⟩
  unfold Request.write
  rw [hwhy]

theorem readResponse_of_not_idle (h : l.phase ≠ .idle) (method : Method) (capacity : Nat) :
    ∃ why, Response.read l method capacity = (.error (.notReusable why), l) := by
  obtain ⟨why, hwhy⟩ := Connection.ensureReusable_of_not_idle h
  refine ⟨why, ?_⟩
  unfold Response.read
  rw [hwhy]

theorem send_of_not_idle (h : l.phase ≠ .idle) (request : Request) (capacity : Nat) :
    ∃ why, l.send request capacity = (.error (.notReusable why), l) := by
  obtain ⟨why, hwrite⟩ := write_of_not_idle h request
  refine ⟨why, ?_⟩
  unfold send
  rw [hwrite]

/-- A response that was read has its body to give, and its link waits for that body. -/
theorem readResponse_ok {l' : Link σ} {r : Response}
    (h : Response.read l method capacity = (.ok r, l')) :
    r.bodyTaken = false ∧ l'.phase = r.phaseAfter := by
  unfold Response.read at h
  split at h
  · cases h
  · split at h
    · cases h
    · cases h
      exact ⟨rfl, rfl⟩

theorem send_ok {l' : Link σ} {r : Response} (h : l.send request capacity = (.ok r, l')) :
    r.bodyTaken = false ∧ l'.phase = r.phaseAfter := by
  unfold send at h
  split at h
  · cases h
  · exact readResponse_ok h

end Link

/-! ## Calls -/

/-- What a caller does with a connection, the responses read from it and their readers. -/
inductive Call
  | writeRequest (request : Request)
  | readResponse (method : Method) (capacity : Nat)
  | send (request : Request) (capacity : Nat)
  | takeBody (response : Nat)
  | readBody (reader n : Nat)
  | readToEnd (reader : Nat)
  | discard (reader : Nat)
  | read (n : Nat)
  | write (data : Bytes)
  | flush
  | close
  | intoBuffered (capacity : Nat)

/-- A connection with the responses and readers obtained from it, in the order in which they
were made. -/
structure Usage (σ : Type) where
  link : Link σ
  responses : List Response
  readers : List BodyReader

namespace Usage

variable {σ : Type}

def start (link : Link σ) : Usage σ := ⟨link, [], []⟩

/-- A response that was read is kept. -/
def keep (u : Usage σ) (read : Except Failure Response × Link σ) : Usage σ :=
  { u with
    link := read.2
    responses := u.responses ++ (match read.1 with | .ok r => [r] | .error _ => []) }

def takeBody (u : Usage σ) (i : Nat) : Usage σ :=
  match u.responses[i]? with
  | none => u
  | some r =>
    { u with
      responses := u.responses.set i r.body.2
      readers := u.readers ++ (match r.body.1 with | .ok reader => [reader] | .error _ => []) }

/-- One of the readers works on the link. -/
def reading (u : Usage σ) (i : Nat) (f : Reading σ → Reading σ) : Usage σ :=
  match u.readers[i]? with
  | none => u
  | some r =>
    let x := f ⟨r, u.link⟩
    { u with link := x.link, readers := u.readers.set i x.reader }

section

variable {u : Usage σ} {i : Nat} {f : Reading σ → Reading σ} {r : BodyReader}

theorem reading_of_some (h : u.readers[i]? = some r) : u.reading i f =
    { u with
      link := (f ⟨r, u.link⟩).link
      readers := u.readers.set i (f ⟨r, u.link⟩).reader } := by
  unfold reading
  rw [h]

theorem reading_of_none (h : u.readers[i]? = none) : u.reading i f = u := by
  unfold reading
  rw [h]

/-- A reader on a barred link makes it idle if it finishes, unless its body ends with the
stream, and else leaves it barred. -/
theorem phase_reading (h : u.link.phase.Barred) (hf : Reading.IsCall f)
    (hr : u.readers[i]? = some r) :
    (u.reading i f).link.phase = .idle ∧ r.isDone = false ∧ r.progress.closing = .idle ∧
        (f ⟨r, u.link⟩).reader.progress = .finished ∨
      (u.reading i f).link.phase.Barred ∧ ¬ (r.isDone = false ∧ r.progress.closing = .idle ∧
        (f ⟨r, u.link⟩).reader.progress = .finished) := by
  rw [reading_of_some hr]
  dsimp only
  cases hdone : r.isDone with
  | true =>
      right
      refine ⟨?_, fun h => by cases h.1⟩
      rw [hf.link_eq (x := ⟨r, u.link⟩) hdone]
      exact h
  | false =>
      cases hf.reaches (x := ⟨r, u.link⟩) hdone with
      | goesOn open_ _ holds =>
          right
          constructor
          · rw [holds.phase_eq]
            exact h
          · intro hfin
            rw [Reading.isDone_of_finished hfin.2.2] at open_
            cases open_
      | finishes finished holds =>
          rw [holds.phase_eq]
          -- A body that ends with the stream closes the connection, which is barred then too.
          rcases r.progress.closing_eq with hidle | hclosed
          · left
            exact ⟨hidle, rfl, hidle, finished⟩
          · right
            refine ⟨.inl hclosed, ?_⟩
            intro hfin
            rw [hclosed] at hfin
            cases hfin.2.1
      | fails failure failed holds =>
          right
          rw [holds.phase_eq]
          refine ⟨.inr rfl, ?_⟩
          intro hfin
          rw [failed] at hfin
          cases hfin.2.2

end

variable [SecureTransport σ]

def step (u : Usage σ) : Call → Usage σ
  | .writeRequest request => { u with link := (request.write u.link).2 }
  | .readResponse method capacity => u.keep (Response.read u.link method capacity)
  | .send request capacity => u.keep (u.link.send request capacity)
  | .takeBody i => u.takeBody i
  | .readBody i n => u.reading i fun x => (x.read n).2
  | .readToEnd i => u.reading i fun x => x.readToEnd.2
  | .discard i => u.reading i fun x => x.discard.2
  | .read n => { u with link := (u.link.read n).2 }
  | .write data => { u with link := (u.link.write data).2 }
  | .flush => { u with link := u.link.flush.2 }
  | .close => { u with link := u.link.close }
  | .intoBuffered capacity => { u with link := u.link.intoBuffered capacity }

def run (u : Usage σ) (calls : List Call) : Usage σ := calls.foldl step u

/-- The reader that a call is made on, and what the call does with it. -/
def onReader? : Call → Option (Nat × (Reading σ → Reading σ))
  | .readBody i n => some (i, fun x => (x.read n).2)
  | .readToEnd i => some (i, fun x => x.readToEnd.2)
  | .discard i => some (i, fun x => x.discard.2)
  | _ => none

theorem step_of_onReader? {u : Usage σ} {call : Call} {i : Nat} {f : Reading σ → Reading σ}
    (h : onReader? call = some (i, f)) : u.step call = u.reading i f := by
  cases call <;> cases h <;> rfl

theorem isCall_of_onReader? {call : Call} {i : Nat} {f : Reading σ → Reading σ}
    (h : onReader? call = some (i, f)) : Reading.IsCall f := by
  cases call <;> cases h
  · exact Reading.isCall_read _
  · exact Reading.isCall_readToEnd
  · exact Reading.isCall_discard

theorem run_concat (u : Usage σ) (calls : List Call) (call : Call) :
    u.run (calls ++ [call]) = (u.run calls).step call := by
  rw [run, List.foldl_append]
  rfl

/-! ## Barred connections -/

variable {u : Usage σ} {i : Nat} {f : Reading σ → Reading σ} {r : BodyReader}

/-- A call finishes a reader that was left open and that makes its connection idle. -/
def Revives (u : Usage σ) (call : Call) : Prop :=
  ∃ i f r, onReader? call = some (i, f) ∧ u.readers[i]? = some r ∧ r.isDone = false ∧
    r.progress.closing = .idle ∧ (f ⟨r, u.link⟩).reader.progress = .finished

theorem barred_step (h : u.link.phase.Barred) {call : Call}
    (hcall : onReader? (σ := σ) call = none) : (u.step call).link.phase.Barred := by
  cases call with
  | writeRequest request =>
      obtain ⟨why, hwrite⟩ := Link.write_of_not_idle h.ne_idle request
      show (request.write u.link).2.phase.Barred
      rw [hwrite]
      exact h
  | readResponse method capacity =>
      obtain ⟨why, hread⟩ := Link.readResponse_of_not_idle h.ne_idle method capacity
      show (Response.read u.link method capacity).2.phase.Barred
      rw [hread]
      exact h
  | send request capacity =>
      obtain ⟨why, hsend⟩ := Link.send_of_not_idle h.ne_idle request capacity
      show (u.link.send request capacity).2.phase.Barred
      rw [hsend]
      exact h
  | takeBody i =>
      show (u.takeBody i).link.phase.Barred
      unfold takeBody
      split
      · exact h
      · exact h
  | readBody i n => cases hcall
  | readToEnd i => cases hcall
  | discard i => cases hcall
  | read n =>
      show (u.link.read n).2.phase.Barred
      rw [Link.phase_read]
      exact h
  | write data =>
      show (u.link.write data).2.phase.Barred
      rw [Link.phase_write]
      exact h
  | flush =>
      show u.link.flush.2.phase.Barred
      rw [Link.phase_flush]
      exact h
  | close => exact .inl (Link.phase_close u.link)
  | intoBuffered capacity =>
      show (u.link.intoBuffered capacity).phase.Barred
      rw [Link.phase_intoBuffered]
      exact h

/-- **What a call does to a barred connection**: it makes it idle if it revives it, and else
leaves it barred. -/
theorem phase_step (h : u.link.phase.Barred) (call : Call) :
    (u.step call).link.phase = .idle ∧ u.Revives call ∨
      (u.step call).link.phase.Barred ∧ ¬ u.Revives call := by
  cases hcall : onReader? (σ := σ) call with
  | none =>
      right
      refine ⟨barred_step h hcall, ?_⟩
      rintro ⟨i, f, r, hsome, -⟩
      rw [hcall] at hsome
      cases hsome
  | some found =>
      obtain ⟨i, f⟩ := found
      rw [step_of_onReader? hcall]
      cases hr : u.readers[i]? with
      | none =>
          right
          rw [reading_of_none hr]
          refine ⟨h, ?_⟩
          rintro ⟨j, g, r, hsome, hr', -⟩
          rw [hcall] at hsome
          cases hsome
          rw [hr] at hr'
          cases hr'
      | some r =>
          rcases phase_reading h (isCall_of_onReader? hcall) hr with ⟨hidle, hfin⟩ | ⟨hbarred, hnot⟩
          · exact .inl ⟨hidle, i, f, r, hcall, hr, hfin⟩
          · right
            refine ⟨hbarred, ?_⟩
            rintro ⟨j, g, r', hsome, hr', hfin⟩
            rw [hcall] at hsome
            cases hsome
            rw [hr] at hr'
            cases hr'
            exact hnot hfin

theorem barred_run_of_not_revives (h : u.link.phase.Barred) {calls : List Call}
    (hnot : ∀ pre call, pre ++ [call] <+: calls → ¬ (u.run pre).Revives call) :
    (u.run calls).link.phase.Barred := by
  induction calls using List.reverseRecOn with
  | nil => exact h
  | append_singleton calls call ih =>
      rw [run_concat]
      have hbefore := ih fun pre c hpre => hnot pre c (hpre.trans (List.prefix_append calls [call]))
      -- Barred before the last call, by the induction, and that call does not revive it.
      rcases phase_step hbefore call with ⟨-, hrevives⟩ | ⟨hbarred, -⟩
      · exact absurd hrevives (hnot calls call (List.prefix_refl _))
      · exact hbarred

/-- **A barred connection is barred for good unless a reader revives it.** A run keeps it
barred, moment by moment, exactly if none of its calls finishes a reader that was left open
with a body of fixed length or in chunks; the first call that does so makes it idle. As long
as it is barred a request is refused, and link and transport are as before. -/
theorem barred_run_iff (h : u.link.phase.Barred) (calls : List Call) :
    ((∀ pre, pre <+: calls → (u.run pre).link.phase.Barred) ↔
      ∀ pre call, pre ++ [call] <+: calls → ¬ (u.run pre).Revives call) ∧
    (∀ pre call, pre ++ [call] <+: calls → (u.run pre).link.phase.Barred →
      (u.run pre).Revives call → (u.run (pre ++ [call])).link.phase = .idle) ∧
    ∀ pre, pre <+: calls → (u.run pre).link.phase.Barred →
      ∃ why, (u.run pre).link.connection.ensureReusable = .error (.notReusable why) ∧
        ∀ request : Request,
          request.write (u.run pre).link = (.error (.notReusable why), (u.run pre).link) := by
  refine ⟨?_, ?_, ?_⟩
  · constructor
    · intro hall pre call hpre
      have hbarred := hall _ ((List.prefix_append pre [call]).trans hpre)
      rcases phase_step hbarred call with ⟨hidle, -⟩ | ⟨-, hnot⟩
      · have hlater := hall _ hpre
        rw [run_concat, hidle] at hlater
        rcases hlater with hlater | hlater
        · cases hlater
        · cases hlater
      · exact hnot
    · intro hnot pre hpre
      exact barred_run_of_not_revives h fun p call hp => hnot p call (hp.trans hpre)
  · intro pre call _ hbarred hrev
    rw [run_concat]
    rcases phase_step hbarred call with ⟨hidle, -⟩ | ⟨-, hnot⟩
    · exact hidle
    · exact absurd hrev hnot
  · intro pre _ hbarred
    obtain ⟨why, hwhy⟩ := Connection.ensureReusable_of_not_idle hbarred.ne_idle
    refine ⟨why, hwhy, ?_⟩
    intro request
    unfold Request.write
    rw [hwhy]

/-- A response whose body came with its head, on a connection that is closed before the
reader of the body has read anything. -/
def leftOpen : Usage Script :=
  (start (Script.connected [ascii "HTTP/1.1 200 OK\r\nContent-Length: 2\r\n\r\nhi"])).run
    [.readResponse .get 256, .takeBody 0, .close]

/-- The reader makes the closed connection idle, and a request is written on it. -/
theorem leftOpen_revived :
    leftOpen.link.phase = .closed ∧ (leftOpen.run [.readBody 0 16]).link.phase = .idle ∧
    ((Request.make .get (ascii "/")).write
      (leftOpen.run [.readBody 0 16]).link).2.wire.accepted.reverse.flatten
        = ascii "GET / HTTP/1.1\r\n\r\n" := by
  have hclosed : leftOpen.link.phase = .closed := by decide +kernel
  refine ⟨hclosed, ?_, by decide +kernel⟩
  refine (barred_run_iff (.inl hclosed) [.readBody 0 16]).2.1 [] (.readBody 0 16)
    (List.prefix_refl _) (.inl hclosed) ?_
  exact ⟨0, _, .make (.fixed 2) 218 (ascii "hi"), rfl, by decide +kernel, rfl, rfl,
    by decide +kernel⟩

/-! ## Orderly use -/

end Usage

/-- The body of a response is still to be taken, and there is something in it. -/
def Response.holdsBody (r : Response) : Bool := !r.bodyTaken && !r.framing.isEmpty

theorem BodyReader.isDone_make (framing : Framing) (room : Nat) (staged : Bytes) :
    (make framing room staged).isDone = framing.isEmpty := by
  match framing with
  | .fixed 0 => rfl
  | .fixed (n + 1) => rfl
  | .chunked => rfl
  | .toClose => rfl

namespace Usage

/-- How many bodies there are that nobody has read to the end. -/
def openBodies (u : Usage σ) : Nat :=
  u.responses.countP Response.holdsBody + u.readers.countP fun r => !r.isDone

/-- There is one open body while the link is in it, and none else. -/
structure Sound (u : Usage σ) : Prop where
  atMostOne : u.openBodies ≤ 1
  inBody : u.link.phase ≠ .inBody → u.openBodies = 0

theorem sound_of_none {u : Usage σ} (h : u.openBodies = 0) : u.Sound := by
  constructor
  · rw [h]
    exact Nat.zero_le 1
  · intro _
    exact h

variable {u : Usage σ} {i : Nat} {r : Response}

/-- Without such a response, or once its body was handed out, nothing is handed out. -/
theorem takeBody_of_none (h : u.responses[i]? = none) : u.takeBody i = u := by
  unfold takeBody
  rw [h]

theorem takeBody_of_taken (h : u.responses[i]? = some r) (htaken : r.bodyTaken = true) :
    u.takeBody i = u := by
  obtain ⟨hi, hget⟩ := List.getElem?_eq_some_iff.mp h
  have hbody : r.body = (.error .bodyTaken, r) := by
    unfold Response.body
    rw [if_pos htaken]
  have hset : u.responses.set i r = u.responses := by
    rw [← hget, List.set_getElem_self]
  unfold takeBody
  rw [h]
  simp only [hbody, hset, List.append_nil]

theorem takeBody_of_untaken (h : u.responses[i]? = some r) (htaken : r.bodyTaken = false) :
    u.takeBody i = { u with
      responses := u.responses.set i r.take
      readers := u.readers ++ [.make r.framing r.room r.staged] } := by
  have hbody : r.body = (.ok (.make r.framing r.room r.staged), r.take) := by
    unfold Response.body
    rw [if_neg (by simp [htaken])]
  unfold takeBody
  rw [h]
  simp only [hbody]

theorem openBodies_takeBody (u : Usage σ) (i : Nat) : (u.takeBody i).openBodies = u.openBodies := by
  cases hr : u.responses[i]? with
  | none => rw [takeBody_of_none hr]
  | some r =>
      cases htaken : r.bodyTaken with
      | true => rw [takeBody_of_taken hr htaken]
      | false =>
          obtain ⟨hi, hget⟩ := List.getElem?_eq_some_iff.mp hr
          have hle := List.boole_getElem_le_countP (p := Response.holdsBody) hi
          have htake : r.take.holdsBody = false := rfl
          have hheld : r.holdsBody = !r.framing.isEmpty := by simp [Response.holdsBody, htaken]
          rw [hget] at hle
          rw [takeBody_of_untaken hr htaken]
          simp only [openBodies, List.countP_set hi, hget, htake, List.countP_append,
            List.countP_singleton, BodyReader.isDone_make, ← hheld, Bool.false_eq_true, if_false]
          omega

theorem link_takeBody (u : Usage σ) (i : Nat) : (u.takeBody i).link = u.link := by
  unfold takeBody
  split <;> rfl

/-- A call on a reader leaves phase and open bodies as they were, or it closes the body that
it reads. -/
theorem openBodies_reading {i : Nat} {f : Reading σ → Reading σ} (hf : Reading.IsCall f) :
    (u.reading i f).link.phase = u.link.phase ∧ (u.reading i f).openBodies = u.openBodies ∨
      (u.reading i f).openBodies + 1 = u.openBodies := by
  cases hr : u.readers[i]? with
  | none =>
      rw [reading_of_none hr]
      exact .inl ⟨rfl, rfl⟩
  | some r =>
      obtain ⟨hi, hget⟩ := List.getElem?_eq_some_iff.mp hr
      have hle := List.boole_getElem_le_countP (p := fun r : BodyReader => !r.isDone) hi
      rw [hget] at hle
      rw [reading_of_some hr]
      have hsame (hdone : (f ⟨r, u.link⟩).reader.isDone = r.isDone) :
          u.responses.countP Response.holdsBody +
            (u.readers.set i (f ⟨r, u.link⟩).reader).countP (fun r => !r.isDone)
              = u.openBodies := by
        rw [List.countP_set hi, hget, hdone]
        simp only [openBodies]
        omega
      have hclosed (hopen : r.isDone = false) (hdone : (f ⟨r, u.link⟩).reader.isDone = true) :
          u.responses.countP Response.holdsBody +
            (u.readers.set i (f ⟨r, u.link⟩).reader).countP (fun r => !r.isDone) + 1
              = u.openBodies := by
        rw [List.countP_set hi, hget, hdone, hopen]
        rw [hopen] at hle
        simp only [openBodies, Bool.not_false, Bool.not_true, if_true, Bool.false_eq_true,
          if_false] at hle ⊢
        omega
      cases hdone : r.isDone with
      | true =>
          left
          constructor
          · rw [hf.link_eq (x := ⟨r, u.link⟩) hdone]
          · refine hsame ?_
            unfold BodyReader.isDone
            rw [hf.progress_eq (x := ⟨r, u.link⟩) hdone]
      | false =>
          cases hf.reaches (x := ⟨r, u.link⟩) hdone with
          | goesOn open_ _ holds => exact .inl ⟨holds.phase_eq, hsame (by rw [open_, hdone])⟩
          | finishes finished _ => exact .inr (hclosed hdone (Reading.isDone_of_finished finished))
          | fails failure failed _ => exact .inr (hclosed hdone (Reading.isDone_of_failed failed))

/-- A call on a reader leaves its body open, or closes it and goes on to another phase. -/
theorem Sound.reading (h : u.Sound) {i : Nat} {f : Reading σ → Reading σ}
    (hf : Reading.IsCall f) : (u.reading i f).Sound := by
  have hone := h.atMostOne
  rcases openBodies_reading (u := u) (i := i) hf with ⟨hphase, hcount⟩ | hcount
  · constructor
    · rwa [hcount]
    · intro hne
      rw [hphase] at hne
      rw [hcount]
      exact h.inBody hne
  · exact sound_of_none (by omega)

/-- With no body open, a response that is read opens one at most, and the link waits for it. -/
theorem sound_keep (h : u.openBodies = 0) {read : Except Failure Response × Link σ}
    (hread : ∀ r l', read = (.ok r, l') → r.bodyTaken = false ∧ l'.phase = r.phaseAfter) :
    (u.keep read).Sound := by
  obtain ⟨outcome, l'⟩ := read
  cases outcome with
  | error failure =>
      have hcount : (u.keep (.error failure, l')).openBodies = 0 := by
        simp only [keep, openBodies, List.append_nil]
        exact h
      exact sound_of_none hcount
  | ok r =>
      obtain ⟨htaken, hphase⟩ := hread r l' rfl
      have hheld : r.holdsBody = !r.framing.isEmpty := by simp [Response.holdsBody, htaken]
      have hcount : (u.keep (.ok r, l')).openBodies = if r.framing.isEmpty then 0 else 1 := by
        simp only [openBodies] at h
        simp only [keep, openBodies, List.countP_append, List.countP_singleton, hheld]
        cases r.framing.isEmpty with
        | true =>
            simp only [Bool.not_true, Bool.false_eq_true, if_false, if_true]
            omega
        | false =>
            simp only [Bool.not_false, Bool.false_eq_true, if_false, if_true]
            omega
      constructor
      · rw [hcount]
        split <;> omega
      · intro hne
        have hne : l'.phase ≠ .inBody := hne
        rw [hphase, Response.phaseAfter] at hne
        rw [hcount]
        split
        · rfl
        · rename_i hframing
          rw [if_neg hframing] at hne
          exact absurd rfl hne

theorem Sound.of_link (h : u.Sound) {l' : Link σ} (hphase : l'.phase = u.link.phase) :
    Sound { u with link := l' } :=
  ⟨h.atMostOne, fun hne => h.inBody (hphase ▸ hne)⟩

variable [SecureTransport σ]

/-- **What calls preserve**, as long as the connection is not closed over an open body. -/
theorem Sound.step (h : u.Sound) (call : Call) (hclose : call = .close → u.openBodies = 0) :
    (u.step call).Sound := by
  cases call with
  | writeRequest request =>
      by_cases hidle : u.link.phase = .idle
      · have hnone := h.inBody (by rw [hidle]; exact Phase.noConfusion)
        exact sound_of_none hnone
      · obtain ⟨why, hwrite⟩ := Link.write_of_not_idle hidle request
        refine h.of_link ?_
        rw [hwrite]
  | readResponse method capacity =>
      by_cases hidle : u.link.phase = .idle
      · exact sound_keep (h.inBody (by rw [hidle]; exact Phase.noConfusion)) fun r l' =>
          Link.readResponse_ok
      · obtain ⟨why, hread⟩ := Link.readResponse_of_not_idle hidle method capacity
        have hkeep : u.step (.readResponse method capacity) = u := by
          show u.keep _ = u
          rw [hread]
          simp only [keep, List.append_nil]
        rw [hkeep]
        exact h
  | send request capacity =>
      by_cases hidle : u.link.phase = .idle
      · exact sound_keep (h.inBody (by rw [hidle]; exact Phase.noConfusion)) fun r l' =>
          Link.send_ok
      · obtain ⟨why, hsend⟩ := Link.send_of_not_idle hidle request capacity
        have hkeep : u.step (.send request capacity) = u := by
          show u.keep _ = u
          rw [hsend]
          simp only [keep, List.append_nil]
        rw [hkeep]
        exact h
  | takeBody i =>
      constructor
      · show (u.takeBody i).openBodies ≤ 1
        rw [openBodies_takeBody]
        exact h.atMostOne
      · intro hne
        show (u.takeBody i).openBodies = 0
        rw [openBodies_takeBody]
        refine h.inBody ?_
        rw [← link_takeBody u i]
        exact hne
  | readBody i n => exact h.reading (Reading.isCall_read n)
  | readToEnd i => exact h.reading Reading.isCall_readToEnd
  | discard i => exact h.reading Reading.isCall_discard
  | read n => exact h.of_link (Link.phase_read u.link n)
  | write data => exact h.of_link (Link.phase_write u.link data)
  | flush => exact h.of_link (Link.phase_flush u.link)
  | close =>
      have hnone : u.openBodies = 0 := hclose rfl
      exact sound_of_none hnone
  | intoBuffered capacity => exact h.of_link (Link.phase_intoBuffered u.link capacity)

/-- The connection is closed only when every body was read to its end. -/
def Orderly (u : Usage σ) (calls : List Call) : Prop :=
  ∀ pre, pre ++ [.close] <+: calls → (u.run pre).openBodies = 0

theorem Sound.run (h : u.Sound) {calls : List Call} (horderly : u.Orderly calls) :
    (u.run calls).Sound := by
  induction calls using List.reverseRecOn with
  | nil => exact h
  | append_singleton calls call ih =>
      rw [run_concat]
      have hbefore := ih fun pre hpre => horderly pre (hpre.trans (List.prefix_append calls [call]))
      refine hbefore.step call ?_
      intro hcall
      subst hcall
      exact horderly calls (List.prefix_refl _)

/-- A sound usage has no reader that could revive a barred connection. -/
theorem Sound.not_revives (h : u.Sound) (hbarred : u.link.phase.Barred) (call : Call) :
    ¬ u.Revives call := by
  rintro ⟨i, f, r, -, hr, hopen, -⟩
  obtain ⟨hi, hget⟩ := List.getElem?_eq_some_iff.mp hr
  have hle := List.boole_getElem_le_countP (p := fun r : BodyReader => !r.isDone) hi
  have hnone := h.inBody hbarred.ne_inBody
  rw [hget, hopen] at hle
  simp only [openBodies, Bool.not_false, if_true] at hle hnone
  omega

/-- **In orderly use a barred connection is barred for good.** -/
theorem barred_of_orderly {l : Link σ} {before after : List Call}
    (horderly : (start l).Orderly (before ++ after))
    (hbarred : ((start l).run before).link.phase.Barred) :
    ((start l).run (before ++ after)).link.phase.Barred := by
  have hstart : (start l).Sound := ⟨Nat.zero_le 1, fun _ => rfl⟩
  induction after using List.reverseRecOn with
  | nil =>
      rw [List.append_nil]
      exact hbarred
  | append_singleton after call ih =>
      rw [← List.append_assoc] at horderly ⊢
      have hpart : (start l).Orderly (before ++ after) := fun pre hpre =>
        horderly pre (hpre.trans (List.prefix_append _ [call]))
      rw [run_concat]
      rcases phase_step (ih hpart) call with ⟨-, hrevives⟩ | ⟨hstill, -⟩
      · exact absurd hrevives ((hstart.run hpart).not_revives (ih hpart) call)
      · exact hstill

end Usage

end HttpExchange
