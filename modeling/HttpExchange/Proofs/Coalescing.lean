import HttpExchange.Proofs.RequestWriting
import HttpExchange.Proofs.ScriptWire

/-!
# Coalescing writes against plain ones

Whether a connection gathers its writes or not, the same bytes reach the wire. In every form,
what was delivered and what is pending are together what was written, as long as no call has
failed. On a wire that accepts only so many bytes, in whatever parts, a sequence of writes that
is flushed at the end ends alike on a bare and on a coalescing connection: it succeeds if all
of it can be accepted, and if not, what can be accepted is, and the next byte fails it.

* `Ledger.conserves`: what was delivered and what is pending.
* `Metered.perform_flushed`, `Metered.write_outcome`: how sequences of writes and requests end.
* `coalescing_refines_plain`: all forms write the same.
-/

namespace HttpExchange

/-! ## Sequences of writes -/

/-- A call that writes on a link. -/
inductive Task
  | text (data : Bytes)
  | flush
deriving DecidableEq, Repr

namespace Task

/-- What a task hands over. -/
def data : Task → Bytes
  | text data => data
  | flush => []

def written (tasks : List Task) : Bytes := tasks.flatMap data

theorem written_cons (task : Task) (rest : List Task) :
    written (task :: rest) = task.data ++ written rest :=
  List.flatMap_cons

theorem written_flushed (tasks : List Task) : written (tasks ++ [flush]) = written tasks := by
  unfold written
  rw [List.flatMap_append]
  exact List.append_nil _

end Task

namespace Link

variable {σ : Type} [SecureTransport σ]

def performOne (l : Link σ) : Task → Except TransportFailure Unit × Link σ
  | .text data => l.writeAll data
  | .flush => l.flush

/-- Performs tasks one after another and stops at the first that fails. -/
def perform (l : Link σ) : List Task → Except TransportFailure Unit × Link σ
  | [] => (.ok (), l)
  | task :: rest =>
    match l.performOne task with
    | (.error failure, l) => (.error failure, l)
    | (.ok (), l) => l.perform rest

end Link

namespace Channel

variable {σ : Type} [SecureTransport σ] {offer : σ → Bytes → Except TransportFailure Nat × σ}
  {C : Channel offer} {l : Link σ} {text : Bytes}

theorem On.performOne (h : C.On l text) (task : Task) :
    Outcome (l.performOne task)
      (fun _ l' => C.On l' (text ++ task.data) ∧ (task = .flush → l'.Flushed))
      fun failure l' => C.broken l'.wire failure (text ++ task.data) := by
  cases task with
  | text data =>
      refine (h.writeAll data).imp ?_ fun _ _ => And.left
      rintro _ l' ⟨hon, -⟩
      refine ⟨hon, ?_⟩
      intro htask
      cases htask
  | flush =>
      rw [Task.data, List.append_nil]
      refine h.flush.imp ?_ fun _ _ => And.left
      rintro _ l' ⟨hon, hflushed, -⟩
      exact ⟨hon, fun _ => hflushed⟩

theorem On.perform (h : C.On l text) (tasks : List Task) :
    Outcome (l.perform tasks)
      (fun _ l' => C.On l' (text ++ Task.written tasks) ∧
        (tasks.getLast? = some .flush → l'.Flushed))
      fun failure l' => C.broken l'.wire failure (text ++ Task.written tasks) := by
  induction tasks generalizing l text with
  | nil =>
      refine .succeeds () l rfl ⟨?_, fun hlast => by cases hlast⟩
      show C.On l (text ++ [])
      rwa [List.append_nil]
  | cons task rest ih =>
      unfold Link.perform
      rw [Task.written_cons, ← List.append_assoc]
      cases h.performOne task with
      | fails failure l' call holds =>
          rw [call]
          exact .fails failure l' rfl (C.broken_append _ holds)
      | succeeds value l' call holds =>
          obtain ⟨hon, hflushed⟩ := holds
          rw [call]
          cases rest with
          | nil =>
              refine .succeeds () l' rfl ⟨?_, ?_⟩
              · show C.On l' (text ++ task.data ++ [])
                rwa [List.append_nil]
              · intro hlast
                exact hflushed (Option.some.inj hlast)
          | cons next more =>
              rw [List.getLast?_cons_cons]
              exact ih hon

end Channel

/-! ## How sequences and requests end -/

namespace Ledger

variable {σ : Type} [SecureTransport σ]

/-- **Nothing is lost and nothing is doubled** as long as no call has failed. -/
theorem conserves {l l' : Link σ} (L : Ledger (l.connection.form.offer : σ → Bytes → _))
    (hready : l.Ready) {tasks : List Task} (hperform : l.perform tasks = (.ok (), l')) :
    L.delivered l'.wire ++ l'.pending
        = L.delivered l.wire ++ l.pending ++ Task.written tasks ∧
      (tasks.getLast? = some .flush → l'.pending = []) := by
  cases (on_channel_iff.mpr ⟨rfl, hready, rfl⟩ : L.channel.On l _).perform tasks with
  | fails failure l₁ call holds =>
      rw [hperform] at call
      cases call
  | succeeds value l₁ call holds =>
      rw [hperform] at call
      cases call
      obtain ⟨hon, hflushed⟩ := holds
      obtain ⟨-, -, htext⟩ := on_channel_iff.mp hon
      exact ⟨htext, fun hlast => Link.pending_of_flushed (hflushed hlast)⟩

end Ledger

namespace Metered

variable {σ : Type} [SecureTransport σ] {budget : Nat} {M : Metered σ budget} {l : Link σ}
  {text : Bytes}

/-- **How a flushed sequence of writes ends** on a metered wire: the wire accepts what it can,
and if that is not all the sequence fails at the next byte. -/
theorem perform_flushed (h : M.channel.On l text) (tasks : List Task) :
    (l.perform (tasks ++ [.flush])).1
        = (if (text ++ Task.written tasks).length ≤ budget then .ok ()
          else .error .nothingAccepted) ∧
      M.delivered (l.perform (tasks ++ [.flush])).2.wire
        = (text ++ Task.written tasks).take budget := by
  have hrun := h.perform (tasks ++ [.flush])
  rw [Task.written_flushed] at hrun
  cases hrun with
  | succeeds value l' call holds =>
      obtain ⟨hon, hflushed⟩ := holds
      obtain ⟨hwithin, hdelivered⟩ := delivered_of_on hon (hflushed List.getLast?_concat)
      rw [call, if_pos hwithin]
      exact ⟨rfl, hdelivered⟩
  | fails failure l' call holds =>
      obtain ⟨rfl, hbeyond, hdelivered⟩ := holds
      rw [call, if_neg (Nat.not_le_of_lt hbeyond)]
      exact ⟨rfl, hdelivered⟩

/-- **How a request ends** on a metered wire, if its body keeps its word. -/
theorem write_outcome (h : M.channel.On l text) (hidle : l.phase = .idle) {r : Request}
    (honest : r.Honest) :
    (r.write l).1
        = (if (text ++ r.serialized).length ≤ budget then .ok ()
          else .error (.network .nothingAccepted)) ∧
      M.delivered (r.write l).2.wire = (text ++ r.serialized).take budget := by
  rcases r.write_outcome hidle h with
    ⟨l', hwrite, -, hon, hflushed, -⟩ | ⟨failure, l', hwrite, -, hbroken | hdishonest⟩
  · obtain ⟨hwithin, hdelivered⟩ := delivered_of_on hon hflushed
    rw [hwrite, if_pos hwithin]
    exact ⟨rfl, hdelivered⟩
  · obtain ⟨rfl, hbeyond, hdelivered⟩ := hbroken
    rw [hwrite, if_neg (Nat.not_le_of_lt hbeyond)]
    exact ⟨rfl, hdelivered⟩
  · exact absurd honest hdishonest

end Metered

/-! ## Coalescing links -/

/-- **Coalescing changes nothing that the wire can tell.** Whatever the form of a link, what
was delivered and what is pending are what was written, as long as no call has failed, and a
flush leaves nothing pending. On a metered wire a bare link and a coalescing one with nothing
pending end alike, with the same bytes delivered: every sequence of writes that is flushed at
the end, and every request without a body, with its body as a whole or in fragments. -/
theorem coalescing_refines_plain {σ : Type} [SecureTransport σ] :
    (∀ (l l' : Link σ) (L : Ledger (l.connection.form.offer : σ → Bytes → _)) (tasks : List Task),
      l.Ready → l.perform tasks = (.ok (), l') →
        L.delivered l'.wire ++ l'.pending
            = L.delivered l.wire ++ l.pending ++ Task.written tasks ∧
          (tasks.getLast? = some .flush → l'.pending = [])) ∧
    ∀ {budget : Nat} (M : Metered σ budget) {plain coalescing : Link σ} (buffer : WriteBuffer),
      plain.connection.form = .plain → coalescing.connection.form = .buffered buffer →
      buffer.pending = 0 → coalescing.wire = plain.wire → M.meters plain.wire →
      (∀ tasks : List Task, ∃ outcome l' c',
        plain.perform (tasks ++ [.flush]) = (outcome, l') ∧
        coalescing.perform (tasks ++ [.flush]) = (outcome, c') ∧
        (outcome = if (M.delivered plain.wire ++ Task.written tasks).length ≤ budget then .ok ()
          else .error ⟨.writeError, ascii "Write accepted zero bytes"⟩) ∧
        M.delivered l'.wire = (M.delivered plain.wire ++ Task.written tasks).take budget ∧
        M.delivered c'.wire = M.delivered l'.wire) ∧
      (plain.phase = .idle → coalescing.phase = .idle → ∀ (r : Request) (payload : Payload),
        r.body = payload.body? → ∃ outcome l' c',
          r.write plain = (outcome, l') ∧ r.write coalescing = (outcome, c') ∧
          (outcome = if (M.delivered plain.wire ++ r.serialized).length ≤ budget then .ok ()
            else .error (.network ⟨.writeError, ascii "Write accepted zero bytes"⟩)) ∧
          M.delivered l'.wire = (M.delivered plain.wire ++ r.serialized).take budget ∧
          M.delivered c'.wire = M.delivered l'.wire) := by
  constructor
  · intro l l' L tasks hready hperform
    exact L.conserves hready hperform
  · intro budget M plain coalescing buffer hplain hcoalescing hpending hwire hmeters
    have hp : M.channel.On plain (M.delivered plain.wire) :=
      Metered.on_flushed (by simp [hplain]) (by simp [Link.Flushed, hplain]) hmeters
    have hc : M.channel.On coalescing (M.delivered coalescing.wire) :=
      Metered.on_flushed (by simp [hcoalescing]) (by simp [Link.Flushed, hcoalescing, hpending])
        (hwire ▸ hmeters)
    rw [hwire] at hc
    constructor
    · intro tasks
      obtain ⟨houtcome, hdelivered⟩ := Metered.perform_flushed hp tasks
      obtain ⟨houtcome', hdelivered'⟩ := Metered.perform_flushed hc tasks
      exact ⟨_, _, _, Prod.ext houtcome rfl, Prod.ext houtcome' rfl, rfl, hdelivered,
        hdelivered'.trans hdelivered.symm⟩
    · intro hidle hidle' r payload hbody
      have honest := payload.honest hbody
      obtain ⟨houtcome, hdelivered⟩ := Metered.write_outcome hp hidle honest
      obtain ⟨houtcome', hdelivered'⟩ := Metered.write_outcome hc hidle' honest
      exact ⟨_, _, _, Prod.ext houtcome rfl, Prod.ext houtcome' rfl, rfl, hdelivered,
        hdelivered'.trans hdelivered.symm⟩

/-- A wire that accepts ten bytes, three at a time. -/
def narrow : Script := { Script.empty with maxWrite := some 3, writeBudget := some 10 }

def narrowLink (form : Form) : Link Script := ⟨⟨form, .idle, false⟩, .empty, narrow, []⟩

theorem meters_narrow : narrow.Meters 10 := ⟨⟨rfl, rfl, by decide⟩, rfl, by decide⟩

def greeting : List Task := [.text (ascii "hello"), .flush, .text (ascii "world!")]

/-- Eleven bytes are one too many for the narrow wire, and a request is eight too many; records
are not measured. -/
theorem coalescing_refines_plain_narrow :
    (∃ l', (narrowLink (.secured ⟨.empty 8, true⟩)).perform greeting = (.ok (), l') ∧
      (Script.recorded ⟨.empty 8, true⟩).delivered l'.wire ++ l'.pending
        = ascii "helloworld!") ∧
    (∃ l' c', (narrowLink .plain).perform (greeting ++ [.flush])
        = (.error .nothingAccepted, l') ∧
      (narrowLink (.buffered (.empty 4))).perform (greeting ++ [.flush])
        = (.error .nothingAccepted, c') ∧
      l'.wire.taken = ascii "helloworld" ∧ c'.wire.taken = l'.wire.taken) ∧
    ∃ l' c', (Request.make .get (ascii "/")).write (narrowLink .plain)
        = (.error (.network .nothingAccepted), l') ∧
      (Request.make .get (ascii "/")).write (narrowLink (.buffered (.empty 4)))
        = (.error (.network .nothingAccepted), c') ∧
      l'.wire.taken = ascii "GET / HTTP" ∧ c'.wire.taken = l'.wire.taken := by
  obtain ⟨conserves, refines⟩ := coalescing_refines_plain (σ := Script)
  obtain ⟨sequences, requests⟩ := refines (Script.metered 10) (.empty 4)
    (rfl : (narrowLink .plain).connection.form = _)
    (rfl : (narrowLink (.buffered (.empty 4))).connection.form = _) rfl rfl meters_narrow
  refine ⟨?_, ?_, ?_⟩
  · have hready : (narrowLink (.secured ⟨.empty 8, true⟩)).Ready := by
      refine Link.ready_of_flushed ?_ rfl
      intro session hform
      cases hform
      rfl
    have hok : ((narrowLink (.secured ⟨.empty 8, true⟩)).perform greeting).1.isOk = true := by
      decide +kernel
    cases hperform : (narrowLink (.secured ⟨.empty 8, true⟩)).perform greeting with
    | mk outcome l' =>
        rw [hperform] at hok
        cases outcome with
        | error failure => cases hok
        | ok value => exact ⟨l', rfl, (conserves _ l' (Script.recorded _) _ hready hperform).1⟩
  · obtain ⟨outcome, l', c', hplain, hcoalescing, rfl, hdelivered, hsame⟩ := sequences greeting
    exact ⟨l', c', hplain, hcoalescing, hdelivered, hsame⟩
  · obtain ⟨outcome, l', c', hplain, hcoalescing, rfl, hdelivered, hsame⟩ :=
      requests rfl rfl (Request.make .get (ascii "/")) .none rfl
    exact ⟨l', c', hplain, hcoalescing, hdelivered, hsame⟩

end HttpExchange
