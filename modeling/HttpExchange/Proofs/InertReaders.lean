import HttpExchange.Proofs.Draining
import HttpExchange.Proofs.ReuseGuard

/-!
# Readers that are done

A reader that has come to the end of its body, or has failed, has its verdict, and tells it again
and again. It is the verdict that the first call has told which found the end or failed
(`Reading.verdict_of_tells`), and nothing changes it, neither further calls on the reader nor
anything else that is done with the connection (`Usage.verdict_step`).

Such a reader is inert: a run goes the same way with the calls on it and without them, so that
they reach neither the transport nor the state of a connection that has long gone on to other
responses (`Usage.run_spared`).

* `Usage.done_reader_inert`: what is told, and what is left alone, in every run.
-/

namespace HttpExchange

/-! ## Verdicts -/

namespace BodyReader

/-- What a reader that is done tells of its body: that it has ended, or with what it has failed. -/
def verdict? (r : BodyReader) : Option (Except Failure Unit) :=
  match r.progress with
  | .finished => some (.ok ())
  | .failed failure => some (.error failure)
  | .fixed _ | .chunked _ | .toClose => none

theorem verdict?_eq_ok_iff {r : BodyReader} :
    r.verdict? = some (.ok ()) ↔ r.progress = .finished := by
  unfold verdict?
  cases r.progress <;> simp

theorem verdict?_eq_error_iff {r : BodyReader} {failure : Failure} :
    r.verdict? = some (.error failure) ↔ r.progress = .failed failure := by
  unfold verdict?
  cases r.progress <;> simp

theorem isDone_of_verdict {r : BodyReader} {v : Except Failure Unit} (h : r.verdict? = some v) :
    r.isDone = true := by
  cases v with
  | error failure => exact Reading.isDone_of_failed (verdict?_eq_error_iff.mp h)
  | ok value => exact Reading.isDone_of_finished (verdict?_eq_ok_iff.mp h)

theorem exists_verdict {r : BodyReader} (h : r.isDone = true) : ∃ v, r.verdict? = some v := by
  unfold isDone at h
  unfold verdict?
  cases hprogress : r.progress with
  | finished => exact ⟨_, rfl⟩
  | failed failure => exact ⟨_, rfl⟩
  | _ =>
      rw [hprogress] at h
      cases h

end BodyReader

/-- What a use comes to where nothing is left: no bytes, or a count of none. -/
def Use.nothing : Use → Yield
  | .read _ | .readToEnd => .bytes []
  | .discard => .count 0

/-- An outcome of a use that tells how the body has ended. A read that asks for no bytes and gets
none does not. -/
inductive Use.Tells : Use → Except Failure Yield → Except Failure Unit → Prop
  | failed (u : Use) (failure : Failure) : Tells u (.error failure) (.error failure)
  | nothing {n : Nat} : n ≠ 0 → Tells (.read n) (.ok (.bytes [])) (.ok ())
  | collected (data : Bytes) : Tells .readToEnd (.ok (.bytes data)) (.ok ())
  | counted (n : Nat) : Tells .discard (.ok (.count n)) (.ok ())

namespace Reading

variable {σ : Type} [SecureTransport σ] {x y : Reading σ} {n : Nat}

/-! ## Where calls leave their reader -/

/-- A call that fails leaves its reader with that verdict, and so does one that finds the end, where
it has asked for bytes and got none. -/
def Judges (n : Nat) : Except Failure Bytes × Reading σ → Prop
  | (.error failure, y) => y.reader.verdict? = some (.error failure)
  | (.ok [], y) => n ≠ 0 → y.reader.verdict? = some (.ok ())
  | (.ok (_ :: _), _) => True

theorem verdict_of_scan {s α : Type} {step : s → UInt8 → Verdict s α} {state : s}
    {failure : Failure} (h : scan step state x = (.error failure, y)) :
    y.reader.verdict? = some (.error failure) := by
  fun_induction scan step state x with
  | case1 => cases h; rfl
  | case2 => cases h; rfl
  | case3 state x b source link hread next hstep ih => exact ih h
  | case4 => cases h
  | case5 => cases h; rfl

theorem judges_readFixed (x : Reading σ) (k n : Nat) : Judges n (x.readFixed k n) := by
  unfold readFixed
  split
  · rfl
  · rfl
  · trivial

theorem judges_readToClose (x : Reading σ) (n : Nat) : Judges n (x.readToClose n) := by
  unfold readToClose
  split
  · rfl
  · exact fun _ => rfl
  · trivial

theorem judges_readData (x : Reading σ) (k n : Nat) : Judges n (x.readData k n) := by
  unfold readData
  split
  · rfl
  · rfl
  · trivial

theorem judges_readTrailers (x : Reading σ) (n : Nat) : Judges n x.readTrailers := by
  unfold readTrailers
  split
  · rename_i hscan
    exact verdict_of_scan hscan
  · exact fun _ => rfl

theorem judges_readChunk (x : Reading σ) (n : Nat) : Judges n (x.readChunk n) := by
  unfold readChunk
  split
  · rename_i hscan
    exact verdict_of_scan hscan
  · dsimp only
    split
    · exact judges_readTrailers _ n
    · exact judges_readData _ _ n

theorem judges_readDataEnd (x : Reading σ) (n : Nat) : Judges n (x.readDataEnd n) := by
  unfold readDataEnd
  split
  · rename_i hscan
    exact verdict_of_scan hscan
  · exact judges_readChunk _ n

/-- **A read that finds the end or fails** leaves its reader with that verdict, wherever it stood. -/
theorem judges_read (x : Reading σ) (n : Nat) : Judges n (x.read n) := by
  have hidle (hn : n = 0) : Judges n (.ok [], x) := fun hne => absurd hn hne
  unfold read
  cases hx : x.reader.progress with
  | failed failure => exact BodyReader.verdict?_eq_error_iff.mpr hx
  | finished => exact fun _ => BodyReader.verdict?_eq_ok_iff.mpr hx
  | fixed k =>
      dsimp only
      split
      next hn => exact hidle hn
      next => exact judges_readFixed x k n
  | toClose =>
      dsimp only
      split
      next hn => exact hidle hn
      next => exact judges_readToClose x n
  | chunked place =>
      dsimp only
      split
      next hn => exact hidle hn
      next =>
        cases place with
        | size => exact judges_readChunk x n
        | data k => exact judges_readData x k n
        | dataEnd => exact judges_readDataEnd x n
        | trailers => exact judges_readTrailers x n

theorem judges_of_read {call : Except Failure Bytes × Reading σ} (h : x.read n = call) :
    Judges n call :=
  h ▸ judges_read x n

theorem verdict_readAll (x : Reading σ) (hn : n ≠ 0) :
    (x.readAll n).2.2.reader.verdict? = some (x.readAll n).2.1 := by
  fun_induction readAll x n with
  | case1 x failure y hread => exact judges_of_read hread
  | case2 x y hread => exact judges_of_read hread hn
  | case3 x b bytes y hread more outcome z hall ih =>
      rw [hall] at ih
      exact ih

theorem verdict_discard (x : Reading σ) :
    x.discard.2.reader.verdict? = some (x.discard.1.map fun _ => ()) := by
  have hall := verdict_readAll x (n := discardStep) (by decide)
  unfold discard
  split <;> rename_i heq <;> rw [heq] at hall <;> exact hall

theorem verdict_collect (x : Reading σ) (out : Nat) :
    (x.collect out).2.reader.verdict? = some ((x.collect out).1.map fun _ => ()) := by
  fun_induction collect x out with
  | case1 x out hfull failure y hread => exact judges_of_read hread
  | case2 x out hfull y hread => exact judges_of_read hread Nat.one_ne_zero
  | case3 => rfl
  | case4 x out hroom failure y hread => exact judges_of_read hread
  | case5 x out hroom y hread => exact judges_of_read hread (by omega)
  | case6 x out hroom b bytes y hread ih => exact ih

theorem verdict_readToEnd (x : Reading σ) :
    x.readToEnd.2.reader.verdict? = some (x.readToEnd.1.map fun _ => ()) := by
  have hcollect := verdict_collect (x.mapSource Source.compact) 0
  unfold readToEnd
  split
  · rename_i hfailed
    exact BodyReader.verdict?_eq_error_iff.mpr hfailed
  · split <;> rename_i heq <;> rw [heq] at hcollect <;> exact hcollect

/-- **The verdict of a reader is the one that a call has told.** -/
theorem verdict_of_tells {u : Use} {v : Except Failure Unit} (h : u.Tells (x.use u).1 v) :
    (x.use u).2.reader.verdict? = some v := by
  cases u with
  | read n =>
      have hjudges := judges_read x n
      simp only [use] at h ⊢
      generalize x.read n = call at h hjudges ⊢
      obtain ⟨failure | _ | ⟨b, bytes⟩, y⟩ := call
      · cases h
        exact hjudges
      · cases h with
        | nothing hn => exact hjudges hn
      · cases h
  | readToEnd =>
      have hverdict := verdict_readToEnd x
      simp only [use] at h ⊢
      rw [hverdict]
      generalize x.readToEnd = call at h ⊢
      obtain ⟨failure | data, y⟩ := call
      · cases h
        rfl
      · cases h
        rfl
  | discard =>
      have hverdict := verdict_discard x
      simp only [use] at h ⊢
      rw [hverdict]
      generalize x.discard = call at h ⊢
      obtain ⟨failure | count, y⟩ := call
      · cases h
        rfl
      · cases h
        rfl

/-! ## Calls on a reader that is done -/

variable {v : Except Failure Unit}

theorem read_of_verdict (h : x.reader.verdict? = some v) (n : Nat) :
    x.read n = (v.map fun _ => [], x) := by
  unfold read
  cases v with
  | error failure =>
      rw [BodyReader.verdict?_eq_error_iff.mp h]
      rfl
  | ok value =>
      rw [BodyReader.verdict?_eq_ok_iff.mp h]
      rfl

theorem discard_of_verdict (h : x.reader.verdict? = some v) :
    x.discard = (v.map fun _ => 0, x) := by
  have hread := read_of_verdict h discardStep
  unfold discard
  cases v with
  | error failure =>
      rw [readAll_of_error hread]
      rfl
  | ok value =>
      rw [readAll_of_end hread]
      rfl

/-- Nothing is collected, but what is staged may have moved to the front. -/
theorem readToEnd_of_verdict (h : x.reader.verdict? = some v) :
    x.readToEnd.1 = v.map fun _ => [] := by
  unfold readToEnd
  cases v with
  | error failure =>
      rw [BodyReader.verdict?_eq_error_iff.mp h]
      rfl
  | ok value =>
      have hread := read_of_verdict (x := (x.mapSource Source.compact).above 0) h
      rw [BodyReader.verdict?_eq_ok_iff.mp h]
      dsimp only
      rw [collect_of_end (hread _)]
      exact congrArg Except.ok (List.take_zero)

/-- **A call on a reader that is done** repeats its verdict and leaves the link alone. -/
theorem use_of_verdict (h : x.reader.verdict? = some v) (u : Use) :
    (x.use u).1 = v.map (fun _ => u.nothing) ∧ (x.use u).2.link = x.link ∧
      (x.use u).2.reader.verdict? = some v := by
  have hdone := BodyReader.isDone_of_verdict h
  have hlink := (isCall_use u).link_eq hdone
  have hprogress := (isCall_use u).progress_eq hdone
  refine ⟨?_, hlink, ?_⟩
  · cases u with
    | read n =>
        simp only [use, read_of_verdict h]
        cases v <;> rfl
    | readToEnd =>
        simp only [use, readToEnd_of_verdict h]
        cases v <;> rfl
    | discard =>
        simp only [use, discard_of_verdict h]
        cases v <;> rfl
  · rw [← h]
    unfold BodyReader.verdict?
    rw [hprogress]

end Reading

/-! ## Readers of a connection -/

namespace Usage

/-- The reader that a call is made on, and how the call uses it. -/
def use? : Call → Option (Nat × Use)
  | .readBody i n => some (i, .read n)
  | .readToEnd i => some (i, .readToEnd)
  | .discard i => some (i, .discard)
  | _ => none

/-- Whether a call is made on that reader. -/
def usesReader (i : Nat) (call : Call) : Bool := (use? call).any fun used => used.1 == i

theorem usesReader_iff {i : Nat} {call : Call} :
    usesReader i call = true ↔ ∃ u, use? call = some (i, u) := by
  unfold usesReader
  cases use? call with
  | none => simp
  | some used =>
      obtain ⟨j, u⟩ := used
      simp

section

variable {σ : Type}

/-- The verdict of a reader that is done. -/
def verdict? (w : Usage σ) (i : Nat) : Option (Except Failure Unit) :=
  w.readers[i]?.bind BodyReader.verdict?

/-- Another reader in the place of one. -/
def put (w : Usage σ) (i : Nat) (r : BodyReader) : Usage σ :=
  { w with readers := w.readers.set i r }

variable {w : Usage σ} {i : Nat} {v : Except Failure Unit} {r : BodyReader}

theorem verdict?_eq_some_iff :
    w.verdict? i = some v ↔ ∃ r, w.readers[i]? = some r ∧ r.verdict? = some v :=
  Option.bind_eq_some_iff

theorem lt_of_verdict (h : w.verdict? i = some v) : i < w.readers.length := by
  obtain ⟨r, hr, -⟩ := verdict?_eq_some_iff.mp h
  exact (List.getElem?_eq_some_iff.mp hr).1

theorem verdict_put (hi : i < w.readers.length) (h : r.verdict? = some v) :
    (w.put i r).verdict? i = some v :=
  verdict?_eq_some_iff.mpr ⟨r, List.getElem?_set_self hi, h⟩

@[simp]
theorem put_put (w : Usage σ) (i : Nat) (r r' : BodyReader) : (w.put i r).put i r' = w.put i r' := by
  simp only [put, List.set_set]

theorem takeBody_put (hi : i < w.readers.length) (r : BodyReader) (j : Nat) :
    (w.put i r).takeBody j = (w.takeBody j).put i r := by
  simp only [takeBody, put]
  split
  · rfl
  · rw [List.set_append_left i r hi]

theorem reading_put {j : Nat} (hne : i ≠ j) (r : BodyReader) (f : Reading σ → Reading σ) :
    (w.put i r).reading j f = (w.reading j f).put i r := by
  have hj : (w.readers.set i r)[j]? = w.readers[j]? := List.getElem?_set_ne hne
  simp only [reading, put, hj]
  split
  · rfl
  · simp only [List.set_comm _ _ hne]

end

variable {σ : Type} [SecureTransport σ] {w : Usage σ} {i : Nat} {v : Except Failure Unit}

/-- What a use of a reader would come to. -/
def answer? (w : Usage σ) (i : Nat) (u : Use) : Option (Except Failure Yield) :=
  w.readers[i]?.map fun r => ((Reading.mk r w.link).use u).1

theorem step_of_use? {call : Call} {u : Use} (h : use? call = some (i, u)) :
    w.step call = w.reading i fun x => (x.use u).2 := by
  cases call <;> cases h <;> rfl

/-- What is not done with a reader leaves all readers as they are. -/
theorem readers_step {call : Call} (h : use? call = none) :
    ∃ made, (w.step call).readers = w.readers ++ made := by
  cases call with
  | takeBody j =>
      show ∃ made, (w.takeBody j).readers = _
      unfold takeBody
      split
      · exact ⟨[], (List.append_nil _).symm⟩
      · exact ⟨_, rfl⟩
  | readBody => cases h
  | readToEnd => cases h
  | discard => cases h
  | _ => exact ⟨[], (List.append_nil _).symm⟩

/-- **A call on a reader that is done** tells its verdict; the reader keeps it, and all else is as
before. -/
theorem step_of_verdict (h : w.verdict? i = some v) {call : Call} {u : Use}
    (hcall : use? call = some (i, u)) :
    w.answer? i u = some (v.map fun _ => u.nothing) ∧
      ∃ r, r.verdict? = some v ∧ w.step call = w.put i r := by
  obtain ⟨r, hr, hverdict⟩ := verdict?_eq_some_iff.mp h
  obtain ⟨hanswer, hlink, hkept⟩ :=
    Reading.use_of_verdict (x := ⟨r, w.link⟩) hverdict u
  constructor
  · unfold answer?
    rw [hr, Option.map_some, hanswer]
  · refine ⟨_, hkept, ?_⟩
    rw [step_of_use? hcall, reading_of_some hr]
    simp only [hlink, put]

/-- **No call changes a verdict**, on whatever reader or connection it is made. -/
theorem verdict_step (h : w.verdict? i = some v) (call : Call) :
    (w.step call).verdict? i = some v := by
  obtain ⟨r, hr, hverdict⟩ := verdict?_eq_some_iff.mp h
  cases hcall : use? call with
  | none =>
      obtain ⟨made, hreaders⟩ := readers_step (w := w) hcall
      refine verdict?_eq_some_iff.mpr ⟨r, ?_, hverdict⟩
      rw [hreaders, List.getElem?_append_left (lt_of_verdict h), hr]
  | some used =>
      obtain ⟨j, u⟩ := used
      by_cases hij : j = i
      · subst hij
        obtain ⟨-, r', hkept, hstep⟩ := step_of_verdict h hcall
        rw [hstep]
        exact verdict_put (lt_of_verdict h) hkept
      · refine verdict?_eq_some_iff.mpr ⟨r, ?_, hverdict⟩
        rw [step_of_use? hcall]
        unfold reading
        split
        · exact hr
        · exact (List.getElem?_set_ne hij).trans hr

theorem verdict_run (h : w.verdict? i = some v) (calls : List Call) :
    (w.run calls).verdict? i = some v := by
  induction calls using List.reverseRecOn with
  | nil => exact h
  | append_singleton calls call ih =>
      rw [run_concat]
      exact verdict_step ih call

/-- What is done elsewhere does not depend on the reader. -/
theorem step_put (hi : i < w.readers.length) (r : BodyReader) {call : Call}
    (hcall : usesReader i call = false) : (w.put i r).step call = (w.step call).put i r := by
  cases hused : use? call with
  | some used =>
      obtain ⟨j, u⟩ := used
      have hne : i ≠ j := by
        rintro rfl
        rw [usesReader_iff.mpr ⟨u, hused⟩] at hcall
        cases hcall
      rw [step_of_use? hused, step_of_use? hused, reading_put hne]
  | none =>
      cases call with
      | takeBody j => exact takeBody_put hi r j
      | readBody => cases hused
      | readToEnd => cases hused
      | discard => cases hused
      | _ => rfl

/-- **A run is the same without the calls on a reader that is done**, but for that reader. -/
theorem run_spared (h : w.verdict? i = some v) (calls : List Call) :
    ∃ r, r.verdict? = some v ∧
      w.run calls = (w.run (calls.filter fun call => !usesReader i call)).put i r := by
  induction calls using List.reverseRecOn with
  | nil =>
      obtain ⟨r, hr, hverdict⟩ := verdict?_eq_some_iff.mp h
      refine ⟨r, hverdict, ?_⟩
      obtain ⟨hi, hget⟩ := List.getElem?_eq_some_iff.mp hr
      show w = w.put i r
      rw [← hget, put, List.set_getElem_self]
  | append_singleton calls call ih =>
      obtain ⟨r, hverdict, hrun⟩ := ih
      have hi := lt_of_verdict (verdict_run h (calls.filter fun call => !usesReader i call))
      rw [run_concat, hrun, List.filter_append]
      cases hcall : usesReader i call with
      | true =>
          obtain ⟨u, hused⟩ := usesReader_iff.mp hcall
          obtain ⟨-, r', hkept, hstep⟩ := step_of_verdict (verdict_put hi hverdict) hused
          refine ⟨r', hkept, ?_⟩
          rw [hstep, put_put, List.filter_singleton, hcall]
          simp
      | false =>
          refine ⟨r, hverdict, ?_⟩
          rw [step_put hi r hcall, List.filter_singleton, hcall]
          simp [run_concat]

/-- **A reader that is done is inert.** A call that tells how the body has ended gives its reader
that verdict. A reader that is done has one, its end or its first failure, and from then on, after
whatever other calls on the connection, its responses and readers: it keeps the verdict, every
use of it tells the verdict with nothing handed out, and no such call changes the link, its
transport and its phase included, the responses or another reader. A run leads to the same with
these calls and without them, but for the reader itself. -/
theorem done_reader_inert (w : Usage σ) (i : Nat) :
    (∀ call u out v, use? call = some (i, u) → w.answer? i u = some out → u.Tells out v →
      (w.step call).verdict? i = some v) ∧
    ∀ r, w.readers[i]? = some r → r.isDone = true → ∃ v,
      (r.progress = .finished ∧ v = .ok () ∨ ∃ failure,
        r.progress = .failed failure ∧ v = .error failure) ∧
      ∀ calls,
        (w.run calls).verdict? i = some v ∧
        (∀ u, (w.run calls).answer? i u = some (v.map fun _ => u.nothing)) ∧
        (∀ call, usesReader i call = true →
          ((w.run calls).step call).link = (w.run calls).link ∧
          ((w.run calls).step call).responses = (w.run calls).responses ∧
          ∀ j, j ≠ i → ((w.run calls).step call).readers[j]? = (w.run calls).readers[j]?) ∧
        ∃ r', w.run calls = (w.run (calls.filter fun call => !usesReader i call)).put i r' := by
  refine ⟨?_, ?_⟩
  · intro call u out v hcall hout htells
    unfold answer? at hout
    obtain ⟨r, hr, rfl⟩ := Option.map_eq_some_iff.mp hout
    have hi := (List.getElem?_eq_some_iff.mp hr).1
    rw [step_of_use? hcall, reading_of_some hr]
    exact verdict_put (w := w) hi (Reading.verdict_of_tells htells)
  · intro r hr hdone
    obtain ⟨v, hv⟩ := BodyReader.exists_verdict hdone
    have hverdict : w.verdict? i = some v := verdict?_eq_some_iff.mpr ⟨r, hr, hv⟩
    refine ⟨v, ?_, ?_⟩
    · rcases v with failure | value
      · exact .inr ⟨failure, BodyReader.verdict?_eq_error_iff.mp hv, rfl⟩
      · exact .inl ⟨BodyReader.verdict?_eq_ok_iff.mp hv, rfl⟩
    · intro calls
      have hrun := verdict_run hverdict calls
      obtain ⟨r', -, hspared⟩ := run_spared hverdict calls
      refine ⟨hrun, ?_, ?_, r', hspared⟩
      · intro u
        obtain ⟨call, hcall⟩ : ∃ call, use? call = some (i, u) := by
          cases u with
          | read n => exact ⟨.readBody i n, rfl⟩
          | readToEnd => exact ⟨.readToEnd i, rfl⟩
          | discard => exact ⟨.discard i, rfl⟩
        exact (step_of_verdict hrun hcall).1
      · intro call hcall
        obtain ⟨u, hused⟩ := usesReader_iff.mp hcall
        obtain ⟨-, r'', -, hstep⟩ := step_of_verdict hrun hused
        rw [hstep]
        exact ⟨rfl, rfl, fun j hj => List.getElem?_set_ne hj.symm⟩

/-- A connection with a response to come behind one whose body was collected. -/
def betweenResponses : Usage Script :=
  (start (Script.connected [shortHead ++ ascii "hi", shortHead ++ ascii "ho"])).run
    [.readResponse .get 256, .takeBody 0, .readToEnd 0]

/-- The reader of the first response does nothing to the body of the second. -/
theorem betweenResponses_inert :
    (betweenResponses.run [.readResponse .get 128]).link.phase = .inBody ∧
    (betweenResponses.run [.readResponse .get 128]).answer? 0 .discard = some (.ok (.count 0)) ∧
    (betweenResponses.run
        [.readResponse .get 128, .discard 0, .readBody 0 16, .readToEnd 0]).link
      = (betweenResponses.run [.readResponse .get 128]).link := by
  have hprogress : betweenResponses.readers[0]?.map BodyReader.progress = some .finished := by
    decide +kernel
  obtain ⟨r, hr, hfinished⟩ := Option.map_eq_some_iff.mp hprogress
  obtain ⟨v, hv, hlater⟩ :=
    (done_reader_inert betweenResponses 0).2 r hr (Reading.isDone_of_finished hfinished)
  have hend : v = .ok () := by
    rcases hv with ⟨-, hv⟩ | ⟨failure, hfailed, -⟩
    · exact hv
    · rw [hfinished] at hfailed
      cases hfailed
  refine ⟨by decide +kernel, ?_, ?_⟩
  · rw [(hlater [.readResponse .get 128]).2.1 .discard, hend]
    rfl
  · obtain ⟨-, -, -, r', hrun⟩ :=
      hlater [.readResponse .get 128, .discard 0, .readBody 0 16, .readToEnd 0]
    have hlink := congrArg Usage.link hrun
    exact hlink

end Usage

end HttpExchange
