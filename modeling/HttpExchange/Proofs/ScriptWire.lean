import HttpExchange.Proofs.Outbound
import HttpExchange.Proofs.ScriptFeed

/-!
# Scripts as wires

A script keeps what it accepts, so it is a wire with a log, also under TLS, where it logs the
records. If no call on it fails by setting, it accepts some of every text: up to a total of so
many bytes, if it has a budget, and without an end if not.
-/

namespace HttpExchange

namespace Script

/-- What a script has accepted, in the order in which it came. -/
def taken (s : Script) : Bytes := s.accepted.reverse.flatten

/-- No call on a script fails by setting, and a write accepts something. -/
structure Unfailing (s : Script) : Prop where
  writes : s.failWrite = none
  flushes : s.failFlush = none
  accepting : s.maxWrite ≠ some 0

theorem write_of_unfailing {s : Script} (h : s.failWrite = none) (data : Bytes) :
    s.write data = (.ok (atMost s.writeBudget (atMost s.maxWrite data.length)),
      { s with
        writes := s.writes + 1
        accepted := data.take (atMost s.writeBudget (atMost s.maxWrite data.length)) :: s.accepted
        writeBudget := s.writeBudget.map
          (· - atMost s.writeBudget (atMost s.maxWrite data.length)) }) := by
  have hdue : due? s.failWrite s.writesAllowed s.writes = none := by
    rw [h, due?]
    split <;> rfl
  unfold write
  rw [hdue]

theorem flush_of_unfailing {s : Script} (h : s.failFlush = none) :
    s.flush = (.ok (), { s with flushes := s.flushes + 1 }) := by
  unfold flush
  rw [h]

theorem eq_of_flush {s s' : Script} (h : s.flush = (.ok (), s')) :
    s' = { s with flushes := s.flushes + 1 } := by
  unfold flush at h
  split at h
  · cases h
  · cases h
    rfl

/-! ## Logs -/

def ledger : Ledger (Transport.write : Script → Bytes → _) where
  delivered := taken
  accepts {s s' data n} h := by
    have h : s.write data = (.ok n, s') := h
    unfold write at h
    split at h
    · cases h
    · cases h
      simp only [taken, List.reverse_cons, List.flatten_append, List.flatten_singleton]
  flushes h := by
    rw [eq_of_flush h]
    rfl

theorem flatten_records (data : Bytes) : (records data).flatten = data := by
  fun_induction records data with
  | case1 data h => exact List.append_nil data
  | case2 data h ih => rw [List.flatten_cons, ih, List.take_append_drop]

/-- The records of a script log the text that is sent under TLS. -/
def recorded (session : SecureSession) :
    Ledger ((Form.secured session).offer : Script → Bytes → _) where
  delivered s := s.trace.records.reverse.flatten
  accepts {s s' data n} h := by
    unfold Form.offer at h
    dsimp only at h
    split at h
    · simp only [SecureTransport.sendRecords, sendRecords] at h
      cases hfail : s.failWrite with
      | some error =>
          rw [hfail] at h
          cases h
      | none =>
          rw [hfail] at h
          cases h
          simp only [trace, Option.getD_some, List.reverse_append, List.reverse_reverse,
            List.flatten_append, flatten_records, List.take_length]
    · cases h
  flushes h := by
    rw [eq_of_flush h]
    rfl

/-! ## Scripts that accept everything -/

/-- A script without a budget, as a sink. -/
def sink : Sink (Transport.write : Script → Bytes → _) where
  accepted s text := s.Unfailing ∧ s.writeBudget = none ∧ s.taken = text
  accepts {s text data} h hdata := by
    obtain ⟨h, hbudget, rfl⟩ := h
    have call := write_of_unfailing h.writes data
    refine ⟨_, _, call, ?_, ?_, ⟨h.writes, h.flushes, h.accepting⟩, ?_, ledger.accepts call⟩
    · rw [hbudget]
      show 0 < atMost s.maxWrite data.length
      exact atMost_pos h.accepting (List.length_pos_iff.mpr hdata)
    · exact Nat.le_trans (atMost_le ..) (atMost_le ..)
    · show s.writeBudget.map _ = none
      rw [hbudget]
      rfl
  flushes {s text} h :=
    ⟨_, flush_of_unfailing h.1.flushes, ⟨h.1.writes, h.1.flushes, h.1.accepting⟩, h.2⟩

/-- A read leaves alone what was accepted. -/
theorem sink_read {s : Script} {text : Bytes} (n : Nat) (h : sink.accepted s text) :
    sink.accepted (Transport.read s n).2 text := by
  obtain ⟨h, hbudget, rfl⟩ := h
  show sink.accepted (s.read n).2 s.taken
  unfold read
  split
  · exact ⟨⟨h.writes, h.flushes, h.accepting⟩, hbudget, rfl⟩
  · exact ⟨⟨h.writes, h.flushes, h.accepting⟩, hbudget, rfl⟩

/-! ## Scripts with a budget -/

/-- A script that accepts some of every text up to a total of `budget` bytes. -/
structure Meters (s : Script) (budget : Nat) : Prop extends Unfailing s where
  left : s.writeBudget = some (budget - s.taken.length)
  within : s.taken.length ≤ budget

theorem Meters.write {budget : Nat} {s : Script} (h : s.Meters budget) (data : Bytes) :
    ∃ s', s.write data = (.ok (min (atMost s.maxWrite data.length) (budget - s.taken.length)), s') ∧
      s'.Meters budget := by
  have hcall := write_of_unfailing h.writes data
  have hle := atMost_le s.maxWrite data.length
  rw [h.left, show atMost (some _) _ = min _ _ from rfl] at hcall
  generalize hn : min (atMost s.maxWrite data.length) (budget - s.taken.length) = n at hcall
  have htaken := congrArg List.length (ledger.accepts hcall)
  rw [List.length_append, List.length_take, Nat.min_eq_left (by omega)] at htaken
  have hwithin := h.within
  refine ⟨_, hcall, ⟨h.writes, h.flushes, h.accepting⟩, ?_, ?_⟩
  · show some (budget - s.taken.length - n) = _
    rw [Nat.sub_sub]
    exact congrArg (fun k => some (budget - k)) htaken.symm
  · refine Nat.le_trans (Nat.le_of_eq htaken) ?_
    show s.taken.length + n ≤ budget
    omega

/-- A script with a budget of bytes, as a metered wire. -/
def metered (budget : Nat) : Metered Script budget where
  toLedger := ledger
  meters s := s.Meters budget
  within := Meters.within
  takes {s data} h hdata hroom := by
    obtain ⟨s', call, h'⟩ := h.write data
    have hpos := atMost_pos h.accepting (List.length_pos_iff.mpr hdata)
    have hroom : s.taken.length < budget := hroom
    exact ⟨_, s', call, by omega, h'⟩
  refuses {s data} h _ hfull := by
    obtain ⟨s', call, h'⟩ := h.write data
    have hfull : s.taken.length = budget := hfull
    rw [hfull, Nat.sub_self, Nat.min_zero] at call
    exact ⟨s', call, h'⟩
  settles h :=
    ⟨_, flush_of_unfailing h.flushes, ⟨h.writes, h.flushes, h.accepting⟩, h.left, h.within⟩

end Script

end HttpExchange
