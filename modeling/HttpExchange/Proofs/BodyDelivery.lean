import HttpExchange.Proofs.BodyOutlook

/-!
# Bodies, read by read

A body may be read in calls that ask for any sizes. Whatever they ask for, the calls hand
out the payload that is expected, in pieces that are not empty and fit, and then they tell
the end of the body again and again (`Expects.delivers`).
-/

namespace HttpExchange

namespace Reading

variable {σ : Type} [SecureTransport σ]

/-! ## Reading again and again -/

/-- The reading after `i` calls, which ask for `sizes 0`, `sizes 1` and so on. -/
def after (x : Reading σ) (sizes : Nat → Nat) : Nat → Reading σ
  | 0 => x
  | i + 1 => ((x.after sizes i).read (sizes i)).2

/-- What the call behind the first `i` calls comes to. -/
def result (x : Reading σ) (sizes : Nat → Nat) (i : Nat) : Except Failure Bytes :=
  ((x.after sizes i).read (sizes i)).1

/-- The calls hand out `payload` in pieces that are not empty and fit, and then `last` again
and again, with the connection in one and the same phase. -/
def Delivers (x : Reading σ) (sizes : Nat → Nat) (payload : Bytes) (last : Except Failure Bytes)
    (phase : Phase) : Prop :=
  ∃ pieces : List Bytes, pieces.flatten = payload ∧
    (∀ i piece, pieces[i]? = some piece →
      x.result sizes i = .ok piece ∧ piece ≠ [] ∧ piece.length ≤ sizes i) ∧
    ∀ i, pieces.length ≤ i →
      x.result sizes i = last ∧ (x.after sizes (i + 1)).link.phase = phase

variable {receive : σ → Nat → Except TransportFailure Bytes × σ} {ending : Ending}
  {F : Feed receive ending} {x y : Reading σ} {sizes : Nat → Nat}

theorem after_succ (x : Reading σ) (sizes : Nat → Nat) (i : Nat) :
    x.after sizes (i + 1) = ((x.read (sizes 0)).2).after (fun j => sizes (j + 1)) i := by
  induction i with
  | zero => rfl
  | succ i ih =>
      rw [after, ih]
      rfl

theorem result_succ (x : Reading σ) (sizes : Nat → Nat) (i : Nat) :
    x.result sizes (i + 1) = ((x.read (sizes 0)).2).result (fun j => sizes (j + 1)) i := by
  rw [result, after_succ]
  rfl

theorem Delivers.cons {piece payload : Bytes} {last : Except Failure Bytes} {phase : Phase}
    (hread : x.read (sizes 0) = (.ok piece, y)) (hne : piece ≠ []) (hle : piece.length ≤ sizes 0)
    (h : y.Delivers (fun j => sizes (j + 1)) payload last phase) :
    x.Delivers sizes (piece ++ payload) last phase := by
  obtain ⟨pieces, rfl, hpieces, hlast⟩ := h
  refine ⟨piece :: pieces, rfl, ?_, ?_⟩
  · intro i p hp
    cases i with
    | zero =>
        cases hp
        refine ⟨?_, hne, hle⟩
        show (x.read (sizes 0)).1 = _
        rw [hread]
    | succ i =>
        rw [result_succ, hread]
        exact hpieces i p hp
  · intro i hi
    cases i with
    | zero => cases hi
    | succ i =>
        rw [result_succ, after_succ, hread]
        exact hlast i (Nat.le_of_succ_le_succ hi)

/-- A way in which a reading stands before a payload, with the payload as its first argument:
calls hand out pieces of the payload, and when nothing is left of it they tell how the body
ended, again and again. -/
structure Pours (P : Bytes → Reading σ → Prop) (last : Except Failure Bytes) (phase : Phase) :
    Prop where
  piece {payload : Bytes} {x : Reading σ} {n : Nat} : P payload x → payload ≠ [] → 0 < n →
    ∃ piece rest y, x.read n = (.ok piece, y) ∧ piece ≠ [] ∧ piece.length ≤ n ∧
      payload = piece ++ rest ∧ P rest y
  last {x : Reading σ} {n : Nat} : P [] x → 0 < n →
    ∃ y, x.read n = (last, y) ∧ y.link.phase = phase ∧ P [] y

section Pouring

variable {P : Bytes → Reading σ → Prop} {last : Except Failure Bytes} {phase : Phase}

theorem Pours.after (hpours : Pours P last phase) (h : P [] x) (hsizes : ∀ i, 0 < sizes i)
    (i : Nat) : P [] (x.after sizes i) := by
  induction i with
  | zero => exact h
  | succ i ih =>
      obtain ⟨y, hread, -, hy⟩ := hpours.last ih (hsizes i)
      rw [Reading.after, hread]
      exact hy

/-- **A payload is delivered** that a reading stands before, whatever the sizes of the calls. -/
theorem Pours.delivers {x : Reading σ} {sizes : Nat → Nat} {payload : Bytes}
    (hpours : Pours P last phase) (h : P payload x) (hsizes : ∀ i, 0 < sizes i) :
    x.Delivers sizes payload last phase := by
  by_cases hpayload : payload = []
  · subst hpayload
    refine ⟨[], rfl, ?_, ?_⟩
    · intro i piece hp
      cases hp
    · intro i _
      obtain ⟨y, hread, hphase, -⟩ := hpours.last (hpours.after h hsizes i) (hsizes i)
      constructor
      · rw [result, hread]
      · rw [Reading.after, hread]
        exact hphase
  · obtain ⟨piece, rest, y, hread, hne, hle, rfl, hy⟩ := hpours.piece h hpayload (hsizes 0)
    -- The induction is on what is left of the payload.
    have hshorter := Bytes.length_rest_lt hne rest
    exact .cons hread hne hle (hpours.delivers hy fun i => hsizes (i + 1))
termination_by payload.length

end Pouring

/-- **Whatever the sizes of the calls, they deliver what is expected.** -/
theorem Expects.delivers {x : Reading σ} {sizes : Nat → Nat} {payload : Bytes} {finale : Finale}
    {last : Except Failure Bytes} {phase : Phase} (h : Expects F x ⟨payload, finale⟩)
    (ht : finale.Tells last phase) (hsizes : ∀ i, 0 < sizes i) :
    x.Delivers sizes payload last phase := by
  have hpours : Pours (fun payload x => Expects F x ⟨payload, finale⟩) last phase := by
    constructor
    · intro payload x n hx hpayload hn
      obtain ⟨piece, rest, y, hread, hne, hle, heq, -, hy⟩ := (hx.follows hn).piece hpayload
      exact ⟨piece, rest, y, hread, hne, hle, heq, hy⟩
    · intro x n hx hn
      obtain ⟨y, hread, hphase, -, hy⟩ := hx.read_last ht hn
      exact ⟨y, hread, hphase, hy⟩
  exact hpours.delivers h hsizes

end Reading

end HttpExchange
