import HttpExchange.Proofs.BodyOutlook
import HttpExchange.Proofs.ReaderCalls

/-!
# Draining bodies

A body can be taken in reads of any sizes, counted, or collected in the receive buffer, and
the three can be mixed. Collecting writes into the very buffer that may still hold bytes to be
served, and it works because it never overtakes them: `Source.Collected` says what stands at
the front of the buffer and that nothing that is still to come lies there.

* `Expects.readToEnd`, `Expects.readToEnd_excess`: what is expected is collected if there is room
  for it, and given up if not.
* `Expects.useAll`: however a body is used, the uses hand out what is expected, part by part.
-/

namespace HttpExchange

variable {σ : Type} [SecureTransport σ]
  {receive : σ → Nat → Except TransportFailure Bytes × σ} {ending : Ending}
  {F : Feed receive ending}

/-! ## The front of the buffer -/

namespace Source

variable {s s' : Source} {front piece : Bytes} {k : Nat}

/-- `front` stands at the front of the buffer, and what is still to be served lies behind
it. -/
structure Collected (s : Source) (front : Bytes) : Prop where
  front_eq : s.memory.take front.length = front
  clear : s.position < s.limit → front.length ≤ s.position

theorem Collected.length_le (h : s.Collected front) : front.length ≤ s.memory.length := by
  have := congrArg List.length h.front_eq
  rw [List.length_take] at this
  omega

theorem collected_nil (s : Source) : s.Collected [] := ⟨rfl, fun _ => Nat.zero_le _⟩

/-- What was collected is the floor for what is read next. -/
theorem Collected.sound (h : s.Collected front) (hs : s.Sound) :
    { s with floor := front.length }.Sound :=
  ⟨hs.position_le, hs.limit_le, h.length_le, h.clear⟩

/-- A piece that was served has its place behind what was collected. -/
theorem Collected.store (h : s.Collected front)
    (hserves : Serves { s with floor := front.length } s' piece.length) :
    (s'.store front.length piece).Collected (front ++ piece) := by
  have hfront : s'.memory.take front.length = front := hserves.memory_eq.trans h.front_eq
  constructor
  · show (s'.memory.take front.length ++ piece ++ _).take (front ++ piece).length = _
    rw [hfront, List.take_left]
  · intro hlt
    rw [List.length_append]
    exact hserves.clear hlt

theorem Collected.length_le_of_serves (h : s.Collected front)
    (hserves : Serves { s with floor := front.length } s' k) :
    front.length ≤ s'.memory.length := by
  have hfront : s'.memory.take front.length = front := hserves.memory_eq.trans h.front_eq
  have hlength := congrArg List.length hfront
  rw [List.length_take] at hlength
  omega

/-- Storing a piece there does not touch what is still to be served. -/
theorem staged_store {place : Nat} (hplace : place ≤ s.memory.length)
    (hclear : s.position < s.limit → place + piece.length ≤ s.position) :
    (s.store place piece).staged = s.staged := by
  by_cases hlt : s.position < s.limit
  · have hdrop := hclear hlt
    obtain ⟨gap, hgap⟩ : ∃ gap, s.position = place + piece.length + gap :=
      ⟨s.position - (place + piece.length), by omega⟩
    have hmemory : (Bytes.splice s.memory place piece).drop s.position
        = s.memory.drop s.position := by
      rw [hgap, ← List.drop_drop, ← List.drop_drop, drop_splice hplace, List.drop_left,
        List.drop_drop]
    simp only [staged, peek, store, hmemory]
  · have hnothing : s.limit - s.position = 0 := by omega
    simp only [staged, peek, store, hnothing, Nat.min_self, List.take_zero]

theorem Sound.store {place : Nat} (h : s.Sound) (hplace : place ≤ s.memory.length) :
    (s.store place piece).Sound := by
  have hlength : (Bytes.splice s.memory place piece).length
      = max s.memory.length (place + piece.length) := length_splice hplace
  have hmemory : s.memory.length ≤ (s.store place piece).memory.length := by
    show _ ≤ (Bytes.splice s.memory place piece).length
    omega
  exact ⟨h.position_le, Nat.le_trans h.limit_le hmemory, Nat.le_trans h.floor_le hmemory,
    h.floor_le_position⟩

theorem sound_compact (h : s.Sound) : s.compact.Sound := by
  have hlength := length_staged h
  have hmemory : (Bytes.splice s.memory 0 s.staged).length
      = max s.memory.length (0 + s.staged.length) := length_splice (Nat.zero_le _)
  refine ⟨Nat.zero_le _, ?_, Nat.zero_le _, fun _ => Nat.le_refl _⟩
  show s.limit - s.position ≤ (Bytes.splice s.memory 0 s.staged).length
  omega

theorem staged_compact (h : s.Sound) : s.compact.staged = s.staged := by
  have hlength := length_staged h
  show (((Bytes.splice s.memory 0 s.staged).drop 0).take
    (min (s.limit - s.position - 0) (s.limit - s.position - 0))) = s.staged
  rw [drop_splice (Nat.zero_le _), Nat.min_self, Nat.sub_zero, ← hlength, List.take_left]

end Source

namespace Reading

variable {x y : Reading σ} {o : Outlook} {left rest front : Bytes} {phase : Phase} {n : Nat}

/-! ## Good ends -/

/-- A reading that has come to the good end of its body. -/
structure Ends (F : Feed receive ending) (x : Reading σ) (phase : Phase) (rest : Bytes) :
    Prop where
  done : x.reader.isDone = true
  expects : Expects F x ⟨[], .complete phase rest⟩

theorem Ends.phase_eq (h : x.Ends F phase rest) : x.link.phase = phase :=
  h.expects.phase_of_isDone h.done

/-- What follows the body lies before the reader. -/
theorem Ends.before (h : x.Ends F phase rest) : Before F x rest := by
  cases h.expects with
  | unfinished open_ => rw [h.done] at open_; cases open_
  | finished _ before heq => cases heq; exact before
  | failed _ _ heq => cases heq

/-- Only what is staged matters of a source. -/
theorem Expects.mapSource {f : Source → Source} (h : Expects F x o)
    (hsound : x.reader.source.Sound → (f x.reader.source).Sound)
    (hstaged : x.reader.source.Sound → (f x.reader.source).staged = x.reader.source.staged) :
    Expects F (x.mapSource f) o := by
  have hbefore {text : Bytes} (before : Before F x text) : Before F (x.mapSource f) text := by
    obtain ⟨coming, hon, heq⟩ := before.coming
    exact ⟨hsound before.sound, coming, hon, heq.trans (by rw [← hstaged before.sound]; rfl)⟩
  cases h with
  | unfinished open_ proper before outlook_eq =>
      exact .unfinished open_ proper (hbefore before) outlook_eq
  | finished finished before outlook_eq => exact .finished finished (hbefore before) outlook_eq
  | failed failed phase_eq outlook_eq => exact .failed failed phase_eq outlook_eq

theorem Expects.not_failed (h : Expects F x ⟨left, .complete phase rest⟩) (failure : Failure) :
    x.reader.progress ≠ .failed failure := by
  intro hfailed
  cases h with
  | unfinished open_ => rw [isDone_of_failed hfailed] at open_; cases open_
  | finished finished => rw [finished] at hfailed; cases hfailed
  | failed _ _ heq => cases heq

/-- A reader that is done leaves nothing of a body that ends well. -/
theorem Expects.ends_of_isDone (h : Expects F x ⟨left, .complete phase rest⟩)
    (hdone : x.reader.isDone = true) : left = [] ∧ x.Ends F phase rest := by
  cases h with
  | unfinished open_ => rw [hdone] at open_; cases open_
  | finished finished before heq =>
      cases heq
      exact ⟨rfl, hdone, .finished finished before rfl⟩
  | failed _ _ heq => cases heq

/-! ## Reading on -/

theorem readAll_of_end (h : x.read n = (.ok [], y)) : x.readAll n = ([[]], .ok (), y) := by
  rw [Reading.readAll]
  split <;> rename_i heq <;> rw [h] at heq <;> cases heq
  rfl

theorem readAll_of_error {failure : Failure} (h : x.read n = (.error failure, y)) :
    x.readAll n = ([], .error failure, y) := by
  rw [Reading.readAll]
  split <;> rename_i heq <;> rw [h] at heq <;> cases heq
  rfl

theorem readAll_of_piece {piece : Bytes} (h : x.read n = (.ok piece, y)) (hne : piece ≠ []) :
    x.readAll n = (piece :: (y.readAll n).1, (y.readAll n).2) := by
  obtain ⟨b, bytes, rfl⟩ := List.exists_cons_of_ne_nil hne
  rw [Reading.readAll]
  split <;> rename_i heq <;> rw [h] at heq <;> cases heq
  rfl

/-- **Reading on hands out all that is left**, whatever the size of the reads. -/
theorem Expects.readAll {x : Reading σ} {left : Bytes}
    (h : Expects F x ⟨left, .complete phase rest⟩) (hn : 0 < n) :
    ∃ pieces y, x.readAll n = (pieces, .ok (), y) ∧ pieces.flatten = left ∧
      y.Ends F phase rest := by
  by_cases hleft : left = []
  · subst hleft
    obtain ⟨y, hread, hdone, -, hy⟩ := (h.follows hn).complete rfl
    exact ⟨[[]], y, readAll_of_end hread, rfl, hdone, hy⟩
  · obtain ⟨piece, more, y, hread, hne, -, heq, -, hy⟩ := (h.follows hn).piece hleft
    obtain rfl : left = piece ++ more := heq
    have hshorter := Bytes.length_rest_lt hne more
    obtain ⟨pieces, z, hrest, rfl, hz⟩ := hy.readAll hn
    refine ⟨piece :: pieces, z, ?_, rfl, hz⟩
    rw [readAll_of_piece hread hne, hrest]
termination_by left.length

theorem Expects.discard (h : Expects F x ⟨left, .complete phase rest⟩) :
    ∃ y, x.discard = (.ok left.length, y) ∧ y.Ends F phase rest := by
  obtain ⟨pieces, y, hread, rfl, hy⟩ := h.readAll (n := discardStep) (by decide)
  refine ⟨y, ?_, hy⟩
  unfold Reading.discard
  rw [hread]

/-! ## Collecting -/

/-- The reading as it is while `out` bytes of its buffer are in use. -/
abbrev above (x : Reading σ) (out : Nat) : Reading σ :=
  x.mapSource fun s => { s with floor := out }

/-- How much is asked for behind `out` bytes: at least one byte, which has no place if the
buffer is full. -/
def demand (x : Reading σ) (out : Nat) : Nat :=
  if x.reader.source.capacity ≤ out then 1 else x.reader.source.capacity - out

omit [SecureTransport σ] in
theorem demand_pos (x : Reading σ) (out : Nat) : 0 < x.demand out := by
  unfold demand
  split <;> omega

theorem collect_of_end {out : Nat} (h : (x.above out).read (x.demand out) = (.ok [], y)) :
    x.collect out = (.ok out, y) := by
  unfold demand at h
  rw [Reading.collect]
  by_cases hfull : x.reader.source.capacity ≤ out
  · rw [if_pos hfull] at h ⊢
    rw [h]
  · rw [if_neg hfull] at h ⊢
    split <;> rename_i heq <;> rw [h] at heq <;> cases heq
    rfl

theorem collect_of_piece {out : Nat} {piece : Bytes} (hroom : out < x.reader.source.capacity)
    (h : (x.above out).read (x.demand out) = (.ok piece, y)) (hne : piece ≠ []) :
    x.collect out = (y.mapSource fun s => s.store out piece).collect (out + piece.length) := by
  obtain ⟨b, bytes, rfl⟩ := List.exists_cons_of_ne_nil hne
  have hfull : ¬ x.reader.source.capacity ≤ out := Nat.not_le.mpr hroom
  unfold demand at h
  rw [if_neg hfull] at h
  rw [Reading.collect, if_neg hfull]
  split <;> rename_i heq <;> rw [h] at heq <;> cases heq
  rfl

/-- A body that is longer than the buffer is given up. -/
theorem collect_of_excess {out : Nat} {piece : Bytes} (hfull : x.reader.source.capacity ≤ out)
    (h : (x.above out).read (x.demand out) = (.ok piece, y)) (hne : piece ≠ []) :
    x.collect out = y.fail (.tooLong .body) := by
  obtain ⟨b, bytes, rfl⟩ := List.exists_cons_of_ne_nil hne
  unfold demand at h
  rw [if_pos hfull] at h
  rw [Reading.collect, if_pos hfull, h]

/-- Behind what is collected a piece of what is left is read and can be stored there. -/
theorem Expects.collect_piece (h : Expects F x ⟨left, .complete phase rest⟩)
    (hcollected : x.reader.source.Collected front) (hleft : left ≠ []) :
    ∃ piece more y, left = piece ++ more ∧ piece ≠ [] ∧ piece.length ≤ x.demand front.length ∧
      (x.above front.length).read (x.demand front.length) = (.ok piece, y) ∧
      y.reader.source.capacity = x.reader.source.capacity ∧
      (y.reader.source.store front.length piece).Collected (front ++ piece) ∧
      Expects F (y.mapSource fun s => s.store front.length piece)
        ⟨more, .complete phase rest⟩ := by
  have hfloor : Expects F (x.above front.length) ⟨left, .complete phase rest⟩ :=
    h.mapSource hcollected.sound fun _ => rfl
  obtain ⟨piece, more, y, hread, hne, hle, heq, hserves, hy⟩ :=
    (hfloor.follows (x.demand_pos front.length)).piece hleft
  have hplace : front.length ≤ y.reader.source.memory.length :=
    hcollected.length_le_of_serves hserves
  exact ⟨piece, more, y, heq, hne, hle, hread, hserves.capacity_eq, hcollected.store hserves,
    hy.mapSource (fun hs => hs.store hplace)
      (fun _ => Source.staged_store hplace hserves.clear)⟩

/-- **What is left is collected behind what was collected before**, if there is room. -/
theorem Expects.collect {x : Reading σ} {left front : Bytes}
    (h : Expects F x ⟨left, .complete phase rest⟩)
    (hcollected : x.reader.source.Collected front)
    (hroom : front.length + left.length ≤ x.reader.source.capacity) :
    ∃ y, x.collect front.length = (.ok (front ++ left).length, y) ∧
      y.reader.source.memory.take (front ++ left).length = front ++ left ∧
      y.Ends F phase rest := by
  by_cases hleft : left = []
  · subst hleft
    have hfloor : Expects F (x.above front.length) ⟨[], .complete phase rest⟩ :=
      h.mapSource hcollected.sound fun _ => rfl
    obtain ⟨y, hread, hdone, hserves, hy⟩ :=
      (hfloor.follows (x.demand_pos front.length)).complete rfl
    rw [List.append_nil]
    exact ⟨y, collect_of_end hread, hserves.memory_eq.trans hcollected.front_eq, hdone, hy⟩
  · -- Something is left, so the buffer is not full and the piece that comes has a place.
    have hlength : 0 < left.length := List.length_pos_iff.mpr hleft
    obtain ⟨piece, more, y, rfl, hne, -, hread, hcapacity, hfront, hy⟩ :=
      h.collect_piece hcollected hleft
    have hshorter := Bytes.length_rest_lt hne more
    have hroom' : (front ++ piece).length + more.length
        ≤ (y.mapSource fun s => s.store front.length piece).reader.source.capacity := by
      show _ ≤ y.reader.source.capacity
      rw [hcapacity, List.length_append, Nat.add_assoc, ← List.length_append]
      exact hroom
    obtain ⟨z, hcollect, hmemory, hz⟩ := hy.collect hfront hroom'
    rw [List.append_assoc] at hcollect hmemory
    refine ⟨z, ?_, hmemory, hz⟩
    rw [collect_of_piece (by omega) hread hne, ← hcollect, List.length_append]
termination_by left.length

/-- **What does not fit is given up**, once the buffer is full and another byte has come. -/
theorem Expects.collect_excess {x : Reading σ} {left front : Bytes}
    (h : Expects F x ⟨left, .complete phase rest⟩)
    (hcollected : x.reader.source.Collected front)
    (hfront : front.length ≤ x.reader.source.capacity)
    (hexcess : x.reader.source.capacity < front.length + left.length) :
    ∃ y, x.collect front.length = (.error (.tooLong .body), y) ∧
      y.reader.progress = .failed (.tooLong .body) ∧ y.link.phase = .poisoned := by
  have hleft : left ≠ [] := by
    rintro rfl
    rw [List.length_nil] at hexcess
    omega
  obtain ⟨piece, more, y, rfl, hne, hle, hread, hcapacity, hcollected', hy⟩ :=
    h.collect_piece hcollected hleft
  by_cases hfull : x.reader.source.capacity ≤ front.length
  · exact ⟨_, collect_of_excess hfull hread hne, rfl, rfl⟩
  · have hroom : front.length < x.reader.source.capacity := Nat.lt_of_not_le hfull
    have hshorter := Bytes.length_rest_lt hne more
    unfold demand at hle
    rw [if_neg hfull] at hle
    rw [List.length_append] at hexcess
    have hfront' : (front ++ piece).length
        ≤ (y.mapSource fun s => s.store front.length piece).reader.source.capacity := by
      show _ ≤ y.reader.source.capacity
      rw [hcapacity, List.length_append]
      omega
    have hexcess' : (y.mapSource fun s => s.store front.length piece).reader.source.capacity
        < (front ++ piece).length + more.length := by
      show y.reader.source.capacity < _
      rw [hcapacity, List.length_append]
      omega
    obtain ⟨z, hcollect, hfailed, hphase⟩ := hy.collect_excess hcollected' hfront' hexcess'
    refine ⟨z, ?_, hfailed, hphase⟩
    rw [collect_of_piece hroom hread hne, ← hcollect, List.length_append]
termination_by left.length

/-- **All that is left is collected from the front of the buffer on**, if there is room. -/
theorem Expects.readToEnd (h : Expects F x ⟨left, .complete phase rest⟩)
    (hroom : left.length ≤ x.reader.source.capacity) :
    ∃ y, x.readToEnd = (.ok left, y) ∧ y.reader.source.memory.take left.length = left ∧
      y.Ends F phase rest := by
  have hcompact : Expects F (x.mapSource Source.compact) ⟨left, .complete phase rest⟩ :=
    h.mapSource Source.sound_compact Source.staged_compact
  obtain ⟨y, hcollect, hmemory, hy⟩ :=
    hcompact.collect (Source.collected_nil _) (by rw [List.length_nil, Nat.zero_add]; exact hroom)
  have hcollect : (x.mapSource Source.compact).collect 0 = (.ok left.length, y) := hcollect
  have hmemory : y.reader.source.memory.take left.length = left := hmemory
  refine ⟨y, ?_, hmemory, hy⟩
  unfold Reading.readToEnd
  split
  · rename_i failure hfailed
    exact absurd hfailed (h.not_failed failure)
  · rw [hcollect]
    dsimp only
    rw [hmemory]

/-- Where there is no room for it, the reader fails. -/
theorem Expects.readToEnd_excess (h : Expects F x ⟨left, .complete phase rest⟩)
    (hexcess : x.reader.source.capacity < left.length) :
    ∃ y, x.readToEnd = (.error (.tooLong .body), y) ∧
      y.reader.progress = .failed (.tooLong .body) ∧ y.link.phase = .poisoned := by
  have hcompact : Expects F (x.mapSource Source.compact) ⟨left, .complete phase rest⟩ :=
    h.mapSource Source.sound_compact Source.staged_compact
  obtain ⟨y, hcollect, hfailed, hphase⟩ :=
    hcompact.collect_excess (Source.collected_nil _) (Nat.zero_le _)
      (by rw [List.length_nil, Nat.zero_add]; exact hexcess)
  have hcollect : (x.mapSource Source.compact).collect 0 = (.error (.tooLong .body), y) := hcollect
  refine ⟨y, ?_, hfailed, hphase⟩
  unfold Reading.readToEnd
  split
  · rename_i failure hfailed
    exact absurd hfailed (h.not_failed failure)
  · rw [hcollect]

end Reading

/-! ## Mixed uses -/

/-- A way to take bytes out of a body. -/
inductive Use
  | read (n : Nat)
  | readToEnd
  | discard
deriving DecidableEq, Repr

/-- What a use comes to: the bytes, or only how many there were. -/
inductive Yield
  | bytes (data : Bytes)
  | count (n : Nat)
deriving DecidableEq, Repr

def Yield.amount : Yield → Nat
  | bytes data => data.length
  | count n => n

namespace Reading

def use (x : Reading σ) : Use → Except Failure Yield × Reading σ
  | .read n => ((x.read n).1.map .bytes, (x.read n).2)
  | .readToEnd => (x.readToEnd.1.map .bytes, x.readToEnd.2)
  | .discard => (x.discard.1.map .count, x.discard.2)

def useAll (x : Reading σ) : List Use → List (Except Failure Yield) × Reading σ
  | [] => ([], x)
  | u :: us => ((x.use u).1 :: ((x.use u).2.useAll us).1, ((x.use u).2.useAll us).2)

/-- Whenever `readToEnd` is used, the buffer has room for what is left, which is `left` bytes
at first. -/
def HasRoom (x : Reading σ) (left : Nat) : List Use → Prop
  | [] => True
  | u :: us => (u = .readToEnd → left ≤ x.reader.source.capacity) ∧
      (x.use u).2.HasRoom (left - ((x.use u).1.toOption.map Yield.amount).getD 0) us

instance decidableHasRoom (x : Reading σ) (left : Nat) : (us : List Use) →
    Decidable (x.HasRoom left us)
  | [] => isTrue trivial
  | u :: us =>
    have := decidableHasRoom (x.use u).2
      (left - ((x.use u).1.toOption.map Yield.amount).getD 0) us
    inferInstanceAs (Decidable (_ ∧ _))

/-- The uses take a text off a body from its front on, with these results, and leave the rest
of it. Only a read of no bytes takes nothing where something is left. -/
inductive Takes : List Use → Bytes → List (Except Failure Yield) → Bytes → Prop
  | nothing {rest : Bytes} : Takes [] rest [] rest
  | read {n : Nat} {part left rest : Bytes} {us : List Use} {results : List (Except Failure Yield)}
      (within : part.length ≤ n) (idle : part = [] → n = 0 ∨ left = [])
      (more : Takes us left results rest) :
      Takes (.read n :: us) (part ++ left) (.ok (.bytes part) :: results) rest
  | readToEnd {left rest : Bytes} {us : List Use} {results : List (Except Failure Yield)}
      (more : Takes us [] results rest) :
      Takes (.readToEnd :: us) left (.ok (.bytes left) :: results) rest
  | discard {left rest : Bytes} {us : List Use} {results : List (Except Failure Yield)}
      (more : Takes us [] results rest) :
      Takes (.discard :: us) left (.ok (.count left.length) :: results) rest

variable {x y : Reading σ} {left rest : Bytes} {phase : Phase} {n : Nat}

theorem isCall_use (u : Use) : IsCall fun x : Reading σ => (x.use u).2 := by
  cases u with
  | read n => exact isCall_read n
  | readToEnd => exact isCall_readToEnd
  | discard => exact isCall_discard

omit [SecureTransport σ] in
/-- No call on a reader changes the form of its connection. -/
theorem IsCall.form_eq {f : Reading σ → Reading σ} (h : IsCall f) (x : Reading σ) :
    (f x).link.connection.form = x.link.connection.form := by
  cases hdone : x.reader.isDone with
  | true => rw [h.link_eq hdone]
  | false =>
      cases h.reaches hdone with
      | goesOn _ _ holds => rw [holds.connection_eq]
      | finishes _ holds => rw [holds.connection_eq]; rfl
      | fails _ _ holds => rw [holds.connection_eq]; rfl

theorem form_useAll (x : Reading σ) (us : List Use) :
    (x.useAll us).2.link.connection.form = x.link.connection.form := by
  induction us generalizing x with
  | nil => rfl
  | cons u us ih => exact (ih _).trans ((isCall_use u).form_eq x)

/-- A read of no bytes takes none. -/
theorem Expects.read_zero (h : Expects F x ⟨left, .complete phase rest⟩) :
    x.read 0 = (.ok [], x) := by
  unfold Reading.read
  split
  · rename_i failure hfailed
    exact absurd hfailed (h.not_failed failure)
  · rfl
  · rw [if_pos rfl]
  · rw [if_pos rfl]
  · rw [if_pos rfl]

/-- A read takes a part of what is left. -/
theorem Expects.read_part (h : Expects F x ⟨left, .complete phase rest⟩) (n : Nat) :
    ∃ part more y, x.read n = (.ok part, y) ∧ left = part ++ more ∧ part.length ≤ n ∧
      (part = [] → n = 0 ∨ more = []) ∧ Expects F y ⟨more, .complete phase rest⟩ := by
  by_cases hn : n = 0
  · subst hn
    exact ⟨[], left, x, h.read_zero, rfl, Nat.le_refl 0, fun _ => .inl rfl, h⟩
  · have hpos : 0 < n := Nat.pos_of_ne_zero hn
    by_cases hleft : left = []
    · subst hleft
      obtain ⟨y, hread, -, -, hy⟩ := (h.follows hpos).complete rfl
      exact ⟨[], [], y, hread, rfl, Nat.zero_le n, fun _ => .inr rfl, hy⟩
    · obtain ⟨part, more, y, hread, hne, hle, heq, -, hy⟩ := (h.follows hpos).piece hleft
      exact ⟨part, more, y, hread, heq, hle, fun hnil => absurd hnil hne, hy⟩

/-- **However a body is used, the uses take what is left of it**, part by part. -/
theorem Expects.useAll (h : Expects F x ⟨left, .complete phase rest⟩) (us : List Use)
    (hroom : x.HasRoom left.length us) :
    ∃ tail, Takes us left (x.useAll us).1 tail ∧
      Expects F (x.useAll us).2 ⟨tail, .complete phase rest⟩ := by
  induction us generalizing x left with
  | nil => exact ⟨left, .nothing, h⟩
  | cons u us ih =>
      obtain ⟨hfits, hmore⟩ := hroom
      unfold Reading.useAll
      cases u with
      | read n =>
          obtain ⟨part, more, y, hread, rfl, hle, hidle, hy⟩ := h.read_part n
          simp only [use, hread, Except.map, Except.toOption, Option.map_some, Option.getD_some,
            Yield.amount, List.length_append, Nat.add_sub_cancel_left] at hmore ⊢
          obtain ⟨tail, htakes, hrest⟩ := ih hy hmore
          exact ⟨tail, .read hle hidle htakes, hrest⟩
      | readToEnd =>
          obtain ⟨y, hread, -, hy⟩ := h.readToEnd (hfits rfl)
          simp only [use, hread, Except.map, Except.toOption, Option.map_some, Option.getD_some,
            Yield.amount, Nat.sub_self] at hmore ⊢
          obtain ⟨tail, htakes, hrest⟩ := ih hy.expects hmore
          exact ⟨tail, .readToEnd htakes, hrest⟩
      | discard =>
          obtain ⟨y, hread, hy⟩ := h.discard
          simp only [use, hread, Except.map, Except.toOption, Option.map_some, Option.getD_some,
            Yield.amount, Nat.sub_self] at hmore ⊢
          obtain ⟨tail, htakes, hrest⟩ := ih hy.expects hmore
          exact ⟨tail, .discard htakes, hrest⟩

end Reading

end HttpExchange
