import HttpExchange.Proofs.ChunkScan
import HttpExchange.Proofs.Staging

/-!
# What a reader is going to hand out

The text before a reader decides what the reader will hand out and how the body will end,
however the text is cut into reads. `Progress.outlook` says what that is, for each of the
three framings, and `Reading.Expects` ties it to a reading. Two facts about a single read
then say everything: a read hands out a piece of the payload as long as there is one
(`Expects.read_piece`), and afterwards it tells the end (`Expects.read_complete`,
`Expects.read_failing`).
-/

namespace HttpExchange

open ChunkText

/-! ## Outlooks -/

/-- How a body ends for its reader. -/
inductive Finale
  | complete (phase : Phase) (rest : Bytes)
  | failing (failure : Failure)
  /-- It depends on what nothing is said of. -/
  | unsaid
deriving DecidableEq, Repr

/-- What calls come to, and the phase they leave, where a body ends so. -/
inductive Finale.Tells : Finale → Except Failure Bytes → Phase → Prop
  | complete (phase : Phase) (rest : Bytes) : Finale.Tells (.complete phase rest) (.ok []) phase
  | failing (failure : Failure) : Finale.Tells (.failing failure) (.error failure) .poisoned

structure Outlook where
  payload : Bytes
  finale : Finale
deriving DecidableEq, Repr

def Outlook.prepend (data : Bytes) (o : Outlook) : Outlook := ⟨data ++ o.payload, o.finale⟩

/-- What the end of the stream comes to at a place where more was to come. -/
def Ending.early (ending : Ending) (place : Cutoff) : Finale :=
  match ending with
  | .finished => .failing (.cutOff place)
  | .broken failure => .failing (.network failure)
  | .silent => .unsaid

/-- What the end of the stream comes to where it ends the body. -/
def Ending.onTime (ending : Ending) : Finale :=
  match ending with
  | .finished => .complete .closed []
  | .broken failure => .failing (.network failure)
  | .silent => .unsaid

def ChunkText.Tail.finale (ending : Ending) : Tail → Finale
  | .complete rest => .complete .idle rest
  | .faulty fault => .failing (.badChunk fault)
  | .cut place => ending.early place

def ChunkText.Decoded.outlook (ending : Ending) (d : Decoded) : Outlook :=
  ⟨d.payload, d.tail.finale ending⟩

/-- How a reader ends at a piece of framing that is not whole. -/
def ChunkText.Piece.finale {α : Type} (ending : Ending) : Piece α → Finale
  | .whole _ _ => .unsaid
  | .cut => ending.early .chunkFraming
  | .faulty fault => .failing (.badChunk fault)

/-- What a reader that is not done will hand out of the text before it. -/
def Progress.outlook (ending : Ending) (s : Bytes) : Progress → Outlook
  | .fixed n =>
    if s.length < n then ⟨s, ending.early (.fixedBody (n - s.length))⟩
    else ⟨s.take n, .complete .idle (s.drop n)⟩
  | .chunked place => (decodeAt s place).outlook ending
  | .toClose => ⟨s, ending.onTime⟩
  | .finished | .failed _ => ⟨[], .unsaid⟩

/-- Something is outstanding of a piece that the reader is in. -/
def Progress.Proper : Progress → Prop
  | .fixed n | .chunked (.data n) => 0 < n
  | _ => True

/-- An early end fails as the stream ends, and nothing else comes of it. -/
theorem early_eq_failing {ending : Ending} {place : Cutoff} {failure : Failure}
    (h : ending.early place = .failing failure) :
    (ending = .finished ∧ failure = .cutOff place) ∨
      ∃ cause, ending = .broken cause ∧ failure = .network cause := by
  cases ending with
  | finished => cases h; exact .inl ⟨rfl, rfl⟩
  | broken cause => cases h; exact .inr ⟨cause, rfl, rfl⟩
  | silent => cases h

theorem early_ne_complete {ending : Ending} {place : Cutoff} {phase : Phase} {rest : Bytes} :
    ending.early place ≠ .complete phase rest := by
  cases ending <;> exact Finale.noConfusion

theorem finale_ne_complete {α : Type} {ending : Ending} {p : Piece α} {phase : Phase}
    {rest : Bytes} : p.finale ending ≠ .complete phase rest := by
  cases p with
  | whole value rest => exact Finale.noConfusion
  | cut => exact early_ne_complete
  | faulty fault => exact Finale.noConfusion

theorem outlook_prepend (ending : Ending) (data : Bytes) (d : Decoded) :
    (d.prepend data).outlook ending = (d.outlook ending).prepend data := rfl

theorem outlook_andThen {α : Type} {ending : Ending} {p : Piece α} {next : α → Bytes → Decoded}
    (h : ∀ value rest, p ≠ .whole value rest) :
    (p.andThen next).outlook ending = ⟨[], p.finale ending⟩ := by
  cases p with
  | whole value rest => exact absurd rfl (h value rest)
  | cut => rfl
  | faulty fault => rfl

/-- Where a reader stands when it has handed out `taken` more bytes of a chunk. -/
def ChunkPlace.past (outstanding taken : Nat) : ChunkPlace :=
  if outstanding - taken = 0 then .dataEnd else .data (outstanding - taken)

theorem proper_past (outstanding taken : Nat) :
    (Progress.chunked (.past outstanding taken)).Proper := by
  unfold ChunkPlace.past
  split
  · exact trivial
  · rename_i hrest
    exact Nat.pos_of_ne_zero hrest

theorem decodeAt_piece {n : Nat} {piece : Bytes} (h : piece.length ≤ n) (rest : Bytes) :
    decodeAt (piece ++ rest) (.data n)
      = (decodeAt rest (.past n piece.length)).prepend piece := by
  unfold ChunkPlace.past
  by_cases hlt : (piece ++ rest).length < n
  · rw [decodeAt_data_of_lt hlt]
    rw [List.length_append] at hlt
    rw [if_neg (by omega), decodeAt_data_of_lt (by omega)]
    rfl
  · rw [decodeAt_data_of_le (Nat.not_lt.mp hlt)]
    rw [List.length_append] at hlt
    rw [List.drop_append, List.take_append, List.drop_eq_nil_of_le h, List.take_of_length_le h]
    split
    · rename_i heq
      rw [heq, List.drop_zero, List.take_zero, List.nil_append, List.append_nil]
    · rw [decodeAt_data_of_le (by omega)]
      simp only [Decoded.prepend, List.append_assoc, List.nil_append]

/-- Where a reader of a fixed body stands when it has handed out `taken` more bytes. -/
theorem outlook_fixed_piece {ending : Ending} {n : Nat} {piece : Bytes} (h : piece.length ≤ n)
    (rest : Bytes) : (Progress.fixed n).outlook ending (piece ++ rest)
      = ((Progress.fixed (n - piece.length)).outlook ending rest).prepend piece := by
  simp only [Progress.outlook, List.length_append]
  by_cases hlt : piece.length + rest.length < n
  · rw [if_pos hlt, if_pos (by omega), Nat.sub_add_eq]
    rfl
  · rw [if_neg hlt, if_neg (by omega), List.drop_append, List.take_append,
      List.drop_eq_nil_of_le h, List.take_of_length_le h]
    rfl

/-! ## Expectations -/

variable {σ : Type} [SecureTransport σ]
  {receive : σ → Nat → Except TransportFailure Bytes × σ} {ending : Ending}
  {F : Feed receive ending}

namespace Reading

variable {x y : Reading σ} {o : Outlook} {text rest : Bytes} {n : Nat}

/-- The text before the reader. -/
abbrev Before (F : Feed receive ending) (x : Reading σ) (text : Bytes) : Prop :=
  Source.Pending F x.reader.source x.link text

/-- What a reading will hand out and how it will end. -/
inductive Expects (F : Feed receive ending) (x : Reading σ) (o : Outlook) : Prop
  | unfinished {text : Bytes} (open_ : x.reader.isDone = false)
      (proper : x.reader.progress.Proper) (before : Before F x text)
      (outlook_eq : x.reader.progress.outlook ending text = o)
  | finished {rest : Bytes} (finished : x.reader.progress = .finished) (before : Before F x rest)
      (outlook_eq : ⟨[], .complete x.link.phase rest⟩ = o)
  | failed {failure : Failure} (failed : x.reader.progress = .failed failure)
      (phase_eq : x.link.phase = .poisoned) (outlook_eq : ⟨[], .failing failure⟩ = o)

theorem expects_fail {α : Type} (x : Reading σ) (failure : Failure) :
    Expects F (x.fail failure : Except Failure α × Reading σ).2 ⟨[], .failing failure⟩ :=
  .failed rfl rfl rfl

theorem expects_finish (h : Before F x rest) (phase : Phase) :
    Expects F (x.finish phase) ⟨[], .complete phase rest⟩ := by
  obtain ⟨coming, hon, heq⟩ := h.coming
  exact .finished rfl ⟨h.sound, coming, hon.enter phase, heq⟩ rfl

/-- A call hands out a piece, and the rest of what is expected remains. -/
def HandsOut (F : Feed receive ending) (x : Reading σ) (n : Nat) (o : Outlook)
    (call : Except Failure Bytes × Reading σ) : Prop :=
  ∃ piece rest y, call = (.ok piece, y) ∧ piece ≠ [] ∧ piece.length ≤ n ∧
    o.payload = piece ++ rest ∧ Source.Serves x.reader.source y.reader.source piece.length ∧
    Expects F y ⟨rest, o.finale⟩

/-- A call finds that the body is complete. -/
def Completes (F : Feed receive ending) (x : Reading σ) (phase : Phase) (rest : Bytes)
    (call : Except Failure Bytes × Reading σ) : Prop :=
  ∃ y, call = (.ok [], y) ∧ y.reader.isDone = true ∧
    Source.Serves x.reader.source y.reader.source 0 ∧ Expects F y ⟨[], .complete phase rest⟩

/-- A call fails, and the reader with it. -/
def FailsWith {α : Type} (F : Feed receive ending) (failure : Failure)
    (call : Except Failure α × Reading σ) : Prop :=
  ∃ y, call = (.error failure, y) ∧ y.reader.isDone = true ∧ Expects F y ⟨[], .failing failure⟩

/-- A call does what is expected: it hands out a piece as long as there is one, and then it
tells the end. -/
structure Follows (F : Feed receive ending) (x : Reading σ) (n : Nat) (o : Outlook)
    (call : Except Failure Bytes × Reading σ) : Prop where
  piece : o.payload ≠ [] → HandsOut F x n o call
  complete {phase : Phase} {rest : Bytes} : o = ⟨[], .complete phase rest⟩ →
    Completes F x phase rest call
  failing {failure : Failure} : o = ⟨[], .failing failure⟩ → FailsWith F failure call

variable {call : Except Failure Bytes × Reading σ}

/-- Framing that was scanned before a call does not matter to what follows. -/
theorem Follows.of_serves (hserves : Source.Serves x.reader.source y.reader.source 0)
    (h : Follows F y n o call) : Follows F x n o call := by
  refine ⟨?_, ?_, h.failing⟩
  · intro hpayload
    obtain ⟨piece, rest, z, hcall, hne, hle, heq, hmore, hz⟩ := h.piece hpayload
    exact ⟨piece, rest, z, hcall, hne, hle, heq, hserves.trans hmore, hz⟩
  · intro phase rest hcomplete
    obtain ⟨z, hcall, hdone, hmore, hz⟩ := h.complete hcomplete
    exact ⟨z, hcall, hdone, hserves.trans hmore, hz⟩

/-- Only the source of the reading before a call matters to what the call does. -/
theorem Follows.of_source_eq (h : Follows F y n o call)
    (heq : y.reader.source = x.reader.source) : Follows F x n o call := by
  obtain ⟨piece, complete, failing⟩ := h
  unfold HandsOut at piece
  unfold Completes at complete
  rw [heq] at piece complete
  exact ⟨piece, complete, failing⟩

theorem HandsOut.follows (h : HandsOut F x n o call) : Follows F x n o call := by
  have hpayload : o.payload ≠ [] := by
    obtain ⟨piece, rest, -, -, hne, -, heq, -⟩ := h
    rw [heq]
    exact List.append_ne_nil_of_left_ne_nil hne rest
  refine ⟨fun _ => h, ?_, ?_⟩
  · intro phase rest ho
    exact absurd (congrArg Outlook.payload ho) hpayload
  · intro failure ho
    exact absurd (congrArg Outlook.payload ho) hpayload

/-- Where nothing is handed out and nothing ends well, a call has only to fail. -/
theorem Follows.of_failing {finale : Finale}
    (hcomplete : ∀ phase rest, finale ≠ .complete phase rest)
    (hfailing : ∀ failure, finale = .failing failure → FailsWith F failure call) :
    Follows F x n ⟨[], finale⟩ call := by
  refine ⟨fun hpayload => absurd rfl hpayload, ?_, ?_⟩
  · intro phase rest h
    cases h
    exact absurd rfl (hcomplete _ _)
  · intro failure h
    cases h
    exact hfailing _ rfl

theorem failsWith_fail {α : Type} (x : Reading σ) (failure : Failure) :
    FailsWith F failure (x.fail failure : Except Failure α × Reading σ) :=
  ⟨_, rfl, rfl, expects_fail (α := α) x failure⟩

/-! ## Scanning -/

section Scanning

variable {s α : Type} {step : s → UInt8 → Verdict s α} {state : s}

theorem scan_of_byte {b : UInt8} {source : Source} {link : Link σ}
    (h : x.reader.source.readByte x.link = (.ok (some b), source, link)) :
    scan step state x = match step state b with
      | .more state => scan step state (x.resume source link)
      | .done value => (.ok value, x.resume source link)
      | .fault fault => (x.resume source link).fail (.badChunk fault) := by
  rw [scan]
  split <;> rename_i heq <;> rw [h] at heq <;> cases heq
  rfl

theorem scan_of_end {source : Source} {link : Link σ}
    (h : x.reader.source.readByte x.link = (.ok none, source, link)) :
    scan step state x = (x.resume source link).fail (.cutOff .chunkFraming) := by
  rw [scan]
  split <;> rename_i heq <;> rw [h] at heq <;> cases heq
  rfl

theorem scan_of_failure {failure : TransportFailure} {source : Source} {link : Link σ}
    (h : x.reader.source.readByte x.link = (.error failure, source, link)) :
    scan step state x = (x.resume source link).fail (.network failure) := by
  rw [scan]
  split <;> rename_i heq <;> rw [h] at heq <;> cases heq
  rfl

/-- A scanner finds a piece of framing that lies whole before it. -/
theorem scan_whole {value : α} (h : Before F x text)
    (hs : scanText step state text = .whole value rest) :
    ∃ y, scan step state x = (.ok value, y) ∧
      Source.Serves x.reader.source y.reader.source 0 ∧ Before F y rest := by
  induction text generalizing state x with
  | nil => cases hs
  | cons b text ih =>
      obtain ⟨source, wire, hread, hserves, hbehind⟩ := h.readByte
      rw [scan_of_byte hread]
      rw [scanText] at hs
      cases hv : step state b with
      | more state =>
          rw [hv] at hs
          obtain ⟨y, hscan, hmore, hrest⟩ :=
            ih (x := x.resume source { x.link with wire }) hbehind hs
          exact ⟨y, hscan, hserves.trans hmore, hrest⟩
      | done v =>
          rw [hv] at hs
          cases hs
          exact ⟨_, rfl, hserves, hbehind⟩
      | fault fault =>
          rw [hv] at hs
          cases hs

/-- A scanner fails at a piece of framing that is faulty or cut off. -/
theorem scan_failing {failure : Failure} (h : Before F x text)
    (hs : (scanText step state text).finale ending = .failing failure) :
    FailsWith F failure (scan step state x) := by
  induction text generalizing state x with
  | nil =>
      rcases early_eq_failing hs with ⟨hend, rfl⟩ | ⟨cause, hend, rfl⟩
      · obtain ⟨wire, hread, -⟩ := h.readByte_finished hend
        rw [scan_of_end hread]
        exact failsWith_fail ..
      · obtain ⟨wire, hread, -⟩ := h.readByte_broken hend
        rw [scan_of_failure hread]
        exact failsWith_fail ..
  | cons b text ih =>
      obtain ⟨source, wire, hread, -, hbehind⟩ := h.readByte
      rw [scan_of_byte hread]
      rw [scanText] at hs
      cases hv : step state b with
      | more state =>
          rw [hv] at hs
          exact ih (x := x.resume source { x.link with wire }) hbehind hs
      | done v =>
          rw [hv] at hs
          cases hs
      | fault fault =>
          rw [hv] at hs
          cases hs
          exact failsWith_fail ..

/-- What a call does that scans a piece of framing first. -/
theorem Follows.of_scan (next : α → Reading σ → Except Failure Bytes × Reading σ)
    {after : α → Bytes → Decoded} (h : Before F x text)
    (hok : ∀ value y, scan step state x = (.ok value, y) → call = next value y)
    (herror : ∀ failure y, scan step state x = (.error failure, y) → call = (.error failure, y))
    (hnext : ∀ value rest y, Before F y rest →
      Follows F y n ((after value rest).outlook ending) (next value y)) :
    Follows F x n (((scanText step state text).andThen after).outlook ending) call := by
  have hfailing (hs : ∀ value rest, scanText step state text ≠ .whole value rest) :
      Follows F x n (((scanText step state text).andThen after).outlook ending) call := by
    rw [outlook_andThen hs]
    refine .of_failing (fun _ _ => finale_ne_complete) ?_
    intro failure hfinale
    obtain ⟨y, hscan, hy⟩ := scan_failing h hfinale
    exact ⟨y, herror failure y hscan, hy⟩
  -- Only a whole piece goes on to what follows; the others fail in the scan.
  cases hs : scanText step state text with
  | whole value rest =>
      obtain ⟨y, hscan, hserves, hbehind⟩ := scan_whole h hs
      rw [hok value y hscan]
      exact (hnext value rest y hbehind).of_serves hserves
  | cut =>
      rw [hs] at hfailing
      exact hfailing fun _ _ h => by cases h
  | faulty fault =>
      rw [hs] at hfailing
      exact hfailing fun _ _ h => by cases h

end Scanning

/-! ## Single reads -/

/-- With nothing before a source, a read of it fails early. -/
theorem read_early {k : Nat} {place : Cutoff} {failure : Failure} (h : Before F x [])
    (hk : 0 < k) (hs : ending.early place = .failing failure) :
    ∃ received source link, x.reader.source.read x.link k = (received, source, link) ∧
      (received = .ok [] ∧ failure = .cutOff place ∨
        ∃ cause, received = .error cause ∧ failure = .network cause) := by
  rcases early_eq_failing hs with ⟨hend, rfl⟩ | ⟨cause, hend, rfl⟩
  · obtain ⟨wire, hread, -⟩ := h.read_finished hend hk
    exact ⟨_, _, _, hread, .inl ⟨rfl, rfl⟩⟩
  · obtain ⟨wire, hread, -⟩ := h.read_broken hend hk
    exact ⟨_, _, _, hread, .inr ⟨cause, rfl, rfl⟩⟩

theorem readFixed_piece {k : Nat} (h : Before F x text) (hk : 0 < k) (htext : text ≠ [])
    (hn : 0 < n) : HandsOut F x n ((Progress.fixed k).outlook ending text) (x.readFixed k n) := by
  obtain ⟨piece, rest, source, wire, hread, hne, hle, rfl, hserves, hbehind⟩ :=
    h.read (n := min n k) htext (by omega)
  obtain ⟨b, bytes, rfl⟩ := List.exists_cons_of_ne_nil hne
  have hpiece : (b :: bytes).length ≤ k := by omega
  have hcall : x.readFixed k n = (.ok (b :: bytes),
      if k - (b :: bytes).length = 0 then (x.resume source { x.link with wire }).finish .idle
      else (x.resume source { x.link with wire }).moveTo (.fixed (k - (b :: bytes).length))) := by
    unfold readFixed
    rw [hread]
  rw [outlook_fixed_piece hpiece, hcall]
  refine ⟨b :: bytes, _, _, rfl, hne, by omega, rfl, ?_, ?_⟩
  · split <;> exact hserves
  · split
    · rename_i heq
      rw [heq]
      exact expects_finish (x := x.resume source { x.link with wire }) hbehind .idle
    · rename_i hrest
      exact .unfinished rfl (Nat.pos_of_ne_zero hrest) hbehind rfl

/-- A read of a fixed body, of which something is outstanding. -/
theorem readFixed_follows {k : Nat} (h : Before F x text) (hk : 0 < k) (hn : 0 < n) :
    Follows F x n ((Progress.fixed k).outlook ending text) (x.readFixed k n) := by
  cases text with
  | cons b more =>
      exact (readFixed_piece h hk (List.cons_ne_nil b more) hn).follows
  | nil =>
      have ho : (Progress.fixed k).outlook ending [] = ⟨[], ending.early (.fixedBody k)⟩ :=
        if_pos hk
      rw [ho]
      refine .of_failing (fun _ _ => early_ne_complete) ?_
      intro failure hs
      obtain ⟨received, source, link, hread, hreceived⟩ := read_early h (k := min n k) (by omega) hs
      unfold readFixed
      rw [hread]
      rcases hreceived with ⟨rfl, rfl⟩ | ⟨cause, rfl, rfl⟩
      · exact failsWith_fail ..
      · exact failsWith_fail ..

theorem readToClose_piece (h : Before F x text) (hx : x.reader.progress = .toClose)
    (htext : text ≠ []) (hn : 0 < n) :
    HandsOut F x n (Progress.toClose.outlook ending text) (x.readToClose n) := by
  obtain ⟨piece, rest, source, wire, hread, hne, hle, rfl, hserves, hbehind⟩ := h.read htext hn
  obtain ⟨b, bytes, rfl⟩ := List.exists_cons_of_ne_nil hne
  have hcall : x.readToClose n = (.ok (b :: bytes), x.resume source { x.link with wire }) := by
    unfold readToClose
    rw [hread]
  rw [hcall]
  refine ⟨b :: bytes, rest, _, rfl, hne, hle, rfl, hserves, .unfinished ?_ ?_ hbehind ?_⟩
  · simp only [resume, BodyReader.isDone, hx]
  · simp only [resume, hx, Progress.Proper]
  · simp only [resume, hx]
    rfl

/-- A read of a body that ends with the stream. -/
theorem readToClose_follows (h : Before F x text) (hx : x.reader.progress = .toClose)
    (hn : 0 < n) : Follows F x n (Progress.toClose.outlook ending text) (x.readToClose n) := by
  refine ⟨fun htext => readToClose_piece h hx htext hn, ?_, ?_⟩
  · intro phase rest ho
    obtain ⟨rfl, hfin⟩ := Outlook.mk.inj ho
    have hend : ending = .finished ∧ phase = .closed ∧ rest = [] := by
      cases ending <;> cases hfin
      exact ⟨rfl, rfl, rfl⟩
    obtain ⟨hend, rfl, rfl⟩ := hend
    obtain ⟨wire, hread, hbehind⟩ := h.read_finished hend hn
    have hcall : x.readToClose n
        = (.ok [], (x.resume x.reader.source { x.link with wire }).finish .closed) := by
      unfold readToClose
      rw [hread]
    rw [hcall]
    exact ⟨_, rfl, rfl, Source.serves_drained h.sound h.staged_eq_nil 0,
      expects_finish (x := x.resume x.reader.source { x.link with wire }) hbehind .closed⟩
  · intro failure ho
    obtain ⟨rfl, hfin⟩ := Outlook.mk.inj ho
    have hend : ∃ cause, ending = .broken cause ∧ failure = .network cause := by
      cases ending <;> cases hfin
      exact ⟨_, rfl, rfl⟩
    obtain ⟨cause, hend, rfl⟩ := hend
    obtain ⟨wire, hread, -⟩ := h.read_broken hend hn
    unfold readToClose
    rw [hread]
    exact failsWith_fail ..

/-! ## Single reads of chunks -/

theorem readData_piece {k : Nat} (h : Before F x text) (hk : 0 < k) (htext : text ≠ [])
    (hn : 0 < n) :
    HandsOut F x n ((decodeAt text (.data k)).outlook ending) (x.readData k n) := by
  obtain ⟨piece, rest, source, wire, hread, hne, hle, rfl, hserves, hbehind⟩ :=
    h.read (n := min n k) htext (by omega)
  obtain ⟨b, bytes, rfl⟩ := List.exists_cons_of_ne_nil hne
  have hcall : x.readData k n = (.ok (b :: bytes), (x.resume source { x.link with wire }).moveTo
      (.chunked (.past k (b :: bytes).length))) := by
    unfold readData
    rw [hread]
    rfl
  rw [decodeAt_piece (by omega), outlook_prepend, hcall]
  exact ⟨b :: bytes, _, _, rfl, hne, by omega, rfl, hserves,
    .unfinished rfl (proper_past k (b :: bytes).length) hbehind rfl⟩

/-- A read in the data of a chunk, of which something is outstanding. -/
theorem readData_follows {k : Nat} (h : Before F x text) (hk : 0 < k) (hn : 0 < n) :
    Follows F x n ((decodeAt text (.data k)).outlook ending) (x.readData k n) := by
  cases text with
  | cons b more =>
      exact (readData_piece h hk (List.cons_ne_nil b more) hn).follows
  | nil =>
      rw [decodeAt_data_of_lt hk]
      refine .of_failing (fun _ _ => early_ne_complete) ?_
      intro failure hs
      obtain ⟨received, source, link, hread, hreceived⟩ := read_early h (k := min n k) (by omega) hs
      unfold readData
      rw [hread]
      rcases hreceived with ⟨rfl, rfl⟩ | ⟨cause, rfl, rfl⟩
      · exact failsWith_fail ..
      · exact failsWith_fail ..

/-- The trailers are read behind the last chunk, and the body ends with them. -/
theorem readTrailers_follows (h : Before F x text) :
    Follows F x n ((decodeAt text .trailers).outlook ending) x.readTrailers := by
  rw [decodeAt_trailers, ← scanText_trailers]
  refine .of_scan (fun _ y => (.ok [], y.finish .idle)) h ?_ ?_ ?_
  · intro value y hs
    unfold readTrailers
    rw [hs]
  · intro failure y hs
    unfold readTrailers
    rw [hs]
  · intro value rest y hbehind
    refine ⟨fun hpayload => absurd rfl hpayload, ?_, ?_⟩
    · intro phase rest ho
      cases ho
      exact ⟨_, rfl, rfl, hbehind.serves_zero, expects_finish hbehind .idle⟩
    · intro failure ho
      cases ho

theorem readChunk_follows (h : Before F x text) (hn : 0 < n) :
    Follows F x n ((decodeAt text .size).outlook ending) (x.readChunk n) := by
  rw [decodeAt_size, ← scanText_sizeLine]
  refine .of_scan (fun size y =>
      let y : Reading σ := ⟨y.reader, y.link.log .trace
        [ascii "body: chunk of ", Numeral.decimal size, ascii " bytes"]⟩
      if size = 0 then (y.moveTo (.chunked .trailers)).readTrailers
      else (y.moveTo (.chunked (.data size))).readData size n) h ?_ ?_ ?_
  · intro size y hs
    unfold readChunk
    rw [hs]
  · intro failure y hs
    unfold readChunk
    rw [hs]
  · intro size rest y hbehind
    have hlogged (progress : Progress) : Before F (moveTo ⟨y.reader, y.link.log .trace
        [ascii "body: chunk of ", Numeral.decimal size, ascii " bytes"]⟩ progress) rest := by
      obtain ⟨coming, hon, heq⟩ := hbehind.coming
      exact ⟨hbehind.sound, coming, hon.log _ _, heq⟩
    dsimp only
    split
    · exact (readTrailers_follows (hlogged _)).of_source_eq rfl
    · rename_i hsize
      exact (readData_follows (hlogged _) (Nat.pos_of_ne_zero hsize) hn).of_source_eq rfl

theorem readDataEnd_follows (h : Before F x text) (hn : 0 < n) :
    Follows F x n ((decodeAt text .dataEnd).outlook ending) (x.readDataEnd n) := by
  rw [decodeAt_dataEnd, ← scanText_dataEnd]
  refine .of_scan (fun _ y => (y.moveTo (.chunked .size)).readChunk n) h ?_ ?_ ?_
  · intro value y hs
    unfold readDataEnd
    rw [hs]
  · intro failure y hs
    unfold readDataEnd
    rw [hs]
  · intro value rest y hbehind
    exact (readChunk_follows (x := y.moveTo (.chunked .size)) hbehind hn).of_source_eq rfl

/-! ## All reads -/

/-- **A read does what is expected of it.** -/
theorem Expects.follows (h : Expects F x o) (hn : 0 < n) : Follows F x n o (x.read n) := by
  cases h with
  | finished hp before heq =>
      have hread : x.read n = (.ok [], x) := by rw [read, hp]
      rw [hread]
      subst heq
      refine ⟨fun hpayload => absurd rfl hpayload, ?_, ?_⟩
      · intro phase rest ho
        cases ho
        refine ⟨x, rfl, ?_, before.serves_zero, .finished hp before rfl⟩
        rw [BodyReader.isDone, hp]
      · intro failure ho
        cases ho
  | failed hp hphase heq =>
      rename_i failure
      have hread : x.read n = (.error failure, x) := by rw [read, hp]
      rw [hread]
      subst heq
      refine ⟨fun hpayload => absurd rfl hpayload, ?_, ?_⟩
      · intro phase rest ho
        cases ho
      · intro failure ho
        cases ho
        refine ⟨x, rfl, ?_, .failed hp hphase rfl⟩
        rw [BodyReader.isDone, hp]
  | unfinished hopen proper before heq =>
      -- The three framings, each of which reads in its own way.
      have hne : n ≠ 0 := by omega
      subst heq
      cases hp : x.reader.progress with
      | finished => rw [BodyReader.isDone, hp] at hopen; cases hopen
      | failed failure => rw [BodyReader.isDone, hp] at hopen; cases hopen
      | fixed k =>
          rw [hp] at proper
          simp only [read, hp, hne, if_false]
          exact readFixed_follows before proper hn
      | toClose =>
          simp only [read, hp, hne, if_false]
          exact readToClose_follows before hp hn
      | chunked place =>
          rw [hp] at proper
          simp only [read, hp, hne, if_false]
          cases place with
          | size => exact readChunk_follows before hn
          | data k => exact readData_follows before proper hn
          | dataEnd => exact readDataEnd_follows before hn
          | trailers => exact readTrailers_follows before

theorem Expects.phase_of_isDone {phase : Phase} (h : Expects F x ⟨[], .complete phase rest⟩)
    (hdone : x.reader.isDone = true) : x.link.phase = phase := by
  cases h with
  | unfinished hopen => rw [hdone] at hopen; cases hopen
  | finished _ _ heq => cases heq; rfl
  | failed _ _ heq => cases heq

theorem Expects.phase_of_failing {failure : Failure} (h : Expects F x ⟨[], .failing failure⟩)
    (hdone : x.reader.isDone = true) : x.link.phase = .poisoned := by
  cases h with
  | unfinished hopen => rw [hdone] at hopen; cases hopen
  | finished _ _ heq => cases heq
  | failed _ hphase _ => exact hphase

/-- Once nothing of a body is left, every read tells how it ended. -/
theorem Expects.read_last {finale : Finale} {last : Except Failure Bytes} {phase : Phase}
    (h : Expects F x ⟨[], finale⟩) (ht : finale.Tells last phase) (hn : 0 < n) :
    ∃ y, x.read n = (last, y) ∧ y.link.phase = phase ∧ y.reader.isDone = true ∧
      Expects F y ⟨[], finale⟩ := by
  cases ht with
  | complete phase rest =>
      obtain ⟨y, hread, hdone, -, hy⟩ := (h.follows hn).complete rfl
      exact ⟨y, hread, hy.phase_of_isDone hdone, hdone, hy⟩
  | failing failure =>
      obtain ⟨y, hread, hdone, hy⟩ := (h.follows hn).failing rfl
      exact ⟨y, hread, hy.phase_of_failing hdone, hdone, hy⟩

end Reading

end HttpExchange
