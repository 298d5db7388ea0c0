import HttpExchange.Proofs.BodyDelivery
import HttpExchange.Proofs.HeadReading
import HttpExchange.Proofs.ScriptFeed

/-!
# Bodies without chunks, read by read

A body of known length is the front of the text behind the head, and one that ends with the
stream is all of it. Both are read in calls of any sizes, from a stream that comes in any
pieces and of which any part came with the head. Nothing is assumed of the stream beyond its
first end or failure: a reader that was told of it asks no more.

* `Reading.OnFixed.read_piece`: one read of a fixed body. It hands out a piece, and takes no more
  off the wire than is outstanding.
* `Reading.AtToClose.read_piece`: one read of a body that ends with the stream.
* `plain_response_delivers`: all reads, for both framings.
-/

namespace HttpExchange

/-- The first read behind the bytes of a stream comes to this. -/
def Feed.EndsIn {σ : Type} {receive : σ → Nat → Except TransportFailure Bytes × σ}
    {ending : Ending} (F : Feed receive ending) (received : Except TransportFailure Bytes) : Prop :=
  ∀ {w n}, F.carries w [] → 0 < n → (receive w n).1 = received

namespace Reading

variable {σ : Type} [SecureTransport σ]
  {receive : σ → Nat → Except TransportFailure Bytes × σ} {ending : Ending}
  {F : Feed receive ending} {x y : Reading σ} {sizes : Nat → Nat} {text later : Bytes}
  {most k n : Nat}

/-! ## Readers that are done -/

/-- A reader that is done and how it ended. -/
inductive Over (x : Reading σ) : Except Failure Bytes → Phase → Prop
  | finished (progress_eq : x.reader.progress = .finished) : Over x (.ok []) x.link.phase
  | failed {failure : Failure} (progress_eq : x.reader.progress = .failed failure)
      (phase_eq : x.link.phase = .poisoned) : Over x (.error failure) .poisoned

/-- It says so again and asks for nothing. -/
theorem Over.read {last : Except Failure Bytes} {phase : Phase} (h : x.Over last phase) (n : Nat) :
    x.read n = (last, x) ∧ x.link.phase = phase := by
  cases h with
  | finished hprogress => exact ⟨by rw [Reading.read, hprogress], rfl⟩
  | failed hprogress hphase => exact ⟨by rw [Reading.read, hprogress], hphase⟩

/-- A reading stands before a payload in one way until it is done. -/
theorem pours_of_steps {P : Bytes → Reading σ → Prop} {last : Except Failure Bytes} {phase : Phase}
    (piece : ∀ {payload x n}, P payload x → payload ≠ [] → 0 < n →
      ∃ piece rest y, x.read n = (.ok piece, y) ∧ piece ≠ [] ∧ piece.length ≤ n ∧
        payload = piece ++ rest ∧ P rest y)
    (last_read : ∀ {x n}, P [] x → 0 < n → ∃ y, x.read n = (last, y) ∧ y.Over last phase) :
    Pours (fun payload x => P payload x ∨ payload = [] ∧ x.Over last phase) last phase := by
  constructor
  · rintro payload x n (h | ⟨hnil, -⟩) hpayload hn
    · obtain ⟨data, rest, y, hread, hne, hle, heq, hy⟩ := piece h hpayload hn
      exact ⟨data, rest, y, hread, hne, hle, heq, .inl hy⟩
    · exact absurd hnil hpayload
  · rintro x n (h | ⟨-, hover⟩) hn
    · obtain ⟨y, hread, hover⟩ := last_read h hn
      exact ⟨y, hread, (hover.read n).2, .inr ⟨rfl, hover⟩⟩
    · obtain ⟨hread, hphase⟩ := hover.read n
      exact ⟨x, hread, hphase, .inr ⟨rfl, hover⟩⟩

/-! ## Fixed bodies -/

/-- A reader of a fixed body of which `k` bytes are outstanding, with `text` before it. It was
`later` that came on the wire, and at most `most` bytes of it will be taken for the body. -/
structure OnFixed (F : Feed receive ending) (later : Bytes) (most k : Nat) (text : Bytes)
    (x : Reading σ) : Prop where
  sound : x.reader.source.Sound
  progress_eq : x.reader.progress = if k = 0 then .finished else .fixed k
  phase_eq : k = 0 → x.link.phase = .idle
  coming : ∃ taken, F.On x.link (later.drop taken) ∧
    text = x.reader.source.staged ++ later.drop taken ∧
    taken + (k - x.reader.source.staged.length) ≤ most

theorem OnFixed.over (h : OnFixed F later most 0 text x) : x.Over (.ok []) .idle := by
  rw [← h.phase_eq rfl]
  exact .finished h.progress_eq

theorem OnFixed.read_eq (h : OnFixed F later most k text x) (hk : k ≠ 0) (hn : 0 < n) :
    x.read n = x.readFixed k n := by
  rw [Reading.read, h.progress_eq, if_neg hk]
  exact if_neg (Nat.pos_iff_ne_zero.mp hn)

/-- **A read of a fixed body** takes a piece off the front of the text. -/
theorem OnFixed.read_piece (h : OnFixed F later most k text x) (hk : k ≠ 0) (htext : text ≠ [])
    (hn : 0 < n) : ∃ piece rest y, x.read n = (.ok piece, y) ∧ piece ≠ [] ∧ piece.length ≤ n ∧
      piece.length ≤ k ∧ text = piece ++ rest ∧
      OnFixed F later most (k - piece.length) rest y := by
  obtain ⟨taken, hon, rfl, hmost⟩ := h.coming
  obtain ⟨piece, source, wire, coming, hread, hne, hle, -, hsound, hon', hfrom⟩ :=
    Source.read_piece (n := min n k) h.sound hon htext (by omega)
  obtain ⟨b, bytes, rfl⟩ := List.exists_cons_of_ne_nil hne
  have hcall : x.read n = (.ok (b :: bytes),
      if k - (b :: bytes).length = 0 then (x.resume source { x.link with wire }).finish .idle
      else (x.resume source { x.link with wire }).moveTo (.fixed (k - (b :: bytes).length))) := by
    rw [h.read_eq hk hn]
    unfold readFixed
    rw [hread]
  -- The wire is read only when nothing is staged, and then for no more than is outstanding.
  have hrest : ∃ taken', coming = later.drop taken' ∧
      x.reader.source.staged ++ later.drop taken = b :: bytes ++ (source.staged ++ coming) ∧
      taken' + (k - (b :: bytes).length - source.staged.length) ≤ most := by
    rcases hfrom with ⟨hs, rfl⟩ | ⟨hs, hs', hcoming⟩
    · refine ⟨taken, rfl, by rw [hs, List.append_assoc], ?_⟩
      rw [hs, List.length_append] at hmost
      omega
    · refine ⟨taken + (b :: bytes).length, ?_, by rw [hs, hs', hcoming]; rfl, ?_⟩
      · rw [← List.drop_drop, hcoming, List.drop_left]
      · rw [hs, List.length_nil] at hmost
        omega
  obtain ⟨taken', rfl, htext', hmost'⟩ := hrest
  refine ⟨b :: bytes, source.staged ++ later.drop taken', _, hcall, hne, by omega, by omega,
    htext', ?_⟩
  by_cases hdone : k - (b :: bytes).length = 0
  · rw [if_pos hdone]
    refine ⟨hsound, ?_, fun _ => rfl, taken', hon'.enter .idle, rfl, hmost'⟩
    rw [if_pos hdone]
    rfl
  · rw [if_neg hdone]
    refine ⟨hsound, ?_, fun hzero => absurd hzero hdone, taken', hon', rfl, hmost'⟩
    rw [if_neg hdone]
    rfl

/-- With nothing before it a source reads from its link. -/
theorem read_drained (hon : F.On x.link []) (hstaged : x.reader.source.staged = [])
    {received : Except TransportFailure Bytes} (hend : F.EndsIn received) (hn : 0 < n) :
    ∃ link, x.reader.source.read x.link n = (received, x.reader.source, link) := by
  rw [Source.read_of_drained hstaged, Link.read_eq, hon.receive_eq]
  exact ⟨_, by rw [hend hon.carries hn]⟩

theorem OnFixed.drained (h : OnFixed F later most k [] x) (hk : k ≠ 0)
    {received : Except TransportFailure Bytes} (hend : F.EndsIn received) (hn : 0 < n) :
    ∃ link, x.reader.source.read x.link (min n k) = (received, x.reader.source, link) := by
  obtain ⟨taken, hon, hnil, -⟩ := h.coming
  obtain ⟨hstaged, hcoming⟩ := List.append_eq_nil_iff.mp hnil.symm
  rw [hcoming] at hon
  exact read_drained hon hstaged hend (by omega)

theorem OnFixed.read_end (h : OnFixed F later most k [] x) (hk : k ≠ 0) (hend : F.EndsIn (.ok []))
    (hn : 0 < n) : ∃ y, x.read n = (.error (.cutOff (.fixedBody k)), y) ∧
      y.Over (.error (.cutOff (.fixedBody k))) .poisoned := by
  obtain ⟨link, hread⟩ := h.drained hk hend hn
  rw [h.read_eq hk hn]
  unfold readFixed
  rw [hread]
  exact ⟨_, rfl, .failed rfl rfl⟩

theorem OnFixed.read_failure (h : OnFixed F later most k [] x) (hk : k ≠ 0)
    {failure : TransportFailure} (hend : F.EndsIn (.error failure)) (hn : 0 < n) :
    ∃ y, x.read n = (.error (.network failure), y) ∧
      y.Over (.error (.network failure)) .poisoned := by
  obtain ⟨link, hread⟩ := h.drained hk hend hn
  rw [h.read_eq hk hn]
  unfold readFixed
  rw [hread]
  exact ⟨_, rfl, .failed rfl rfl⟩

/-- A body that is there as a whole is handed out as a whole, and no more. -/
theorem OnFixed.delivers (h : OnFixed F later most k text x) (hk : k ≤ text.length)
    (hsizes : ∀ i, 0 < sizes i) : x.Delivers sizes (text.take k) (.ok []) .idle := by
  have hpours : Pours (fun payload x => (∃ k text, OnFixed F later most k text x ∧ k ≤ text.length ∧
      payload = text.take k) ∨ payload = [] ∧ x.Over (.ok []) .idle) (.ok []) .idle := by
    refine pours_of_steps ?_ ?_
    · rintro payload x n ⟨k, text, h, hk, rfl⟩ hpayload hn
      have hk0 : k ≠ 0 := by
        rintro rfl
        exact hpayload rfl
      have htext : text ≠ [] := by
        rintro rfl
        exact hpayload List.take_nil
      obtain ⟨piece, rest, y, hread, hne, hle, hlek, rfl, hy⟩ := h.read_piece hk0 htext hn
      rw [List.length_append] at hk
      refine ⟨piece, rest.take (k - piece.length), y, hread, hne, hle, ?_, _, rest, hy, by omega,
        rfl⟩
      rw [List.take_append, List.take_of_length_le hlek]
    · rintro x n ⟨k, text, h, hk, hnil⟩ hn
      have hk0 : k = 0 := by
        have hlength := congrArg List.length hnil
        rw [List.length_nil, List.length_take, Nat.min_eq_left hk] at hlength
        exact hlength.symm
      subst hk0
      exact ⟨x, (h.over.read n).1, h.over⟩
  exact hpours.delivers (.inl ⟨k, text, h, hk, rfl⟩) hsizes

/-- Of a body that is cut off all is handed out that there is. -/
theorem OnFixed.delivers_short (h : OnFixed F later most k text x) (hk : text.length < k)
    {last : Except Failure Bytes}
    (hlast : ∀ {y : Reading σ} {n}, OnFixed F later most (k - text.length) [] y → 0 < n →
      ∃ z, y.read n = (last, z) ∧ z.Over last .poisoned)
    (hsizes : ∀ i, 0 < sizes i) : x.Delivers sizes text last .poisoned := by
  have hpours : Pours (fun payload x =>
      OnFixed F later most (payload.length + (k - text.length)) payload x ∨
        payload = [] ∧ x.Over last .poisoned) last .poisoned := by
    refine pours_of_steps ?_ ?_
    · intro payload x n h hpayload hn
      obtain ⟨piece, rest, y, hread, hne, hle, -, rfl, hy⟩ :=
        h.read_piece (by omega) hpayload hn
      refine ⟨piece, rest, y, hread, hne, hle, rfl, ?_⟩
      rwa [List.length_append, Nat.add_assoc, Nat.add_sub_cancel_left] at hy
    · intro x n h hn
      rw [List.length_nil, Nat.zero_add] at h
      exact hlast h hn
  refine hpours.delivers (.inl ?_) hsizes
  rwa [Nat.add_sub_cancel' (Nat.le_of_lt hk)]

/-- Reads of a body that is there as a whole never leave it. -/
theorem OnFixed.after (h : OnFixed F later most k text x) (hk : k ≤ text.length)
    (hsizes : ∀ i, 0 < sizes i) (i : Nat) :
    ∃ k text, OnFixed F later most k text (x.after sizes i) ∧ k ≤ text.length := by
  induction i with
  | zero => exact ⟨k, text, h, hk⟩
  | succ i ih =>
      obtain ⟨k, text, hi, hk⟩ := ih
      rw [Reading.after]
      by_cases hk0 : k = 0
      · subst hk0
        rw [(hi.over.read _).1]
        exact ⟨0, text, hi, hk⟩
      · have htext : text ≠ [] := by
          rintro rfl
          exact hk0 (Nat.le_zero.mp hk)
        obtain ⟨piece, rest, y, hread, -, -, -, rfl, hy⟩ := hi.read_piece hk0 htext (hsizes i)
        rw [List.length_append] at hk
        rw [hread]
        exact ⟨_, rest, hy, by omega⟩

/-- The reads of a fixed body take no more off the wire than they may. -/
theorem OnFixed.within (h : OnFixed F later most k text x) (hk : k ≤ text.length)
    (hsizes : ∀ i, 0 < sizes i) (i : Nat) :
    ∃ taken, taken ≤ most ∧ F.carries (x.after sizes i).link.wire (later.drop taken) := by
  obtain ⟨k, text, hi, -⟩ := h.after hk hsizes i
  obtain ⟨taken, hon, -, hmost⟩ := hi.coming
  exact ⟨taken, by omega, hon.carries⟩

/-! ## Bodies that end with the stream -/

/-- A reader of a body that ends with the stream, with `text` before it. -/
structure AtToClose (F : Feed receive ending) (text : Bytes) (x : Reading σ) : Prop where
  progress_eq : x.reader.progress = .toClose
  before : Before F x text

theorem AtToClose.read_eq (h : AtToClose F text x) (hn : 0 < n) : x.read n = x.readToClose n := by
  rw [Reading.read, h.progress_eq]
  exact if_neg (Nat.pos_iff_ne_zero.mp hn)

theorem AtToClose.read_piece (h : AtToClose F text x) (htext : text ≠ []) (hn : 0 < n) :
    ∃ piece rest y, x.read n = (.ok piece, y) ∧ piece ≠ [] ∧ piece.length ≤ n ∧
      text = piece ++ rest ∧ AtToClose F rest y := by
  obtain ⟨piece, rest, source, wire, hread, hne, hle, heq, -, hbehind⟩ := h.before.read htext hn
  obtain ⟨b, bytes, rfl⟩ := List.exists_cons_of_ne_nil hne
  refine ⟨b :: bytes, rest, x.resume source { x.link with wire }, ?_, hne, hle, heq,
    h.progress_eq, hbehind⟩
  rw [h.read_eq hn]
  unfold readToClose
  rw [hread]

theorem AtToClose.read_end (h : AtToClose F [] x) (hend : F.EndsIn (.ok [])) (hn : 0 < n) :
    ∃ y, x.read n = (.ok [], y) ∧ y.Over (.ok []) .closed := by
  obtain ⟨link, hread⟩ := read_drained h.before.on_nil h.before.staged_eq_nil hend hn
  rw [h.read_eq hn]
  unfold readToClose
  rw [hread]
  exact ⟨_, rfl, .finished rfl⟩

theorem AtToClose.read_failure (h : AtToClose F [] x) {failure : TransportFailure}
    (hend : F.EndsIn (.error failure)) (hn : 0 < n) :
    ∃ y, x.read n = (.error (.network failure), y) ∧
      y.Over (.error (.network failure)) .poisoned := by
  obtain ⟨link, hread⟩ := read_drained h.before.on_nil h.before.staged_eq_nil hend hn
  rw [h.read_eq hn]
  unfold readToClose
  rw [hread]
  exact ⟨_, rfl, .failed rfl rfl⟩

theorem AtToClose.delivers (h : AtToClose F text x) {last : Except Failure Bytes} {phase : Phase}
    (hlast : ∀ {y : Reading σ} {n}, AtToClose F [] y → 0 < n →
      ∃ z, y.read n = (last, z) ∧ z.Over last phase)
    (hsizes : ∀ i, 0 < sizes i) : x.Delivers sizes text last phase :=
  (pours_of_steps AtToClose.read_piece hlast).delivers (.inl h) hsizes

/-! ## All reads of a body -/

/-- How a fixed body of `n` bytes is read, of whose text `staged` came with the head and `later`
behind it. -/
structure ReadsFixed (F : Feed receive ending) (x : Reading σ) (sizes : Nat → Nat) (n : Nat)
    (staged later : Bytes) : Prop where
  whole : n ≤ (staged ++ later).length →
    x.Delivers sizes ((staged ++ later).take n) (.ok []) .idle
  /-- At no time was more taken off the wire than was missing from what is staged. -/
  within : n ≤ (staged ++ later).length → ∀ i, ∃ taken, taken ≤ n - staged.length ∧
    F.carries (x.after sizes i).link.wire (later.drop taken)
  early : (staged ++ later).length < n → F.EndsIn (.ok []) →
    ∃ failure : Failure, failure.error = .network ∧ failure.transportError = .unexpectedEnd ∧
      x.Delivers sizes (staged ++ later) (.error failure) .poisoned
  broken {failure : TransportFailure} : (staged ++ later).length < n →
    F.EndsIn (.error failure) →
    x.Delivers sizes (staged ++ later) (.error (.network failure)) .poisoned

/-- How a body that ends with the stream is read from `text`. -/
structure ReadsToClose (F : Feed receive ending) (x : Reading σ) (sizes : Nat → Nat)
    (text : Bytes) : Prop where
  whole : F.EndsIn (.ok []) → x.Delivers sizes text (.ok []) .closed
  broken {failure : TransportFailure} : F.EndsIn (.error failure) →
    x.Delivers sizes text (.error (.network failure)) .poisoned

/-- A fixed body, whatever part of the text is staged. -/
theorem readsFixed {l : Link σ} {staged later : Bytes} (hon : F.On l later) (room : Nat)
    (hphase : n = 0 → l.phase = .idle) (hsizes : ∀ i, 0 < sizes i) :
    ReadsFixed F ⟨.make (.fixed n) room staged, l⟩ sizes n staged later := by
  have hstaged := Source.staged_ofStaged room staged
  have h : OnFixed F later (n - staged.length) n (staged ++ later)
      ⟨.make (.fixed n) room staged, l⟩ := by
    refine ⟨Source.sound_ofStaged room staged, ?_, hphase, 0, hon, ?_, ?_⟩
    · cases n with
      | zero => rfl
      | succ n => rfl
    · rw [BodyReader.make, hstaged, List.drop_zero]
    · rw [BodyReader.make, hstaged, Nat.zero_add]
  constructor
  · intro hn
    exact h.delivers hn hsizes
  · intro hn
    exact h.within hn hsizes
  · intro hn hend
    refine ⟨.cutOff (.fixedBody (n - (staged ++ later).length)), rfl, rfl, ?_⟩
    exact h.delivers_short hn (fun hy hn => hy.read_end (by omega) hend hn) hsizes
  · intro failure hn hend
    exact h.delivers_short hn (fun hy hn => hy.read_failure (by omega) hend hn) hsizes

/-- A body that ends with the stream, whatever part of the text is staged. -/
theorem readsToClose {l : Link σ} {staged later : Bytes} (hon : F.On l later) (room : Nat)
    (hsizes : ∀ i, 0 < sizes i) :
    ReadsToClose F ⟨.make .toClose room staged, l⟩ sizes (staged ++ later) := by
  have h : AtToClose F (staged ++ later) ⟨.make .toClose room staged, l⟩ := by
    refine ⟨rfl, Source.sound_ofStaged room staged, later, hon, ?_⟩
    rw [BodyReader.make, Source.staged_ofStaged]
  constructor
  · intro hend
    exact h.delivers (fun hy hn => hy.read_end hend hn) hsizes
  · intro failure hend
    exact h.delivers (fun hy hn => hy.read_failure hend hn) hsizes

end Reading

/-- **Bodies without chunks are delivered exactly**, in whatever pieces the response arrives,
however much of the body comes with the head and whatever sizes the calls ask for. -/
theorem plain_response_delivers {σ : Type} [SecureTransport σ] {l : Link σ} {ending : Ending}
    (F : Feed l.connection.form.receive ending) {head body : Bytes} {line : StatusLine}
    {block : HeaderBlock} (method : Method) {capacity : Nat} {sizes : Nat → Nat}
    (hidle : l.phase = .idle) (hhead : IsHead head line block) (hfit : head.length ≤ capacity)
    (hcarries : F.carries l.wire (head ++ body)) (hsizes : ∀ i, 0 < sizes i) :
    ∃ r reader l' later, Response.read l method capacity = (.ok r, l') ∧
      r.framing = Framing.decide method line.status block ∧ r.body.1 = .ok reader ∧
      body = r.staged ++ later ∧ F.carries l'.wire later ∧
      (∀ {n}, r.framing = .fixed n →
        Reading.ReadsFixed F ⟨reader, l'⟩ sizes n r.staged later) ∧
      (r.framing = .toClose → Reading.ReadsToClose F ⟨reader, l'⟩ sizes body) := by
  obtain ⟨staged, later, l', hread, rfl, -, hlater, hholds⟩ :=
    Response.read_isHead method hidle hhead hfit ⟨rfl, hcarries⟩
  refine ⟨_, _, l', later, hread, rfl, rfl, rfl, hlater.carries, ?_, ?_⟩
  · intro n hfixed
    rw [hfixed]
    refine Reading.readsFixed hlater _ ?_ hsizes
    rintro rfl
    rw [hholds.phase_eq]
    show (if _ then Phase.idle else .inBody) = .idle
    rw [hfixed]
    rfl
  · intro hclose
    rw [hclose]
    exact Reading.readsToClose hlater _ hsizes

theorem shortHead_fixed :
    Framing.decide .get ⟨200⟩ ⟨ascii "Content-Length: 2\r\n"⟩ = .fixed 2 := by decide +kernel

/-- Of two bytes one came with the head, and what comes behind the other is not handed out. -/
theorem plain_response_delivers_hi : ∃ r reader l',
    Response.read (Script.connected [shortHead ++ ascii "h", ascii "i!"]) .get 64 = (.ok r, l') ∧
      r.body.1 = .ok reader ∧
      (Reading.mk reader l').Delivers (fun _ => 16) (ascii "hi") (.ok []) .idle := by
  have hsegments : [shortHead ++ ascii "h", ascii "i!"].flatten = shortHead ++ ascii "hi!" := by
    decide +kernel
  have hfit : shortHead.length ≤ 64 := by decide +kernel
  obtain ⟨r, reader, l', later, hread, hframing, hreader, hbody, -, hfixed, -⟩ :=
    plain_response_delivers (Script.connectedFeed _) .get rfl isHead_shortHead hfit
      (Script.connectedFeed_carries _ hsegments) (fun _ => Nat.zero_lt_succ 15)
  have hwhole := (hfixed (hframing.trans shortHead_fixed)).whole
  rw [← hbody] at hwhole
  exact ⟨r, reader, l', hread, hreader, hwhole (by decide)⟩

end HttpExchange
