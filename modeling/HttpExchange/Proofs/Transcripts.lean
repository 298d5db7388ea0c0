import HttpExchange.Proofs.Draining
import HttpExchange.Proofs.HeadOutcome
import HttpExchange.Proofs.PlainBodies

/-!
# What was heard and what it amounts to

A transport owes its reader no stream: how much a read brings, when it fails, and whether more
would come behind an end may all depend on what was asked for. But whatever it does, the reads
that were made have brought some text and perhaps told of an end (`Link.Hears`), and this
transcript decides what was made of it. It decides for every stream it may be the front of:
where no end was told, anything may have been to come (`Ending.Allows`).

* `Reading.heeds_read`: one read, on any transport. It goes on to where the transcript leads.
* `Reading.readAll_heard`: reading on hands out the payload of the transcript.
* `Response.read_heard`: a response is read from the head of the transcript.
-/

namespace HttpExchange

open ChunkText

/-! ## Transcripts -/

section

variable {σ : Type}

/-- Reads that bring a text, piece by piece. -/
inductive Brought (receive : σ → Nat → Except TransportFailure Bytes × σ) : σ → Bytes → σ → Prop
  | nothing (w : σ) : Brought receive w [] w
  | piece {w w₁ w' : σ} {n : Nat} {piece text : Bytes} (pos : 0 < n)
      (read_eq : receive w n = (.ok piece, w₁)) (ne : piece ≠ [])
      (more : Brought receive w₁ text w') : Brought receive w (piece ++ text) w'

theorem Brought.append {receive : σ → Nat → Except TransportFailure Bytes × σ} {w w₁ w' : σ}
    {text more : Bytes} (h : Brought receive w text w₁) (h' : Brought receive w₁ more w') :
    Brought receive w (text ++ more) w' := by
  induction h with
  | nothing w => exact h'
  | piece pos read_eq ne _ ih =>
      rw [List.append_assoc]
      exact .piece pos read_eq ne (ih h')

/-- The read that told how a stream ended. Where nothing is told there was none. -/
inductive Ending.Told (receive : σ → Nat → Except TransportFailure Bytes × σ) :
    Ending → σ → σ → Prop
  | finished {w w' : σ} {n : Nat} (pos : 0 < n) (read_eq : receive w n = (.ok [], w')) :
      Told receive .finished w w'
  | broken {w w' : σ} {n : Nat} {failure : TransportFailure} (pos : 0 < n)
      (read_eq : receive w n = (.error failure, w')) : Told receive (.broken failure) w w'
  | silent (w : σ) : Told receive .silent w w

/-- What may have been to come behind a stream that was heard: nothing behind an end that was
told, and anything where none was. -/
def Ending.Allows (heard ending : Ending) (later : Bytes) : Prop :=
  heard = .silent ∨ ending = heard ∧ later = []

/-! ### On feeds -/

variable {receive : σ → Nat → Except TransportFailure Bytes × σ} {ending heard : Ending}
  {F : Feed receive ending} {w w' : σ} {text stream : Bytes}

/-- What a read of a feed with a known end comes to. -/
theorem Feed.receives {n : Nat} (hcarries : F.carries w stream) (hending : ending ≠ .silent)
    (hn : 0 < n) :
    (∃ piece rest w', receive w n = (.ok piece, w') ∧ piece ≠ [] ∧ stream = piece ++ rest ∧
      F.carries w' rest) ∨
    stream = [] ∧ ((∃ w', ending = .finished ∧ receive w n = (.ok [], w')) ∨
      ∃ failure w', ending = .broken failure ∧ receive w n = (.error failure, w')) := by
  by_cases hstream : stream = []
  · subst hstream
    match ending with
    | .finished =>
        obtain ⟨w', hread, -⟩ := F.finished rfl hcarries hn
        exact .inr ⟨rfl, .inl ⟨w', rfl, hread⟩⟩
    | .broken failure =>
        obtain ⟨w', hread, -⟩ := F.broken rfl hcarries hn
        exact .inr ⟨rfl, .inr ⟨failure, w', rfl, hread⟩⟩
    | .silent => exact absurd rfl hending
  · obtain ⟨piece, rest, w', hread, hne, -, heq, hrest⟩ := F.piece hcarries hstream hn
    exact .inl ⟨piece, rest, w', hread, hne, heq, hrest⟩

/-- A feed brings the front of its stream and keeps the rest. -/
theorem Brought.on_feed (h : Brought receive w text w') (hcarries : F.carries w stream)
    (hending : ending ≠ .silent) : ∃ later, stream = text ++ later ∧ F.carries w' later := by
  induction h generalizing stream with
  | nothing w => exact ⟨stream, rfl, hcarries⟩
  | @piece _ _ _ _ piece text pos read_eq ne _ ih =>
      rcases F.receives hcarries hending pos with
        ⟨piece', rest, w₁, hread, -, rfl, hrest⟩ | ⟨-, ⟨w₁, -, hread⟩ | ⟨failure, w₁, -, hread⟩⟩
      · rw [read_eq] at hread
        cases hread
        obtain ⟨later, rfl, hlater⟩ := ih hrest
        exact ⟨later, (List.append_assoc ..).symm, hlater⟩
      · rw [read_eq] at hread
        cases hread
        exact absurd rfl ne
      · rw [read_eq] at hread
        cases hread

/-- An end that was told is the end of the feed, and nothing of its stream is left. -/
theorem Ending.Told.allows (h : heard.Told receive w w') (hcarries : F.carries w stream)
    (hending : ending ≠ .silent) : heard.Allows ending stream := by
  cases h with
  | silent => exact .inl rfl
  | finished pos read_eq =>
      rcases F.receives hcarries hending pos with
        ⟨piece, rest, w₁, hread, ne, -, -⟩ | ⟨hstream, ⟨w₁, hend, -⟩ | ⟨failure, w₁, -, hread⟩⟩
      · rw [read_eq] at hread
        cases hread
        exact absurd rfl ne
      · exact .inr ⟨hend, hstream⟩
      · rw [read_eq] at hread
        cases hread
  | broken pos read_eq =>
      rcases F.receives hcarries hending pos with
        ⟨piece, rest, w₁, hread, -⟩ | ⟨hstream, ⟨w₁, -, hread⟩ | ⟨failure, w₁, hend, hread⟩⟩
      · rw [read_eq] at hread
        cases hread
      · rw [read_eq] at hread
        cases hread
      · rw [read_eq] at hread
        cases hread
        exact .inr ⟨hend, hstream⟩

end

variable {σ : Type} [SecureTransport σ]

namespace Link

/-- What was heard on a link until it became another one: a text, and how it ended. -/
structure Hears (l : Link σ) (text : Bytes) (heard : Ending) (l' : Link σ) : Prop where
  form_eq : l'.connection.form = l.connection.form
  transcript : ∃ wire, Brought l.connection.form.receive l.wire text wire ∧
    heard.Told l.connection.form.receive wire l'.wire

variable {l l₁ l' : Link σ} {text more : Bytes} {heard : Ending} {n : Nat}

theorem Hears.refl (l : Link σ) : l.Hears [] .silent l :=
  ⟨rfl, l.wire, .nothing l.wire, .silent l.wire⟩

theorem Hears.trans (h : l.Hears text .silent l₁) (h' : l₁.Hears more heard l') :
    l.Hears (text ++ more) heard l' := by
  obtain ⟨wire, hbrought, htold⟩ := h.transcript
  obtain ⟨wire', hmore, htold'⟩ := h'.transcript
  rw [h.form_eq] at hmore htold'
  cases htold
  exact ⟨h'.form_eq.trans h.form_eq, wire', hbrought.append hmore, htold'⟩

/-- Phase and journal do not matter to what was heard. -/
theorem Hears.of_eq (h : l.Hears text heard l₁)
    (hform : l'.connection.form = l₁.connection.form) (hwire : l'.wire = l₁.wire) :
    l.Hears text heard l' := by
  obtain ⟨wire, hbrought, htold⟩ := h.transcript
  exact ⟨hform.trans h.form_eq, wire, hbrought, hwire ▸ htold⟩

theorem hears_piece {piece : Bytes} (h : l.read n = (.ok piece, l')) (hne : piece ≠ []) :
    l.Hears piece .silent l' := by
  have hn : 0 < n := Nat.lt_of_lt_of_le (List.length_pos_iff.mpr hne) (Link.read_length_le h)
  rw [Link.read_eq, Prod.mk.injEq] at h
  obtain ⟨hpiece, rfl⟩ := h
  refine ⟨rfl, (l.connection.form.receive l.wire n).2, ?_, .silent _⟩
  rw [← List.append_nil piece]
  exact .piece hn (Prod.ext hpiece rfl) hne (.nothing _)

theorem hears_finished (hn : 0 < n) (h : l.read n = (.ok [], l')) : l.Hears [] .finished l' := by
  rw [Link.read_eq, Prod.mk.injEq] at h
  obtain ⟨hnothing, rfl⟩ := h
  exact ⟨rfl, l.wire, .nothing l.wire, .finished hn (Prod.ext hnothing rfl)⟩

theorem hears_broken {failure : TransportFailure} (hn : 0 < n)
    (h : l.read n = (.error failure, l')) : l.Hears [] (.broken failure) l' := by
  rw [Link.read_eq, Prod.mk.injEq] at h
  obtain ⟨hfailure, rfl⟩ := h
  exact ⟨rfl, l.wire, .nothing l.wire, .broken hn (Prod.ext hfailure rfl)⟩

/-- On a feed, what was heard is the front of its stream, and what was told is its end. -/
theorem Hears.on_feed {receive : σ → Nat → Except TransportFailure Bytes × σ} {ending : Ending}
    {F : Feed receive ending} {stream : Bytes} (h : l.Hears text heard l') (hon : F.On l stream)
    (hending : ending ≠ .silent) :
    ∃ later, stream = text ++ later ∧ heard.Allows ending later := by
  obtain ⟨hform, wire, hbrought, htold⟩ := h
  rw [hon.receive_eq] at hbrought htold
  obtain ⟨later, rfl, hcarries⟩ := hbrought.on_feed hon.carries hending
  exact ⟨later, rfl, htold.allows hcarries hending⟩

end Link

/-! ## Sources -/

namespace Source

variable {s : Source} {l : Link σ} {n : Nat}

/-- What taking at most `n` bytes out of a source can come to: a piece of what is staged or was
heard now, or, with nothing staged, an end of the stream. -/
inductive Gets (s : Source) (l : Link σ) (n : Nat) :
    Except TransportFailure Bytes × Source × Link σ → Prop
  | piece {piece text : Bytes} {s' : Source} {l' : Link σ} (ne : piece ≠ [])
      (length_le : piece.length ≤ n) (hears : l.Hears text .silent l') (sound : s'.Sound)
      (staged_eq : s.staged ++ text = piece ++ s'.staged) : Gets s l n (.ok piece, s', l')
  | finished {l' : Link σ} (drained : s.staged = []) (hears : l.Hears [] .finished l') :
      Gets s l n (.ok [], s, l')
  | broken {failure : TransportFailure} {l' : Link σ} (drained : s.staged = [])
      (hears : l.Hears [] (.broken failure) l') : Gets s l n (.error failure, s, l')

theorem gets_read (h : s.Sound) (hn : 0 < n) : s.Gets l n (s.read l n) := by
  by_cases hs : s.staged = []
  · rw [read_of_drained hs]
    cases hread : l.read n with
    | mk received l' =>
        match received with
        | .error failure => exact .broken hs (Link.hears_broken hn hread)
        | .ok [] => exact .finished hs (Link.hears_finished hn hread)
        | .ok (b :: bytes) =>
            refine .piece (List.cons_ne_nil b bytes) (Link.read_length_le hread)
              (Link.hears_piece hread (List.cons_ne_nil b bytes)) h ?_
            rw [hs, List.append_nil, List.nil_append]
  · rw [read_of_staged hs hn]
    refine .piece (take_staged_ne_nil hs hn) (List.length_take_le n _) (.refl l)
      (h.advance (List.length_take_le' ..)) ?_
    rw [List.append_nil, take_staged]

/-- A single byte, or none. -/
theorem gets_readByte (h : s.Sound) :
    s.Gets l 1 ((s.readByte l).1.map Option.toList, (s.readByte l).2) := by
  cases hs : s.staged with
  | cons b more =>
      rw [readByte_of_staged hs]
      refine .piece (List.cons_ne_nil b []) (Nat.le_refl 1) (.refl l)
        (h.advance (by simp [hs])) ?_
      rw [staged_advance, hs, List.drop_one, List.tail_cons, List.append_nil]
      rfl
  | nil =>
      have hpos : 0 < if s.room = 0 then 1 else s.room := by split <;> omega
      rw [readByte_of_drained hs]
      cases hread : l.read (if s.room = 0 then 1 else s.room) with
      | mk received l' =>
          match received with
          | .error failure => exact .broken hs (Link.hears_broken hpos hread)
          | .ok [] => exact .finished hs (Link.hears_finished hpos hread)
          | .ok (b :: bytes) =>
              have hears := Link.hears_piece hread (List.cons_ne_nil b bytes)
              by_cases hroom : s.room = 0
              · -- Without room no more than this byte was asked for.
                have hlength := Link.read_length_le hread
                rw [if_pos hroom, List.length_cons] at hlength
                have hbytes : bytes = [] := List.eq_nil_of_length_eq_zero (by omega)
                dsimp only
                rw [if_pos hroom]
                refine .piece (List.cons_ne_nil b []) (Nat.le_refl 1) hears h ?_
                rw [hs, hbytes]
                rfl
              · have hstaged := staged_refill h (b :: bytes)
                dsimp only
                rw [if_neg hroom]
                refine .piece (List.cons_ne_nil b []) (Nat.le_refl 1) hears
                  ((h.refill _).advance (by simp [hstaged])) ?_
                rw [staged_advance, hstaged, hs]
                rfl

end Source

namespace Reading

variable {x y z : Reading σ} {text more piece : Bytes} {heard : Ending} {k n : Nat}

/-! ## The outlook of a reading -/

/-- What is left of a body when `text` is before its reader. -/
def outlook (x : Reading σ) (ending : Ending) (text : Bytes) : Outlook :=
  match x.reader.progress with
  | .finished => ⟨[], .complete x.link.phase text⟩
  | .failed failure => ⟨[], .failing failure⟩
  | progress => progress.outlook ending text

/-- A reading that has not failed and may be read on. -/
structure Fit (x : Reading σ) : Prop where
  sound : x.reader.source.Sound
  proper : x.reader.progress.Proper
  unfailed (failure : Failure) : x.reader.progress ≠ .failed failure

omit [SecureTransport σ] in
/-- A reader that is done leaves nothing, and tells how the body ended. -/
theorem Over.outlook_eq {last : Except Failure Bytes} {phase : Phase} (h : y.Over last phase)
    (ending : Ending) (text : Bytes) :
    ∃ finale, y.outlook ending text = ⟨[], finale⟩ ∧ finale.Tells last phase := by
  unfold outlook
  cases h with
  | finished hprogress =>
      rw [hprogress]
      exact ⟨_, rfl, .complete y.link.phase text⟩
  | failed hprogress _ =>
      rw [hprogress]
      exact ⟨_, rfl, .failing _⟩

omit [SecureTransport σ] in
theorem outlook_failed {failure : Failure} (h : y.reader.progress = .failed failure)
    (ending : Ending) (text : Bytes) : y.outlook ending text = ⟨[], .failing failure⟩ := by
  rw [outlook, h]

/-! ## Going on -/

/-- From `x` to `y` a text was heard and a piece was handed out, and what is left at `y` is what
was left at `x` without the piece, whatever may have been to come. -/
structure Advances (x : Reading σ) (text : Bytes) (heard : Ending) (piece : Bytes)
    (y : Reading σ) : Prop where
  hears : x.link.Hears text heard y.link
  outlook_eq {ending : Ending} {later : Bytes} : heard.Allows ending later →
    x.outlook ending (x.reader.source.staged ++ (text ++ later))
      = (y.outlook ending (y.reader.source.staged ++ later)).prepend piece

theorem Advances.refl (x : Reading σ) : x.Advances [] .silent [] x := ⟨.refl _, fun _ => rfl⟩

theorem Advances.trans {piece' : Bytes} (h : x.Advances text .silent piece y)
    (h' : y.Advances more heard piece' z) :
    x.Advances (text ++ more) heard (piece ++ piece') z := by
  refine ⟨h.hears.trans h'.hears, ?_⟩
  intro ending later hlater
  rw [List.append_assoc, h.outlook_eq (.inl rfl), h'.outlook_eq hlater]
  simp only [Outlook.prepend, List.append_assoc]

/-- A call that hands out a piece and goes on, or tells how the body has ended. -/
inductive Heeds (x : Reading σ) : Except Failure Bytes × Reading σ → Prop
  | piece {text piece : Bytes} {y : Reading σ} (ne : piece ≠ []) (fit : y.Fit)
      (advances : x.Advances text .silent piece y) : Heeds x (.ok piece, y)
  | last {text : Bytes} {heard : Ending} {last : Except Failure Bytes} {phase : Phase}
      {y : Reading σ} (advances : x.Advances text heard [] y) (ended : y.Over last phase) :
      Heeds x (last, y)

theorem Heeds.after {call : Except Failure Bytes × Reading σ} (h : x.Advances text .silent [] y)
    (h' : y.Heeds call) : x.Heeds call := by
  cases h' with
  | piece ne fit advances => exact .piece ne fit (h.trans advances)
  | last advances ended => exact .last (h.trans advances) ended

/-- A call takes a piece off the text before it. -/
theorem heeds_piece (ne : piece ≠ []) (hfit : y.Fit) (hears : x.link.Hears text .silent y.link)
    (hstaged : x.reader.source.staged ++ text = piece ++ y.reader.source.staged)
    (houtlook : ∀ ending rest,
      x.outlook ending (piece ++ rest) = (y.outlook ending rest).prepend piece) :
    x.Heeds (.ok piece, y) := by
  refine .piece ne hfit ⟨hears, ?_⟩
  intro ending later _
  rw [← List.append_assoc, hstaged, List.append_assoc, houtlook]

/-- With nothing staged, a call fails at an end that was told. -/
theorem heeds_fail {link : Link σ} {failure : Failure} (drained : x.reader.source.staged = [])
    (hheard : heard ≠ .silent) (hears : x.link.Hears [] heard link)
    (houtlook : x.outlook heard [] = ⟨[], .failing failure⟩) :
    x.Heeds ((x.resume x.reader.source link).fail failure) := by
  refine .last ⟨hears.of_eq rfl rfl, ?_⟩ (.failed rfl rfl)
  rintro ending later (hsilent | ⟨rfl, rfl⟩)
  · exact absurd hsilent hheard
  · rw [drained]
    exact houtlook

/-! ## Single reads -/

theorem heeds_readFixed (h : x.Fit) (hx : x.reader.progress = .fixed k) (hn : 0 < n) :
    x.Heeds (x.readFixed k n) := by
  have hk : 0 < k := by
    have hproper := h.proper
    rwa [hx] at hproper
  have houtlook (ending : Ending) (text : Bytes) :
      x.outlook ending text = (Progress.fixed k).outlook ending text := by rw [outlook, hx]
  have hearly (ending : Ending) : x.outlook ending [] = ⟨[], ending.early (.fixedBody k)⟩ := by
    rw [houtlook]
    exact if_pos hk
  have hgets := Source.gets_read (l := x.link) h.sound (n := min n k) (by omega)
  unfold readFixed
  generalize x.reader.source.read x.link (min n k) = call at hgets ⊢
  cases hgets with
  | broken drained hears => exact heeds_fail drained Ending.noConfusion hears (hearly _)
  | finished drained hears => exact heeds_fail drained Ending.noConfusion hears (hearly _)
  | @piece piece text source link ne length_le hears sound staged_eq =>
      obtain ⟨b, bytes, rfl⟩ := List.exists_cons_of_ne_nil ne
      dsimp only
      by_cases hdone : k - (b :: bytes).length = 0
      · rw [if_pos hdone]
        refine heeds_piece ne ⟨sound, trivial, nofun⟩ (hears.of_eq rfl rfl) staged_eq ?_
        intro ending rest
        rw [houtlook, outlook_fixed_piece (by omega), hdone]
        rfl
      · rw [if_neg hdone]
        refine heeds_piece ne ⟨sound, Nat.pos_of_ne_zero hdone, nofun⟩ hears staged_eq ?_
        intro ending rest
        rw [houtlook, outlook_fixed_piece (by omega)]
        rfl

theorem heeds_readToClose (h : x.Fit) (hx : x.reader.progress = .toClose) (hn : 0 < n) :
    x.Heeds (x.readToClose n) := by
  have houtlook (ending : Ending) (text : Bytes) :
      x.outlook ending text = ⟨text, ending.onTime⟩ := by
    rw [outlook, hx]
    rfl
  have hgets := Source.gets_read (l := x.link) h.sound hn
  unfold readToClose
  generalize x.reader.source.read x.link n = call at hgets ⊢
  cases hgets with
  | broken drained hears => exact heeds_fail drained Ending.noConfusion hears (houtlook _ _)
  | finished drained hears =>
      refine .last ⟨hears.of_eq rfl rfl, ?_⟩ (.finished rfl)
      rintro ending later (hsilent | ⟨rfl, rfl⟩)
      · cases hsilent
      · rw [houtlook]
        show _ = Outlook.mk ([] ++ []) (.complete .closed (x.reader.source.staged ++ []))
        rw [drained]
        rfl
  | @piece piece text source link ne length_le hears sound staged_eq =>
      obtain ⟨b, bytes, rfl⟩ := List.exists_cons_of_ne_nil ne
      have hprogress : (x.resume source link).reader.progress = .toClose := hx
      refine heeds_piece ne ⟨sound, h.proper, h.unfailed⟩ hears staged_eq ?_
      intro ending rest
      rw [houtlook, outlook, hprogress]
      rfl

theorem heeds_readData (h : x.Fit) (hx : x.reader.progress = .chunked (.data k)) (hn : 0 < n) :
    x.Heeds (x.readData k n) := by
  have hk : 0 < k := by
    have hproper := h.proper
    rwa [hx] at hproper
  have houtlook (ending : Ending) (text : Bytes) :
      x.outlook ending text = (decodeAt text (.data k)).outlook ending := by
    rw [outlook, hx]
    rfl
  have hearly (ending : Ending) : x.outlook ending [] = ⟨[], ending.early .chunk⟩ := by
    rw [houtlook, decodeAt_data_of_lt hk]
    rfl
  have hgets := Source.gets_read (l := x.link) h.sound (n := min n k) (by omega)
  unfold readData
  generalize x.reader.source.read x.link (min n k) = call at hgets ⊢
  cases hgets with
  | broken drained hears => exact heeds_fail drained Ending.noConfusion hears (hearly _)
  | finished drained hears => exact heeds_fail drained Ending.noConfusion hears (hearly _)
  | @piece piece text source link ne length_le hears sound staged_eq =>
      obtain ⟨b, bytes, rfl⟩ := List.exists_cons_of_ne_nil ne
      refine heeds_piece ne ⟨sound, proper_past k (b :: bytes).length, nofun⟩ hears staged_eq ?_
      intro ending rest
      rw [houtlook, decodeAt_piece (by omega), outlook_prepend]
      rfl

/-! ## Scanning -/

section Scanning

variable {s α : Type} {step : s → UInt8 → Verdict s α} {state : s}

/-- What a scan comes to: the piece of framing that the text before it begins with, or a failure
where it begins with none. -/
inductive Scans (step : s → UInt8 → Verdict s α) (state : s) (x : Reading σ) :
    Except Failure α × Reading σ → Prop
  | whole {value : α} {text : Bytes} {y : Reading σ} (hears : x.link.Hears text .silent y.link)
      (sound : y.reader.source.Sound)
      (scan_eq : ∀ later, scanText step state (x.reader.source.staged ++ (text ++ later))
        = .whole value (y.reader.source.staged ++ later)) : Scans step state x (.ok value, y)
  | failed {failure : Failure} {text : Bytes} {heard : Ending} {y : Reading σ}
      (hears : x.link.Hears text heard y.link)
      (ended : y.Over (.error failure) .poisoned)
      (finale_eq : ∀ {ending later}, heard.Allows ending later → (scanText step state
        (x.reader.source.staged ++ (text ++ later))).finale ending = .failing failure) :
      Scans step state x (.error failure, y)

/-- An end that was told within a piece of framing is too early. -/
theorem scans_fail {link : Link σ} {failure : Failure} (drained : x.reader.source.staged = [])
    (hheard : heard ≠ .silent) (hears : x.link.Hears [] heard link)
    (hearly : heard.early .chunkFraming = .failing failure) :
    Scans step state x ((x.resume x.reader.source link).fail failure) := by
  refine .failed (hears.of_eq rfl rfl) (.failed rfl rfl) ?_
  rintro ending later (hsilent | ⟨rfl, rfl⟩)
  · exact absurd hsilent hheard
  · rw [drained]
    exact hearly

/-- A scan begins with the byte that was read. -/
theorem scanText_byte {b : UInt8} {front rest : Bytes} (hstaged : front ++ text = [b] ++ rest)
    (later : Bytes) : scanText step state (front ++ (text ++ later)) =
      match step state b with
      | .more state => scanText step state (rest ++ later)
      | .done value => .whole value (rest ++ later)
      | .fault fault => .faulty fault := by
  rw [← List.append_assoc, hstaged]
  rfl

theorem scans_scan (h : x.reader.source.Sound) (step : s → UInt8 → Verdict s α) (state : s) :
    Scans step state x (scan step state x) := by
  have hbyte {x : Reading σ} {received : Except TransportFailure (Option UInt8)}
      {source : Source} {link : Link σ} (h : x.reader.source.Sound)
      (hread : x.reader.source.readByte x.link = (received, source, link)) :
      x.reader.source.Gets x.link 1 (received.map Option.toList, source, link) := by
    have hgets := Source.gets_readByte (l := x.link) h
    rwa [hread] at hgets
  fun_induction scan step state x with
  | case1 state x failure source link hread =>
      cases hbyte h hread with
      | broken drained hears => exact scans_fail drained Ending.noConfusion hears rfl
  | case2 state x source link hread =>
      cases hbyte h hread with
      | piece ne => exact absurd rfl ne
      | finished drained hears => exact scans_fail drained Ending.noConfusion hears rfl
  | case3 state x b source link hread next hstep ih =>
      cases hbyte h hread with
      | @piece _ text _ _ ne length_le hears sound staged_eq =>
          have hscans := ih sound
          generalize scan step next (x.resume source link) = call at hscans ⊢
          cases hscans with
          | whole hears' sound' scan_eq =>
              refine .whole (hears.trans hears') sound' ?_
              intro later
              rw [List.append_assoc, scanText_byte staged_eq, hstep]
              exact scan_eq later
          | failed hears' ended finale_eq =>
              refine .failed (hears.trans hears') ended ?_
              intro ending later hlater
              rw [List.append_assoc, scanText_byte staged_eq, hstep]
              exact finale_eq hlater
  | case4 state x b source link hread value hstep =>
      cases hbyte h hread with
      | piece ne length_le hears sound staged_eq =>
          refine .whole hears sound ?_
          intro later
          rw [scanText_byte staged_eq, hstep]
          rfl
  | case5 state x b source link hread fault hstep =>
      cases hbyte h hread with
      | piece ne length_le hears sound staged_eq =>
          refine .failed (hears.of_eq rfl rfl) (.failed rfl rfl) ?_
          intro ending later _
          rw [scanText_byte staged_eq, hstep]
          rfl

/-- `z` is `y` at a place from which a text decodes as `decoded` gives it. -/
structure PlacedAt (y z : Reading σ) (decoded : Bytes → Decoded) : Prop where
  source_eq : z.reader.source = y.reader.source
  form_eq : z.link.connection.form = y.link.connection.form
  wire_eq : z.link.wire = y.link.wire
  proper : z.reader.progress.Proper
  unfailed (failure : Failure) : z.reader.progress ≠ .failed failure
  outlook_eq (ending : Ending) (text : Bytes) :
    z.outlook ending text = (decoded text).outlook ending

/-- A call that scans a piece of framing first goes on from behind it, or fails with the scan. -/
theorem heeds_scan (step : s → UInt8 → Verdict s α) (state : s) (after : α → Bytes → Decoded)
    {call : Except Failure Bytes × Reading σ} (h : x.reader.source.Sound)
    (houtlook : ∀ ending text, x.outlook ending text
      = ((scanText step state text).andThen after).outlook ending)
    (hok : ∀ value y, scan step state x = (.ok value, y) → ∃ z, PlacedAt y z (after value) ∧
      (z.Fit → z.Heeds call))
    (herror : ∀ failure y, scan step state x = (.error failure, y) →
      call = (.error failure, y)) : x.Heeds call := by
  have hscans := scans_scan h step state
  cases hscan : scan step state x with
  | mk outcome y =>
      rw [hscan] at hscans
      cases hscans with
      | whole hears sound scan_eq =>
          obtain ⟨z, hz, hcall⟩ := hok _ y hscan
          have hfit : z.Fit := ⟨hz.source_eq ▸ sound, hz.proper, hz.unfailed⟩
          refine .after ⟨hears.of_eq hz.form_eq hz.wire_eq, ?_⟩ (hcall hfit)
          intro ending later _
          rw [houtlook, scan_eq, hz.source_eq, hz.outlook_eq]
          rfl
      | @failed failure text _ _ hears ended finale_eq =>
          rw [herror failure y hscan]
          refine .last ⟨hears, ?_⟩ ended
          intro ending later hlater
          have hfinale := finale_eq hlater
          have hnot (value : α) (rest : Bytes) : scanText step state
              (x.reader.source.staged ++ (text ++ later)) ≠ .whole value rest := by
            intro hwhole
            rw [hwhole] at hfinale
            cases hfinale
          cases ended with
          | failed hfailed =>
              rw [houtlook, outlook_andThen hnot, hfinale, outlook_failed hfailed]
              rfl

end Scanning

theorem heeds_readTrailers (h : x.Fit) (hx : x.reader.progress = .chunked .trailers) :
    x.Heeds x.readTrailers := by
  refine heeds_scan Trailers.step .lineStart (fun _ rest => ⟨[], .complete rest⟩) h.sound ?_ ?_ ?_
  · intro ending text
    rw [outlook, hx, scanText_trailers]
    rfl
  · intro value y hscan
    refine ⟨y.finish .idle, ⟨rfl, rfl, rfl, trivial, nofun, fun _ _ => rfl⟩, fun _ => ?_⟩
    unfold readTrailers
    rw [hscan]
    exact .last (.refl _) (.finished rfl)
  · intro failure y hscan
    unfold readTrailers
    rw [hscan]

theorem heeds_readChunk (h : x.Fit) (hx : x.reader.progress = .chunked .size) (hn : 0 < n) :
    x.Heeds (x.readChunk n) := by
  refine heeds_scan SizeLine.step .start (fun size rest =>
    if size = 0 then decodeAt rest .trailers else decodeAt rest (.data size)) h.sound ?_ ?_ ?_
  · intro ending text
    rw [outlook, hx, scanText_sizeLine, ← decodeAt_size]
    rfl
  · intro size y hscan
    let z : Reading σ := ⟨y.reader, y.link.log .trace
      [ascii "body: chunk of ", Numeral.decimal size, ascii " bytes"]⟩
    have hcall : x.readChunk n = if size = 0 then (z.moveTo (.chunked .trailers)).readTrailers
        else (z.moveTo (.chunked (.data size))).readData size n := by
      unfold readChunk
      rw [hscan]
    rw [hcall]
    by_cases hsize : size = 0
    · rw [if_pos hsize]
      refine ⟨z.moveTo (.chunked .trailers), ⟨rfl, rfl, rfl, trivial, nofun, ?_⟩,
        fun hfit => heeds_readTrailers hfit rfl⟩
      intro ending text
      rw [if_pos hsize]
      rfl
    · rw [if_neg hsize]
      refine ⟨z.moveTo (.chunked (.data size)),
        ⟨rfl, rfl, rfl, Nat.pos_of_ne_zero hsize, nofun, ?_⟩,
        fun hfit => heeds_readData hfit rfl hn⟩
      intro ending text
      rw [if_neg hsize]
      rfl
  · intro failure y hscan
    unfold readChunk
    rw [hscan]

theorem heeds_readDataEnd (h : x.Fit) (hx : x.reader.progress = .chunked .dataEnd) (hn : 0 < n) :
    x.Heeds (x.readDataEnd n) := by
  refine heeds_scan DataEnd.step .wantsCr (fun _ rest => decodeAt rest .size) h.sound ?_ ?_ ?_
  · intro ending text
    rw [outlook, hx, scanText_dataEnd]
    rfl
  · intro value y hscan
    refine ⟨y.moveTo (.chunked .size), ⟨rfl, rfl, rfl, trivial, nofun, fun _ _ => rfl⟩,
      fun hfit => ?_⟩
    unfold readDataEnd
    rw [hscan]
    exact heeds_readChunk hfit rfl hn
  · intro failure y hscan
    unfold readDataEnd
    rw [hscan]

/-! ## All reads -/

/-- **A read heeds what was heard**, whatever the transport does. -/
theorem heeds_read (h : x.Fit) (hn : 0 < n) : x.Heeds (x.read n) := by
  have hne : n ≠ 0 := Nat.pos_iff_ne_zero.mp hn
  unfold Reading.read
  cases hx : x.reader.progress with
  | failed failure => exact absurd hx (h.unfailed failure)
  | finished => exact .last (.refl x) (.finished hx)
  | fixed k =>
      dsimp only
      rw [if_neg hne]
      exact heeds_readFixed h hx hn
  | toClose =>
      dsimp only
      rw [if_neg hne]
      exact heeds_readToClose h hx hn
  | chunked place =>
      dsimp only
      rw [if_neg hne]
      cases place with
      | size => exact heeds_readChunk h hx hn
      | data k => exact heeds_readData h hx hn
      | dataEnd => exact heeds_readDataEnd h hx hn
      | trailers => exact heeds_readTrailers h hx

/-- **Reading on hands out the payload of what was heard**, and tells how it ended. -/
theorem readAll_heard {x : Reading σ} (h : x.Fit) (hn : 0 < n) :
    ∃ pieces last phase y text heard, x.readAll n = (pieces, last.map fun _ => (), y) ∧
      x.Advances text heard pieces.flatten y ∧ y.Over last phase := by
  cases hcall : x.read n with
  | mk outcome y =>
      have hheeds := heeds_read h hn
      rw [hcall] at hheeds
      cases hheeds with
      | piece ne fit advances =>
          obtain ⟨pieces, last, phase, z, text, heard, hall, hrest, hover⟩ :=
            readAll_heard fit hn
          refine ⟨_ :: pieces, last, phase, z, _, heard, ?_, advances.trans hrest, hover⟩
          rw [readAll_of_piece hcall ne, hall]
      | last advances ended =>
          cases ended with
          | finished hprogress =>
              exact ⟨[[]], .ok [], _, y, _, _, readAll_of_end hcall, advances,
                .finished hprogress⟩
          | @failed failure hprogress hphase =>
              exact ⟨[], .error failure, _, y, _, _, readAll_of_error hcall, advances,
                .failed hprogress hphase⟩
termination_by x.budget
decreasing_by
  have hbudget := budget_of_read hcall
  have hlength := List.length_pos_iff.mpr ne
  omega

end Reading

/-! ## Responses -/

/-- The bytes of a head are heard, and nothing else. -/
theorem Head.Polls.hears {capacity : Nat} {received received' : Bytes} {l l' : Link σ}
    (h : Head.Polls capacity received l received' l') :
    ∃ text, received' = received ++ text ∧ l.Hears text .silent l' := by
  induction h with
  | done received l => exact ⟨[], (List.append_nil received).symm, .refl l⟩
  | read _ _ hread hne _ ih =>
      obtain ⟨text, rfl, hears⟩ := ih
      exact ⟨_ ++ text, List.append_assoc .., (Link.hears_piece hread hne).trans hears⟩

omit [SecureTransport σ] in
/-- A first reader is at the front of what its framing makes of the text behind the head. -/
theorem Reading.outlook_make {l : Link σ} {framing : Framing} (room : Nat) (staged : Bytes)
    (hphase : framing = .fixed 0 → l.phase = .idle) :
    (Reading.mk (.make framing room staged) l).Fit ∧ ∀ ending text,
      (Reading.mk (.make framing room staged) l).outlook ending text
        = framing.outlook ending text := by
  have hsound := Source.sound_ofStaged room staged
  match framing with
  | .fixed 0 =>
      refine ⟨⟨hsound, trivial, nofun⟩, fun ending text => ?_⟩
      show Outlook.mk [] (.complete l.phase text) = _
      rw [hphase rfl]
      rfl
  | .fixed (n + 1) => exact ⟨⟨hsound, Nat.succ_pos n, nofun⟩, fun _ _ => rfl⟩
  | .chunked => exact ⟨⟨hsound, trivial, nofun⟩, fun _ _ => rfl⟩
  | .toClose => exact ⟨⟨hsound, trivial, nofun⟩, fun _ _ => rfl⟩

namespace Response

variable {l l' : Link σ} {r : Response} {method : Method} {capacity n : Nat}

/-- A text that was heard begins with the head of the response, and what follows it is a body
with this payload that ends as `last` tells, whatever may have been to come. -/
def Carries (r : Response) (text : Bytes) (heard : Ending) (payload : Bytes)
    (last : Except Failure Bytes) : Prop :=
  ∃ behind, HeadScan.of text = .complete ⟨r.status, r.reason⟩ r.block behind ∧
    r.block.fault? = none ∧ ∀ ending later, heard.Allows ending later → ∃ finale phase,
      (Framing.decide r.method r.status r.block).outlook ending (behind ++ later)
        = ⟨payload, finale⟩ ∧ finale.Tells last phase

/-- A body ends, or the call that would go on fails. -/
theorem Carries.last_cases {text payload : Bytes} {heard : Ending} {last : Except Failure Bytes}
    (h : r.Carries text heard payload last) :
    last = .ok [] ∨ ∃ failure, last = .error failure := by
  obtain ⟨behind, -, -, houtlook⟩ := h
  obtain ⟨finale, phase, -, htells⟩ := houtlook heard [] (.inr ⟨rfl, rfl⟩)
  cases htells with
  | complete phase rest => exact .inl rfl
  | failing failure => exact .inr ⟨failure, rfl⟩

/-- What a stream carries is known from a front of it, where nothing more may have been to
come. -/
theorem Carries.extend {text later payload : Bytes} {heard ending : Ending}
    {last : Except Failure Bytes} (h : r.Carries text heard payload last)
    (hlater : heard.Allows ending later) (hending : ending ≠ .silent) :
    r.Carries (text ++ later) ending payload last := by
  obtain ⟨behind, hof, hfault, houtlook⟩ := h
  refine ⟨behind ++ later, HeadScan.of_complete_append hof later, hfault, ?_⟩
  rintro ending' later' (hsilent | ⟨rfl, rfl⟩)
  · exact absurd hsilent hending
  · rw [List.append_nil]
    exact houtlook ending' later hlater

/-- A response that was read is the head of what was heard, and the rest of that is staged. -/
theorem read_heard (h : read l method capacity = (.ok r, l')) :
    ∃ text line block room behind, l.Hears text .silent l' ∧
      HeadScan.of text = .complete line block behind ∧ block.fault? = none ∧
      r = .ofParts method line block room behind ∧ l'.phase = r.phaseAfter := by
  obtain ⟨received, l₁, hpolls, hsettles⟩ := Head.receive_polls l capacity []
  obtain ⟨text, htext, hears⟩ := hpolls.hears
  rw [List.nil_append] at htext
  subst htext
  unfold read at h
  split at h
  · cases h
  · generalize Head.receive l capacity [] = result at h hsettles
    cases hsettles with
    | whole hof hfault =>
        cases h
        exact ⟨received, _, _, _, _, hears.of_eq rfl rfl, hof, hfault, rfl, rfl⟩
    | malformed => cases h
    | faulty => cases h
    | full => cases h
    | ended => cases h
    | failed => cases h

/-- **What was heard from a request on decides** what a response comes to and what is handed out
when its body is read on. -/
theorem readAll_heard (h : read l method capacity = (.ok r, l')) (hn : 0 < n) :
    r.method = method ∧ ∃ reader pieces last y text heard, r.body = (.ok reader, r.take) ∧
      Reading.readAll ⟨reader, l'⟩ n = (pieces, last.map fun _ => (), y) ∧
      l.Hears text heard y.link ∧ r.Carries text heard pieces.flatten last := by
  obtain ⟨text, line, block, room, behind, hears, hof, hfault, rfl, hphase⟩ := read_heard h
  have hidle : (ofParts method line block room behind).framing = .fixed 0 → l'.phase = .idle := by
    intro hempty
    rw [hphase, phaseAfter, hempty]
    rfl
  obtain ⟨hfit, houtlook⟩ := Reading.outlook_make room behind hidle
  obtain ⟨pieces, last, phase, y, more, heard, hall, hadvances, hover⟩ :=
    Reading.readAll_heard hfit hn
  refine ⟨rfl, _, pieces, last, y, text ++ more, heard, rfl, hall, hears.trans hadvances.hears,
    behind ++ more, HeadScan.of_complete_append hof more, hfault, ?_⟩
  intro ending later hlater
  obtain ⟨finale, hfinale, htells⟩ := hover.outlook_eq ending (y.reader.source.staged ++ later)
  refine ⟨finale, phase, ?_, htells⟩
  have hpayload := hadvances.outlook_eq hlater
  rw [houtlook, hfinale] at hpayload
  rw [List.append_assoc]
  refine Eq.trans ?_ (hpayload.trans (congrArg (Outlook.mk · finale) (List.append_nil _)))
  show _ = Framing.outlook _ _ ((Source.ofStaged room behind).staged ++ _)
  rw [Source.staged_ofStaged]
  rfl

end Response

end HttpExchange
