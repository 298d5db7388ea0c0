import HttpExchange.Proofs.Inbound
import HttpExchange.Response.Drain

/-!
# What a call on a reader can do

Whatever the transport does, a call on a reader leaves its link alone but for the wire, the
journal and the phase, and the phase changes only together with the reader: it finishes and
enters the phase that its framing asks for, or it fails and poisons. `Reading.Reaches` says
so, of a single read (`reaches_read`) and of the calls that read on to the end
(`reaches_discard`, `reaches_readToEnd`). A reader that has finished or failed touches
nothing, except that `readToEnd` may still find its buffer too small.
-/

namespace HttpExchange

/-! ## What stays of a link -/

/-- Connection and write memory are as before. -/
structure Link.Holds {σ : Type} (l l' : Link σ) : Prop where
  connection_eq : l'.connection = l.connection
  scratch_eq : l'.scratch = l.scratch

namespace Link

variable {σ : Type} {l l₁ l₂ : Link σ}

theorem Holds.refl (l : Link σ) : Holds l l := ⟨rfl, rfl⟩

theorem Holds.trans (h : Holds l l₁) (h' : Holds l₁ l₂) : Holds l l₂ :=
  ⟨h'.connection_eq.trans h.connection_eq, h'.scratch_eq.trans h.scratch_eq⟩

theorem holds_log (l : Link σ) (level : Level) (texts : List Bytes) : Holds l (l.log level texts) :=
  ⟨rfl, rfl⟩

theorem Holds.enter (h : Holds l l₁) (phase : Phase) : Holds (l.enter phase) (l₁.enter phase) :=
  ⟨by simp only [Link.enter, h.connection_eq], h.scratch_eq⟩

theorem Holds.phase_eq (h : Holds l l₁) : l₁.phase = l.phase := by
  rw [phase, phase, h.connection_eq]

variable [SecureTransport σ]

theorem holds_read (l : Link σ) (n : Nat) : Holds l (l.read n).2 := by
  rw [read_eq]
  exact ⟨rfl, rfl⟩

end Link

namespace Source

variable {σ : Type} [SecureTransport σ] {s s' : Source} {l l' : Link σ}

theorem holds_read {n : Nat} {received : Except TransportFailure Bytes}
    (h : s.read l n = (received, s', l')) : Link.Holds l l' := by
  unfold read at h
  split at h <;> cases h
  · exact Link.holds_read l n
  · exact .refl l

theorem holds_readByte {received : Except TransportFailure (Option UInt8)}
    (h : s.readByte l = (received, s', l')) : Link.Holds l l' := by
  unfold readByte at h
  split at h
  · cases h
    exact .refl l
  · split at h
    · have hl := Link.holds_read l 1
      split at h <;> rename_i heq <;> cases h <;> rw [heq] at hl <;> exact hl
    · have hl := Link.holds_read l s.room
      split at h <;> rename_i heq <;> cases h <;> rw [heq] at hl <;> exact hl

end Source

/-! ## Reaching -/

/-- The phase in which a reader leaves its connection when it finishes. -/
def Progress.closing : Progress → Phase
  | .toClose => .closed
  | _ => .idle

theorem Progress.closing_eq (p : Progress) : p.closing = .idle ∨ p.closing = .closed := by
  cases p with
  | toClose => exact .inr rfl
  | _ => exact .inl rfl

namespace Reading

variable {σ : Type}

/-- From an unfinished reader a call goes on in the same phase, finishes or fails. -/
inductive Reaches (x y : Reading σ) : Prop
  | goesOn (open_ : y.reader.isDone = false)
      (closing_eq : y.reader.progress.closing = x.reader.progress.closing)
      (holds : Link.Holds x.link y.link)
  | finishes (finished : y.reader.progress = .finished)
      (holds : Link.Holds (x.link.enter x.reader.progress.closing) y.link)
  | fails (failure : Failure) (failed : y.reader.progress = .failed failure)
      (holds : Link.Holds (x.link.enter .poisoned) y.link)

variable {x y z : Reading σ}

theorem isDone_of_finished {r : BodyReader} (h : r.progress = .finished) : r.isDone = true := by
  rw [BodyReader.isDone, h]

theorem isDone_of_failed {r : BodyReader} {failure : Failure} (h : r.progress = .failed failure) :
    r.isDone = true := by
  rw [BodyReader.isDone, h]

/-- A reading that goes on reaches what it reaches later. -/
theorem Reaches.after (h : Link.Holds x.link y.link)
    (closing_eq : y.reader.progress.closing = x.reader.progress.closing) (h' : Reaches y z) :
    Reaches x z := by
  cases h' with
  | goesOn open_ closing_eq' holds =>
      exact .goesOn open_ (closing_eq'.trans closing_eq) (h.trans holds)
  | finishes finished holds =>
      rw [closing_eq] at holds
      exact .finishes finished ((h.enter _).trans holds)
  | fails failure failed holds => exact .fails failure failed ((h.enter _).trans holds)

/-- A reading that was done may still fail. -/
theorem Reaches.then_fail (h : Reaches x y) (failure : Failure)
    (failed : z.reader.progress = .failed failure)
    (holds : Link.Holds (y.link.enter .poisoned) z.link) : Reaches x z := by
  have hpoison {phase : Phase} (hy : Link.Holds (x.link.enter phase) y.link) :
      Link.Holds (x.link.enter .poisoned) (y.link.enter .poisoned) := hy.enter .poisoned
  cases h with
  | goesOn _ _ hy => exact .fails failure failed ((hy.enter .poisoned).trans holds)
  | finishes _ hy => exact .fails failure failed ((hpoison hy).trans holds)
  | fails _ _ hy => exact .fails failure failed ((hpoison hy).trans holds)

theorem reaches_fail {α : Type} (failure : Failure) (holds : Link.Holds x.link y.link) :
    Reaches x (y.fail failure : Except Failure α × Reading σ).2 :=
  .fails failure rfl ((holds.trans (Link.holds_log ..)).enter .poisoned)

theorem reaches_finish (holds : Link.Holds x.link y.link) :
    Reaches x (y.finish x.reader.progress.closing) :=
  .finishes rfl (holds.enter _)

/-- Only the link and the progress matter to what was reached. -/
theorem Reaches.of_eq (h : Reaches x y) (hlink : z.link = y.link)
    (hprogress : z.reader.progress = y.reader.progress) : Reaches x z := by
  cases h with
  | goesOn open_ closing_eq holds =>
      refine .goesOn ?_ (hprogress ▸ closing_eq) (hlink ▸ holds)
      rwa [BodyReader.isDone, hprogress]
  | finishes finished holds => exact .finishes (hprogress.trans finished) (hlink ▸ holds)
  | fails failure failed holds => exact .fails failure (hprogress.trans failed) (hlink ▸ holds)

theorem Reaches.of_mapSource {f : Source → Source} (h : Reaches (x.mapSource f) y) :
    Reaches x y :=
  .after (y := x.mapSource f) (.refl _) rfl h

/-- As long as the reader is unfinished, calls may follow one another. -/
theorem Reaches.trans (h : Reaches x y) (hy : y.reader.isDone = false) (h' : Reaches y z) :
    Reaches x z := by
  cases h with
  | goesOn _ closing_eq holds => exact .after holds closing_eq h'
  | finishes finished => rw [isDone_of_finished finished] at hy; cases hy
  | fails failure failed => rw [isDone_of_failed failed] at hy; cases hy

/-! ## Single reads -/

variable [SecureTransport σ]

theorem holds_of_scan {s α : Type} {step : s → UInt8 → Verdict s α} {state : s} {value : α}
    (h : scan step state x = (.ok value, y)) :
    Link.Holds x.link y.link ∧ y.reader.progress = x.reader.progress := by
  fun_induction scan step state x with
  | case1 => cases h
  | case2 => cases h
  | case3 state x b source link hb next hs ih =>
      obtain ⟨hl, hp⟩ := ih h
      exact ⟨(Source.holds_readByte hb).trans hl, hp⟩
  | case4 state x b source link hb v hs =>
      cases h
      exact ⟨Source.holds_readByte hb, rfl⟩
  | case5 => cases h

theorem reaches_of_scan {s α : Type} {step : s → UInt8 → Verdict s α} {state : s}
    {failure : Failure} (h : scan step state x = (.error failure, y)) : Reaches x y := by
  fun_induction scan step state x with
  | case1 state x failure source link hb =>
      have := reaches_fail (α := α) (y := x.resume source link) (.network failure)
        (Source.holds_readByte hb)
      rwa [h] at this
  | case2 state x source link hb =>
      have := reaches_fail (α := α) (y := x.resume source link) (.cutOff .chunkFraming)
        (Source.holds_readByte hb)
      rwa [h] at this
  | case3 state x b source link hb next hs ih =>
      exact .after (y := x.resume source link) (Source.holds_readByte hb) rfl (ih h)
  | case4 => cases h
  | case5 state x b source link hb fault hs =>
      have := reaches_fail (α := α) (y := x.resume source link) (.badChunk fault)
        (Source.holds_readByte hb)
      rwa [h] at this

theorem reaches_readFixed {k n : Nat} (hx : x.reader.progress = .fixed k) :
    Reaches x (x.readFixed k n).2 := by
  unfold readFixed
  split
  · rename_i hr
    exact reaches_fail _ (Source.holds_read hr)
  · rename_i hr
    exact reaches_fail _ (Source.holds_read hr)
  · rename_i b bytes source link hr
    have hl := Source.holds_read hr
    dsimp only
    split
    · have := reaches_finish (x := x) (y := x.resume source link) hl
      rwa [hx] at this
    · exact .goesOn rfl (by rw [hx]; rfl) hl

theorem reaches_readToClose {n : Nat} (hx : x.reader.progress = .toClose) :
    Reaches x (x.readToClose n).2 := by
  unfold readToClose
  split
  · rename_i hr
    exact reaches_fail _ (Source.holds_read hr)
  · rename_i source link hr
    have := reaches_finish (x := x) (y := x.resume source link) (Source.holds_read hr)
    rwa [hx] at this
  · rename_i hr
    refine .goesOn ?_ rfl (Source.holds_read hr)
    simp only [resume, BodyReader.isDone, hx]

theorem reaches_readData {k n : Nat} (hx : x.reader.progress.closing = .idle) :
    Reaches x (x.readData k n).2 := by
  unfold readData
  split
  · rename_i hr
    exact reaches_fail _ (Source.holds_read hr)
  · rename_i hr
    exact reaches_fail _ (Source.holds_read hr)
  · rename_i hr
    exact .goesOn rfl hx.symm (Source.holds_read hr)

theorem reaches_readTrailers (hx : x.reader.progress.closing = .idle) :
    Reaches x x.readTrailers.2 := by
  unfold readTrailers
  split
  · rename_i hs
    exact reaches_of_scan hs
  · rename_i y hs
    have := reaches_finish (x := x) (holds_of_scan hs).1
    rwa [hx] at this

theorem reaches_readChunk {n : Nat} (hx : x.reader.progress.closing = .idle) :
    Reaches x (x.readChunk n).2 := by
  unfold readChunk
  split
  · rename_i hs
    exact reaches_of_scan hs
  · rename_i size y hs
    have hl := (holds_of_scan hs).1.trans (Link.holds_log y.link .trace
      [ascii "body: chunk of ", Numeral.decimal size, ascii " bytes"])
    dsimp only
    split
    · exact .after (y := moveTo ⟨y.reader, _⟩ (.chunked .trailers)) hl hx.symm
        (reaches_readTrailers rfl)
    · exact .after (y := moveTo ⟨y.reader, _⟩ (.chunked (.data size))) hl hx.symm
        (reaches_readData rfl)

theorem reaches_readDataEnd {n : Nat} (hx : x.reader.progress.closing = .idle) :
    Reaches x (x.readDataEnd n).2 := by
  unfold readDataEnd
  split
  · rename_i hs
    exact reaches_of_scan hs
  · rename_i y hs
    exact .after (y := y.moveTo (.chunked .size)) (holds_of_scan hs).1 hx.symm
      (reaches_readChunk rfl)

/-- A reader that is done repeats its outcome and touches nothing. -/
theorem read_of_isDone (hx : x.reader.isDone = true) (n : Nat) : (x.read n).2 = x := by
  unfold BodyReader.isDone at hx
  unfold read
  split <;> simp_all

/-- **A read of an unfinished reader goes on, finishes or fails.** -/
theorem reaches_read (hx : x.reader.isDone = false) (n : Nat) : Reaches x (x.read n).2 := by
  have stays : Reaches x x := .goesOn hx rfl (.refl _)
  cases hp : x.reader.progress with
  | finished => rw [isDone_of_finished hp] at hx; cases hx
  | failed failure => rw [isDone_of_failed hp] at hx; cases hx
  | fixed k =>
      by_cases hn : n = 0
      · simpa only [read, hp, hn, if_true] using stays
      · simpa only [read, hp, hn, if_false] using reaches_readFixed hp
  | toClose =>
      by_cases hn : n = 0
      · simpa only [read, hp, hn, if_true] using stays
      · simpa only [read, hp, hn, if_false] using reaches_readToClose hp
  | chunked place =>
      have hc : x.reader.progress.closing = .idle := by rw [hp]; rfl
      by_cases hn : n = 0
      · simpa only [read, hp, hn, if_true] using stays
      · simp only [read, hp, hn, if_false]
        cases place with
        | size => exact reaches_readChunk hc
        | data k => exact reaches_readData hc
        | dataEnd => exact reaches_readDataEnd hc
        | trailers => exact reaches_readTrailers hc

/-! ## Reading to the end -/

theorem read_fst_of_isDone (hx : x.reader.isDone = true) (n : Nat) :
    (x.read n).1 = .ok [] ∨ ∃ failure, (x.read n).1 = .error failure := by
  unfold BodyReader.isDone at hx
  unfold read
  split <;> simp_all

theorem readAll_of_isDone (hx : x.reader.isDone = true) (n : Nat) : (x.readAll n).2.2 = x := by
  have hread := read_of_isDone hx n
  rcases read_fst_of_isDone hx n with hout | ⟨failure, hout⟩
  · rw [readAll]
    split <;> rename_i heq <;> rw [heq] at hread hout
    · cases hout
    · exact hread
    · cases hout
  · rw [readAll]
    split <;> rename_i heq <;> rw [heq] at hread hout
    · exact hread
    · cases hout
    · cases hout

theorem reaches_readAll (hx : x.reader.isDone = false) (n : Nat) :
    Reaches x (x.readAll n).2.2 := by
  fun_induction readAll x n with
  | case1 x failure y hread =>
      have := reaches_read hx n
      rwa [hread] at this
  | case2 x y hread =>
      have := reaches_read hx n
      rwa [hread] at this
  | case3 x b bytes y hread more outcome z hall ih =>
      have hfirst := reaches_read hx n
      rw [hread] at hfirst
      cases hy : y.reader.isDone with
      | true =>
          have hz := readAll_of_isDone hy n
          rw [hall] at hz
          rw [hz]
          exact hfirst
      | false =>
          have hrest := ih hy
          rw [hall] at hrest
          exact hfirst.trans hy hrest

theorem reaches_discard (hx : x.reader.isDone = false) : Reaches x x.discard.2 := by
  have := reaches_readAll hx discardStep
  unfold discard
  split <;> rename_i heq <;> rw [heq] at this <;> exact this

theorem discard_of_isDone (hx : x.reader.isDone = true) : x.discard.2 = x := by
  have := readAll_of_isDone hx discardStep
  unfold discard
  split <;> rename_i heq <;> rw [heq] at this <;> exact this

/-- With a reader that is done, nothing comes that would want a place. -/
theorem collect_of_isDone (hx : x.reader.isDone = true) (out : Nat) :
    (x.collect out).2.link = x.link ∧ (x.collect out).2.reader.progress = x.reader.progress := by
  have hread (n : Nat) := read_of_isDone (x := x.mapSource fun s => { s with floor := out }) hx n
  have hfst (n : Nat) := read_fst_of_isDone (x := x.mapSource fun s => { s with floor := out }) hx n
  rw [collect]
  split
  · have h₁ := hread 1
    have h₂ := hfst 1
    split <;> rename_i heq <;> rw [heq] at h₁ h₂
    · subst h₁
      exact ⟨rfl, rfl⟩
    · subst h₁
      exact ⟨rfl, rfl⟩
    · simp at h₂
  · have h₁ := hread (x.reader.source.capacity - out)
    have h₂ := hfst (x.reader.source.capacity - out)
    split <;> rename_i heq <;> rw [heq] at h₁ h₂
    · subst h₁
      exact ⟨rfl, rfl⟩
    · subst h₁
      exact ⟨rfl, rfl⟩
    · simp at h₂

theorem reaches_collect (hx : x.reader.isDone = false) (out : Nat) :
    Reaches x (x.collect out).2 := by
  have hread {x : Reading σ} (out : Nat) (hx : x.reader.isDone = false) (n : Nat) : Reaches x
      ((x.mapSource fun s => { s with floor := out }).read n).2 :=
    (reaches_read (x := x.mapSource fun s => { s with floor := out }) hx n).of_mapSource
  fun_induction collect x out with
  | case1 x out hcap failure y heq =>
      have := hread out hx 1
      rwa [heq] at this
  | case2 x out hcap y heq =>
      have := hread out hx 1
      rwa [heq] at this
  | case3 x out hcap b bytes y heq =>
      have := hread out hx 1
      rw [heq] at this
      exact this.then_fail _ rfl ((Link.holds_log ..).enter .poisoned)
  | case4 x out hcap failure y heq =>
      have := hread out hx (x.reader.source.capacity - out)
      rwa [heq] at this
  | case5 x out hcap y heq =>
      have := hread out hx (x.reader.source.capacity - out)
      rwa [heq] at this
  | case6 x out hcap b bytes y heq ih =>
      have hfirst := hread out hx (x.reader.source.capacity - out)
      rw [heq] at hfirst
      cases hy : y.reader.isDone with
      | true =>
          have hrest := collect_of_isDone (x := y.mapSource fun s => s.store out (b :: bytes)) hy
            (out + (b :: bytes).length)
          exact hfirst.of_eq hrest.1 hrest.2
      | false => exact hfirst.trans hy (ih hy).of_mapSource

theorem reaches_readToEnd (hx : x.reader.isDone = false) : Reaches x x.readToEnd.2 := by
  have hcollect : Reaches x ((x.mapSource Source.compact).collect 0).2 :=
    (reaches_collect (x := x.mapSource Source.compact) hx 0).of_mapSource
  unfold readToEnd
  split
  · rename_i hp
    rw [isDone_of_failed hp] at hx
    cases hx
  · split <;> rename_i heq <;> rw [heq] at hcollect <;> exact hcollect

theorem readToEnd_of_isDone (hx : x.reader.isDone = true) :
    x.readToEnd.2.link = x.link ∧ x.readToEnd.2.reader.progress = x.reader.progress := by
  have hcollect := collect_of_isDone (x := x.mapSource Source.compact) hx 0
  unfold readToEnd
  split
  · exact ⟨rfl, rfl⟩
  · split <;> rename_i heq <;> rw [heq] at hcollect <;> exact hcollect

/-! ## Calls -/

/-- What all calls on a reader have in common. -/
structure IsCall (f : Reading σ → Reading σ) : Prop where
  reaches {x : Reading σ} : x.reader.isDone = false → Reaches x (f x)
  link_eq {x : Reading σ} : x.reader.isDone = true → (f x).link = x.link
  progress_eq {x : Reading σ} : x.reader.isDone = true →
    (f x).reader.progress = x.reader.progress

theorem isCall_read (n : Nat) : IsCall fun x : Reading σ => (x.read n).2 := by
  refine ⟨fun hx => reaches_read hx n, ?_, ?_⟩
  · intro x hx
    rw [read_of_isDone hx]
  · intro x hx
    rw [read_of_isDone hx]

theorem isCall_discard : IsCall fun x : Reading σ => x.discard.2 := by
  refine ⟨reaches_discard, ?_, ?_⟩
  · intro x hx
    rw [discard_of_isDone hx]
  · intro x hx
    rw [discard_of_isDone hx]

theorem isCall_readToEnd : IsCall fun x : Reading σ => x.readToEnd.2 :=
  ⟨reaches_readToEnd, fun hx => (readToEnd_of_isDone hx).1, fun hx => (readToEnd_of_isDone hx).2⟩

end Reading

end HttpExchange
