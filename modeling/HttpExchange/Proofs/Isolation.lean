import HttpExchange.Proofs.ClientMemory

/-!
# The connection that has the lease

A connection that was closed has given the memory of its client back, and the next one works
in it. The first is still there, though, and calls can be made on it: a write on a connection
that coalesces is not refused, and it stores its text where the pending bytes of the other one
lie. What is proved of any interleaving of calls on all connections of a client
(`Lending.Isolation`):

* The connection that has the lease is as it would be without the others, and its wire gets
  what its calls hand over, exactly as long as no call on another changes its pending bytes.
* The others were closed, and only calls that store something (`Usage.Stores`) change the
  memory. On a secure connection none do, for a session that was shut takes no text.
* A write that does store is answered as if it had worked (`Lending.Kept.write_stores`).
-/

namespace HttpExchange

namespace Lending

variable {σ : Type} {w : Lending σ} {i j : Nat} {b : Borrower σ} {u v : Usage σ}

/-! ## Interleavings -/

/-- The calls that are made on the connection at a place. -/
def callsOn (j : Nat) : List (Nat × Call) → List Call
  | [] => []
  | (i, call) :: calls => if i = j then call :: callsOn j calls else callsOn j calls

/-- What is pending for the connection at a place. -/
def pendingAt (w : Lending σ) (j : Nat) : Option Bytes := (w.usage? j).map fun u => u.link.pending

variable [SecureTransport σ]

/-- Calls on connections, in the order in which they are made. -/
def uses (w : Lending σ) (calls : List (Nat × Call)) : Lending σ :=
  w.run (calls.map fun c => .use c.1 c.2)

/-- No call on another connection changes what is pending for the one at a place. -/
def Untouched (w : Lending σ) (j : Nat) : List (Nat × Call) → Prop
  | [] => True
  | (i, call) :: calls =>
    (i ≠ j → (w.use i call).pendingAt j = w.pendingAt j) ∧ (w.use i call).Untouched j calls

/-- No call on another connection stores anything. -/
def Quiet (w : Lending σ) (j : Nat) : List (Nat × Call) → Prop
  | [] => True
  | (i, call) :: calls =>
    (i ≠ j → ∀ v, w.usage? i = some v → ¬ v.Stores call) ∧ (w.use i call).Quiet j calls

/-- At each moment the connection at a place is as it would be without the others. -/
def Undisturbed (w : Lending σ) (j : Nat) (u : Usage σ) (calls : List (Nat × Call)) : Prop :=
  ∀ before, before <+: calls →
    ∃ v, (w.uses before).usage? j = some v ∧ (u.run (callsOn j before)).Similar Link.Alike v

/-- What is handed over by the calls on the connection at a place, unless one fails in it. -/
def handed? (w : Lending σ) (j : Nat) : List (Nat × Call) → Option Bytes
  | [] => some []
  | (i, call) :: calls =>
    match if i = j then (w.usage? j).bind fun u => u.handed? call else some [],
        (w.use i call).handed? j calls with
    | some text, some more => some (text ++ more)
    | _, _ => none

/-- At each moment the wire of the connection at a place has logged, but for what is pending,
what was handed over by its own calls, after a text that was handed over before. -/
def Delivers {offer : σ → Bytes → Except TransportFailure Nat × σ} (L : Ledger offer)
    (w : Lending σ) (j : Nat) (text : Bytes) (calls : List (Nat × Call)) : Prop :=
  ∀ before, before <+: calls → ∃ v given, (w.uses before).usage? j = some v ∧
    w.handed? j before = some given ∧ L.delivered v.link.wire ++ v.link.pending = text ++ given

omit [SecureTransport σ] in
theorem borrower?_of_usage? (hu : w.usage? i = some u) :
    ∃ b, w.borrower? i = some b ∧ u = b.within w.client.scratch := by
  obtain ⟨b, hb, hwithin⟩ := Option.map_eq_some_iff.mp hu
  exact ⟨b, hb, hwithin.symm⟩

omit [SecureTransport σ] in
theorem Kept.usage (h : w.Kept) (hu : w.usage? i = some u) :
    u.link.connection.kind ≠ .plain ∧ u.link.Fits ∧ u.link.scratch = w.client.scratch := by
  obtain ⟨b, hb, rfl⟩ := borrower?_of_usage? hu
  have hmem := mem_of_borrower? hb
  have hsound := h.sound hmem
  refine ⟨?_, h.fits hmem, hsound.scratch_within _⟩
  rw [hsound.connection_within]
  exact hsound.coalesces

theorem Lent.usage?_use_self (h : w.Lent) (hu : w.usage? i = some u) (call : Call) :
    (w.use i call).usage? i = some (u.step call) ∧
      (w.use i call).client.scratch = (u.step call).link.scratch := by
  obtain ⟨b, hb, rfl⟩ := borrower?_of_usage? hu
  have hsound := h.sound (mem_of_borrower? hb)
  obtain ⟨hi, -⟩ := List.getElem?_eq_some_iff.mp (borrower?_eq_some_iff.mp hb)
  rw [use_of_some hb]
  constructor
  · unfold usage?
    rw [borrower?_of_getElem? (List.getElem?_set_self hi), Option.map_some]
    show some ((b.after _ _).within (b.leaves _ _)) = _
    rw [hsound.leaves_eq, hsound.within_after]
  · exact hsound.leaves_eq _ _

/-- **Another connection sees of a call what it leaves of the memory.** -/
theorem Lent.usage?_use_of_ne (h : w.Lent) (hne : i ≠ j) (hu : w.usage? j = some u)
    (call : Call) : (w.use i call).usage? j =
      some { u with link := { u.link with scratch := (w.use i call).client.scratch } } := by
  obtain ⟨b, hb, rfl⟩ := borrower?_of_usage? hu
  have hsound := h.sound (mem_of_borrower? hb)
  have hsame : (w.use i call).borrower? j = some b := by
    cases hi : w.borrower? i with
    | none => rwa [use_of_none hi]
    | some b' =>
        rw [use_of_some hi, borrower?_eq_some_iff]
        exact (List.getElem?_set_ne hne).trans (borrower?_eq_some_iff.mp hb)
  unfold usage?
  rw [hsame, Option.map_some, hsound.within_eq, hsound.within_eq]

omit [SecureTransport σ] in
theorem pendingAt_of_usage? (hu : w.usage? j = some u) : w.pendingAt j = some u.link.pending := by
  rw [pendingAt, hu]
  rfl

/-- A call on another connection touches this one exactly if it changes what is pending. -/
theorem Kept.pendingAt_use_iff (h : w.Kept) (hne : i ≠ j) (hu : w.usage? j = some u)
    (call : Call) : (w.use i call).pendingAt j = w.pendingAt j ↔
      Link.pending { u.link with scratch := (w.use i call).client.scratch } = u.link.pending := by
  rw [pendingAt_of_usage? (h.usage?_use_of_ne hne hu call), pendingAt_of_usage? hu,
    Option.some_inj]

/-! ### As without the others -/

omit [SecureTransport σ] in
theorem forall_prefix_cons {α : Type} {P : List α → Prop} {x : α} {xs : List α} :
    (∀ before, before <+: x :: xs → P before) ↔
      P [] ∧ ∀ before, before <+: xs → P (x :: before) := by
  constructor
  · intro h
    refine ⟨h [] List.nil_prefix, ?_⟩
    intro before hbefore
    exact h _ (List.cons_prefix_cons.mpr ⟨rfl, hbefore⟩)
  · rintro ⟨hnil, hcons⟩ before hbefore
    rcases List.prefix_cons_iff.mp hbefore with rfl | ⟨rest, rfl, hrest⟩
    · exact hnil
    · exact hcons rest hrest

theorem run_callsOn_cons (u : Usage σ) (i j : Nat) (call : Call) (calls : List (Nat × Call)) :
    u.run (callsOn j ((i, call) :: calls)) =
      (if i = j then u.step call else u).run (callsOn j calls) := by
  rw [callsOn]
  split <;> rfl

theorem undisturbed_cons {call : Call} {calls : List (Nat × Call)} :
    w.Undisturbed j u ((i, call) :: calls) ↔
      (∃ v, w.usage? j = some v ∧ u.Similar Link.Alike v) ∧
        (w.use i call).Undisturbed j (if i = j then u.step call else u) calls := by
  unfold Undisturbed
  simp only [forall_prefix_cons, run_callsOn_cons]
  rfl

/-- **The others do not disturb a connection** exactly as long as they do not touch what is
pending for it. -/
theorem Kept.undisturbed_iff (h : w.Kept) (hv : w.usage? j = some v)
    (hsimilar : u.Similar Link.Alike v) (calls : List (Nat × Call)) :
    w.Undisturbed j u calls ↔ w.Untouched j calls := by
  induction calls generalizing w u v with
  | nil =>
      simp only [Undisturbed, Untouched, List.prefix_nil, forall_eq, iff_true]
      exact ⟨v, hv, hsimilar⟩
  | cons c calls ih =>
      obtain ⟨i, call⟩ := c
      have huse := h.use i call
      rw [undisturbed_cons, and_iff_right ⟨v, hv, hsimilar⟩, Untouched]
      by_cases hij : i = j
      · subst hij
        have hkind : u.link.connection.kind ≠ .plain := by
          rw [← hsimilar.link.connection_eq]
          exact (h.usage hv).1
        have hv' := (h.usage?_use_self hv call).1
        rw [if_pos rfl, ih huse hv' (hsimilar.alike_step hkind call)]
        exact ⟨fun h => ⟨fun hne => absurd rfl hne, h⟩, And.right⟩
      · have hv' := h.usage?_use_of_ne hij hv call
        have hfits := (huse.usage hv').2.1
        rw [if_neg hij, h.pendingAt_use_iff hij hv]
        constructor
        · intro hundisturbed
          obtain ⟨v', hview, hsimilar'⟩ := hundisturbed [] List.nil_prefix
          obtain rfl := Option.some_inj.mp (hv'.symm.trans hview)
          have hpending := hsimilar'.link.pending_eq.trans hsimilar.link.pending_eq.symm
          exact ⟨fun _ => hpending, (ih huse hv' hsimilar').mp hundisturbed⟩
        · rintro ⟨hpending, huntouched⟩
          have halike := hsimilar.link.over hfits (hpending hij)
          exact (ih huse hv' ⟨halike, hsimilar.responses_eq, hsimilar.readers_eq⟩).mpr huntouched

/-! ### What the wire gets -/

section

variable {offer : σ → Bytes → Except TransportFailure Nat × σ} {L : Ledger offer}
  {receive : σ → Nat → Except TransportFailure Bytes × σ} {text given : Bytes}

theorem delivers_cons {call : Call} {calls : List (Nat × Call)}
    (hgiven : (if i = j then (w.usage? j).bind fun u => u.handed? call else some []) = some given) :
    w.Delivers L j text ((i, call) :: calls) ↔
      (∃ v, w.usage? j = some v ∧ L.delivered v.link.wire ++ v.link.pending = text) ∧
        (w.use i call).Delivers L j (text ++ given) calls := by
  have hhanded (before : List (Nat × Call)) : w.handed? j ((i, call) :: before) =
      ((w.use i call).handed? j before).map fun more => given ++ more := by
    rw [handed?, hgiven]
    cases (w.use i call).handed? j before <;> rfl
  unfold Delivers
  rw [forall_prefix_cons]
  refine and_congr ?_ (forall_congr' fun before => imp_congr_right fun _ => ?_)
  · constructor
    · rintro ⟨v, _, hv, hnil, heq⟩
      cases hnil
      rw [List.append_nil] at heq
      exact ⟨v, hv, heq⟩
    · rintro ⟨v, hv, heq⟩
      refine ⟨v, [], hv, rfl, ?_⟩
      rw [List.append_nil]
      exact heq
  · rw [hhanded]
    constructor
    · rintro ⟨v, _, hv, hboth, heq⟩
      obtain ⟨more, hmore, rfl⟩ := Option.map_eq_some_iff.mp hboth
      refine ⟨v, more, hv, hmore, ?_⟩
      rw [List.append_assoc]
      exact heq
    · rintro ⟨v, more, hv, hmore, heq⟩
      refine ⟨v, given ++ more, hv, ?_, ?_⟩
      · rw [hmore]
        rfl
      · rw [← List.append_assoc]
        exact heq

/-- **The wire of a connection gets what its own calls hand over** exactly as long as the
others do not touch what is pending for it. -/
theorem Kept.delivers_iff (h : w.Kept)
    (hquiet : ∀ w n, L.delivered (receive w n).2 = L.delivered w) (hv : w.usage? j = some v)
    (hlogs : L.Logs receive v.link text) {calls : List (Nat × Call)}
    (hopen : ∀ call ∈ callsOn j calls, call.isClose = false)
    (hhanded : w.handed? j calls = some given) :
    w.Delivers L j text calls ↔ w.Untouched j calls := by
  induction calls generalizing w v text given with
  | nil =>
      simp only [Delivers, Untouched, List.prefix_nil, forall_eq, iff_true]
      refine ⟨v, [], hv, rfl, ?_⟩
      rw [List.append_nil]
      exact hlogs.text_eq
  | cons c calls ih =>
      obtain ⟨i, call⟩ := c
      have huse := h.use i call
      unfold handed? at hhanded
      split at hhanded
      · rename_i first more hfirst hmore
        rw [delivers_cons hfirst, and_iff_right ⟨v, hv, hlogs.text_eq⟩, Untouched]
        rw [callsOn] at hopen
        by_cases hij : i = j
        · subst hij
          rw [if_pos rfl] at hopen
          rw [if_pos rfl, hv, Option.bind_some] at hfirst
          have hclose := hopen call List.mem_cons_self
          have hlogs' := Usage.logs_step hquiet hlogs hclose (h.usage hv).1 hfirst
          have hv' := (h.usage?_use_self hv call).1
          rw [ih huse hv' hlogs' (fun c hc => hopen c (List.mem_cons_of_mem call hc)) hmore]
          exact ⟨fun h => ⟨fun hne => absurd rfl hne, h⟩, And.right⟩
        · rw [if_neg hij] at hopen
          rw [if_neg hij] at hfirst
          cases hfirst
          rw [List.append_nil, h.pendingAt_use_iff hij hv]
          have hv' := h.usage?_use_of_ne hij hv call
          have hfits := (huse.usage hv').2.1
          constructor
          · intro hdelivers
            obtain ⟨v', given', hview, hnil, heq⟩ := hdelivers [] List.nil_prefix
            obtain rfl := Option.some_inj.mp (hv'.symm.trans hview)
            cases hnil
            rw [List.append_nil, ← hlogs.text_eq] at heq
            have hpending := List.append_cancel_left heq
            have hlogs' := hlogs.over hfits hpending
            exact ⟨fun _ => hpending, (ih huse hv' hlogs' hopen hmore).mp hdelivers⟩
          · rintro ⟨hpending, huntouched⟩
            have hlogs' := hlogs.over hfits (hpending hij)
            exact (ih huse hv' hlogs' hopen hmore).mpr huntouched
      · cases hhanded

end

/-! ### What the others do -/

omit [SecureTransport σ] in
/-- Where an open connection stands all others were closed. -/
theorem Lent.closed_of_ne (h : w.Lent) (hb : w.borrower? j = some b) (hopen : b.closed = false)
    (hne : i ≠ j) {b' : Borrower σ} (hb' : w.borrower? i = some b') : b'.closed = true := by
  by_contra hopen'
  have hone : w.places.countP standsOpen ≤ 1 := by
    rw [show w.places.countP standsOpen = _ from h.opened_eq]
    exact Bool.toNat_le _
  refine hne (Usage.eq_of_countP_le_one hone (borrower?_eq_some_iff.mp hb')
    (borrower?_eq_some_iff.mp hb) ?_ ?_)
  · simpa [standsOpen] using hopen'
  · simpa [standsOpen] using hopen

/-- What was closed is not opened again. -/
theorem closed_use (hclosed : ∀ b, w.borrower? i = some b → b.closed = true) (k : Nat)
    (call : Call) : ∀ b, (w.use k call).borrower? i = some b → b.closed = true := by
  cases hk : w.borrower? k with
  | none => rwa [use_of_none hk]
  | some b' =>
      intro b hb
      rw [use_of_some hk, borrower?_eq_some_iff] at hb
      by_cases hki : k = i
      · subst hki
        obtain ⟨hlt, -⟩ := List.getElem?_eq_some_iff.mp (borrower?_eq_some_iff.mp hk)
        have hplace := hb.symm.trans (List.getElem?_set_self hlt)
        cases hplace
        show (b'.closed || call.isClose) = true
        rw [hclosed b' hk, Bool.true_or]
      · rw [settle, List.getElem?_set_ne hki] at hb
        exact hclosed b (borrower?_eq_some_iff.mpr hb)

theorem closed_uses (hclosed : ∀ b, w.borrower? i = some b → b.closed = true)
    (calls : List (Nat × Call)) : ∀ b, (w.uses calls).borrower? i = some b → b.closed = true := by
  induction calls generalizing w with
  | nil => exact hclosed
  | cons c calls ih => exact ih (closed_use hclosed c.1 c.2)

/-- **A call on a closed connection** that stores nothing leaves the memory of the client as it
is. -/
theorem Kept.scratch_use (h : w.Kept) (hclosed : ∀ b, w.borrower? i = some b → b.closed = true)
    (hv : w.usage? i = some v) {call : Call} (hcall : ¬ v.Stores call) :
    (w.use i call).client.scratch = w.client.scratch := by
  obtain ⟨hkind, -, hscratch⟩ := h.usage hv
  refine (h.usage?_use_self hv call).2.trans (Eq.trans ?_ hscratch)
  obtain ⟨b, hb, rfl⟩ := borrower?_of_usage? hv
  have hmem := mem_of_borrower? hb
  have hsound := h.sound hmem
  have hconnection := hsound.connection_within w.client.scratch
  refine Usage.scratch_step hkind ?_ ?_ hcall
  · rw [hconnection, hsound.holdsLease_eq, hclosed b hb]
    rfl
  · intro session hform
    rw [hconnection] at hform
    exact h.shut hmem (hclosed b hb) session hform

/-- Where all others were closed and store nothing, nothing is touched. -/
theorem Kept.untouched_of_quiet (h : w.Kept)
    (hothers : ∀ i, i ≠ j → ∀ b, w.borrower? i = some b → b.closed = true)
    (hu : w.usage? j = some u) {calls : List (Nat × Call)} (hquiet : w.Quiet j calls) :
    w.Untouched j calls := by
  induction calls generalizing w u with
  | nil => trivial
  | cons c calls ih =>
      obtain ⟨i, call⟩ := c
      obtain ⟨hstores, hquiet⟩ := hquiet
      have hothers' : ∀ k, k ≠ j → ∀ b, (w.use i call).borrower? k = some b → b.closed = true := by
        intro k hk
        exact closed_use (hothers k hk) i call
      by_cases hij : i = j
      · subst hij
        have hu' := (h.usage?_use_self hu call).1
        exact ⟨fun hne => absurd rfl hne, ih (h.use i call) hothers' hu' hquiet⟩
      · have hu' := h.usage?_use_of_ne hij hu call
        refine ⟨fun _ => ?_, ih (h.use i call) hothers' hu' hquiet⟩
        cases hv : w.usage? i with
        | none => rw [use_of_none (Option.map_eq_none_iff.mp hv)]
        | some v =>
            rw [h.pendingAt_use_iff hij hu, h.scratch_use (hothers i hij) hv (hstores hij v hv),
              ← (h.usage hu).2.2]

/-- **A write on a connection that coalesces** stores its text in the memory of the client, and
another connection in that memory finds it in front of its own. -/
theorem Kept.write_stores (h : w.Kept) (hne : i ≠ j) (hv : w.usage? i = some v)
    (hu : w.usage? j = some u) {buffer : WriteBuffer} {data : Bytes}
    (hform : v.link.connection.form = .buffered buffer) (hdata : data ≠ [])
    (hroom : buffer.pending + data.length < buffer.capacity) :
    (v.link.write data).1 = .ok data.length ∧ (w.use i (.write data)).pendingAt j =
      some ((Bytes.splice u.link.pending buffer.pending data).take u.link.pending.length) := by
  obtain ⟨haccepted, hstores⟩ := Link.write_of_room hform hdata hroom
  have hstored : (w.use i (.write data)).client.scratch =
      w.client.scratch.store buffer.pending data := by
    rw [(h.usage?_use_self hv _).2, ← (h.usage hv).2.2]
    exact hstores
  refine ⟨haccepted, ?_⟩
  obtain ⟨-, hfits, hscratch⟩ := h.usage hu
  rw [pendingAt_of_usage? (h.usage?_use_of_ne hne hu _), hstored, ← hscratch]
  exact congrArg some (Link.pending_store hfits buffer.pending data)

/-! ## The connection that has the lease -/

/-- What can be relied on of the connection at a place, whatever calls are made on it and on
the others. -/
structure Isolation (w : Lending σ) (j : Nat) (u : Usage σ) : Prop where
  /-- All goes as without the others exactly as long as they touch nothing that is pending. -/
  undisturbed_iff (calls : List (Nat × Call)) : w.Undisturbed j u calls ↔ w.Untouched j calls
  /-- And so with what arrives, unless one of its own calls fails in handing over a text. -/
  delivers_iff {offer : σ → Bytes → Except TransportFailure Nat × σ} {L : Ledger offer}
    {receive : σ → Nat → Except TransportFailure Bytes × σ} {text given : Bytes}
    {calls : List (Nat × Call)} : (∀ w n, L.delivered (receive w n).2 = L.delivered w) →
    L.Logs receive u.link text → (∀ call ∈ callsOn j calls, call.isClose = false) →
    w.handed? j calls = some given → (w.Delivers L j text calls ↔ w.Untouched j calls)
  others_closed {calls : List (Nat × Call)} {i : Nat} {b : Borrower σ} : i ≠ j →
    (w.uses calls).borrower? i = some b → b.closed = true
  /-- What stores nothing leaves the memory alone. -/
  keeps {calls : List (Nat × Call)} {i : Nat} {v : Usage σ} {call : Call} : i ≠ j →
    (w.uses calls).usage? i = some v → ¬ v.Stores call →
    ((w.uses calls).use i call).client.scratch = (w.uses calls).client.scratch
  untouched {calls : List (Nat × Call)} : w.Quiet j calls → w.Untouched j calls
  /-- A write on one of the others that coalesces stores: though that connection was closed,
  its text takes the place of what is pending. -/
  overwrites {calls : List (Nat × Call)} {i : Nat} {u' v : Usage σ} {buffer : WriteBuffer}
    {data : Bytes} : i ≠ j → (w.uses calls).usage? i = some v →
    (w.uses calls).usage? j = some u' → v.link.connection.form = .buffered buffer → data ≠ [] →
    buffer.pending + data.length < buffer.capacity →
    (v.link.write data).1 = .ok data.length ∧ ((w.uses calls).use i (.write data)).pendingAt j =
      some ((Bytes.splice u'.link.pending buffer.pending data).take u'.link.pending.length)

theorem Kept.uses (h : w.Kept) (calls : List (Nat × Call)) : (w.uses calls).Kept := h.run _

/-- **The lease isolates a connection as far as the others write nothing.** In every state that
acts lead to, of the connection that is open there. -/
theorem isolation_exact (config : SecureConfig) (memory : Bytes) (acts : List (Act σ))
    (hu : ((start ⟨some config, ⟨memory, false⟩⟩).run acts).usage? j = some u)
    (hheld : u.link.connection.holdsLease = true) :
    ((start ⟨some config, ⟨memory, false⟩⟩).run acts).Isolation j u := by
  have h := (kept_start config memory).run acts
  generalize (start ⟨some config, ⟨memory, false⟩⟩).run acts = w at hu h
  have hothers {i : Nat} (hne : i ≠ j) : ∀ b, w.borrower? i = some b → b.closed = true := by
    obtain ⟨b, hb, rfl⟩ := borrower?_of_usage? hu
    have hsound := h.sound (mem_of_borrower? hb)
    rw [hsound.connection_within, hsound.holdsLease_eq] at hheld
    intro b' hb'
    exact h.closed_of_ne hb (by simpa using hheld) hne hb'
  constructor
  · intro calls
    have hsimilar : u.Similar Link.Alike u := ⟨.self (h.usage hu).2.1, rfl, rfl⟩
    exact h.undisturbed_iff hu hsimilar calls
  · intro offer L receive text given calls hquiet hlogs hopen hhanded
    exact h.delivers_iff hquiet hu hlogs hopen hhanded
  · intro calls i b hne hb
    exact closed_uses (hothers hne) calls b hb
  · intro calls i v call hne hv hcall
    exact (h.uses calls).scratch_use (closed_uses (hothers hne) calls) hv hcall
  · intro calls hquiet
    exact h.untouched_of_quiet (fun i => hothers) hu hquiet
  · intro calls i u' v buffer data hne hv hu' hform hdata hroom
    exact (h.uses calls).write_stores hne hv hu' hform hdata hroom

end Lending

/-! ## One connection after another -/

/-- A network that knows all hosts. -/
def Script.network : Network Script where
  resolve _ := .ok (.quad 127 0 0 1)
  dial _ _ := .ok .empty

namespace Lending

/-- A connection is made and closed, and then another one is made. -/
def lentOn : List (Act Script) :=
  [.reach (ascii "http://a.test/") Script.network, .use 0 .close,
    .reach (ascii "http://b.test/") Script.network]

/-- The second connection writes, and before it flushes the first one writes too. -/
def writtenOver : List (Nat × Call) :=
  [(1, .write (ascii "BBBB")), (0, .write (ascii "AA")), (1, .flush)]

/-- The second connection has handed over one text, and its wire gets another. -/
theorem isolation_exact_writtenOver :
    let w := (start ⟨some ⟨1, 64, 64, none⟩, ⟨[], false⟩⟩).run lentOn
    (∃ u, w.usage? 1 = some u ∧ u.link.connection.holdsLease = true ∧ w.Isolation 1 u) ∧
      w.handed? 1 writtenOver = some (ascii "BBBB") ∧
      ((w.uses writtenOver).usage? 1).map (fun u => u.link.wire.taken) = some (ascii "AABB") := by
  intro w
  have hholds : (w.usage? 1).map (fun u => u.link.connection.holdsLease) = some true := by
    decide +kernel
  obtain ⟨u, hu, hheld⟩ := Option.map_eq_some_iff.mp hholds
  refine ⟨⟨u, hu, hheld, isolation_exact _ _ _ hu hheld⟩, ?_, ?_⟩
  · decide +kernel
  · decide +kernel

end Lending

end HttpExchange
