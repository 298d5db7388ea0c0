import Mathlib.Logic.Relation
import HttpExchange.Proofs.Draining

/-!
# What a reader does to the receive buffer

A reader has the part of the receive buffer behind the head for itself. It stages there what
came with the head and what it reads byte by byte, and `readToEnd` collects the body in the very
same part. `Source.Move` lists what may be done to that part, each with the condition under which
nothing is lost: no write leaves the part, and none hits a byte that is staged and was not served
yet. Whatever the transport does, every call on a reader is made of such moves.

* `Source.Move.contained`, `Source.Move.suffix_staged`: what a move keeps.
* `Reading.minds_read`: a read is made of moves.
* `Reading.moves_readToEnd`: so is a call that reads to the end.
-/

namespace HttpExchange

open Relation (ReflTransGen)

/-- How many bytes a call hands out. -/
def amountOf {ε : Type} : Except ε Bytes → Nat
  | .ok data => data.length
  | .error _ => 0

namespace Source

/-! ## Moves -/

/-- A sound source all of whose bytes lie in its part of the receive buffer. -/
structure Contained (s : Source) : Prop extends Sound s where
  within : s.memory.length ≤ s.capacity

/-- What may be done to the part of the receive buffer behind a head. -/
inductive Move : Source → Source → Prop
  /-- Bytes that are staged are served from the front on. -/
  | serve {s : Source} {n : Nat} (there : n ≤ s.staged.length) : Move s (s.advance n)
  /-- When all of them are served others take their place. -/
  | refill {s : Source} {data : Bytes} (drained : s.staged = [])
      (fits : s.floor + data.length ≤ s.capacity) : Move s (s.refill data)
  /-- A place in front of them becomes the floor for the bytes that are staged next. -/
  | raise {s : Source} {place : Nat} (written : place ≤ s.memory.length)
      (clear : s.position < s.limit → place ≤ s.position) : Move s { s with floor := place }
  /-- Something is stored in front of them. -/
  | store {s : Source} {place : Nat} {data : Bytes} (written : place ≤ s.memory.length)
      (clear : s.position < s.limit → place + data.length ≤ s.position)
      (fits : place + data.length ≤ s.capacity) : Move s (s.store place data)
  /-- They are moved to the front. -/
  | compact {s : Source} : Move s s.compact

variable {s s' s₁ s₂ : Source} {j k n : Nat}

theorem length_memory_store {place : Nat} (h : place ≤ s.memory.length) (data : Bytes) :
    (s.store place data).memory.length = max s.memory.length (place + data.length) :=
  length_splice h

/-- **A move keeps all bytes inside**, and the size of the buffer. -/
theorem Move.contained (h : Move s s') (hs : s.Contained) :
    s'.Contained ∧ s'.capacity = s.capacity := by
  have hwithin := hs.within
  cases h with
  | serve there => exact ⟨⟨hs.toSound.advance there, hwithin⟩, rfl⟩
  | @refill data drained fits =>
      refine ⟨⟨hs.toSound.refill data, ?_⟩, rfl⟩
      have hlength := length_memory_store hs.floor_le data
      show (s.store s.floor data).memory.length ≤ s.capacity
      omega
  | raise written clear =>
      exact ⟨⟨⟨hs.position_le, hs.limit_le, written, clear⟩, hwithin⟩, rfl⟩
  | @store place data written clear fits =>
      refine ⟨⟨hs.toSound.store written, ?_⟩, rfl⟩
      have hlength := length_memory_store written data
      show (s.store place data).memory.length ≤ s.capacity
      omega
  | compact =>
      refine ⟨⟨sound_compact hs.toSound, ?_⟩, rfl⟩
      have hlength := length_memory_store (Nat.zero_le s.memory.length) s.staged
      have hstaged := length_staged hs.toSound
      have hlimit := hs.limit_le
      show (s.store 0 s.staged).memory.length ≤ s.capacity
      omega

/-- **What is staged stays until it is served**: as long as there is something, a move takes
bytes off its front and does nothing else to it. -/
theorem Move.suffix_staged (h : Move s s') (hs : s.Contained) (hstaged : s.staged ≠ []) :
    s'.staged <:+ s.staged := by
  cases h with
  | serve there =>
      rw [staged_advance]
      exact List.drop_suffix _ _
  | refill drained fits => exact absurd drained hstaged
  | raise written clear => exact List.suffix_rfl
  | store written clear fits => exact (staged_store written clear).symm ▸ List.suffix_rfl
  | compact => exact (staged_compact hs.toSound).symm ▸ List.suffix_rfl

/-- What holds of one move holds of any number of them. -/
theorem contained_of_moves (h : ReflTransGen Move s s') (hs : s.Contained) :
    s'.Contained ∧ s'.capacity = s.capacity := by
  induction h with
  | refl => exact ⟨hs, rfl⟩
  | tail _ move ih =>
      obtain ⟨hmid, hcapacity⟩ := ih
      obtain ⟨hlast, hcapacity'⟩ := move.contained hmid
      exact ⟨hlast, hcapacity'.trans hcapacity⟩

/-! ## Serving bytes -/

/-- Moves that serve `k` bytes and leave room for them behind the floor. -/
structure Minds (s s' : Source) (k : Nat) : Prop where
  moves : ReflTransGen Move s s'
  serves : Serves s s' k

theorem Minds.trans (h : Minds s s₁ j) (h' : Minds s₁ s₂ k) : Minds s s₂ k :=
  ⟨h.moves.trans h'.moves, h.serves.trans h'.serves⟩

theorem minds_refl (h : s.Contained) : Minds s s 0 :=
  ⟨.refl, rfl, rfl, rfl, h.floor_le_position⟩

theorem Minds.contained (h : Minds s s' k) (hs : s.Contained) : s'.Contained :=
  (contained_of_moves h.moves hs).1

/-- A source from which nothing was taken has served what came from elsewhere. -/
theorem minds_of_peek_eq_nil (h : s.Contained) (hpeek : s.peek n = []) (hk : k ≤ n) :
    Minds s s k := by
  rw [peek_eq, List.take_eq_nil_iff] at hpeek
  rcases hpeek with hzero | hstaged
  · obtain rfl : k = 0 := by omega
    exact minds_refl h
  · exact ⟨.refl, serves_drained h.toSound hstaged k⟩

variable {σ : Type} [SecureTransport σ] {l l' : Link σ}

theorem minds_read {received : Except TransportFailure Bytes} (h : s.Contained)
    (hread : s.read l n = (received, s', l')) :
    Minds s s' (amountOf received) ∧ amountOf received ≤ n := by
  unfold read at hread
  split at hread
  · rename_i hpeek
    cases hcall : l.read n with
    | mk outcome l₁ =>
        rw [hcall] at hread
        cases hread
        have hle : amountOf received ≤ n := by
          cases received with
          | error failure => exact Nat.zero_le n
          | ok data => exact Link.read_length_le hcall
        exact ⟨minds_of_peek_eq_nil h hpeek hle, hle⟩
  · cases hread
    have hle : (s.peek n).length ≤ s.staged.length := by
      rw [peek_eq]
      exact List.length_take_le' ..
    have hlen : (s.peek n).length ≤ n := by
      rw [peek_eq]
      exact List.length_take_le ..
    exact ⟨⟨.single (.serve hle), serves_advance h.toSound _⟩, hlen⟩

theorem minds_readByte {received : Except TransportFailure (Option UInt8)} (h : s.Contained)
    (hread : s.readByte l = (received, s', l')) : Minds s s' 0 := by
  have hadvance {s : Source} (h : s.Contained) (hone : 1 ≤ s.staged.length) :
      Minds s (s.advance 1) 0 :=
    ⟨.single (.serve hone), (serves_advance h.toSound 1).mono (Nat.zero_le 1)⟩
  have hquiet := minds_refl h
  unfold readByte at hread
  split at hread
  · rename_i b more hpeek
    cases hread
    have hone := congrArg List.length hpeek
    rw [peek_eq, List.length_take, List.length_cons] at hone
    exact hadvance h (by omega)
  · rename_i hpeek
    have hdrained : s.staged = [] := by
      rw [peek_eq, List.take_eq_nil_iff] at hpeek
      exact hpeek.resolve_left Nat.one_ne_zero
    split at hread
    · split at hread <;> cases hread <;> exact hquiet
    · split at hread
      · cases hread
        exact hquiet
      · cases hread
        exact hquiet
      · -- What was read is at most what the free part holds.
        rename_i b rest _ hcall
        cases hread
        have hfits : s.floor + (b :: rest).length ≤ s.capacity := by
          have hle := Link.read_length_le hcall
          have hfloor := h.floor_le
          have hwithin := h.within
          unfold room at hle
          omega
        have hrefill : Move s (s.refill (b :: rest)) := .refill hdrained hfits
        have hmore : Minds s (s.refill (b :: rest)) 0 :=
          ⟨.single hrefill, serves_refill h.toSound _⟩
        refine hmore.trans (hadvance (hrefill.contained h).1 ?_)
        rw [staged_refill h.toSound, List.length_cons]
        omega

end Source

namespace Reading

open Source (Minds Contained Move)

variable {σ : Type} [SecureTransport σ] {x y : Reading σ} {n k : Nat}

/-! ## Reads -/

/-- A call that hands out at most `n` bytes, and whose source minds what is staged. -/
def Obeys (x : Reading σ) (n : Nat) (call : Except Failure Bytes × Reading σ) : Prop :=
  Minds x.reader.source call.2.reader.source (amountOf call.1) ∧ amountOf call.1 ≤ n

omit [SecureTransport σ] in
theorem obeys_quiet (h : x.reader.source.Contained) {received : Except Failure Bytes}
    (hs : y.reader.source = x.reader.source) (hnone : amountOf received = 0) :
    Obeys x n (received, y) := by
  unfold Obeys
  rw [hs, hnone]
  exact ⟨Source.minds_refl h, Nat.zero_le n⟩

omit [SecureTransport σ] in
/-- Framing that was scanned before a call does not matter. -/
theorem Obeys.after {call : Except Failure Bytes × Reading σ}
    (hbefore : Minds x.reader.source y.reader.source k) (h : Obeys y n call) : Obeys x n call :=
  ⟨hbefore.trans h.1, h.2⟩

theorem minds_scan {s α : Type} (h : x.reader.source.Contained) (step : s → UInt8 → Verdict s α)
    (state : s) :
    Minds x.reader.source (scan step state x).2.reader.source 0 := by
  fun_induction scan step state x with
  | case1 state x failure source link hb => exact Source.minds_readByte h hb
  | case2 state x source link hb => exact Source.minds_readByte h hb
  | case3 state x b source link hb next hs ih =>
      have hbyte := Source.minds_readByte h hb
      exact hbyte.trans (ih (hbyte.contained h))
  | case4 state x b source link hb v hs => exact Source.minds_readByte h hb
  | case5 state x b source link hb fault hs => exact Source.minds_readByte h hb

theorem obeys_readFixed (h : x.reader.source.Contained) : Obeys x n (x.readFixed k n) := by
  unfold readFixed
  split <;> rename_i hread <;> obtain ⟨hminds, hle⟩ := Source.minds_read h hread
  · exact ⟨hminds, Nat.zero_le n⟩
  · exact ⟨hminds, Nat.zero_le n⟩
  · dsimp only
    refine ⟨?_, Nat.le_trans hle (Nat.min_le_left n k)⟩
    split
    · exact hminds
    · exact hminds

theorem obeys_readToClose (h : x.reader.source.Contained) : Obeys x n (x.readToClose n) := by
  unfold readToClose
  split <;> rename_i hread <;> obtain ⟨hminds, hle⟩ := Source.minds_read h hread
  · exact ⟨hminds, hle⟩
  · exact ⟨hminds, hle⟩
  · exact ⟨hminds, hle⟩

theorem obeys_readData (h : x.reader.source.Contained) : Obeys x n (x.readData k n) := by
  unfold readData
  split <;> rename_i hread <;> obtain ⟨hminds, hle⟩ := Source.minds_read h hread
  · exact ⟨hminds, Nat.zero_le n⟩
  · exact ⟨hminds, Nat.zero_le n⟩
  · exact ⟨hminds, Nat.le_trans hle (Nat.min_le_left n k)⟩

theorem obeys_readTrailers (h : x.reader.source.Contained) : Obeys x n x.readTrailers := by
  have hscan := minds_scan h Trailers.step .lineStart
  unfold readTrailers
  split <;> rename_i heq <;> rw [heq] at hscan
  · exact ⟨hscan, Nat.zero_le n⟩
  · exact ⟨hscan, Nat.zero_le n⟩

theorem obeys_readChunk (h : x.reader.source.Contained) : Obeys x n (x.readChunk n) := by
  have hscan := minds_scan h SizeLine.step .start
  unfold readChunk
  split <;> rename_i heq <;> rw [heq] at hscan
  · exact ⟨hscan, Nat.zero_le n⟩
  · rename_i y
    have hcontained := hscan.contained h
    have htrailers {z : Reading σ} (hz : z.reader.source = y.reader.source) :
        Obeys x n z.readTrailers :=
      .after (hz ▸ hscan) (obeys_readTrailers (hz ▸ hcontained))
    have hdata {z : Reading σ} {k : Nat} (hz : z.reader.source = y.reader.source) :
        Obeys x n (z.readData k n) :=
      .after (hz ▸ hscan) (obeys_readData (hz ▸ hcontained))
    dsimp only
    split
    · exact htrailers rfl
    · exact hdata rfl

theorem obeys_readDataEnd (h : x.reader.source.Contained) : Obeys x n (x.readDataEnd n) := by
  have hscan := minds_scan h DataEnd.step .wantsCr
  unfold readDataEnd
  split <;> rename_i heq <;> rw [heq] at hscan
  · exact ⟨hscan, Nat.zero_le n⟩
  · rename_i y
    exact .after (y := y.moveTo (.chunked .size)) hscan (obeys_readChunk (hscan.contained h))

/-- **A read minds what is staged**, wherever the reader stands and whatever the transport
does. -/
theorem obeys_read (h : x.reader.source.Contained) (n : Nat) : Obeys x n (x.read n) := by
  have hnothing : Obeys x n (.ok [], x) := obeys_quiet h rfl rfl
  unfold read
  split
  · exact obeys_quiet h rfl rfl
  · exact hnothing
  · split
    · exact hnothing
    · exact obeys_readFixed h
  · split
    · exact hnothing
    · rename_i place _ _
      cases place with
      | size => exact obeys_readChunk h
      | data outstanding => exact obeys_readData h
      | dataEnd => exact obeys_readDataEnd h
      | trailers => exact obeys_readTrailers h
  · split
    · exact hnothing
    · exact obeys_readToClose h

/-! ## Reading to the end -/

/-- Where `readToEnd` stands between two reads: `out` bytes are collected, and what is staged
lies behind them. -/
structure Gathering (x : Reading σ) (out : Nat) : Prop where
  contained : x.reader.source.Contained
  written : out ≤ x.reader.source.memory.length
  clear : x.reader.source.position < x.reader.source.limit → out ≤ x.reader.source.position

omit [SecureTransport σ] in
theorem Gathering.raise {out : Nat} (h : Gathering x out) :
    Move x.reader.source (x.above out).reader.source := .raise h.written h.clear

/-- The read behind what is collected. -/
theorem Gathering.read {out : Nat} {received : Except Failure Bytes} (h : Gathering x out)
    (hread : (x.above out).read n = (received, y)) :
    Minds (x.above out).reader.source y.reader.source (amountOf received) ∧ amountOf received ≤ n ∧
      ReflTransGen Move x.reader.source y.reader.source := by
  have hobeys := obeys_read (h.raise.contained h.contained).1 n
  rw [hread] at hobeys
  exact ⟨hobeys.1, hobeys.2, .head h.raise hobeys.1.moves⟩

omit [SecureTransport σ] in
/-- A piece that was read finds its place behind what is collected. -/
theorem Gathering.store {out : Nat} {piece : Bytes} (h : Gathering x out)
    (hminds : Minds (x.above out).reader.source y.reader.source piece.length)
    (hroom : out + piece.length ≤ x.reader.source.capacity) :
    Move y.reader.source (y.reader.source.store out piece) ∧
      Gathering (y.mapSource fun s => s.store out piece) (out + piece.length) := by
  have hcontained := hminds.contained (h.raise.contained h.contained).1
  have hwritten : out ≤ y.reader.source.memory.length := by
    have hkept : y.reader.source.memory.take out = x.reader.source.memory.take out :=
      hminds.serves.memory_eq
    have hlength := congrArg List.length hkept
    rw [List.length_take, List.length_take] at hlength
    have := h.written
    omega
  have hfits : out + piece.length ≤ y.reader.source.capacity := by
    have : y.reader.source.capacity = x.reader.source.capacity := hminds.serves.capacity_eq
    omega
  have hmove : Move y.reader.source (y.reader.source.store out piece) :=
    .store hwritten hminds.serves.clear hfits
  refine ⟨hmove, (hmove.contained hcontained).1, ?_, hminds.serves.clear⟩
  show _ ≤ (y.reader.source.store out piece).memory.length
  rw [Source.length_memory_store hwritten piece]
  omega

/-- **Collecting is made of moves.** -/
theorem moves_collect {out : Nat} (h : Gathering x out) :
    ReflTransGen Move x.reader.source (x.collect out).2.reader.source := by
  fun_induction Reading.collect x out with
  | case1 x out hfull failure y hread => exact (h.read hread).2.2
  | case2 x out hfull y hread => exact (h.read hread).2.2
  | case3 x out hfull b bytes y hread => exact (h.read hread).2.2
  | case4 x out hroom failure y hread => exact (h.read hread).2.2
  | case5 x out hroom y hread => exact (h.read hread).2.2
  | case6 x out hroom b bytes y hread ih =>
      obtain ⟨hminds, hle, hmoves⟩ := h.read hread
      have hfits : out + (b :: bytes).length ≤ x.reader.source.capacity := by
        unfold amountOf at hle
        dsimp only at hle
        omega
      obtain ⟨hstore, hmore⟩ := h.store hminds hfits
      exact (hmoves.tail hstore).trans (ih hmore)

omit [SecureTransport σ] in
/-- Where it stands when nothing is collected yet. -/
theorem gathering_compact (h : x.reader.source.Contained) :
    Gathering (x.mapSource Source.compact) 0 :=
  ⟨(Move.compact.contained h).1, Nat.zero_le _, fun _ => Nat.zero_le _⟩

/-- **Reading to the end is made of moves**, whatever body there is and whatever the transport
does. -/
theorem moves_readToEnd (h : x.reader.source.Contained) :
    ReflTransGen Move x.reader.source x.readToEnd.2.reader.source := by
  have hcompact : Move x.reader.source x.reader.source.compact := .compact
  have hcollect := moves_collect (gathering_compact h)
  unfold readToEnd
  split
  · exact .refl
  · split <;> rename_i heq <;> rw [heq] at hcollect <;> exact .head hcompact hcollect

end Reading

end HttpExchange
