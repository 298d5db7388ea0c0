import HttpExchange.Proofs.Inbound
import HttpExchange.Response.Source

/-!
# What a source still has to serve

The text that a source has before it is what is staged in its buffer followed by what is
still to come on its link. `Source.Pending` says so, and the two ways of taking bytes out
of a source, a piece or a single byte, take them off the front of that text wherever it is
cut into staged bytes and bytes to come.

`Source.Sound` is what every operation on a source keeps: unserved bytes lie inside the
memory and not below the floor, so a refill at the floor never hits them. `Source.Serves`
is the other side of it: nothing below the floor is written, and what was served could be
stored there without hitting what was not.
-/

namespace HttpExchange

namespace Source

/-! ## Sound sources -/

structure Sound (s : Source) : Prop where
  position_le : s.position ≤ s.limit
  limit_le : s.limit ≤ s.memory.length
  floor_le : s.floor ≤ s.memory.length
  floor_le_position : s.position < s.limit → s.floor ≤ s.position

theorem sound_ofStaged (capacity : Nat) (staged : Bytes) : (ofStaged capacity staged).Sound :=
  ⟨Nat.zero_le _, Nat.le_refl _, Nat.zero_le _, fun _ => Nat.zero_le _⟩

theorem peek_eq (s : Source) (n : Nat) : s.peek n = s.staged.take n := by
  simp only [staged, peek, Nat.min_self, List.take_take]

theorem length_staged {s : Source} (h : s.Sound) : s.staged.length = s.limit - s.position := by
  have := h.limit_le
  simp only [staged, peek, List.length_take, List.length_drop]
  omega

theorem staged_ofStaged (capacity : Nat) (staged : Bytes) :
    (ofStaged capacity staged).staged = staged := by
  simp [Source.staged, peek, ofStaged]

theorem staged_advance (s : Source) (n : Nat) : (s.advance n).staged = s.staged.drop n := by
  simp only [staged, peek, advance, Nat.min_self, List.drop_take, List.drop_drop]
  congr 1
  omega

theorem Sound.advance {s : Source} (h : s.Sound) {n : Nat} (hn : n ≤ s.staged.length) :
    (s.advance n).Sound := by
  rw [length_staged h] at hn
  have hp := h.position_le
  refine ⟨?_, h.limit_le, h.floor_le, ?_⟩
  · show s.position + n ≤ s.limit
    omega
  · intro hlt
    have hlt : s.position + n < s.limit := hlt
    have hf := h.floor_le_position (by omega)
    show s.floor ≤ s.position + n
    omega

/-! ## Refilling -/

theorem length_splice {m data : Bytes} {place : Nat} (h : place ≤ m.length) :
    (Bytes.splice m place data).length = max m.length (place + data.length) := by
  simp only [Bytes.splice, List.length_append, List.length_take, List.length_drop]
  omega

theorem take_splice {m data : Bytes} {place : Nat} (h : place ≤ m.length) :
    (Bytes.splice m place data).take place = m.take place := by
  simp only [Bytes.splice, List.append_assoc]
  rw [List.take_append_of_le_length (by simp [h]), List.take_take, Nat.min_self]

theorem drop_splice {m data : Bytes} {place : Nat} (h : place ≤ m.length) :
    (Bytes.splice m place data).drop place = data ++ m.drop (place + data.length) := by
  simp only [Bytes.splice, List.append_assoc]
  rw [List.drop_append_of_le_length (by simp [h])]
  simp

theorem Sound.refill {s : Source} (h : s.Sound) (data : Bytes) : (s.refill data).Sound := by
  have hl : (s.refill data).memory.length = max s.memory.length (s.floor + data.length) :=
    length_splice h.floor_le
  refine ⟨Nat.le_add_right .., ?_, ?_, fun _ => Nat.le_refl _⟩
  · rw [hl]
    exact Nat.le_max_right ..
  · rw [hl]
    exact Nat.le_trans h.floor_le (Nat.le_max_left ..)

theorem staged_refill {s : Source} (h : s.Sound) (data : Bytes) :
    (s.refill data).staged = data := by
  have hd : (s.refill data).memory.drop s.floor = data ++ s.memory.drop (s.floor + data.length) :=
    drop_splice h.floor_le
  show ((s.refill data).memory.drop s.floor).take
    (min (s.floor + data.length - s.floor) (s.floor + data.length - s.floor)) = data
  rw [hd, Nat.min_self, Nat.add_sub_cancel_left, List.take_left]

/-! ## What stays below the floor -/

/-- A source has served `k` bytes: nothing below its floor was written, and what it has not
served yet leaves room for them there. -/
structure Serves (s s' : Source) (k : Nat) : Prop where
  capacity_eq : s'.capacity = s.capacity
  floor_eq : s'.floor = s.floor
  memory_eq : s'.memory.take s.floor = s.memory.take s.floor
  clear : s'.position < s'.limit → s.floor + k ≤ s'.position

theorem Serves.trans {s₁ s₂ s₃ : Source} {j k : Nat} (h : Serves s₁ s₂ j) (h' : Serves s₂ s₃ k) :
    Serves s₁ s₃ k := by
  have hm := h'.memory_eq
  have hc := h'.clear
  rw [h.floor_eq] at hm hc
  exact ⟨h'.capacity_eq.trans h.capacity_eq, h'.floor_eq.trans h.floor_eq,
    hm.trans h.memory_eq, hc⟩

theorem Serves.mono {s s' : Source} {j k : Nat} (h : Serves s s' k) (hjk : j ≤ k) :
    Serves s s' j := by
  refine ⟨h.capacity_eq, h.floor_eq, h.memory_eq, ?_⟩
  intro hlt
  have := h.clear hlt
  omega

theorem serves_advance {s : Source} (h : s.Sound) (k : Nat) : Serves s (s.advance k) k := by
  refine ⟨rfl, rfl, rfl, ?_⟩
  intro hlt
  have hlt : s.position + k < s.limit := hlt
  have hf := h.floor_le_position (by omega)
  show s.floor + k ≤ s.position + k
  omega

theorem serves_refill {s : Source} (h : s.Sound) (data : Bytes) : Serves s (s.refill data) 0 :=
  ⟨rfl, rfl, take_splice h.floor_le, fun _ => Nat.le_refl _⟩

/-- A source with nothing staged serves any number of bytes from its link. -/
theorem serves_drained {s : Source} (h : s.Sound) (hs : s.staged = []) (k : Nat) :
    Serves s s k := by
  refine ⟨rfl, rfl, rfl, ?_⟩
  intro hlt
  have := length_staged h
  rw [hs, List.length_nil] at this
  omega

/-! ## Serving the text before a source -/

variable {σ : Type} [SecureTransport σ]
  {receive : σ → Nat → Except TransportFailure Bytes × σ} {ending : Ending}
  {F : Feed receive ending} {s : Source} {l : Link σ} {text : Bytes} {n : Nat}

/-- `text` is what is staged followed by what is still to come. -/
structure Pending (F : Feed receive ending) (s : Source) (l : Link σ) (text : Bytes) : Prop where
  sound : s.Sound
  coming : ∃ coming, F.On l coming ∧ text = s.staged ++ coming

theorem Pending.serves_zero (h : Pending F s l text) : Serves s s 0 :=
  ⟨rfl, rfl, rfl, h.sound.floor_le_position⟩

theorem read_of_staged (hs : s.staged ≠ []) (hn : 0 < n) :
    s.read l n = (.ok (s.staged.take n), s.advance (s.staged.take n).length, l) := by
  unfold read
  rw [peek_eq]
  obtain ⟨b, rest, hb⟩ := List.exists_cons_of_ne_nil hs
  obtain ⟨k, rfl⟩ : ∃ k, n = k + 1 := ⟨n - 1, by omega⟩
  simp [hb]

theorem take_staged_ne_nil (hs : s.staged ≠ []) (hn : 0 < n) : s.staged.take n ≠ [] := by
  obtain ⟨b, rest, hb⟩ := List.exists_cons_of_ne_nil hs
  obtain ⟨k, rfl⟩ : ∃ k, n = k + 1 := ⟨n - 1, by omega⟩
  simp [hb]

/-- Behind what is taken the rest stays staged. -/
theorem take_staged (s : Source) (n : Nat) :
    s.staged.take n ++ (s.advance (s.staged.take n).length).staged = s.staged := by
  rw [staged_advance, List.length_take]
  rcases Nat.le_total n s.staged.length with hle | hle
  · rw [Nat.min_eq_left hle, List.take_append_drop]
  · rw [Nat.min_eq_right hle, List.take_of_length_le hle, List.drop_length, List.append_nil]

theorem read_of_drained (hs : s.staged = []) :
    s.read l n = ((l.read n).1, s, (l.read n).2) := by
  unfold read
  rw [peek_eq, hs]
  simp

/-- A piece is either staged, and then nothing is read, or nothing is staged and it is read
now. -/
theorem read_piece {coming : Bytes} (h : s.Sound) (hon : F.On l coming)
    (htext : s.staged ++ coming ≠ []) (hn : 0 < n) :
    ∃ piece s' wire coming', s.read l n = (.ok piece, s', { l with wire }) ∧ piece ≠ [] ∧
      piece.length ≤ n ∧ Serves s s' piece.length ∧ s'.Sound ∧ F.On { l with wire } coming' ∧
      (s.staged = piece ++ s'.staged ∧ coming' = coming ∨
        s.staged = [] ∧ s'.staged = [] ∧ coming = piece ++ coming') := by
  by_cases hs : s.staged = []
  · rw [hs, List.nil_append] at htext
    obtain ⟨piece, rest, wire, hread, hne, hle, heq, hrest⟩ := Feed.on_read hon htext hn
    refine ⟨piece, s, wire, rest, ?_, hne, hle, serves_drained h hs _, h, hrest, .inr ⟨hs, hs, heq⟩⟩
    rw [read_of_drained hs, hread]
  · exact ⟨s.staged.take n, _, l.wire, coming, read_of_staged hs hn, take_staged_ne_nil hs hn,
      List.length_take_le n _, serves_advance h _, h.advance (List.length_take_le' ..), hon,
      .inl ⟨(s.take_staged n).symm, rfl⟩⟩

/-- **A piece comes off the front of the text**, whether it was staged or is read now. -/
theorem Pending.read (h : Pending F s l text) (htext : text ≠ []) (hn : 0 < n) :
    ∃ piece rest s' wire, s.read l n = (.ok piece, s', { l with wire }) ∧ piece ≠ [] ∧
      piece.length ≤ n ∧ text = piece ++ rest ∧ Serves s s' piece.length ∧
      Pending F s' { l with wire } rest := by
  obtain ⟨coming, hon, rfl⟩ := h.coming
  obtain ⟨piece, s', wire, coming', hread, hne, hle, hserves, hsound, hon', hfrom⟩ :=
    read_piece h.sound hon htext hn
  refine ⟨piece, s'.staged ++ coming', s', wire, hread, hne, hle, ?_, hserves, hsound, coming',
    hon', rfl⟩
  rcases hfrom with ⟨hs, rfl⟩ | ⟨hs, hs', rfl⟩
  · rw [hs, List.append_assoc]
  · rw [hs, hs', List.nil_append, List.nil_append]

theorem Pending.staged_eq_nil (h : Pending F s l []) : s.staged = [] := by
  obtain ⟨coming, -, heq⟩ := h.coming
  exact (List.append_eq_nil_iff.mp heq.symm).1

theorem Pending.on_nil (h : Pending F s l []) : F.On l [] := by
  obtain ⟨coming, hon, heq⟩ := h.coming
  rwa [(List.append_eq_nil_iff.mp heq.symm).2] at hon

theorem Pending.of_on_nil {l' : Link σ} (h : Pending F s l []) (hon : F.On l' []) :
    Pending F s l' [] :=
  ⟨h.sound, [], hon, by rw [h.staged_eq_nil, List.nil_append]⟩

theorem Pending.read_finished (h : Pending F s l []) (hend : ending = .finished) (hn : 0 < n) :
    ∃ wire, s.read l n = (.ok [], s, { l with wire }) ∧ Pending F s { l with wire } [] := by
  obtain ⟨wire, hread, hon⟩ := Feed.on_read_finished h.on_nil hend hn
  refine ⟨wire, ?_, h.of_on_nil hon⟩
  rw [read_of_drained h.staged_eq_nil, hread]

theorem Pending.read_broken (h : Pending F s l []) {failure : TransportFailure}
    (hend : ending = .broken failure) (hn : 0 < n) :
    ∃ wire, s.read l n = (.error failure, s, { l with wire }) ∧
      Pending F s { l with wire } [] := by
  obtain ⟨wire, hread, hon⟩ := Feed.on_read_broken h.on_nil hend hn
  refine ⟨wire, ?_, h.of_on_nil hon⟩
  rw [read_of_drained h.staged_eq_nil, hread]

/-! ## Single bytes -/

theorem readByte_of_staged {b : UInt8} {more : Bytes} (hs : s.staged = b :: more) :
    s.readByte l = (.ok (some b), s.advance 1, l) := by
  unfold readByte
  rw [peek_eq, hs]
  simp

/-- With nothing staged a byte is asked for by way of the free part of the buffer, or
straight from the link when that part is empty. -/
theorem readByte_of_drained (hs : s.staged = []) :
    s.readByte l =
      match l.read (if s.room = 0 then 1 else s.room) with
      | (.error failure, l) => (.error failure, s, l)
      | (.ok [], l) => (.ok none, s, l)
      | (.ok (b :: rest), l) =>
        (.ok (some b), if s.room = 0 then s else (s.refill (b :: rest)).advance 1, l) := by
  unfold readByte
  rw [peek_eq, hs, List.take_nil]
  dsimp only
  by_cases hr : s.room = 0
  · rw [if_pos hr, if_pos hr]
    obtain ⟨received, l'⟩ := l.read 1
    cases received with
    | error failure => rfl
    | ok data =>
        cases data with
        | nil => rfl
        | cons b rest =>
            dsimp only
            rw [if_pos hr]
  · rw [if_neg hr, if_neg hr]
    obtain ⟨received, l'⟩ := l.read s.room
    cases received with
    | error failure => rfl
    | ok data =>
        cases data with
        | nil => rfl
        | cons b rest =>
            dsimp only
            rw [if_neg hr]

/-- **A byte comes off the front of the text**, wherever it lies. -/
theorem Pending.readByte {b : UInt8} (h : Pending F s l (b :: text)) :
    ∃ s' wire, s.readByte l = (.ok (some b), s', { l with wire }) ∧ Serves s s' 0 ∧
      Pending F s' { l with wire } text := by
  obtain ⟨coming, hon, heq⟩ := h.coming
  cases hs : s.staged with
  | cons c more =>
      rw [hs, List.cons_append, List.cons.injEq] at heq
      obtain ⟨rfl, rfl⟩ := heq
      refine ⟨s.advance 1, l.wire, readByte_of_staged hs,
        (serves_advance h.sound 1).mono (Nat.zero_le _), h.sound.advance (by simp [hs]),
        coming, hon, ?_⟩
      rw [staged_advance, hs, List.drop_one, List.tail_cons]
  | nil =>
      rw [hs, List.nil_append] at heq
      subst heq
      obtain ⟨piece, rest, wire, hread, hne, hle, heq, hrest⟩ :=
        Feed.on_read hon (List.cons_ne_nil b text)
          (n := if s.room = 0 then 1 else s.room) (by split <;> omega)
      obtain ⟨c, more, rfl⟩ := List.exists_cons_of_ne_nil hne
      rw [List.cons_append, List.cons.injEq] at heq
      obtain ⟨rfl, rfl⟩ := heq
      refine ⟨_, wire, by rw [readByte_of_drained hs, hread], ?_⟩
      -- Without room the piece is one byte long, and it is not stored anywhere.
      by_cases hr : s.room = 0
      · rw [if_pos hr] at hle ⊢
        have hmore : more = [] := List.eq_nil_of_length_eq_zero (by
          simp only [List.length_cons] at hle
          omega)
        exact ⟨serves_drained h.sound hs 0, h.sound, rest, hrest, by rw [hs, hmore]⟩
      · rw [if_neg hr]
        have hst := staged_refill h.sound (b :: more)
        refine ⟨((serves_refill h.sound _).trans
            (serves_advance (h.sound.refill _) 1)).mono (Nat.zero_le _),
          (h.sound.refill _).advance (by simp [hst]), rest, hrest, ?_⟩
        rw [staged_advance, hst, List.drop_one, List.tail_cons]

theorem Pending.readByte_finished (h : Pending F s l []) (hend : ending = .finished) :
    ∃ wire, s.readByte l = (.ok none, s, { l with wire }) ∧ Pending F s { l with wire } [] := by
  obtain ⟨wire, hread, hon⟩ := Feed.on_read_finished h.on_nil hend
    (n := if s.room = 0 then 1 else s.room) (by split <;> omega)
  refine ⟨wire, ?_, h.of_on_nil hon⟩
  rw [readByte_of_drained h.staged_eq_nil, hread]

theorem Pending.readByte_broken (h : Pending F s l []) {failure : TransportFailure}
    (hend : ending = .broken failure) :
    ∃ wire, s.readByte l = (.error failure, s, { l with wire }) ∧
      Pending F s { l with wire } [] := by
  obtain ⟨wire, hread, hon⟩ := Feed.on_read_broken h.on_nil hend
    (n := if s.room = 0 then 1 else s.room) (by split <;> omega)
  refine ⟨wire, ?_, h.of_on_nil hon⟩
  rw [readByte_of_drained h.staged_eq_nil, hread]

end Source

end HttpExchange
