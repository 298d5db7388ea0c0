import HttpExchange.Proofs.Inbound
import HttpExchange.Script.Peer

/-!
# Scripts as feeds

A script whose reads do not fail delivers its segments one after another, in pieces of the
size it is set to, and ends after the last of them. On a bare or a coalescing connection it
is a feed of the bytes of its segments.
-/

namespace HttpExchange

namespace Script

/-- The bytes that reads of a script bring, if none of them fails or is empty by setting. -/
def Brings (s : Script) (text : Bytes) : Prop :=
  s.failRead = none ∧ s.maxRead ≠ some 0 ∧ s.inbound.flatten = text

theorem atMost_pos {limit : Option Nat} {n : Nat} (hlimit : limit ≠ some 0) (hn : 0 < n) :
    0 < atMost limit n := by
  cases limit with
  | none => exact hn
  | some limit =>
      have hpos : limit ≠ 0 := fun h => hlimit (h ▸ rfl)
      show 0 < min n limit
      omega

/-- What is taken comes off the front of the segments. -/
theorem flatten_takeInbound (n : Nat) (inbound : List Bytes) :
    (takeInbound n inbound).1 ++ (takeInbound n inbound).2.flatten = inbound.flatten := by
  fun_induction takeInbound n inbound with
  | case1 => rfl
  | case2 rest ih => exact ih
  | case3 b bytes rest =>
      simp only [List.flatten_cons, ← List.append_assoc, List.take_append_drop]

theorem takeInbound_ne_nil {n : Nat} {inbound : List Bytes} (hn : 0 < n)
    (h : inbound.flatten ≠ []) : (takeInbound n inbound).1 ≠ [] := by
  fun_induction takeInbound n inbound with
  | case1 => exact absurd rfl h
  | case2 rest ih => exact ih h
  | case3 b bytes rest =>
      obtain ⟨k, rfl⟩ : ∃ k, n = k + 1 := ⟨n - 1, by omega⟩
      simp

theorem read_of_brings {s : Script} {text : Bytes} {n : Nat} (h : s.Brings text) :
    s.read n = (.ok (takeInbound (atMost s.maxRead n) s.inbound).1,
      { s with
        reads := s.reads + 1
        inbound := (takeInbound (atMost s.maxRead n) s.inbound).2 }) := by
  have hdue : due? s.failRead s.readsAllowed s.reads = none := by
    rw [h.1, due?]
    split <;> rfl
  unfold read
  rw [hdue]

/-- What a script brings, as a feed whose stream ends when the segments are used up. -/
def feed : Feed (Transport.read : Script → Nat → _) .finished where
  carries := Brings
  piece {s text n} h htext hn := by
    have hwhole := flatten_takeInbound (atMost s.maxRead n) s.inbound
    have hpos := atMost_pos h.2.1 hn
    refine ⟨_, _, _, read_of_brings h, takeInbound_ne_nil hpos ?_, ?_, ?_, h.1, h.2.1, rfl⟩
    · rw [h.2.2]
      exact htext
    · exact Nat.le_trans (takeInbound_length_le _ _) (atMost_le _ _)
    · rw [hwhole, h.2.2]
  finished {s n} _ h _ := by
    have hwhole := flatten_takeInbound (atMost s.maxRead n) s.inbound
    rw [h.2.2, List.append_eq_nil_iff] at hwhole
    refine ⟨{ s with
        reads := s.reads + 1
        inbound := (takeInbound (atMost s.maxRead n) s.inbound).2 }, ?_, h.1, h.2.1, hwhole.2⟩
    show s.read n = _
    rw [read_of_brings h, hwhole.1]
  broken hend := by cases hend

/-- A bare connection over a script that brings some segments. -/
def connected (segments : List Bytes) : Link Script :=
  ⟨.plain, .empty, { Script.empty with inbound := segments }, []⟩

def connectedFeed (segments : List Bytes) :
    Feed ((connected segments).connection.form.receive : Script → Nat → _) .finished := feed

theorem connectedFeed_carries (segments : List Bytes) {text : Bytes}
    (h : segments.flatten = text) :
    (connectedFeed segments).carries (connected segments).wire text :=
  ⟨rfl, Option.some_ne_none 0 ∘ Eq.symm, h⟩

end Script

end HttpExchange
