import HttpExchange.Log
import Mathlib.Data.List.Induction

/-!
# Complete and shortened log lines

However many parts a line is put together from, it holds as much of their text as there is
room for, and it knows whether something was cut off (`Line.Holds`). So the finished line is
the whole text, or the front of it with the mark of a shortened line, wherever among the parts
the room ends and whatever follows there.

One length is between the two: a text that fills the room to the last byte is not cut, but leaves
none for the newline. Its last byte gives way, and no mark says so
(`Line.complete_or_marked_iff`).
-/

namespace HttpExchange

namespace Line

variable {line : Line} {text : Bytes}

/-! ## What a line holds -/

/-- The line holds as much of a text as there is room for, and it knows whether that is all. -/
structure Holds (line : Line) (text : Bytes) : Prop where
  text_eq : line.text = text.take capacity
  truncated_iff : line.truncated = true ↔ capacity < text.length

theorem Holds.length_eq (h : line.Holds text) : line.text.length = min capacity text.length := by
  rw [h.text_eq, List.length_take]

theorem holds_empty : Holds empty [] := by
  refine ⟨rfl, ?_⟩
  simp [empty]

/-- What is appended is cut where the room ends, be it before, within or behind it. -/
theorem Holds.append (h : line.Holds text) (s : Bytes) : (line.append s).Holds (text ++ s) := by
  refine ⟨?_, ?_⟩
  · show line.text ++ s.take (capacity - line.text.length) = _
    rw [List.take_append, h.text_eq, List.length_take]
    congr 2
    omega
  · show (line.truncated || decide (capacity - line.text.length < s.length)) = true ↔ _
    rw [Bool.or_eq_true, h.truncated_iff, decide_eq_true_eq, h.length_eq, List.length_append]
    omega

theorem ofParts_append_singleton (parts : List Part) (part : Part) :
    ofParts (parts ++ [part]) = (ofParts parts).append part.bytes := by
  unfold ofParts
  rw [List.foldl_append]
  rfl

/-- **A line of parts holds their text**, whichever of them meets the end of the room. -/
theorem holds_ofParts (parts : List Part) : (ofParts parts).Holds (parts.flatMap Part.bytes) := by
  induction parts using List.reverseRecOn with
  | nil => exact holds_empty
  | append_singleton parts part ih =>
      rw [ofParts_append_singleton, List.flatMap_append, List.flatMap_singleton]
      exact ih.append part.bytes

/-! ## Finished lines -/

/-- How a text is to be shown: whole where it fits with its newline, else as much of it as leaves
room for the mark. -/
def marked (text : Bytes) : Bytes :=
  if text.length < capacity then text ++ ascii "\n" else text.take (capacity - 4) ++ ascii "...\n"

theorem mark_newline : ascii "...\n" = ascii "..." ++ ascii "\n" := rfl

theorem length_mark : (ascii "...\n").length = 4 := by decide

theorem finish_ends (line : Line) : ∃ front, line.finish = front ++ ascii "\n" := by
  unfold finish
  dsimp only
  split
  · rw [mark_newline, ← List.append_assoc]
    exact ⟨_, rfl⟩
  · split
    · exact ⟨line.text, rfl⟩
    · exact ⟨line.text.take (line.text.length - 1), rfl⟩

theorem length_finish_le (h : line.Holds text) : line.finish.length ≤ capacity := by
  have hlength := h.length_eq
  have hnewline : (ascii "\n").length = 1 := by decide
  unfold finish
  dsimp only
  split
  · rename_i hcut
    rw [List.length_append, List.length_take, length_mark]
    omega
  · split
    · rename_i hfits
      rw [List.length_append, hnewline]
      exact hfits
    · rename_i hfull
      rw [List.length_append, List.length_take, hnewline]
      have : 0 < capacity := by decide
      omega

theorem Holds.uncut (h : line.Holds text) (hle : text.length ≤ capacity) :
    line.text = text ∧ ¬ line.truncated = true := by
  rw [h.text_eq, h.truncated_iff]
  exact ⟨List.take_of_length_le hle, Nat.not_lt.mpr hle⟩

theorem finish_of_fits (h : line.Holds text) (hfits : text.length < capacity) :
    line.finish = text ++ ascii "\n" := by
  obtain ⟨hwhole, huncut⟩ := h.uncut (Nat.le_of_lt hfits)
  unfold finish
  dsimp only
  rw [if_neg (fun hcut => huncut hcut.1), hwhole, if_pos hfits]

/-- A line that was cut is full, so there is room for the mark in it. -/
theorem finish_of_exceeds (h : line.Holds text) (hexceeds : capacity < text.length) :
    line.finish = text.take (capacity - 4) ++ ascii "...\n" := by
  have hfull : line.text.length = capacity := by
    rw [h.length_eq, Nat.min_eq_left (Nat.le_of_lt hexceeds)]
  have hroom : 4 ≤ capacity := by decide
  unfold finish
  dsimp only
  rw [hfull, if_pos ⟨h.truncated_iff.mpr hexceeds, hroom⟩, h.text_eq, List.take_take,
    Nat.min_eq_left (Nat.sub_le ..)]

/-- A text that fills the line was not cut, so its last byte is lost unmarked. -/
theorem finish_of_fills (h : line.Holds text) (hfills : text.length = capacity) :
    line.finish = text.take (capacity - 1) ++ ascii "\n" := by
  obtain ⟨hwhole, huncut⟩ := h.uncut (Nat.le_of_eq hfills)
  unfold finish
  dsimp only
  rw [if_neg (fun hcut => huncut hcut.1), hwhole, hfills, if_neg (Nat.lt_irrefl _)]

/-- The two ways of ending a full line agree on a text that shows the mark by itself. -/
theorem fills_eq_marked_iff (hfills : text.length = capacity) :
    text.take (capacity - 1) ++ ascii "\n" = marked text ↔
      (text.drop (capacity - 4)).take 3 = ascii "..." := by
  have hsplit : text.take (capacity - 1)
      = text.take (capacity - 4) ++ (text.drop (capacity - 4)).take 3 := by
    rw [← List.take_add]
    rfl
  unfold marked
  rw [if_neg (by omega), mark_newline, hsplit, ← List.append_assoc, List.append_cancel_right_eq,
    List.append_cancel_left_eq]

/-- **A line is complete or visibly shortened, for every length of its text but one.** Whatever
parts it is put together from, it takes at most the room there is and ends in a newline. A text
that fits with its newline is there as a whole; of one that is longer than the room, all that
comes before the mark. A text that just fills the room loses its last byte, and for want of the
mark that is wrong unless the text itself has dots in the place of the mark. -/
theorem complete_or_marked_iff (parts : List Part) :
    let text := parts.flatMap Part.bytes
    let line := (ofParts parts).finish
    (line.length ≤ capacity ∧ ∃ front, line = front ++ ascii "\n") ∧
      (text.length < capacity → line = text ++ ascii "\n") ∧
      (capacity < text.length →
        line = text.take (capacity - 4) ++ ascii "...\n" ∧ line.length = capacity) ∧
      (text.length = capacity → line = text.take (capacity - 1) ++ ascii "\n") ∧
      (line = marked text ↔
        (text.length = capacity → (text.drop (capacity - 4)).take 3 = ascii "...")) := by
  intro text line
  have h : (ofParts parts).Holds text := holds_ofParts parts
  have hroom : 4 ≤ capacity := by decide
  refine ⟨⟨length_finish_le h, finish_ends _⟩, finish_of_fits h, ?_, finish_of_fills h, ?_⟩
  · intro hexceeds
    have hline : line = text.take (capacity - 4) ++ ascii "...\n" := finish_of_exceeds h hexceeds
    refine ⟨hline, ?_⟩
    rw [hline, List.length_append, List.length_take, length_mark]
    omega
  · rcases Nat.lt_trichotomy text.length capacity with hfits | hfills | hexceeds
    · have hline : line = text ++ ascii "\n" := finish_of_fits h hfits
      have hmarked : line = marked text := by rw [hline, marked, if_pos hfits]
      exact iff_of_true hmarked (fun hfills => absurd hfills (Nat.ne_of_lt hfits))
    · have hline : line = text.take (capacity - 1) ++ ascii "\n" := finish_of_fills h hfills
      rw [hline, fills_eq_marked_iff hfills]
      exact ⟨fun hdots _ => hdots, fun hdots => hdots hfills⟩
    · have hline : line = text.take (capacity - 4) ++ ascii "...\n" := finish_of_exceeds h hexceeds
      have hmarked : line = marked text := by
        rw [hline, marked, if_neg (Nat.not_lt.mpr (Nat.le_of_lt hexceeds))]
      exact iff_of_true hmarked (fun hfills => absurd hfills (Nat.ne_of_gt hexceeds))

/-- A text of 512 letters: the last one is lost, and the line does not show it. -/
theorem full_line_unmarked :
    (ofParts [.text (List.replicate 512 120)]).finish = List.replicate 511 120 ++ ascii "\n" ∧
      (ofParts [.text (List.replicate 512 120)]).finish
        ≠ marked (List.replicate 512 120) := by
  obtain ⟨-, -, -, hfills, hmarked⟩ := complete_or_marked_iff [.text (List.replicate 512 120)]
  have htext : [Part.text (List.replicate 512 120)].flatMap Part.bytes = List.replicate 512 120 :=
    List.flatMap_singleton ..
  rw [htext] at hfills hmarked
  have hlength : (List.replicate 512 (120 : UInt8)).length = capacity := List.length_replicate ..
  constructor
  · rw [hfills hlength, List.take_replicate]
    rfl
  · intro heq
    have hdots := hmarked.mp heq hlength
    rw [List.drop_replicate, List.take_replicate] at hdots
    exact absurd hdots (by decide)

end Line

end HttpExchange
