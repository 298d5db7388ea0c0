import HttpExchange.Header
import HttpExchange.Proofs.Lines

/-!
# Cursors over header lines

A text falls into lines, each with its CRLF but for the last one, which may lack it
(`Bytes.SplitsInto`). Cutting the lines off one at a time, as a cursor does, comes to the same
lines as cutting all of them at once (`Bytes.lines_eq_iff`, `Bytes.lines_eq_nextLine`). So a
cursor shows what the lines with a colon say, in their order (`Cursor.walk_advance`), and a loop
with it ends (`Cursor.visits_iff`).
-/

namespace HttpExchange

/-! ## Lines of a text -/

namespace Bytes

variable {s line rest : Bytes} {ls : List Bytes}

/-- Lines with a CRLF each; the last one may lack it, if it is not empty. -/
inductive SplitsInto : Bytes → List Bytes → Prop
  | nil : SplitsInto [] []
  | last {line : Bytes} : line ≠ [] → ¬ crlf <:+: line → SplitsInto line [line]
  | line {line rest : Bytes} {more : List Bytes} : ¬ crlf <:+: line → SplitsInto rest more →
    SplitsInto (line ++ crlf ++ rest) (line :: more)

theorem lines_last (h : ¬ crlf <:+: s) (hne : s ≠ []) : lines s = [s] := by
  induction s with
  | nil => exact absurd rfl hne
  | cons b s ih =>
      rw [List.infix_cons_iff, not_or] at h
      match s, ih, h with
      | [], _, _ => rfl
      | c :: s, ih, h =>
          rw [lines, if_neg, ih h.2 (List.cons_ne_nil c s)]
          rintro ⟨rfl, rfl⟩
          exact h.1 ⟨s, rfl⟩

theorem SplitsInto.lines_eq (h : SplitsInto s ls) : lines s = ls := by
  induction h with
  | nil => rfl
  | last hne hline => exact lines_last hline hne
  | line hline _ ih => rw [lines_line hline, ih]

theorem splitsInto_lines (s : Bytes) : SplitsInto s (lines s) := by
  induction hn : s.length using Nat.strong_induction_on generalizing s with
  | _ n ih =>
      by_cases hcrlf : crlf <:+: s
      · obtain ⟨line, rest, rfl, hline⟩ := exists_line hcrlf
        rw [lines_line hline]
        have hshorter : rest.length < n := by
          rw [← hn, List.append_assoc, List.length_append, List.length_append]
          exact Nat.lt_add_left _ (Nat.lt_add_of_pos_left (by decide))
        exact .line hline (ih _ hshorter rest rfl)
      · by_cases hne : s = []
        · exact hne ▸ .nil
        · rw [lines_last hcrlf hne]
          exact .last hne hcrlf

/-- **The lines of a text.** -/
theorem lines_eq_iff : lines s = ls ↔ SplitsInto s ls := by
  refine ⟨?_, SplitsInto.lines_eq⟩
  rintro rfl
  exact splitsInto_lines s

/-- To cut off the first line and then the lines behind it is to cut off all. -/
theorem lines_eq_nextLine (h : s ≠ []) : lines s = (nextLine s).1 :: lines (nextLine s).2 := by
  unfold nextLine
  cases hcut : cutLine s with
  | none => exact lines_last (cutLine_eq_none_iff.mp hcut) h
  | some found =>
      obtain ⟨rfl, hline⟩ := cutLine_eq_some_iff.mp hcut
      exact lines_line hline found.2

end Bytes

/-! ## Cursors -/

namespace Cursor

variable {c : Cursor} {hs : List Header}

/-- A loop with a cursor, up to the end. It looks at what the cursor shows and moves it on. -/
inductive Visits (next : Cursor → Cursor) : Cursor → List Header → Prop
  | ended {c : Cursor} : c.sameAs finish = true → Visits next c []
  | round {c : Cursor} {hs : List Header} : c.sameAs finish = false → Visits next (next c) hs →
    Visits next c (c.current :: hs)

theorem walk_of_done (h : c.done = true) : c.walk = [] := by
  rw [walk, sameAs_finish, if_pos h]

theorem walk_of_live (h : c.done = false) : c.walk = c.current :: c.advance.walk := by
  rw [walk, sameAs_finish, if_neg (h ▸ Bool.false_ne_true)]

/-- **A loop with a cursor** ends, and it comes by what the cursor walks over. -/
theorem visits_iff : Visits advance c hs ↔ hs = c.walk := by
  constructor
  · intro h
    induction h with
    | ended hdone => rw [walk, if_pos hdone]
    | round hlive _ ih => rw [walk, if_neg (hlive ▸ Bool.false_ne_true), ← ih]
  · rintro rfl
    fun_induction walk c with
    | case1 c hdone => exact .ended hdone
    | case2 c hlive ih => exact .round (Bool.eq_false_iff.mpr hlive) ih

/-- **What a cursor shows** behind a place is what the lines there say that have a colon. -/
theorem walk_advance (c : Cursor) :
    c.advance.walk = (Bytes.lines c.rest).filterMap Header.ofLine? := by
  -- A line is cut off in every step, be it that the cursor shows it or that it skips it.
  induction hn : c.rest.length using Nat.strong_induction_on generalizing c with
  | _ n ih =>
      by_cases hrest : c.rest = []
      · rw [advance, if_pos hrest, walk_of_done rfl, hrest]
        rfl
      · have hshorter : (Bytes.nextLine c.rest).2.length < n := hn ▸ Bytes.length_nextLine hrest
        rw [Bytes.lines_eq_nextLine hrest, advance, if_neg hrest]
        cases hof : Header.ofLine? (Bytes.nextLine c.rest).1 with
        | none =>
            rw [List.filterMap_cons_none hof]
            exact ih _ hshorter _ rfl
        | some header =>
            rw [List.filterMap_cons_some hof, walk_of_live rfl]
            exact congrArg (header :: ·) (ih _ hshorter _ rfl)

end Cursor

theorem HeaderBlock.headers_eq (block : HeaderBlock) :
    block.headers = (Bytes.lines block.raw).filterMap Header.ofLine? :=
  Cursor.walk_advance _

end HttpExchange
