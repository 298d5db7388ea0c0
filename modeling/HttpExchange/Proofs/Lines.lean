import Mathlib.Data.List.DropRight
import Mathlib.Data.List.Infix
import HttpExchange.Bytes

/-!
# Cutting texts

Where a text is cut: at the first byte of a kind, at the first CRLF, at the first empty line,
and at the blanks around it. Each way of cutting is the inverse of putting the parts together
again, as long as no part holds what it is cut at.

* `Bytes.cutAt?_eq_some_iff`, `Bytes.cutLine_eq_some_iff`: the parts of a text.
* `Bytes.cutBlankLine_crlf`: an empty line is found line by line.
* `Bytes.trim_of_trimmed`, `Bytes.exists_trim`: nothing is trimmed off a text but outer blanks.
-/

namespace HttpExchange

/-- What is decided for the numbers below 256 holds of all bytes. -/
theorem Byte.forall_of_fin {p : UInt8 → Prop} (h : ∀ n : Fin 256, p (UInt8.ofNat n))
    (b : UInt8) : p b := by
  have hb := h ⟨b.toNat, b.toNat_lt⟩
  rwa [UInt8.ofNat_toNat] at hb

theorem Byte.ofNat_eq {n : Nat} {b : UInt8} (h : n % 256 = b.toNat) : UInt8.ofNat n = b := by
  rw [← UInt8.toNat_inj, UInt8.toNat_ofNat']
  exact h

/-- Digits are neither blanks nor parts of a line break. -/
theorem Byte.plain_of_isDigit {b : UInt8} (h : Byte.isDigit b = true) :
    Byte.isBlank b = false ∧ b ≠ Byte.cr ∧ b ≠ Byte.lf := by
  have hne (c : UInt8) (hc : Byte.isDigit c = false) : b ≠ c := by
    rintro rfl
    rw [h] at hc
    cases hc
  refine ⟨?_, hne _ (by decide), hne _ (by decide)⟩
  simp [isBlank, hne sp (by decide), hne ht (by decide)]

namespace Bytes

variable {b : UInt8} {s line rest : Bytes}

/-! ## Cutting at a byte -/

theorem cutAt?_cons (b c : UInt8) (rest : Bytes) : cutAt? b (c :: rest) =
    if c = b then some ([], rest) else (cutAt? b rest).map fun (l, r) => (c :: l, r) := rfl

theorem cutAt?_append_left {left : Bytes} (h : b ∉ left) (s : Bytes) :
    cutAt? b (left ++ s) = (cutAt? b s).map fun (l, r) => (left ++ l, r) := by
  induction left with
  | nil => cases hcut : cutAt? b s <;> simp [hcut]
  | cons c left ih =>
      rw [List.mem_cons, not_or] at h
      rw [List.cons_append, cutAt?_cons, if_neg (Ne.symm h.1), ih h.2, Option.map_map]
      rfl

theorem cutAt?_append {left : Bytes} (h : b ∉ left) (right : Bytes) :
    cutAt? b (left ++ b :: right) = some (left, right) := by
  rw [cutAt?_append_left h, cutAt?_cons, if_pos rfl, Option.map_some]
  dsimp only
  rw [List.append_nil]

theorem cutAt?_eq_none_iff : cutAt? b s = none ↔ b ∉ s := by
  induction s with
  | nil => exact ⟨fun _ => List.not_mem_nil, fun _ => rfl⟩
  | cons c s ih =>
      rw [cutAt?_cons, List.mem_cons, not_or, ← ih]
      by_cases hc : c = b
      · simp [hc]
      · simp [hc, Ne.symm hc]

/-- **A text is cut at the first byte of a kind.** -/
theorem cutAt?_eq_some_iff {left right : Bytes} :
    cutAt? b s = some (left, right) ↔ s = left ++ b :: right ∧ b ∉ left := by
  constructor
  · intro h
    -- The byte occurs, so there is a first place where it does.
    have hmem : b ∈ s := by
      by_contra hb
      rw [cutAt?_eq_none_iff.mpr hb] at h
      cases h
    obtain ⟨left', right', rfl, hleft⟩ := List.eq_append_cons_of_mem hmem
    rw [cutAt?_append hleft] at h
    cases h
    exact ⟨rfl, hleft⟩
  · rintro ⟨rfl, hleft⟩
    exact cutAt?_append hleft right

/-! ## Cutting at a CRLF -/

theorem cutLine_cons (b c : UInt8) (rest : Bytes) : cutLine (b :: c :: rest) =
    if b = Byte.cr ∧ c = Byte.lf then some ([], rest)
    else (cutLine (c :: rest)).map fun (l, r) => (b :: l, r) := rfl

theorem no_crlf_of_not_mem (h : Byte.cr ∉ s) : ¬ crlf <:+: s :=
  fun hcrlf => h (hcrlf.subset List.mem_cons_self)

/-- A CR that ends a line does not start a CRLF with the CR behind it. -/
theorem not_crlf_prefix_append (hline : ¬ crlf <+: line) (rest : Bytes) (hne : line ≠ []) :
    ¬ crlf <+: line ++ crlf ++ rest := by
  rintro ⟨more, h⟩
  match line, hne with
  | [b], _ =>
      have := (List.cons.inj (List.cons.inj h).2).1
      exact absurd this (by decide)
  | b :: c :: line', _ =>
      have hb := (List.cons.inj h).1
      have hc := (List.cons.inj (List.cons.inj h).2).1
      exact hline ⟨line', by rw [← hb, ← hc]; rfl⟩

theorem cutLine_cons_of_not_crlf (h : ¬ crlf <+: b :: s) :
    cutLine (b :: s) = (cutLine s).map fun (l, r) => (b :: l, r) := by
  cases s with
  | nil => rfl
  | cons c s =>
      rw [cutLine_cons, if_neg]
      rintro ⟨rfl, rfl⟩
      exact h ⟨s, rfl⟩

theorem cutLine_line (h : ¬ crlf <:+: line) (rest : Bytes) :
    cutLine (line ++ crlf ++ rest) = some (line, rest) := by
  induction line with
  | nil => exact if_pos ⟨rfl, rfl⟩
  | cons b line ih =>
      rw [List.infix_cons_iff, not_or] at h
      rw [List.cons_append, List.cons_append, cutLine_cons_of_not_crlf, ih h.2]
      · rfl
      · exact not_crlf_prefix_append h.1 rest (List.cons_ne_nil b line)

/-- A text with a CRLF has a first line. -/
theorem exists_line (h : crlf <:+: s) : ∃ line rest, s = line ++ crlf ++ rest ∧ ¬ crlf <:+: line := by
  induction s with
  | nil => exact absurd h (by decide)
  | cons b s ih =>
      by_cases hfirst : crlf <+: b :: s
      · obtain ⟨rest, hrest⟩ := hfirst
        exact ⟨[], rest, hrest.symm, by decide⟩
      · obtain ⟨line, rest, rfl, hline⟩ := ih ((List.infix_cons_iff.mp h).resolve_left hfirst)
        refine ⟨b :: line, rest, rfl, ?_⟩
        rw [List.infix_cons_iff, not_or]
        refine ⟨fun hstart => hfirst (hstart.trans ?_), hline⟩
        rw [← List.cons_append, ← List.cons_append, List.append_assoc]
        exact List.prefix_append ..

theorem cutLine_eq_none_iff : cutLine s = none ↔ ¬ crlf <:+: s := by
  constructor
  · intro h hcrlf
    obtain ⟨line, rest, rfl, hline⟩ := exists_line hcrlf
    rw [cutLine_line hline] at h
    cases h
  · intro h
    induction s with
    | nil => rfl
    | cons b s ih =>
        rw [List.infix_cons_iff, not_or] at h
        rw [cutLine_cons_of_not_crlf h.1, ih h.2]
        rfl

/-- **A text is cut at its first CRLF.** -/
theorem cutLine_eq_some_iff :
    cutLine s = some (line, rest) ↔ s = line ++ crlf ++ rest ∧ ¬ crlf <:+: line := by
  constructor
  · intro h
    have hcrlf : crlf <:+: s := by
      by_contra hcrlf
      rw [cutLine_eq_none_iff.mpr hcrlf] at h
      cases h
    obtain ⟨line', rest', rfl, hline⟩ := exists_line hcrlf
    rw [cutLine_line hline] at h
    cases h
    exact ⟨rfl, hline⟩
  · rintro ⟨rfl, hline⟩
    exact cutLine_line hline rest

theorem cutLine_append (h : cutLine s = some (line, rest)) (more : Bytes) :
    cutLine (s ++ more) = some (line, rest ++ more) := by
  obtain ⟨rfl, hline⟩ := cutLine_eq_some_iff.mp h
  rw [List.append_assoc, cutLine_line hline]

/-! ## Cutting at an empty line -/

theorem cutBlankLine_cons (b c d e : UInt8) (rest : Bytes) :
    cutBlankLine (b :: c :: d :: e :: rest) =
      if b = Byte.cr ∧ c = Byte.lf ∧ d = Byte.cr ∧ e = Byte.lf then some ([], rest)
      else (cutBlankLine (c :: d :: e :: rest)).map fun (l, r) => (b :: l, r) := rfl

theorem cutBlankLine_cons_of_not_blank (h : ¬ crlf ++ crlf <+: b :: s) :
    cutBlankLine (b :: s) = (cutBlankLine s).map fun (l, r) => (b :: l, r) := by
  match s with
  | [] => rfl
  | [c] => rfl
  | [c, d] => rfl
  | c :: d :: e :: s =>
      rw [cutBlankLine_cons, if_neg]
      rintro ⟨rfl, rfl, rfl, rfl⟩
      exact h ⟨s, rfl⟩

theorem cutBlankLine_blank (rest : Bytes) :
    cutBlankLine (crlf ++ (crlf ++ rest)) = some ([], rest) := by
  show cutBlankLine (Byte.cr :: Byte.lf :: Byte.cr :: Byte.lf :: rest) = some ([], rest)
  rw [cutBlankLine_cons, if_pos ⟨rfl, rfl, rfl, rfl⟩]

/-- No empty line starts within a line. -/
theorem cutBlankLine_line (h : ¬ crlf <:+: line) (rest : Bytes) :
    cutBlankLine (line ++ crlf ++ rest)
      = (cutBlankLine (crlf ++ rest)).map fun (l, r) => (line ++ l, r) := by
  induction line with
  | nil => cases hcut : cutBlankLine (crlf ++ rest) <;> simp [hcut]
  | cons b line ih =>
      rw [List.infix_cons_iff, not_or] at h
      rw [List.cons_append, List.cons_append, cutBlankLine_cons_of_not_blank, ih h.2,
        Option.map_map]
      · rfl
      · intro hblank
        refine not_crlf_prefix_append h.1 rest (List.cons_ne_nil b line) ?_
        exact (List.prefix_append crlf crlf).trans hblank

theorem eq_of_cutBlankLine {front : Bytes} (h : cutBlankLine s = some (front, rest)) :
    s = front ++ crlf ++ crlf ++ rest := by
  fun_induction cutBlankLine s generalizing front with
  | case1 => cases h
  | case2 b c d e after hb =>
      obtain ⟨rfl, rfl, rfl, rfl⟩ := hb
      cases h
      rfl
  | case3 b c d e after hb ih =>
      cases hcut : cutBlankLine (c :: d :: e :: after) with
      | none => rw [hcut] at h; cases h
      | some found =>
          rw [hcut] at h
          cases h
          rw [ih hcut]
          rfl
  | case4 => cases h

/-- What follows a CRLF is searched for an empty line one line at a time: the next line is
empty, or the empty line comes behind it. -/
theorem cutBlankLine_crlf (s : Bytes) : cutBlankLine (crlf ++ s) =
    match cutLine s with
    | none => none
    | some ([], rest) => some ([], rest)
    | some (b :: line, rest) => (cutBlankLine (crlf ++ rest)).map fun (l, r) =>
        (crlf ++ b :: line ++ l, r) := by
  cases hcut : cutLine s with
  | none =>
      have hs := cutLine_eq_none_iff.mp hcut
      cases hblank : cutBlankLine (crlf ++ s) with
      | none => rfl
      | some found =>
          -- The second CRLF of an empty line would stand in `s`.
          obtain ⟨front, after⟩ := found
          have htext := congrArg (List.drop crlf.length) (eq_of_cutBlankLine hblank)
          have hle : crlf.length ≤ (front ++ crlf).length := by
            rw [List.length_append]
            omega
          rw [List.drop_left, List.append_assoc, List.drop_append_of_le_length hle,
            ← List.append_assoc] at htext
          exact absurd ⟨_, _, htext.symm⟩ hs
  | some found =>
      obtain ⟨line, rest⟩ := found
      obtain ⟨rfl, hline⟩ := cutLine_eq_some_iff.mp hcut
      cases line with
      | nil => exact cutBlankLine_blank rest
      | cons b line =>
          have hne : ¬ crlf <+: b :: line ++ crlf ++ rest :=
            not_crlf_prefix_append (fun h => hline h.isInfix) rest (List.cons_ne_nil b line)
          have hcr : ¬ crlf ++ crlf <+: Byte.cr :: Byte.lf :: (b :: line ++ crlf ++ rest) := by
            show ¬ crlf ++ crlf <+: crlf ++ _
            rwa [List.prefix_append_right_inj]
          have hlf : ¬ crlf ++ crlf <+: Byte.lf :: (b :: line ++ crlf ++ rest) := by
            rintro ⟨more, h⟩
            exact absurd (List.cons.inj h).1 (by decide)
          show cutBlankLine (Byte.cr :: Byte.lf :: (b :: line ++ crlf ++ rest)) = _
          rw [cutBlankLine_cons_of_not_blank hcr, cutBlankLine_cons_of_not_blank hlf,
            cutBlankLine_line hline, Option.map_map, Option.map_map]
          rfl

theorem cutBlankLine_append {front : Bytes} (h : cutBlankLine s = some (front, rest))
    (more : Bytes) : cutBlankLine (s ++ more) = some (front, rest ++ more) := by
  fun_induction cutBlankLine s generalizing front with
  | case1 => cases h
  | case2 b c d e after hb =>
      cases h
      show cutBlankLine (b :: c :: d :: e :: (rest ++ more)) = _
      rw [cutBlankLine_cons, if_pos hb]
  | case3 b c d e after hb ih =>
      cases hcut : cutBlankLine (c :: d :: e :: after) with
      | none => rw [hcut] at h; cases h
      | some found =>
          rw [hcut] at h
          cases h
          have := ih hcut
          show cutBlankLine (b :: c :: d :: e :: (after ++ more)) = _
          rw [cutBlankLine_cons, if_neg hb]
          show Option.map _ (cutBlankLine (c :: d :: e :: after ++ more)) = _
          rw [this]
          rfl
  | case4 => cases h

theorem cutBlankLine_eq_none_iff : cutBlankLine s = none ↔ ¬ crlf ++ crlf <:+: s := by
  induction s with
  | nil => exact ⟨fun _ => by decide, fun _ => rfl⟩
  | cons b s ih =>
      rw [List.infix_cons_iff, not_or]
      by_cases hblank : crlf ++ crlf <+: b :: s
      · obtain ⟨rest, hrest⟩ := hblank
        have hcut : cutBlankLine (b :: s) = some ([], rest) := by
          rw [← hrest, List.append_assoc, cutBlankLine_blank]
        have hstart : crlf ++ crlf <+: b :: s := ⟨rest, hrest⟩
        simp [hcut, hstart]
      · rw [cutBlankLine_cons_of_not_blank hblank, Option.map_eq_none_iff, ih]
        exact ⟨fun h => ⟨hblank, h⟩, And.right⟩

/-! ## Lines -/

/-- Some lines, each with its CRLF. -/
def unlines (lines : List Bytes) : Bytes := lines.flatMap (· ++ crlf)

/-- A line that is not empty. -/
def IsLine (line : Bytes) : Prop := line ≠ [] ∧ ¬ crlf <:+: line

theorem unlines_cons (line : Bytes) (more : List Bytes) :
    unlines (line :: more) = line ++ crlf ++ unlines more := List.flatMap_cons

theorem lines_line (h : ¬ crlf <:+: line) (rest : Bytes) :
    lines (line ++ crlf ++ rest) = line :: lines rest := by
  induction line with
  | nil =>
      show lines (Byte.cr :: Byte.lf :: rest) = [] :: lines rest
      rw [lines, if_pos ⟨rfl, rfl⟩]
  | cons b line ih =>
      rw [List.infix_cons_iff, not_or] at h
      have hcrlf := not_crlf_prefix_append h.1 rest (List.cons_ne_nil b line)
      obtain ⟨c, more, hmore⟩ : ∃ c more, line ++ crlf ++ rest = c :: more :=
        List.exists_cons_of_ne_nil (by simp [crlf])
      have hlines := ih h.2
      rw [List.cons_append, List.cons_append, hmore] at hcrlf ⊢
      rw [hmore] at hlines
      rw [lines, if_neg, hlines]
      rintro ⟨rfl, rfl⟩
      exact hcrlf ⟨more, rfl⟩

theorem lines_unlines {fields : List Bytes} (h : ∀ line ∈ fields, IsLine line) :
    lines (unlines fields) = fields := by
  induction fields with
  | nil => rfl
  | cons line more ih =>
      rw [List.forall_mem_cons] at h
      rw [unlines_cons, lines_line h.1.2, ih h.2]

theorem cutBlankLine_unlines {fields : List Bytes} (h : ∀ line ∈ fields, IsLine line)
    (after : Bytes) : ∃ front, cutBlankLine (crlf ++ (unlines fields ++ (crlf ++ after)))
      = some (front, after) ∧ front ++ crlf = crlf ++ unlines fields := by
  induction fields with
  | nil => exact ⟨[], cutBlankLine_blank after, rfl⟩
  | cons line more ih =>
      rw [List.forall_mem_cons] at h
      obtain ⟨b, line, rfl⟩ := List.exists_cons_of_ne_nil h.1.1
      obtain ⟨front, hcut, hfront⟩ := ih h.2
      rw [unlines_cons, List.append_assoc, cutBlankLine_crlf, cutLine_line h.1.2]
      dsimp only
      rw [hcut]
      refine ⟨_, rfl, ?_⟩
      rw [List.append_assoc, hfront]
      simp only [List.append_assoc]

/-- **The lines up to an empty one.** -/
theorem cutBlankLine_crlf_iff {front after : Bytes} :
    cutBlankLine (crlf ++ s) = some (front, after) ↔
      ∃ fields, (∀ line ∈ fields, IsLine line) ∧ s = unlines fields ++ (crlf ++ after) ∧
        front ++ crlf = crlf ++ unlines fields := by
  constructor
  · intro h
    induction hn : s.length using Nat.strong_induction_on generalizing s front with
    | _ n ih =>
        rw [cutBlankLine_crlf] at h
        cases hcut : cutLine s with
        | none => rw [hcut] at h; cases h
        | some found =>
            obtain ⟨line, rest⟩ := found
            have hshorter := length_of_cutLine hcut
            obtain ⟨rfl, hline⟩ := cutLine_eq_some_iff.mp hcut
            rw [hcut] at h
            cases line with
            | nil =>
                cases h
                exact ⟨[], fun _ h => absurd h List.not_mem_nil, rfl, rfl⟩
            | cons b line =>
                obtain ⟨⟨front', after'⟩, hrest, heq⟩ := Option.map_eq_some_iff.mp h
                cases heq
                obtain ⟨fields, hfields, rfl, hfront⟩ := ih _ (by omega) hrest rfl
                refine ⟨(b :: line) :: fields, List.forall_mem_cons.mpr
                  ⟨⟨List.cons_ne_nil b line, hline⟩, hfields⟩, ?_, ?_⟩
                · rw [unlines_cons]
                  simp only [List.append_assoc]
                · rw [List.append_assoc, hfront, unlines_cons]
                  simp only [List.append_assoc, List.cons_append]
  · rintro ⟨fields, hfields, rfl, hfront⟩
    obtain ⟨front', hcut, hfront'⟩ := cutBlankLine_unlines hfields after
    rw [hcut, List.append_cancel_right (hfront'.trans hfront.symm)]

/-- Up to an empty line a text is made of lines. -/
theorem exists_fields (h : crlf ++ crlf <:+: crlf ++ s) :
    ∃ fields after, (∀ line ∈ fields, IsLine line) ∧ s = unlines fields ++ (crlf ++ after) := by
  cases hcut : cutBlankLine (crlf ++ s) with
  | none => exact absurd h (cutBlankLine_eq_none_iff.mp hcut)
  | some found =>
      obtain ⟨fields, hfields, hs, -⟩ := cutBlankLine_crlf_iff.mp hcut
      exact ⟨fields, found.2, hfields, hs⟩

/-! ## Texts within a line -/

/-- There is no line break in a text, nor a part of one. -/
def OneLine (s : Bytes) : Prop := ∀ b ∈ s, b ≠ Byte.cr ∧ b ≠ Byte.lf

-- The instances go by the bytes of the text: one for a bounded quantifier over a finite type
-- would go by all the bytes there are.
instance (s : Bytes) : Decidable s.OneLine :=
  List.decidableBAll (fun b => b ≠ Byte.cr ∧ b ≠ Byte.lf) s

/-- There is no blank at either end of a text. -/
def Trimmed (s : Bytes) : Prop :=
  (∀ b ∈ s.head?, Byte.isBlank b = false) ∧ ∀ b ∈ s.getLast?, Byte.isBlank b = false

instance (s : Bytes) : Decidable s.Trimmed :=
  haveI (o : Option UInt8) : Decidable (∀ b ∈ o, Byte.isBlank b = false) :=
    Option.decidableForallMem o
  inferInstanceAs (Decidable
    ((∀ b ∈ s.head?, Byte.isBlank b = false) ∧ ∀ b ∈ s.getLast?, Byte.isBlank b = false))

theorem OneLine.append {t : Bytes} (hs : s.OneLine) (ht : t.OneLine) : OneLine (s ++ t) := by
  intro b hb
  rcases List.mem_append.mp hb with hb | hb
  · exact hs b hb
  · exact ht b hb

theorem OneLine.no_crlf (h : s.OneLine) : ¬ crlf <:+: s :=
  no_crlf_of_not_mem fun hcr => (h _ hcr).1 rfl

theorem trimmed_of_no_blank (h : ∀ b ∈ s, Byte.isBlank b = false) : s.Trimmed :=
  ⟨fun b hb => h b (List.mem_of_mem_head? hb), fun b hb => h b (List.mem_of_mem_getLast? hb)⟩

theorem dropWhile_isBlank (h : ∀ b ∈ s.head?, Byte.isBlank b = false) :
    s.dropWhile Byte.isBlank = s := by
  cases s with
  | nil => rfl
  | cons b s =>
      have hb := h b rfl
      rw [List.dropWhile_cons_of_neg (by rw [hb]; exact Bool.false_ne_true)]

theorem trim_of_trimmed (h : s.Trimmed) : trim s = s := by
  unfold trim
  rw [dropWhile_isBlank h.1, dropWhile_isBlank, List.reverse_reverse]
  rw [List.head?_reverse]
  exact h.2

theorem trim_cons_of_isBlank (h : Byte.isBlank b = true) (s : Bytes) : trim (b :: s) = trim s := by
  unfold trim
  rw [List.dropWhile_cons_of_pos h]

/-! ## Blanks around a text -/

/-- There is nothing in a text but blanks. -/
def Blank (s : Bytes) : Prop := ∀ b ∈ s, Byte.isBlank b = true

theorem Blank.not_mem (h : s.Blank) (hb : Byte.isBlank b = false) : b ∉ s := by
  intro hmem
  rw [h b hmem] at hb
  cases hb

theorem dropWhile_blank_append (h : s.Blank) (t : Bytes) :
    (s ++ t).dropWhile Byte.isBlank = t.dropWhile Byte.isBlank := by
  simp [List.dropWhile_append, List.dropWhile_eq_nil_iff.mpr h]

theorem rdropWhile_append_blank (h : s.Blank) (t : Bytes) :
    (t ++ s).rdropWhile Byte.isBlank = t.rdropWhile Byte.isBlank := by
  unfold List.rdropWhile
  rw [List.reverse_append, dropWhile_blank_append]
  exact fun b hb => h b (List.mem_reverse.mp hb)

theorem trim_eq (s : Bytes) :
    trim s = (s.dropWhile Byte.isBlank).rdropWhile Byte.isBlank := rfl

/-- What trimming takes off are blanks, and no outer blank is left. -/
theorem exists_trim (s : Bytes) : ∃ left right, s = left ++ (trim s ++ right) ∧
    left.Blank ∧ right.Blank ∧ (trim s).Trimmed := by
  have hleft := List.takeWhile_append_dropWhile (p := Byte.isBlank) (l := s)
  have hright := List.rdropWhile_append_rtakeWhile (p := Byte.isBlank)
    (l := s.dropWhile Byte.isBlank)
  refine ⟨s.takeWhile Byte.isBlank, (s.dropWhile Byte.isBlank).rtakeWhile Byte.isBlank,
    ?_, ?_, ?_, ?_, ?_⟩
  · rw [trim_eq, hright, hleft]
  · exact fun b hb => List.mem_takeWhile_imp hb
  · exact fun b hb => List.mem_rtakeWhile_imp hb
  · intro b hb
    -- The first byte that trimming leaves is the first one that is not dropped on the left.
    have hb' : b ∈ (s.dropWhile Byte.isBlank).head? := by
      rw [← hright, List.head?_append, ← trim_eq, Option.mem_def.mp hb]
      rfl
    have := List.head?_dropWhile_not Byte.isBlank s
    rw [Option.mem_def.mp hb'] at this
    simpa using this
  · intro b hb
    rw [trim, List.getLast?_reverse] at hb
    have := List.head?_dropWhile_not Byte.isBlank (s.dropWhile Byte.isBlank).reverse
    rw [Option.mem_def.mp hb] at this
    simpa using this

/-- Blanks around a text do not matter to what trimming leaves of it. -/
theorem trim_append_append {left right : Bytes} (hleft : left.Blank) (hright : right.Blank)
    (t : Bytes) : trim (left ++ (t ++ right)) = trim t := by
  rw [trim_eq, trim_eq, dropWhile_blank_append hleft, List.dropWhile_append]
  split
  · rename_i hblank
    rw [List.dropWhile_eq_nil_iff.mpr hright, List.isEmpty_iff.mp hblank]
  · exact rdropWhile_append_blank hright _

theorem trim_trim (s : Bytes) : trim (trim s) = trim s := by
  obtain ⟨left, right, -, -, -, htrimmed⟩ := exists_trim s
  exact trim_of_trimmed htrimmed

end Bytes

end HttpExchange
