import HttpExchange.Proofs.HeadLanguage
import HttpExchange.Proofs.HeaderCursor

/-!
# What header lines say

A header line says something under a name, which counts in any case. Where several lines have
the same name, the first of them is found (`HeaderBlock.find?_eq_some_iff`). A list in a line is
cut at its commas, and a piece of it names a word if nothing but blanks and parameters stand
around the word (`Bytes.hasToken_iff`).
-/

namespace HttpExchange

theorem Byte.isBlank_lower (b : UInt8) : isBlank (lower b) = isBlank b :=
  forall_of_fin (p := fun b => isBlank (lower b) = isBlank b) (by decide +kernel) b

theorem Byte.lower_eq_semicolon {b : UInt8} : lower b = semicolon ↔ b = semicolon :=
  forall_of_fin (p := fun b => lower b = semicolon ↔ b = semicolon) (by decide +kernel) b

namespace Bytes

variable {sep b : UInt8} {s piece word : Bytes}

/-! ## Pieces between separators -/

/-- What stands in a text between two separators, or between one and an end of the text. -/
def IsPiece (sep : UInt8) (s piece : Bytes) : Prop :=
  sep ∉ piece ∧ ∃ left right, s = left ++ (piece ++ right) ∧
    (left = [] ∨ ∃ front, left = front ++ [sep]) ∧ (right = [] ∨ ∃ back, right = sep :: back)

theorem fields_piece (h : sep ∉ piece) (rest : Bytes) :
    fields sep (piece ++ sep :: rest) = piece :: fields sep rest := by
  induction piece with
  | nil => simp [fields]
  | cons b piece ih =>
      rw [List.mem_cons, not_or] at h
      simp [fields, ih h.2, Ne.symm h.1]

theorem fields_last (h : sep ∉ piece) (hne : piece ≠ []) : fields sep piece = [piece] := by
  induction piece with
  | nil => exact absurd rfl hne
  | cons b piece ih =>
      rw [List.mem_cons, not_or] at h
      by_cases hpiece : piece = []
      · simp [fields, hpiece, Ne.symm h.1]
      · simp [fields, ih h.2 hpiece, Ne.symm h.1]

/-- Up to a separator and behind it a text is cut without regard to the other part. -/
theorem fields_append (front rest : Bytes) :
    fields sep (front ++ sep :: rest) = fields sep (front ++ [sep]) ++ fields sep rest := by
  induction h : front.length using Nat.strong_induction_on generalizing front with
  | _ n ih =>
      by_cases hmem : sep ∈ front
      · obtain ⟨piece, front', rfl, hpiece⟩ := List.eq_append_cons_of_mem hmem
        have hshorter : front'.length < n := by
          rw [← h, List.length_append, List.length_cons]
          omega
        simp only [List.append_assoc, List.cons_append, fields_piece hpiece,
          ih _ hshorter front' rfl]
      · rw [fields_piece hmem, fields_piece hmem]
        rfl

/-- **The pieces that separators cut a text into.** -/
theorem mem_fields_iff (hne : piece ≠ []) : piece ∈ fields sep s ↔ IsPiece sep s piece := by
  constructor
  · intro h
    induction hn : s.length using Nat.strong_induction_on generalizing s with
    | _ n ih =>
        by_cases hmem : sep ∈ s
        · obtain ⟨first, rest, rfl, hfirst⟩ := List.eq_append_cons_of_mem hmem
          have hshorter : rest.length < n := by
            rw [← hn, List.length_append, List.length_cons]
            omega
          rw [fields_piece hfirst, List.mem_cons] at h
          rcases h with rfl | h
          · exact ⟨hfirst, [], sep :: rest, rfl, .inl rfl, .inr ⟨rest, rfl⟩⟩
          · obtain ⟨hpiece, left, right, rfl, hleft, hright⟩ := ih _ hshorter h rfl
            refine ⟨hpiece, first ++ sep :: left, right, by simp, .inr ?_, hright⟩
            rcases hleft with rfl | ⟨front, rfl⟩
            · exact ⟨first, rfl⟩
            · exact ⟨first ++ sep :: front, by simp⟩
        · have hs : s ≠ [] := by
            rintro rfl
            exact absurd h List.not_mem_nil
          rw [fields_last hmem hs, List.mem_singleton] at h
          subst h
          exact ⟨hmem, [], [], by simp, .inl rfl, .inl rfl⟩
  · rintro ⟨hpiece, left, right, rfl, hleft, hright⟩
    have hfirst : piece ∈ fields sep (piece ++ right) := by
      rcases hright with rfl | ⟨back, rfl⟩
      · rw [List.append_nil, fields_last hpiece hne]
        exact List.mem_singleton_self piece
      · rw [fields_piece hpiece]
        exact List.mem_cons_self
    rcases hleft with rfl | ⟨front, rfl⟩
    · exact hfirst
    · rw [List.append_assoc, List.singleton_append, fields_append]
      exact List.mem_append_right _ hfirst

/-! ## Words of a list -/

/-- A word with blanks around it, and with parameters behind it or without. -/
def IsItem (piece word : Bytes) : Prop :=
  ∃ left right tail, piece = left ++ (word ++ (right ++ tail)) ∧ left.Blank ∧ right.Blank ∧
    (tail = [] ∨ ∃ parameters, tail = Byte.semicolon :: parameters)

/-- A list with commas holds a word in some case. -/
def Lists (list word : Bytes) : Prop :=
  ∃ piece spelling, IsPiece Byte.comma list piece ∧ IsItem piece spelling ∧
    equalsIgnoringCase spelling word = true

/-- A word without blanks and parameters. -/
structure IsWord (word : Bytes) : Prop where
  ne_nil : word ≠ []
  noBlank : ∀ b ∈ word, Byte.isBlank b = false
  noSemicolon : Byte.semicolon ∉ word

theorem before_append (h : b ∉ s) (t : Bytes) : before b (s ++ t) = s ++ before b t := by
  unfold before
  rw [List.takeWhile_append_of_pos]
  intro c hc
  have hne : c ≠ b := fun heq => h (heq ▸ hc)
  simpa using hne

theorem before_of_not_mem (h : b ∉ s) : before b s = s := by
  simpa [before] using before_append h []

theorem exists_before (b : UInt8) (s : Bytes) :
    ∃ tail, s = before b s ++ tail ∧ (tail = [] ∨ ∃ rest, tail = b :: rest) := by
  refine ⟨s.dropWhile (· != b), List.takeWhile_append_dropWhile.symm, ?_⟩
  cases htail : s.dropWhile (· != b) with
  | nil => exact .inl rfl
  | cons c rest =>
      have hstop := List.head?_dropWhile_not (· != b) s
      rw [htail] at hstop
      have hc : c = b := by simpa using hstop
      exact .inr ⟨rest, by rw [hc]⟩

/-- Of an item without its parameters the blanks around it do not matter. -/
theorem trim_before_trim (hb : Byte.isBlank b = false) (s : Bytes) :
    trim (before b (trim s)) = trim (before b s) := by
  obtain ⟨left, right, hs, hleft, hright, -⟩ := exists_trim s
  generalize trim s = t at hs
  subst hs
  rw [before_append (hleft.not_mem hb)]
  by_cases hmem : b ∈ t
  · obtain ⟨front, back, rfl, hfront⟩ := List.eq_append_cons_of_mem hmem
    have hstop (more : Bytes) : before b (front ++ b :: more) = front := by
      rw [before_append hfront]
      simp [before]
    rw [List.append_assoc, List.cons_append, hstop, hstop]
    have hnil : Blank [] := fun c hc => absurd hc List.not_mem_nil
    simpa using (trim_append_append hleft hnil front).symm
  · have hno : b ∉ t ++ right := by simp [hmem, hright.not_mem hb]
    rw [before_of_not_mem hmem, before_of_not_mem hno, trim_append_append hleft hright]

theorem isItem_trim (piece : Bytes) :
    IsItem piece (trim (before Byte.semicolon (trim piece))) := by
  rw [trim_before_trim (by decide)]
  obtain ⟨tail, hpiece, htail⟩ := exists_before Byte.semicolon piece
  obtain ⟨left, right, hbefore, hleft, hright, -⟩ := exists_trim (before Byte.semicolon piece)
  refine ⟨left, right, tail, ?_, hleft, hright, htail⟩
  calc piece = before Byte.semicolon piece ++ tail := hpiece
    _ = left ++ (trim (before Byte.semicolon piece) ++ right) ++ tail := by rw [← hbefore]
    _ = _ := by simp only [List.append_assoc]

theorem IsItem.trim_eq (h : IsItem piece word) (hword : IsWord word) :
    trim (before Byte.semicolon (trim piece)) = word := by
  rw [trim_before_trim (by decide)]
  obtain ⟨left, right, tail, rfl, hleft, hright, htail⟩ := h
  have htail' : before Byte.semicolon tail = [] := by
    rcases htail with rfl | ⟨parameters, rfl⟩
    · rfl
    · simp [before]
  rw [before_append (hleft.not_mem (by decide)), before_append hword.noSemicolon,
    before_append (hright.not_mem (by decide)), htail', List.append_nil,
    trim_append_append hleft hright, trim_of_trimmed (trimmed_of_no_blank hword.noBlank)]

theorem IsWord.of_equalsIgnoringCase {spelling : Bytes} (hword : IsWord word)
    (h : equalsIgnoringCase spelling word = true) : IsWord spelling := by
  have hmap : spelling.map Byte.lower = word.map Byte.lower := by
    simpa [equalsIgnoringCase] using h
  have hmem (b : UInt8) (hb : b ∈ spelling) : ∃ c ∈ word, Byte.lower c = Byte.lower b := by
    have : Byte.lower b ∈ word.map Byte.lower := hmap ▸ List.mem_map_of_mem hb
    simpa using this
  refine ⟨?_, ?_, ?_⟩
  · rintro rfl
    exact hword.ne_nil (List.map_eq_nil_iff.mp hmap.symm)
  · intro b hb
    obtain ⟨c, hc, heq⟩ := hmem b hb
    rw [← Byte.isBlank_lower, ← heq, Byte.isBlank_lower]
    exact hword.noBlank c hc
  · intro hb
    obtain ⟨c, hc, heq⟩ := hmem _ hb
    have hc' : c = Byte.semicolon := Byte.lower_eq_semicolon.mp heq
    exact hword.noSemicolon (hc' ▸ hc)

/-- **Whether a list holds a word.** -/
theorem hasToken_iff {list : Bytes} (hword : IsWord word) :
    hasToken list word = true ↔ Lists list word := by
  unfold hasToken
  rw [List.any_eq_true]
  constructor
  · rintro ⟨piece, hmem, heq⟩
    have hitem := isItem_trim piece
    have hspelling := hword.of_equalsIgnoringCase heq
    refine ⟨piece, _, (mem_fields_iff ?_).mp hmem, hitem, heq⟩
    rintro rfl
    exact hspelling.ne_nil rfl
  · rintro ⟨piece, spelling, hpiece, hitem, heq⟩
    have hspelling := hword.of_equalsIgnoringCase heq
    refine ⟨piece, (mem_fields_iff ?_).mpr hpiece, ?_⟩
    · rintro rfl
      obtain ⟨left, right, tail, hnil, -⟩ := hitem
      simp_all [hspelling.ne_nil]
    · rwa [hitem.trim_eq hspelling]

end Bytes

/-! ## What header lines say -/

namespace Header

/-- The name of a line, in some case, is what stands before its first colon. What the line says
stands behind the colon, without blanks around it. -/
def Says (name line value : Bytes) : Prop :=
  ∃ spelling text, line = spelling ++ Byte.colon :: text ∧ Byte.colon ∉ spelling ∧
    Bytes.equalsIgnoringCase spelling name = true ∧ value = Bytes.trim text

/-- What the first of some lines says that has a name. -/
inductive FirstSays (name : Bytes) : List Bytes → Bytes → Prop
  | here {line value : Bytes} (more : List Bytes) :
    Says name line value → FirstSays name (line :: more) value
  | later {line value : Bytes} {more : List Bytes} :
    (∀ v, ¬ Says name line v) → FirstSays name more value → FirstSays name (line :: more) value

variable {line name value : Bytes} {lines : List Bytes}

theorem FirstSays.exists_line (h : FirstSays name lines value) :
    ∃ line ∈ lines, Says name line value := by
  induction h with
  | here more hsaid => exact ⟨_, List.mem_cons_self, hsaid⟩
  | later _ _ ih =>
      obtain ⟨line, hmem, hsaid⟩ := ih
      exact ⟨line, List.mem_cons_of_mem _ hmem, hsaid⟩

theorem FirstSays.trim_eq (h : FirstSays name lines value) : Bytes.trim value = value := by
  obtain ⟨line, -, spelling, text, -, -, -, rfl⟩ := h.exists_line
  exact Bytes.trim_trim text

/-- An accepted line is a header, which says what the line says. -/
theorem ofLine?_of_isFieldLine (h : IsFieldLine line) : ∃ header, ofLine? line = some header ∧
    ∀ name value, Says name line value ↔
      Bytes.equalsIgnoringCase header.name name = true ∧ value = header.value := by
  obtain ⟨spelling, text, rfl, -, hcolon, hblank⟩ := h
  have hcut := Bytes.cutAt?_append hcolon text
  have htrim : Bytes.trim spelling = spelling :=
    Bytes.trim_of_trimmed (Bytes.trimmed_of_no_blank hblank)
  refine ⟨⟨spelling, Bytes.trim text⟩, by simp [ofLine?, hcut, htrim], ?_⟩
  intro name value
  constructor
  · rintro ⟨spelling', text', heq, hcolon', hname, rfl⟩
    have hcut' := Bytes.cutAt?_append hcolon' text'
    rw [← heq, hcut] at hcut'
    cases hcut'
    exact ⟨hname, rfl⟩
  · rintro ⟨hname, rfl⟩
    exact ⟨spelling, text, rfl, hcolon, hname, rfl⟩

end Header

/-- **What is found in a header block** is what the first line with the name says. -/
theorem HeaderBlock.find?_eq_some_iff {fields : List Bytes} {name value : Bytes}
    (hfields : ∀ f ∈ fields, Bytes.IsLine f ∧ Header.IsFieldLine f) :
    HeaderBlock.find? ⟨Bytes.unlines fields⟩ name = some value
      ↔ Header.FirstSays name fields value := by
  unfold HeaderBlock.find?
  rw [HeaderBlock.headers_eq, Bytes.lines_unlines fun f hf => (hfields f hf).1]
  induction fields with
  | nil =>
      constructor
      · intro h
        cases h
      · rintro ⟨⟩
  | cons line more ih =>
      rw [List.forall_mem_cons] at hfields
      obtain ⟨header, hof, hsaid⟩ := Header.ofLine?_of_isFieldLine hfields.1.2
      rw [List.filterMap_cons_some hof]
      by_cases hname : Bytes.equalsIgnoringCase header.name name = true
      · rw [List.find?_cons_of_pos (by exact hname), Option.map_some, Option.some.injEq]
        constructor
        · rintro rfl
          exact .here more ((hsaid _ _).mpr ⟨hname, rfl⟩)
        · rintro (⟨-, h⟩ | ⟨hnot, -⟩)
          · exact ((hsaid _ _).mp h).2.symm
          · exact absurd ((hsaid _ _).mpr ⟨hname, rfl⟩) (hnot _)
      · rw [List.find?_cons_of_neg (by exact hname), ih hfields.2]
        have hnot (v : Bytes) : ¬ Header.Says name line v := fun h => hname ((hsaid _ _).mp h).1
        constructor
        · exact .later hnot
        · rintro (⟨-, h⟩ | ⟨-, h⟩)
          · exact absurd h (hnot _)
          · exact h

end HttpExchange
