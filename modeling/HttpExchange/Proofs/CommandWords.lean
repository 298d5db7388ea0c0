import HttpExchange.CommandLine
import HttpExchange.Proofs.UrlText

/-!
# Words that make no command

A command line is read in a fixed order, and the first thing that is wrong with it is reported.
`CommandLine.Rejected` lists what can be wrong without that order, each by what the words are
and not by how they are read; a command line that has none of it makes a command, and no other
does (`CommandLine.rejected_iff`).
-/

namespace HttpExchange

/-- Where it does not matter to the second step what the first one gives, two steps fail if
either does. -/
theorem fails_bind_iff {ε α β : Type} {x : Except ε α} {f : α → Except ε β} {P : Prop}
    (h : ∀ a, (∃ e, f a = .error e) ↔ P) :
    (∃ e, x >>= f = .error e) ↔ (∃ e, x = .error e) ∨ P := by
  cases x with
  | error e => exact ⟨fun _ => .inl ⟨e, rfl⟩, fun _ => ⟨e, rfl⟩⟩
  | ok a =>
      refine ⟨fun hfails => .inr ((h a).mp hfails), ?_⟩
      rintro (⟨e, herror⟩ | hP)
      · cases herror
      · exact (h a).mpr hP

namespace CommandLine

/-! ## Values of options -/

/-- A header has a colon, and not in front. -/
theorem header?_fails_iff {line : Bytes} :
    (∃ fault, header? line = .error fault) ↔
      Byte.colon ∉ line ∨ line.head? = some Byte.colon := by
  unfold header?
  cases hcut : Bytes.cutAt? Byte.colon line with
  | none => simp [Bytes.cutAt?_eq_none_iff.mp hcut]
  | some parts =>
      obtain ⟨name, value⟩ := parts
      obtain ⟨rfl, hcolon⟩ := Bytes.cutAt?_eq_some_iff.mp hcut
      cases name with
      | nil => simp
      | cons b name =>
          have hb : b ≠ Byte.colon := fun h => hcolon (h ▸ .head name)
          simp [hb]

/-- A shared key is an identity, a colon and a secret in hexadecimal digits. -/
theorem sharedKey?_fails_iff {text : Option Bytes} :
    (∃ fault, sharedKey? text = .error fault) ↔ ∃ key, text = some key ∧
      ∀ identity digits, key = identity ++ Byte.colon :: digits → Byte.colon ∉ identity →
        Numeral.hexBytes? digits = none := by
  cases text with
  | none => simp [sharedKey?]
  | some key =>
      cases hcut : Bytes.cutAt? Byte.colon key with
      | none =>
          have hcolon := Bytes.cutAt?_eq_none_iff.mp hcut
          refine ⟨fun _ => ⟨key, rfl, ?_⟩, fun _ => ⟨.sharedKey, by simp [sharedKey?, hcut]⟩⟩
          rintro identity digits rfl
          simp at hcolon
      | some parts =>
          obtain ⟨identity, digits⟩ := parts
          obtain ⟨rfl, hcolon⟩ := Bytes.cutAt?_eq_some_iff.mp hcut
          cases hdigits : Numeral.hexBytes? digits with
          | none =>
              refine ⟨fun _ => ⟨_, rfl, ?_⟩,
                fun _ => ⟨.sharedKey, by simp [sharedKey?, hcut, hdigits]⟩⟩
              intro identity' digits' hkey hcolon'
              rw [Bytes.cutAt?_eq_some_iff.mpr ⟨hkey, hcolon'⟩] at hcut
              cases hcut
              exact hdigits
          | some secret =>
              constructor
              · rintro ⟨fault, hfault⟩
                simp [sharedKey?, hcut, hdigits] at hfault
              · rintro ⟨key, hkey, hnone⟩
                rw [hnone identity digits (Option.some.inj hkey).symm hcolon] at hdigits
                cases hdigits

/-- A user has a colon before the password. -/
theorem credentials?_fails_iff {text : Option Bytes} :
    (∃ fault, credentials? text = .error fault) ↔ ∃ user, text = some user ∧ Byte.colon ∉ user := by
  cases text with
  | none => simp [credentials?]
  | some user =>
      cases hcut : Bytes.cutAt? Byte.colon user with
      | none => simp [credentials?, hcut, Bytes.cutAt?_eq_none_iff.mp hcut]
      | some parts =>
          obtain ⟨rfl, -⟩ := Bytes.cutAt?_eq_some_iff.mp hcut
          simp [credentials?, hcut]

/-- Lines are all taken, or one of them is rejected. -/
theorem mapM_header?_fails_iff {lines : List Bytes} :
    (∃ fault, lines.mapM header? = .error fault) ↔
      ∃ line ∈ lines, ∃ fault, header? line = .error fault := by
  induction lines with
  | nil => simp [pure, Except.pure]
  | cons line lines ih =>
      simp only [List.mapM_cons, List.mem_cons, exists_eq_or_imp, ← ih]
      cases header? line with
      | error fault => simp [bind, Except.bind]
      | ok h =>
          cases lines.mapM header? with
          | error fault => simp [bind, Except.bind]
          | ok hs => simp [bind, Except.bind, pure, Except.pure]

/-! ## Rejected words -/

/-- What can be wrong with a command line, in any order. -/
inductive Rejected : List Bytes → Prop
  | short {words : List Bytes} (few : words.length < 2) : Rejected words
  | method {method url : Bytes} {rest : List Bytes} (unknown : Method.ofText? method = none) :
      Rejected (method :: url :: rest)
  | option {method url : Bytes} {rest : List Bytes} {fault : Fault}
      (wrong : Options.initial.read rest = .error fault) : Rejected (method :: url :: rest)
  | header {method url line : Bytes} {rest : List Bytes} {options : Options}
      (options_eq : Options.initial.read rest = .ok options) (mem : line ∈ options.headerLines)
      (nameless : Byte.colon ∉ line ∨ line.head? = some Byte.colon) :
      Rejected (method :: url :: rest)
  | sharedKey {method url key : Bytes} {rest : List Bytes} {options : Options}
      (options_eq : Options.initial.read rest = .ok options)
      (key_eq : options.sharedKey = some key)
      (keyless : ∀ identity digits, key = identity ++ Byte.colon :: digits →
        Byte.colon ∉ identity → Numeral.hexBytes? digits = none) :
      Rejected (method :: url :: rest)
  | user {method url user : Bytes} {rest : List Bytes} {options : Options}
      (options_eq : Options.initial.read rest = .ok options) (user_eq : options.user = some user)
      (unseparated : Byte.colon ∉ user) : Rejected (method :: url :: rest)

section

variable {words rest : List Bytes} {word url : Bytes} {method : Method} {options : Options}

/-- Where method and options are good, three things can still be wrong. -/
theorem Rejected.iff_of_options (hmethod : Method.ofText? word = some method)
    (hread : Options.initial.read rest = .ok options) : Rejected (word :: url :: rest) ↔
      (∃ fault, options.headerLines.mapM header? = .error fault) ∨
        (∃ fault, sharedKey? options.sharedKey = .error fault) ∨
          ∃ fault, credentials? options.user = .error fault := by
  have hsame {options' : Options} (h : Options.initial.read rest = .ok options') :
      options' = options := by
    rw [hread] at h
    cases h
    rfl
  rw [mapM_header?_fails_iff, sharedKey?_fails_iff, credentials?_fails_iff]
  constructor
  · intro h
    cases h with
    | short few =>
        rw [List.length_cons, List.length_cons] at few
        omega
    | method unknown =>
        rw [hmethod] at unknown
        cases unknown
    | option wrong =>
        rw [hread] at wrong
        cases wrong
    | header options_eq mem nameless =>
        exact .inl ⟨_, hsame options_eq ▸ mem, header?_fails_iff.mpr nameless⟩
    | sharedKey options_eq key_eq keyless =>
        exact .inr (.inl ⟨_, hsame options_eq ▸ key_eq, keyless⟩)
    | user options_eq user_eq unseparated =>
        exact .inr (.inr ⟨_, hsame options_eq ▸ user_eq, unseparated⟩)
  · rintro (⟨line, hmem, hfault⟩ | ⟨key, hkey, hkeyless⟩ | ⟨user, huser, hcolon⟩)
    · exact .header hread hmem (header?_fails_iff.mp hfault)
    · exact .sharedKey hread hkey hkeyless
    · exact .user hread huser hcolon

/-- They are looked at in an order, but what is found does not depend on it. -/
theorem checks_fail_iff :
    (∃ fault, (do
      let headers ← options.headerLines.mapM header?
      let sharedKey ← sharedKey? options.sharedKey
      let credentials ← credentials? options.user
      return (⟨method, url, options, headers, sharedKey, credentials⟩ : Command))
        = .error fault) ↔
      (∃ fault, options.headerLines.mapM header? = .error fault) ∨
        (∃ fault, sharedKey? options.sharedKey = .error fault) ∨
          ∃ fault, credentials? options.user = .error fault := by
  refine fails_bind_iff fun headers => fails_bind_iff fun sharedKey => ?_
  rw [← or_false (∃ fault, credentials? options.user = .error fault)]
  refine fails_bind_iff fun credentials => ⟨?_, False.elim⟩
  rintro ⟨fault, hfault⟩
  cases hfault

/-- **What is rejected makes no command, and everything else makes one.** -/
theorem rejected_iff :
    Rejected (words.map Bytes.untilNul) ↔ ∃ fault, parse words = .error fault := by
  unfold parse
  generalize words.map Bytes.untilNul = words
  match words with
  | [] => exact ⟨fun _ => ⟨_, rfl⟩, fun _ => .short (by decide)⟩
  | [word] => exact ⟨fun _ => ⟨_, rfl⟩, fun _ => .short (by simp)⟩
  | word :: url :: rest =>
      dsimp only
      cases hmethod : Method.ofText? word with
      | none => exact ⟨fun _ => ⟨_, rfl⟩, fun _ => .method hmethod⟩
      | some method =>
          dsimp only
          cases hread : Options.initial.read rest with
          | error fault => exact ⟨fun _ => ⟨fault, rfl⟩, fun _ => .option hread⟩
          | ok options => exact (Rejected.iff_of_options hmethod hread).trans checks_fail_iff.symm

end

end CommandLine

end HttpExchange
