import HttpExchange.Proofs.Lines
import HttpExchange.Proofs.Numerals
import HttpExchange.Url

/-!
# What the parts of a URL are made of

Nothing in the text of a URL that is read can end a line or a word of the request that is made
of it. The path stands as it was written but for its dot segments, and junk in it is refused.
The host is an address in digits and marks, or a name whose escapes are undone; junk is looked
for before that, so the one byte of junk that a host can hold is a DEL that was escaped.

* `UrlPath.mem_normalize`: a path without its dot segments holds no other bytes than before.
* `UrlHost.mem_unescape?`: where the bytes of a name come from whose escapes were undone.
* `Url.readFrom_of_parse`, `Url.tidy_of_parse`: path and host of every URL that is read.
-/

namespace HttpExchange

/-- Where two steps give a value, so does the first of them. -/
theorem exists_of_bind_ok {ε α β : Type} {x : Except ε α} {f : α → Except ε β} {value : β}
    (h : x >>= f = .ok value) : ∃ a, x = .ok a ∧ f a = .ok value := by
  cases x with
  | error e => cases h
  | ok a => exact ⟨a, rfl, h⟩

/-! ## Paths -/

namespace UrlPath

theorem mem_of_mem_segments {s segment : Bytes} {b : UInt8} (h : segment ∈ segments s)
    (hb : b ∈ segment) : b ∈ s := by
  induction s generalizing segment with
  | nil =>
      rw [segments, List.mem_singleton] at h
      subst h
      cases hb
  | cons c rest ih =>
      rw [segments] at h
      split at h
      · rcases List.mem_cons.mp h with rfl | h
        · cases hb
        · exact .tail c (ih h hb)
      · split at h
        · rw [List.mem_singleton] at h
          subst h
          rw [List.mem_singleton] at hb
          exact hb ▸ .head rest
        · rename_i first more hsplit
          rw [hsplit] at ih
          rcases List.mem_cons.mp h with rfl | h
          · rcases List.mem_cons.mp hb with rfl | hb
            · exact .head rest
            · exact .tail c (ih (.head more) hb)
          · exact .tail c (ih (.tail first h) hb)

theorem segments_ne_nil (s : Bytes) : segments s ≠ [] := by
  cases s with
  | nil => exact List.cons_ne_nil _ _
  | cons c rest =>
      rw [segments]
      split
      · exact List.cons_ne_nil _ _
      · split <;> exact List.cons_ne_nil _ _

/-- A segment that remains was there, or is the empty one behind a dot segment at the end. -/
theorem mem_resolve {kept more : List Bytes} {segment : Bytes} (h : segment ∈ resolve kept more) :
    segment = [] ∨ segment ∈ kept ∨ segment ∈ more := by
  fun_induction resolve kept more with
  | case1 kept => exact .inr (.inl (List.mem_reverse.mp h))
  | case2 kept =>
      rcases List.mem_cons.mp (List.mem_reverse.mp h) with hnil | hkept
      · exact .inl hnil
      · exact .inr (.inl hkept)
  | case3 kept =>
      rcases List.mem_cons.mp (List.mem_reverse.mp h) with hnil | hkept
      · exact .inl hnil
      · exact .inr (.inl (List.mem_of_mem_tail hkept))
  | case4 kept last =>
      rcases List.mem_cons.mp (List.mem_reverse.mp h) with rfl | hkept
      · exact .inr (.inr (.head []))
      · exact .inr (.inl hkept)
  | case5 kept rest _ ih =>
      rcases ih h with hnil | hkept | hrest
      · exact .inl hnil
      · exact .inr (.inl hkept)
      · exact .inr (.inr (.tail _ hrest))
  | case6 kept rest _ _ ih =>
      rcases ih h with hnil | hkept | hrest
      · exact .inl hnil
      · exact .inr (.inl (List.mem_of_mem_tail hkept))
      · exact .inr (.inr (.tail _ hrest))
  | case7 kept last rest _ _ _ ih =>
      rcases ih h with hnil | hkept | hrest
      · exact .inl hnil
      · rcases List.mem_cons.mp hkept with rfl | hkept
        · exact .inr (.inr (.head rest))
        · exact .inr (.inl hkept)
      · exact .inr (.inr (.tail _ hrest))

theorem resolve_ne_nil {kept more : List Bytes} (h : more ≠ []) : resolve kept more ≠ [] := by
  have reverse_ne_nil (last : Bytes) (kept : List Bytes) : (last :: kept).reverse ≠ [] :=
    List.reverse_ne_nil_iff.mpr (List.cons_ne_nil last kept)
  fun_induction resolve kept more with
  | case1 kept => exact absurd rfl h
  | case2 kept => exact reverse_ne_nil [] kept
  | case3 kept => exact reverse_ne_nil [] kept.tail
  | case4 kept last => exact reverse_ne_nil last kept
  | case5 kept rest hrest ih => exact ih hrest
  | case6 kept rest hrest _ ih => exact ih hrest
  | case7 kept last rest hrest _ _ ih => exact ih hrest

theorem mem_normalize {path : Bytes} {b : UInt8} (h : b ∈ normalize path) :
    b = Byte.slash ∨ b ∈ path := by
  obtain ⟨segment, hsegment, hb⟩ := List.mem_flatMap.mp h
  rcases List.mem_cons.mp hb with hb | hb
  · exact .inl hb
  · right
    rcases mem_resolve hsegment with rfl | hkept | hthere
    · cases hb
    · cases hkept
    · exact mem_of_mem_segments (List.mem_of_mem_tail hthere) hb

/-- A path that starts with a slash does so without its dot segments. -/
theorem head?_normalize (rest : Bytes) :
    (normalize (Byte.slash :: rest)).head? = some Byte.slash := by
  have hsegments : (segments (Byte.slash :: rest)).tail = segments rest := by
    rw [segments, if_pos rfl, List.tail_cons]
  have hne : resolve [] (segments rest) ≠ [] := resolve_ne_nil (segments_ne_nil rest)
  obtain ⟨first, more, hresolve⟩ := List.exists_cons_of_ne_nil hne
  rw [normalize, hsegments, hresolve, List.flatMap_cons]
  rfl

end UrlPath

/-! ## Addresses -/

namespace Byte

theorem not_isJunk_of_isAddressByte {b : UInt8} (h : UrlHost.isAddressByte b = true) :
    isJunk b = false :=
  forall_of_fin (p := fun b => UrlHost.isAddressByte b = true → isJunk b = false)
    (by decide +kernel) b h

theorem hexValue?_lt {b x : UInt8} (h : hexValue? b = some x) : x < 16 := by
  have hall : (hexValue? b).all (· < 16) = true :=
    forall_of_fin (p := fun b => (hexValue? b).all (· < 16) = true) (by decide +kernel) b
  rw [h] at hall
  exact of_decide_eq_true hall

theorem eq_of_hexValue?_seven {b : UInt8} (h : hexValue? b = some 7) : b = 55 :=
  forall_of_fin (p := fun b => hexValue? b = some 7 → b = 55) (by decide +kernel) b h

theorem isAddressByte_of_isDigit {b : UInt8} (h : isDigit b = true) :
    UrlHost.isAddressByte b = true := by
  rw [UrlHost.isAddressByte, hexValue?, if_pos h]
  rfl

theorem isAddressByte_of_hexValue? {b : UInt8} (h : (hexValue? b).isSome = true) :
    UrlHost.isAddressByte b = true := by
  rw [UrlHost.isAddressByte, h]
  rfl

end Byte

/-- All bytes of a text are such as texts of addresses are made of. -/
def Bytes.Addresslike (s : Bytes) : Prop := ∀ b ∈ s, UrlHost.isAddressByte b = true

namespace Bytes

theorem addresslike_nil : Addresslike [] := by
  intro b hb
  cases hb

theorem Addresslike.append {s t : Bytes} (hs : s.Addresslike) (ht : t.Addresslike) :
    Addresslike (s ++ t) := by
  intro b hb
  rcases List.mem_append.mp hb with hb | hb
  · exact hs b hb
  · exact ht b hb

/-- Pieces with a mark between them. -/
theorem addresslike_intersperse {sep : Bytes} {pieces : List Bytes} (hsep : sep.Addresslike)
    (hpieces : ∀ piece ∈ pieces, piece.Addresslike) :
    ∀ piece ∈ pieces.intersperse sep, piece.Addresslike := by
  fun_induction List.intersperse sep pieces with
  | case1 => exact hpieces
  | case2 piece => exact hpieces
  | case3 first rest _ ih =>
      obtain ⟨hfirst, hrest⟩ := List.forall_mem_cons.mp hpieces
      exact List.forall_mem_cons.mpr ⟨hfirst, List.forall_mem_cons.mpr ⟨hsep, ih hrest⟩⟩

theorem addresslike_flatten {pieces : List Bytes}
    (hpieces : ∀ piece ∈ pieces, piece.Addresslike) : Addresslike pieces.flatten := by
  intro b hb
  obtain ⟨piece, hpiece, hb⟩ := List.mem_flatten.mp hb
  exact hpieces piece hpiece b hb

theorem addresslike_decimal (n : Nat) : Addresslike (Numeral.decimal n) :=
  fun _ hb => Byte.isAddressByte_of_isDigit (Numeral.isDigit_of_mem_decimal hb)

theorem addresslike_hexadecimal (n : Nat) : Addresslike (Numeral.hexadecimal n) :=
  fun _ hb => Byte.isAddressByte_of_hexValue? (Numeral.isSome_of_mem_hexadecimal hb)

end Bytes

namespace IpAddress

theorem addresslike_pieces (address : IpAddress) : ∀ piece ∈ address.pieces, piece.Addresslike := by
  have hdot : Bytes.Addresslike [Byte.dot] := by simp [Bytes.Addresslike, UrlHost.isAddressByte]
  have hcolon : Bytes.Addresslike [Byte.colon] := by
    simp [Bytes.Addresslike, UrlHost.isAddressByte]
  cases address with
  | v4 octets =>
      refine Bytes.addresslike_intersperse hdot ?_
      intro piece hpiece
      obtain ⟨octet, -, rfl⟩ := List.mem_map.mp hpiece
      exact Bytes.addresslike_decimal _
  | v6 groups =>
      refine Bytes.addresslike_intersperse hcolon ?_
      intro piece hpiece
      obtain ⟨group, -, rfl⟩ := List.mem_map.mp hpiece
      exact Bytes.addresslike_hexadecimal _

theorem addresslike_text (address : IpAddress) : address.text.Addresslike := by
  have hfold (out : Bytes) (pieces : List Bytes) (hout : out.Addresslike)
      (hpieces : ∀ piece ∈ pieces, piece.Addresslike) : Bytes.Addresslike (pieces.foldl
        (fun out piece => if out.length + piece.length ≤ 64 then out ++ piece else out) out) := by
    induction pieces generalizing out with
    | nil => exact hout
    | cons piece pieces ih =>
        refine ih _ ?_ fun other hother => hpieces other (.tail piece hother)
        dsimp only
        split
        · exact hout.append (hpieces piece (.head pieces))
        · exact hout
  exact hfold [] address.pieces Bytes.addresslike_nil address.addresslike_pieces

end IpAddress

namespace Coloned

theorem addresslike_joined {pieces : List Bytes} (h : ∀ piece ∈ pieces, piece.Addresslike) :
    (joined pieces).Addresslike := by
  have hcolon : Bytes.Addresslike [Byte.colon] := by
    simp [Bytes.Addresslike, UrlHost.isAddressByte]
  exact Bytes.addresslike_flatten (Bytes.addresslike_intersperse hcolon h)

theorem addresslike_hex (groups : List UInt16) : (joined (hex groups)).Addresslike := by
  refine addresslike_joined ?_
  intro piece hpiece
  obtain ⟨group, -, rfl⟩ := List.mem_map.mp hpiece
  exact Bytes.addresslike_hexadecimal _

theorem addresslike_canonical (groups : List UInt16) : (canonical groups).Addresslike := by
  have hgap : gap.Addresslike := by simp [gap, Bytes.Addresslike, UrlHost.isAddressByte]
  have hmapped : Bytes.Addresslike (ascii "::ffff:") := by
    intro b hb
    have : ∀ b ∈ ascii "::ffff:", UrlHost.isAddressByte b = true := by decide +kernel
    exact this b hb
  have hquad (high low : UInt16) : (quadText high low).Addresslike :=
    IpAddress.addresslike_text _
  unfold canonical
  split
  · split
    · split
      · exact hgap.append Bytes.addresslike_nil
      · exact hgap.append (Bytes.addresslike_hexadecimal _)
    · exact hgap.append (hquad _ _)
  · exact hmapped.append (hquad _ _)
  · dsimp only
    split
    · exact addresslike_hex groups
    · exact ((addresslike_hex _).append hgap).append (addresslike_hex _)

end Coloned

/-! ## Hosts -/

/-- The byte that stands for no character and comes after all that do. -/
def Byte.del : UInt8 := 127

namespace UrlHost

theorem escape?_eq_some {sign high low decoded : UInt8}
    (h : escape? sign high low = some decoded) : sign = Byte.percent ∧
      ∃ x y, Byte.hexValue? high = some x ∧ Byte.hexValue? low = some y ∧ decoded = 16 * x + y := by
  unfold escape? at h
  split at h
  · rename_i hsign
    obtain ⟨x, hx, h⟩ := Option.bind_eq_some_iff.mp h
    obtain ⟨y, hy, h⟩ := Option.bind_eq_some_iff.mp h
    cases h
    exact ⟨hsign, x, y, hx, hy, rfl⟩
  · cases h

/-- A byte of a name whose escapes were undone stood there before, or it was escaped and is no
control byte. -/
theorem mem_unescape? {s name : Bytes} {b : UInt8} (h : unescape? s = some name) (hb : b ∈ name) :
    b ∈ s ∨ 32 ≤ b ∧ ∃ high low, escape? Byte.percent high low = some b ∧
      [Byte.percent, high, low] <:+: s := by
  fun_induction unescape? s generalizing name with
  | case1 sign high low rest decoded hescape hcontrol => cases h
  | case2 sign high low rest decoded hescape hcontrol ih =>
      obtain ⟨more, hmore, rfl⟩ := Option.map_eq_some_iff.mp h
      obtain ⟨rfl, -⟩ := escape?_eq_some hescape
      rcases List.mem_cons.mp hb with rfl | hb
      · exact .inr ⟨UInt8.not_lt.mp hcontrol, high, low, hescape, [], rest, rfl⟩
      · rcases ih hmore hb with hs | ⟨hle, h', l', hescape', hpart⟩
        · exact .inl (.tail _ (.tail _ (.tail _ hs)))
        · exact .inr ⟨hle, h', l', hescape',
            hpart.trans (List.suffix_append [Byte.percent, high, low] rest).isInfix⟩
  | case3 sign high low rest hescape ih =>
      obtain ⟨more, hmore, rfl⟩ := Option.map_eq_some_iff.mp h
      rcases List.mem_cons.mp hb with rfl | hb
      · exact .inl (.head _)
      · rcases ih hmore hb with hs | ⟨hle, h', l', hescape', hpart⟩
        · exact .inl (.tail _ hs)
        · exact .inr ⟨hle, h', l', hescape', hpart.trans (List.suffix_cons _ _).isInfix⟩
  | case4 s =>
      cases h
      exact .inl hb

theorem bracketed?_ok {inner host : Bytes} (h : bracketed? inner = .ok host) :
    ∀ b ∈ host, Byte.isJunk b = false := by
  have hmarks : Byte.isJunk Byte.openBracket = false ∧ Byte.isJunk Byte.closeBracket = false := by
    decide
  have haddress : Bytes.Addresslike (inner.takeWhile isAddressByte) := by
    intro b hb
    exact List.all_eq_true.mp List.all_takeWhile b hb
  unfold bracketed? at h
  dsimp only at h
  split at h
  · split at h
    · cases h
    · rename_i groups _
      cases h
      have htext : Bytes.Addresslike
          (if (Coloned.canonical groups).length < (inner.takeWhile isAddressByte).length
            then Coloned.canonical groups else inner.takeWhile isAddressByte) := by
        split
        · exact Coloned.addresslike_canonical groups
        · exact haddress
      intro b hb
      rcases List.mem_append.mp hb with hb | hb
      · rcases List.mem_cons.mp hb with rfl | hb
        · exact hmarks.1
        · exact Byte.not_isJunk_of_isAddressByte (htext b hb)
      · rw [List.mem_singleton] at hb
        exact hb ▸ hmarks.2
  · cases h

/-- The marks that no name holds are such that a name holds no space. -/
theorem decoded?_ok {name host : Bytes} (h : decoded? name = .ok host) :
    (∀ b ∈ host, Byte.isJunk b = false) ∨ host = name ∧ Byte.sp ∉ name := by
  unfold decoded? at h
  split at h
  · split at h
    · exact .inl (bracketed?_ok h)
    · cases h
  · split at h
    · cases h
    · rename_i hforbidden
      cases h
      refine .inr ⟨rfl, ?_⟩
      intro hsp
      refine hforbidden (List.any_eq_true.mpr ⟨Byte.sp, hsp, ?_⟩)
      decide +kernel

/-- The host of a URL: no byte of it is a control byte or a space, and if it holds a DEL, one
was escaped in the text. -/
structure Tidy (text host : Bytes) : Prop where
  visible : ∀ b ∈ host, 32 < b
  del : Byte.del ∈ host → ∃ digit, Byte.hexValue? digit = some 15 ∧
    [Byte.percent, 55, digit] <:+: text

theorem tidy_of_not_isJunk {text host : Bytes} (h : ∀ b ∈ host, Byte.isJunk b = false) :
    Tidy text host := by
  constructor
  · intro b hb
    have hjunk := h b hb
    rw [Byte.isJunk, Bool.or_eq_false_iff, decide_eq_false_iff_not, UInt8.not_le] at hjunk
    exact hjunk.1
  · intro hdel
    exact absurd (h _ hdel) (by decide)

/-- The escape of a DEL. -/
theorem digits_of_escape?_del {high low : UInt8}
    (h : escape? Byte.percent high low = some Byte.del) :
    high = 55 ∧ Byte.hexValue? low = some 15 := by
  obtain ⟨-, x, y, hx, hy, hdel⟩ := escape?_eq_some h
  have hx' : x.toNat < 16 := UInt8.lt_iff_toNat_lt.mp (Byte.hexValue?_lt hx)
  have hy' : y.toNat < 16 := UInt8.lt_iff_toNat_lt.mp (Byte.hexValue?_lt hy)
  have hnat : 127 = 16 * x.toNat + y.toNat := by
    have := congrArg UInt8.toNat hdel
    rw [UInt8.toNat_add, UInt8.toNat_mul] at this
    simp only [Byte.del, UInt8.reduceToNat] at this
    omega
  have hseven : x = 7 := UInt8.toNat_inj.mp (show x.toNat = 7 by omega)
  have hfifteen : y = 15 := UInt8.toNat_inj.mp (show y.toNat = 15 by omega)
  subst hseven hfifteen
  exact ⟨Byte.eq_of_hexValue?_seven hx, hy⟩

/-- **Hosts are tidy** that are read from a text without junk. -/
theorem tidy_of_plain? {s host : Bytes} (hclean : s.any Byte.isJunk = false)
    (h : plain? s = .ok host) : Tidy s host := by
  have hplain (b : UInt8) (hb : b ∈ s) : Byte.isJunk b = false := by
    rw [List.any_eq_false] at hclean
    exact Bool.eq_false_iff.mpr (hclean b hb)
  unfold plain? at h
  split at h
  · cases h
  · split at h
    · rename_i address _
      cases h
      exact tidy_of_not_isJunk fun b hb =>
        Byte.not_isJunk_of_isAddressByte (address.addresslike_text b hb)
    · split at h
      · cases h
      · rename_i name hname
        rcases decoded?_ok h with hbracketed | ⟨rfl, hsp⟩
        · exact tidy_of_not_isJunk hbracketed
        · constructor
          · intro b hb
            have hwritten : Tidy s s := tidy_of_not_isJunk hplain
            rcases mem_unescape? hname hb with hs | ⟨hle, -⟩
            · exact hwritten.visible b hs
            · refine UInt8.lt_of_le_of_ne hle ?_
              rintro rfl
              exact hsp hb
          · intro hdel
            rcases mem_unescape? hname hdel with hs | ⟨-, high, low, hescape, hpart⟩
            · exact absurd (hplain _ hs) (by decide)
            · obtain ⟨rfl, hlow⟩ := digits_of_escape?_del hescape
              exact ⟨low, hlow, hpart⟩

/-- How the host of a URL is read: from what stands between brackets, or else from a part of the
text that holds no junk. -/
inductive ReadFrom (text host : Bytes) : Prop
  | brackets {inner : Bytes} (read : bracketed? inner = .ok host)
  | plain {raw : Bytes} (part : raw <:+: text) (clean : raw.any Byte.isJunk = false)
      (read : plain? raw = .ok host)

theorem ReadFrom.of_part {s text host : Bytes} (h : ReadFrom s host) (hpart : s <:+: text) :
    ReadFrom text host := by
  cases h with
  | brackets read => exact .brackets read
  | plain part clean read => exact .plain (part.trans hpart) clean read

theorem ReadFrom.tidy {text host : Bytes} (h : ReadFrom text host) : Tidy text host := by
  cases h with
  | brackets read => exact tidy_of_not_isJunk (bracketed?_ok read)
  | plain part clean read =>
      have htidy := tidy_of_plain? clean read
      refine ⟨htidy.visible, ?_⟩
      intro hdel
      obtain ⟨digit, hdigit, hraw⟩ := htidy.del hdel
      exact ⟨digit, hdigit, hraw.trans part⟩

end UrlHost

/-! ## URLs -/

namespace Url

/-- What follows the scheme is behind it in the text. -/
theorem suffix_of_cutScheme {s scheme rest : Bytes} (h : cutScheme s = .ok (scheme, rest)) :
    rest <:+ s := by
  unfold cutScheme at h
  split at h
  · cases h
  · rename_i name behind hcut
    split at h
    · cases h
      obtain ⟨rfl, -⟩ := Bytes.cutAt?_eq_some_iff.mp hcut
      exact (List.suffix_cons _ _).trans (List.suffix_append _ _)
    · cases h

theorem suffix_of_cutSlashes {s rest : Bytes} (h : cutSlashes s = .ok rest) : rest <:+ s := by
  unfold cutSlashes at h
  dsimp only at h
  split at h
  · cases h
    exact List.drop_suffix _ _
  · cases h

theorem suffix_of_dropUser {authority rest : Bytes} (h : dropUser authority = .ok rest) :
    rest <:+ authority := by
  unfold dropUser at h
  split at h
  · cases h
    exact List.suffix_rfl
  · rename_i login behind hcut
    dsimp only at h
    split at h
    · cases h
    · split at h
      · cases h
      · cases h
        obtain ⟨rfl, -⟩ := Bytes.cutAt?_eq_some_iff.mp hcut
        exact (List.suffix_cons _ _).trans (List.suffix_append _ _)

theorem readHost_ok {raw host : Bytes} {read : Bytes → Except UrlFault Bytes}
    (h : readHost raw read = .ok host) : raw.any Byte.isJunk = false ∧ read raw = .ok host := by
  unfold readHost at h
  split at h
  · cases h
  · rename_i hclean
    exact ⟨Bool.eq_false_iff.mpr hclean, h⟩

/-- The path of a text that starts where the authority ends is rooted, if it is there at all. -/
theorem exists_rooted {s : Bytes} (hstart : ∀ b ∈ s.head?, endsAuthority b = true)
    (hlong : ¬ ((s.takeWhile (· != Byte.hash)).takeWhile (· != Byte.question)).length ≤ 1) :
    ∃ rest, (s.takeWhile (· != Byte.hash)).takeWhile (· != Byte.question) = Byte.slash :: rest := by
  cases s with
  | nil => exact absurd (Nat.zero_le 1) hlong
  | cons b s =>
      have hends : b = Byte.slash ∨ b = Byte.question ∨ b = Byte.hash := by
        have := hstart b rfl
        simpa [endsAuthority, or_assoc] using this
      rcases hends with rfl | rfl | rfl
      · exact ⟨_, rfl⟩
      · exact absurd (Nat.zero_le 1) hlong
      · exact absurd (Nat.zero_le 1) hlong

theorem readFrom_of_readHostPort {scheme : Option Scheme} {s host : Bytes} {port : UInt16}
    (h : readHostPort scheme s = .ok (host, port)) : UrlHost.ReadFrom s host := by
  have host_read {raw : Bytes} {read : Bytes → Except UrlFault Bytes}
      {reading : Except UrlFault UInt16}
      (h : (do let port ← reading; return (← readHost raw read, port)) = .ok (host, port)) :
      raw.any Byte.isJunk = false ∧ read raw = .ok host := by
    obtain ⟨port', -, h⟩ := exists_of_bind_ok h
    obtain ⟨host', hread, h⟩ := exists_of_bind_ok h
    cases h
    exact readHost_ok hread
  unfold readHostPort at h
  dsimp only at h
  split at h
  · split at h
    · cases h
    · -- The port behind the brackets is read in one of three ways, the host in one.
      split at h
      · exact .brackets (host_read h).2
      · split at h
        · exact .brackets (host_read h).2
        · cases h
  · have hname : (Bytes.before Byte.colon s).any Byte.isJunk = false ∧
        UrlHost.plain? (Bytes.before Byte.colon s) = .ok host := by
      split at h
      · exact host_read h
      · exact host_read h
    exact .plain (List.takeWhile_prefix _).isInfix hname.1 hname.2

/-- **Path and query** are rooted and hold no junk. -/
theorem readTarget_ok {s target : Bytes} (hstart : ∀ b ∈ s.head?, endsAuthority b = true)
    (h : readTarget s = .ok target) :
    target.head? = some Byte.slash ∧ ∀ b ∈ target, Byte.isJunk b = false := by
  have hslash : Byte.isJunk Byte.slash = false := by decide
  have clean {part : Bytes} (hpart : ¬ part.any Byte.isJunk = true) (b : UInt8) (hb : b ∈ part) :
      Byte.isJunk b = false := by
    rw [Bool.not_eq_true, List.any_eq_false] at hpart
    exact Bool.eq_false_iff.mpr (hpart b hb)
  unfold readTarget at h
  dsimp only at h
  split at h
  · cases h
  · split at h
    · cases h
    · rename_i hquery
      split at h
      · cases h
        exact ⟨rfl, List.forall_mem_cons.mpr ⟨hslash, clean hquery⟩⟩
      · rename_i hlong
        split at h
        · cases h
        · rename_i hpath
          cases h
          obtain ⟨rest, hrest⟩ := exists_rooted hstart hlong
          constructor
          · rw [hrest, List.head?_append, UrlPath.head?_normalize]
            rfl
          · intro b hb
            rcases List.mem_append.mp hb with hb | hb
            · rcases UrlPath.mem_normalize hb with rfl | hb
              · exact hslash
              · exact clean hpath b hb
            · exact clean hquery b hb

/-- The byte behind what was taken is the one at which the taking ended. -/
theorem head?_dropWhile_authority (s : Bytes) :
    ∀ b ∈ (s.dropWhile fun b => !endsAuthority b).head?, endsAuthority b = true := by
  intro b hb
  have hstop := List.head?_dropWhile_not (fun b => !endsAuthority b) s
  rw [Option.mem_def.mp hb] at hstop
  simpa using hstop

/-- Path and host of a URL that does not name a file. -/
theorem readFrom_of_parts {s : Bytes} {p : Parts} (hscheme : p.scheme ≠ fileScheme)
    (h : parts s = .ok p) :
    p.path.head? = some Byte.slash ∧ (∀ b ∈ p.path, Byte.isJunk b = false) ∧
      UrlHost.ReadFrom s p.host := by
  unfold parts at h
  split at h
  · cases h
  obtain ⟨⟨scheme, behind⟩, hcut, h⟩ := exists_of_bind_ok h
  dsimp only at h
  split at h
  · rename_i hfile
    obtain ⟨file, -, h⟩ := exists_of_bind_ok h
    obtain ⟨target, -, h⟩ := exists_of_bind_ok h
    cases h
    exact absurd hfile hscheme
  obtain ⟨rest, hslashes, h⟩ := exists_of_bind_ok h
  split at h
  · cases h
  obtain ⟨path, htarget, h⟩ := exists_of_bind_ok h
  obtain ⟨authority, huser, h⟩ := exists_of_bind_ok h
  obtain ⟨⟨host, port⟩, hhost, h⟩ := exists_of_bind_ok h
  cases h
  obtain ⟨hroot, hclean⟩ := readTarget_ok (head?_dropWhile_authority rest) htarget
  refine ⟨hroot, hclean, (readFrom_of_readHostPort hhost).of_part ?_⟩
  have hrest : rest <:+ s := (suffix_of_cutSlashes hslashes).trans (suffix_of_cutScheme hcut)
  exact (suffix_of_dropUser huser).isInfix.trans
    ((List.takeWhile_prefix _).isInfix.trans hrest.isInfix)

theorem readFrom_of_parse {text : Bytes} {url : Url} (h : parse text = .ok url) :
    url.path.head? = some Byte.slash ∧ (∀ b ∈ url.path, Byte.isJunk b = false) ∧
      UrlHost.ReadFrom text url.host := by
  unfold parse at h
  split at h
  · cases h
  · rename_i p hparts
    split at h
    · cases h
    · rename_i scheme hserved
      cases h
      have hfile : p.scheme ≠ fileScheme := by
        intro hfile
        have hnone : schemeOf? fileScheme = none := by decide
        rw [hfile, hnone] at hserved
        cases hserved
      obtain ⟨hroot, hclean, hhost⟩ := readFrom_of_parts hfile hparts
      exact ⟨hroot, hclean, hhost.of_part (List.takeWhile_prefix _).isInfix⟩

/-- **What a URL brings into a request.** The path is rooted and holds no junk, and the host
is tidy. -/
theorem tidy_of_parse {text : Bytes} {url : Url} (h : parse text = .ok url) :
    url.path.head? = some Byte.slash ∧ (∀ b ∈ url.path, Byte.isJunk b = false) ∧
      UrlHost.Tidy text url.host := by
  obtain ⟨hroot, hclean, hhost⟩ := readFrom_of_parse h
  exact ⟨hroot, hclean, hhost.tidy⟩

end Url

end HttpExchange
