import Mathlib.Algebra.Group.Nat.Defs
import HttpExchange.Address.Literal
import HttpExchange.Proofs.HeaderFields
import HttpExchange.Proofs.UrlText

/-!
# Texts of addresses

What the texts look like that are read as addresses, as far as it tells one reading from another.

* `Dotted.quad?_text`: what an IPv4 address is written as is read as a dotted quad.
* `Coloned.groups?_spells`: a text of groups has a colon, no byte but digits and marks, and is short.
-/

namespace HttpExchange

/-! ## Pieces -/

namespace Bytes

variable {sep b : UInt8} {s : Bytes}

theorem fields_cons (sep b : UInt8) (rest : Bytes) : fields sep (b :: rest) =
    if b = sep then [] :: fields sep rest
    else match fields sep rest with
      | [] => [[b]]
      | piece :: pieces => (b :: piece) :: pieces := rfl

/-- Nothing but the separators is lost. -/
theorem exists_field_of_mem (hb : b ∈ s) (hne : b ≠ sep) : ∃ f ∈ fields sep s, b ∈ f := by
  induction s with
  | nil => cases hb
  | cons c rest ih =>
      rw [fields_cons]
      rcases List.mem_cons.mp hb with rfl | hb
      · rw [if_neg hne]
        split
        · exact ⟨_, .head _, .head _⟩
        · exact ⟨_, .head _, .head _⟩
      · obtain ⟨f, hf, hbf⟩ := ih hb
        split
        · exact ⟨f, .tail _ hf, hbf⟩
        · split
          · rename_i hnone
            rw [hnone] at hf
            cases hf
          · rename_i piece pieces hsome
            rw [hsome] at hf
            rcases List.mem_cons.mp hf with rfl | hf
            · exact ⟨_, .head _, .tail _ hbf⟩
            · exact ⟨f, .tail _ hf, hbf⟩

/-- There are the bytes of the pieces, and at most one separator for each. -/
theorem length_le_flatten_fields (sep : UInt8) (s : Bytes) :
    s.length ≤ (fields sep s).flatten.length + (fields sep s).length := by
  induction s with
  | nil => exact Nat.zero_le _
  | cons c rest ih =>
      rw [fields_cons]
      split
      · simp only [List.flatten_cons, List.nil_append, List.length_cons]
        omega
      · split
        · rename_i hnone
          rw [hnone] at ih
          simp only [List.flatten_nil, List.length_nil] at ih
          simp only [List.length_cons]
          omega
        · rename_i piece pieces hsome
          rw [hsome] at ih
          simp only [List.flatten_cons, List.length_append, List.length_cons] at ih ⊢
          omega

/-- Pieces of some size, with a separator each, are as long as the whole. -/
theorem length_le_of_fields {n : Nat} (h : ∀ f ∈ fields sep s, f.length ≤ n) :
    s.length ≤ (fields sep s).length * (n + 1) := by
  refine (length_le_flatten_fields sep s).trans ?_
  generalize fields sep s = pieces at h
  induction pieces with
  | nil => exact Nat.zero_le _
  | cons f pieces ih =>
      obtain ⟨hf, hpieces⟩ := List.forall_mem_cons.mp h
      have hrest := ih hpieces
      rw [List.flatten_cons, List.length_append, List.length_cons, Nat.succ_mul]
      omega

/-- The pieces come first, be there an empty one behind them or not. -/
theorem prefix_ended (pieces : List Bytes) (p : Prop) [Decidable p] :
    pieces <+: if p then pieces ++ [[]] else pieces := by
  split
  · exact List.prefix_append _ _
  · exact List.prefix_rfl

/-- A text is made of digits and marks if its pieces are, and it is not long if they are not. -/
theorem addresslike_of_fields {n : Nat} (hsep : UrlHost.isAddressByte sep = true)
    (h : ∀ f ∈ fields sep s, f.Addresslike ∧ f.length ≤ n) :
    s.Addresslike ∧ s.length ≤ (fields sep s).length * (n + 1) := by
  refine ⟨?_, length_le_of_fields fun f hf => (h f hf).2⟩
  intro x hx
  by_cases hx' : x = sep
  · rwa [hx']
  · obtain ⟨f, hf, hxf⟩ := exists_field_of_mem hx hx'
    exact (h f hf).1 x hxf

end Bytes

/-! ## Dotted quads -/

namespace IpAddress

theorem length_decimal_octet (o : UInt8) : (Numeral.decimal o.toNat).length ≤ 3 :=
  Byte.forall_of_fin (p := fun o => (Numeral.decimal o.toNat).length ≤ 3) (by decide +kernel) o

/-- Where there is room for all pieces, none is left out. -/
theorem format_of_fits {capacity : Nat} {address : IpAddress}
    (h : address.pieces.flatten.length ≤ capacity) :
    address.format capacity = address.pieces.flatten := by
  have hfold (out : Bytes) (pieces : List Bytes) (hfits : (out ++ pieces.flatten).length ≤ capacity) :
      pieces.foldl (fun out piece =>
        if out.length + piece.length ≤ capacity then out ++ piece else out) out
          = out ++ pieces.flatten := by
    induction pieces generalizing out with
    | nil => exact (List.append_nil out).symm
    | cons piece pieces ih =>
        rw [List.flatten_cons, ← List.append_assoc] at hfits ⊢
        have hpiece : out.length + piece.length ≤ capacity := by
          rw [List.length_append, List.length_append] at hfits
          omega
        rw [List.foldl_cons, if_pos hpiece]
        exact ih _ hfits
  exact hfold [] address.pieces h

theorem text_quad (a b c d : UInt8) : (quad a b c d).text = Numeral.decimal a.toNat ++ Byte.dot ::
    (Numeral.decimal b.toNat ++ Byte.dot :: (Numeral.decimal c.toNat ++ Byte.dot ::
      Numeral.decimal d.toNat)) := by
  have ha := length_decimal_octet a
  have hb := length_decimal_octet b
  have hc := length_decimal_octet c
  have hd := length_decimal_octet d
  have hpieces : (quad a b c d).pieces.flatten = Numeral.decimal a.toNat ++ Byte.dot ::
      (Numeral.decimal b.toNat ++ Byte.dot :: (Numeral.decimal c.toNat ++ Byte.dot ::
        (Numeral.decimal d.toNat ++ []))) := rfl
  rw [List.append_nil] at hpieces
  rw [text, format_of_fits, hpieces]
  simp only [hpieces, List.length_append, List.length_cons]
  omega

end IpAddress

namespace Dotted

theorem octet?_decimal (o : UInt8) : octet? (Numeral.decimal o.toNat) = some o :=
  Byte.forall_of_fin (p := fun o => octet? (Numeral.decimal o.toNat) = some o)
    (by decide +kernel) o

theorem dot_not_mem_decimal (n : Nat) : Byte.dot ∉ Numeral.decimal n := by
  intro h
  exact absurd (Numeral.isDigit_of_mem_decimal h) (by decide)

/-- **What an IPv4 address is written as** is a dotted quad. -/
theorem quad?_text (a b c d : UInt8) :
    quad? (IpAddress.quad a b c d).text = some (IpAddress.quad a b c d) := by
  have hne : Numeral.decimal d.toNat ≠ [] := Numeral.render_ne_nil
  have hlast : (IpAddress.quad a b c d).text.getLast? ≠ some Byte.dot := by
    rw [IpAddress.text_quad, ← List.cons_append, ← List.append_assoc, ← List.cons_append,
      ← List.append_assoc, List.append_cons, List.getLast?_append_of_ne_nil _ hne]
    exact fun hdot => dot_not_mem_decimal _ (List.mem_of_getLast? hdot)
  have hparts : parts (IpAddress.quad a b c d).text = [Numeral.decimal a.toNat,
      Numeral.decimal b.toNat, Numeral.decimal c.toNat, Numeral.decimal d.toNat] := by
    rw [parts, if_neg hlast, IpAddress.text_quad, Bytes.fields_piece (dot_not_mem_decimal _),
      Bytes.fields_piece (dot_not_mem_decimal _), Bytes.fields_piece (dot_not_mem_decimal _),
      Bytes.fields_last (dot_not_mem_decimal _) hne]
  rw [quad?, hparts]
  simp [octet?_decimal]

/-- The first digit counts by the number of those behind it. -/
theorem le_value_cons {b : UInt8} (hb : Byte.isDigit b = true) (hne : b ≠ 48) (rest : Bytes) :
    10 ^ rest.length ≤ Numeral.value 10 (b :: rest) := by
  have hfold (n : Nat) (s : Bytes) : n * 10 ^ s.length
      ≤ s.foldl (fun n b => 10 * n + ((Byte.hexValue? b).getD 0).toNat) n := by
    induction s generalizing n with
    | nil => exact (Nat.mul_one n).le
    | cons c s ih =>
        refine Nat.le_trans ?_ (ih _)
        rw [List.length_cons, Nat.pow_succ', ← Nat.mul_assoc]
        refine Nat.mul_le_mul_right _ ?_
        show n * 10 ≤ 10 * n + _
        omega
  have hfirst : 1 ≤ 10 * 0 + ((Byte.hexValue? b).getD 0).toNat :=
    Byte.forall_of_fin (p := fun b => Byte.isDigit b = true → b ≠ 48 →
      1 ≤ 10 * 0 + ((Byte.hexValue? b).getD 0).toNat) (by decide +kernel) b hb hne
  exact Nat.le_trans (Nat.le_mul_of_pos_left _ hfirst) (hfold _ rest)

/-- What the text of an octet is. -/
structure IsOctet (s : Bytes) (o : UInt8) : Prop where
  unpadded : ∀ c rest, s ≠ 48 :: c :: rest
  ne_nil : s ≠ []
  digits : s.all Byte.isDigit = true
  lt : Numeral.value 10 s < 256
  eq : o = UInt8.ofNat (Numeral.value 10 s)

theorem isOctet_of_octet? {s : Bytes} {o : UInt8} (h : octet? s = some o) : IsOctet s o := by
  unfold octet? at h
  split at h
  · cases h
  · rename_i hunpadded
    obtain ⟨n, hn, rfl⟩ := Option.map_eq_some_iff.mp h
    unfold Numeral.decimal? at hn
    split at hn
    · rename_i hdigits
      cases hn
      exact ⟨hunpadded, hdigits.1, hdigits.2.1, hdigits.2.2, rfl⟩
    · cases hn

/-- An octet is at most three digits. -/
theorem IsOctet.length_le {s : Bytes} {o : UInt8} (h : IsOctet s o) : s.length ≤ 3 := by
  have hdigits := List.all_eq_true.mp h.digits
  match s, h, hdigits with
  | [], _, _ => exact Nat.zero_le 3
  | [b], _, _ => exact Nat.le_of_lt (by decide : 1 < 3)
  | b :: c :: rest, h, hdigits =>
      have hb : b ≠ 48 := by
        rintro rfl
        exact h.unpadded c rest rfl
      -- With a fourth digit the number would be a thousand at least.
      have hlt := Nat.lt_of_le_of_lt (le_value_cons (hdigits b (.head _)) hb (c :: rest)) h.lt
      by_contra hlong
      have : 10 ^ 3 ≤ 10 ^ (c :: rest).length :=
        Nat.pow_le_pow_right (by decide) (Nat.lt_of_succ_lt_succ (Nat.not_le.mp hlong))
      omega

theorem IsOctet.addresslike {s : Bytes} {o : UInt8} (h : IsOctet s o) : s.Addresslike :=
  fun b hb => Byte.isAddressByte_of_isDigit (List.all_eq_true.mp h.digits b hb)

/-- **A dotted quad** is four octets with a dot between them. -/
theorem exists_of_quad? {s : Bytes} {address : IpAddress} (h : quad? s = some address) :
    ∃ f₁ f₂ f₃ f₄ a b c d, parts s = [f₁, f₂, f₃, f₄] ∧ IsOctet f₁ a ∧ IsOctet f₂ b ∧
      IsOctet f₃ c ∧ IsOctet f₄ d ∧ address = .quad a b c d := by
  unfold quad? at h
  split at h
  · rename_i f₁ f₂ f₃ f₄ hparts
    obtain ⟨a, ha, h⟩ := Option.bind_eq_some_iff.mp h
    obtain ⟨b, hb, h⟩ := Option.bind_eq_some_iff.mp h
    obtain ⟨c, hc, h⟩ := Option.bind_eq_some_iff.mp h
    obtain ⟨d, hd, h⟩ := Option.bind_eq_some_iff.mp h
    cases h
    exact ⟨f₁, f₂, f₃, f₄, a, b, c, d, hparts, isOctet_of_octet? ha, isOctet_of_octet? hb,
      isOctet_of_octet? hc, isOctet_of_octet? hd, rfl⟩
  · cases h

/-- What a dotted quad is made of. -/
theorem quad?_short {s : Bytes} {address : IpAddress} (h : quad? s = some address) :
    s.Addresslike ∧ s.length ≤ 16 := by
  obtain ⟨f₁, f₂, f₃, f₄, a, b, c, d, hparts, ha, hb, hc, hd, -⟩ := exists_of_quad? h
  have hall : ∀ f ∈ parts s, ∃ o, IsOctet f o := by
    rw [hparts]
    simp only [List.forall_mem_cons]
    exact ⟨⟨a, ha⟩, ⟨b, hb⟩, ⟨c, hc⟩, ⟨d, hd⟩, fun _ hf => absurd hf List.not_mem_nil⟩
  have hsub : Bytes.fields Byte.dot s <+: parts s := Bytes.prefix_ended _ _
  obtain ⟨haddress, hlength⟩ : s.Addresslike ∧ s.length ≤ (Bytes.fields Byte.dot s).length * 4 := by
    refine Bytes.addresslike_of_fields (by decide) ?_
    intro f hf
    obtain ⟨o, ho⟩ := hall f (hsub.subset hf)
    exact ⟨ho.addresslike, ho.length_le⟩
  have hfour : (Bytes.fields Byte.dot s).length ≤ 4 := by
    simpa [hparts] using hsub.length_le
  exact ⟨haddress, hlength.trans (Nat.mul_le_mul_right 4 hfour)⟩

/-- An octet is the same number in the wider reading. -/
theorem IsOctet.number?_eq {s : Bytes} {o : UInt8} (h : IsOctet s o) :
    number? s = some o.toNat := by
  rw [h.eq, UInt8.toNat_ofNat', Nat.mod_eq_of_lt h.lt]
  unfold number?
  split
  · exact absurd rfl (h.unpadded _ _)
  · exact if_pos ⟨h.ne_nil, h.digits⟩

theorem ofWord_quad (a b c d : UInt8) : IpAddress.ofWord
    (a.toNat * 0x1000000 + b.toNat * 0x10000 + c.toNat * 0x100 + d.toNat) = .quad a b c d := by
  have ha := a.toNat_lt
  have hb := b.toNat_lt
  have hc := c.toNat_lt
  have hd := d.toNat_lt
  rw [IpAddress.ofWord, Byte.ofNat_eq (b := a) (by omega), Byte.ofNat_eq (b := b) (by omega),
    Byte.ofNat_eq (b := c) (by omega), Byte.ofNat_eq (b := d) (by omega)]

/-- **The wider reading** takes every dotted quad for the same address. -/
theorem numbers?_of_quad? {s : Bytes} {address : IpAddress} (h : quad? s = some address) :
    numbers? s = some address := by
  obtain ⟨f₁, f₂, f₃, f₄, a, b, c, d, hparts, ha, hb, hc, hd, rfl⟩ := exists_of_quad? h
  have hmap : (parts s).mapM number? = some [a.toNat, b.toNat, c.toNat, d.toNat] := by
    rw [hparts]
    simp [ha.number?_eq, hb.number?_eq, hc.number?_eq, hd.number?_eq]
  rw [numbers?, hmap]
  simp only [Option.bind_eq_bind, Option.bind_some]
  rw [if_pos ⟨a.toNat_lt, b.toNat_lt, c.toNat_lt, d.toNat_lt⟩, ofWord_quad]

/-- What the wider reading gives is an IPv4 address. -/
theorem exists_of_numbers? {s : Bytes} {address : IpAddress} (h : numbers? s = some address) :
    ∃ a b c d, address = .quad a b c d := by
  have hword {n : Nat} {p : Prop} [Decidable p]
      (h : (if p then some (IpAddress.ofWord n) else none) = some address) :
      ∃ a b c d, address = .quad a b c d := by
    split at h
    · cases h
      exact ⟨_, _, _, _, rfl⟩
    · cases h
  unfold numbers? at h
  obtain ⟨ns, -, h⟩ := Option.bind_eq_some_iff.mp h
  split at h
  · exact hword h
  · exact hword h
  · exact hword h
  · exact hword h
  · cases h

end Dotted

/-! ## Groups -/

namespace Coloned

/-- A field of an address: it is made of digits and marks, and it is not long. -/
def IsField (f : Bytes) : Prop := f.Addresslike ∧ f.length ≤ 16

theorem isField_of_group? {f : Bytes} {g : UInt16} (h : group? f = some g) : IsField f := by
  unfold group? at h
  split at h
  · rename_i hdigits
    obtain ⟨-, hlength, hall⟩ := hdigits
    rw [List.all_eq_true] at hall
    exact ⟨fun b hb => Byte.isAddressByte_of_hexValue? (hall b hb), by omega⟩
  · cases h

theorem isField_of_quadGroups? {f : Bytes} {gs : List UInt16} (h : quadGroups? f = some gs) :
    IsField f ∧ gs.length = 2 := by
  unfold quadGroups? at h
  split at h
  · rename_i octets hquad
    split at h
    · cases h
      exact ⟨Dotted.quad?_short hquad, rfl⟩
    · cases h
  · cases h

/-- There is a group at least for each field, and one more at most. -/
theorem fields_of_groupsOfFields? {fs : List Bytes} {gs : List UInt16}
    (h : groupsOfFields? fs = some gs) :
    (∀ f ∈ fs, IsField f) ∧ fs.length ≤ gs.length ∧ gs.length ≤ fs.length + 1 := by
  fun_induction groupsOfFields? fs generalizing gs with
  | case1 =>
      cases h
      exact ⟨fun _ hf => absurd hf List.not_mem_nil, Nat.le_refl _, Nat.zero_le _⟩
  | case2 last g hgroup =>
      cases h
      refine ⟨?_, Nat.le_refl _, Nat.le_succ _⟩
      exact List.forall_mem_singleton.mpr (isField_of_group? hgroup)
  | case3 last hgroup =>
      obtain ⟨hfield, htwo⟩ := isField_of_quadGroups? h
      rw [htwo]
      exact ⟨List.forall_mem_singleton.mpr hfield, Nat.le_succ _, Nat.le_refl _⟩
  | case4 field rest hrest ih =>
      obtain ⟨g, hg, h⟩ := Option.bind_eq_some_iff.mp h
      obtain ⟨more, hmore, h⟩ := Option.bind_eq_some_iff.mp h
      cases h
      obtain ⟨hfields, hle, hge⟩ := ih hmore
      refine ⟨List.forall_mem_cons.mpr ⟨isField_of_group? hg, hfields⟩, ?_, ?_⟩
      · exact Nat.succ_le_succ hle
      · exact Nat.succ_le_succ hge

theorem fields_of_mapM {fs : List Bytes} {gs : List UInt16} (h : fs.mapM group? = some gs) :
    (∀ f ∈ fs, IsField f) ∧ fs.length = gs.length := by
  induction fs generalizing gs with
  | nil =>
      cases h
      exact ⟨fun _ hf => absurd hf List.not_mem_nil, rfl⟩
  | cons f fs ih =>
      rw [List.mapM_cons] at h
      obtain ⟨g, hg, h⟩ := Option.bind_eq_some_iff.mp h
      obtain ⟨more, hmore, h⟩ := Option.bind_eq_some_iff.mp h
      cases h
      obtain ⟨hfields, hlength⟩ := ih hmore
      exact ⟨List.forall_mem_cons.mpr ⟨isField_of_group? hg, hfields⟩, congrArg (· + 1) hlength⟩

/-- A text of such fields. -/
theorem short_of_parts {s : Bytes} (h : ∀ f ∈ parts s, IsField f) :
    s.Addresslike ∧ s.length ≤ (parts s).length * 17 := by
  have hsub : Bytes.fields Byte.colon s <+: parts s := Bytes.prefix_ended _ _
  obtain ⟨haddress, hlength⟩ := Bytes.addresslike_of_fields (by decide) fun f hf =>
    h f (hsub.subset hf)
  exact ⟨haddress, hlength.trans (Nat.mul_le_mul_right 17 hsub.length_le)⟩

theorem eq_of_cutAtGap? {s before after : Bytes} (h : cutAtGap? s = some (before, after)) :
    s = before ++ Byte.colon :: Byte.colon :: after := by
  fun_induction cutAtGap? s generalizing before with
  | case1 => cases h
  | case2 => cases h
  | case3 b c rest hgap =>
      obtain ⟨rfl, rfl⟩ := hgap
      cases h
      rfl
  | case4 b c rest hgap ih =>
      obtain ⟨⟨l, r⟩, hcut, heq⟩ := Option.map_eq_some_iff.mp h
      cases heq
      exact congrArg (b :: ·) (ih hcut)

/-- Without a colon there is one field at most. -/
theorem length_parts_le {s : Bytes} (h : Byte.colon ∉ s) : (parts s).length ≤ 1 := by
  have hlast : s.getLast? ≠ some Byte.colon := fun hlast => h (List.mem_of_getLast? hlast)
  rw [parts, if_neg hlast]
  by_cases hne : s = []
  · rw [hne]
    exact Nat.zero_le 1
  · rw [Bytes.fields_last h hne]
    exact Nat.le_refl 1

/-- **A text of groups** has a colon, nothing in it but digits and marks, and it is short. -/
theorem groups?_spells {s : Bytes} {gs : List UInt16} (h : groups? s = some gs) :
    Byte.colon ∈ s ∧ s.Addresslike ∧ s.length ≤ 200 := by
  unfold groups? at h
  split at h
  · obtain ⟨all, hall, h⟩ := Option.bind_eq_some_iff.mp h
    split at h
    · -- Eight groups are eight fields at most, each of 16 bytes at most and with a colon.
      rename_i height
      obtain ⟨hfields, hle, hge⟩ := fields_of_groupsOfFields? hall
      obtain ⟨haddress, hlength⟩ := short_of_parts hfields
      refine ⟨?_, haddress, by omega⟩
      by_contra hcolon
      have := length_parts_le hcolon
      omega
    · cases h
  · rename_i before after hcut
    obtain ⟨front, hfront, h⟩ := Option.bind_eq_some_iff.mp h
    obtain ⟨back, hback, h⟩ := Option.bind_eq_some_iff.mp h
    split at h
    · -- There are fewer groups on the two sides of the gap together.
      rename_i hlt
      obtain ⟨hbefore, hfrontle⟩ := fields_of_mapM hfront
      obtain ⟨hafter, hbackle, -⟩ := fields_of_groupsOfFields? hback
      obtain ⟨haddress, hlength⟩ := short_of_parts hbefore
      obtain ⟨haddress', hlength'⟩ := short_of_parts hafter
      have hcolon : UrlHost.isAddressByte Byte.colon = true := by decide
      rw [eq_of_cutAtGap? hcut]
      refine ⟨by simp, haddress.append ?_, ?_⟩
      · exact List.forall_mem_cons.mpr ⟨hcolon, List.forall_mem_cons.mpr ⟨hcolon, haddress'⟩⟩
      · rw [List.length_append, List.length_cons, List.length_cons]
        omega
    · cases h

end Coloned

end HttpExchange
