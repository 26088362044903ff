import Pkix.Proofs.Der.Alphabet

/-!
# Well-formed UTF-8

The octets of a text are those of its characters, one after the other. The first octet of a
character tells how many go on with it. Shorter forms of a code, codes of surrogates and codes above
the last character make the ranges of the second octet narrower after four of the first ones; a
string of octets outside these ranges is no form of any text.
-/

namespace Pkix.Utf8

/-- Whether an octet goes on with a character. -/
def IsTail (b : UInt8) : Prop := 0x80 ≤ b.toNat ∧ b.toNat ≤ 0xbf

/-- The octets of one character. -/
inductive IsCharacter : Octets → Prop
  | one {a : UInt8} (ha : a.toNat ≤ 0x7f) : IsCharacter [a]
  | two {a b : UInt8} (hlow : 0xc2 ≤ a.toNat) (hhigh : a.toNat ≤ 0xdf) (hb : IsTail b) :
      IsCharacter [a, b]
  | three {a b c : UInt8} (hlow : 0xe0 ≤ a.toNat) (hhigh : a.toNat ≤ 0xef) (hb : IsTail b)
      (hc : IsTail c) (hshorter : a.toNat = 0xe0 → 0xa0 ≤ b.toNat)
      (hsurrogate : a.toNat = 0xed → b.toNat ≤ 0x9f) : IsCharacter [a, b, c]
  | four {a b c d : UInt8} (hlow : 0xf0 ≤ a.toNat) (hhigh : a.toNat ≤ 0xf4) (hb : IsTail b)
      (hc : IsTail c) (hd : IsTail d) (hshorter : a.toNat = 0xf0 → 0x90 ≤ b.toNat)
      (hlast : a.toNat = 0xf4 → b.toNat ≤ 0x8f) : IsCharacter [a, b, c, d]

inductive WellFormed : Octets → Prop
  | nil : WellFormed []
  | append {octets rest : Octets} (h : IsCharacter octets) (hrest : WellFormed rest) :
      WellFormed (octets ++ rest)

/-! ## Characters -/

section Encode

variable {c : Char}

theorem encodeChar_two (hlow : 0x7f < c.toNat) (hhigh : c.toNat ≤ 0x7ff) :
    String.utf8EncodeChar c =
      [UInt8.ofNat (c.toNat / 64 % 32 + 0xc0), UInt8.ofNat (c.toNat % 64 + 0x80)] := by
  rw [String.utf8EncodeChar]
  exact (if_neg (Nat.not_le.mpr hlow)).trans (if_pos hhigh)

theorem encodeChar_three (hlow : 0x7ff < c.toNat) (hhigh : c.toNat ≤ 0xffff) :
    String.utf8EncodeChar c =
      [UInt8.ofNat (c.toNat / 4096 % 16 + 0xe0), UInt8.ofNat (c.toNat / 64 % 64 + 0x80),
        UInt8.ofNat (c.toNat % 64 + 0x80)] := by
  have hone : ¬c.toNat ≤ 0x7f := by omega
  rw [String.utf8EncodeChar]
  exact (if_neg hone).trans ((if_neg (Nat.not_le.mpr hlow)).trans (if_pos hhigh))

theorem encodeChar_four (hlow : 0xffff < c.toNat) :
    String.utf8EncodeChar c =
      [UInt8.ofNat (c.toNat / 262144 % 8 + 0xf0), UInt8.ofNat (c.toNat / 4096 % 64 + 0x80),
        UInt8.ofNat (c.toNat / 64 % 64 + 0x80), UInt8.ofNat (c.toNat % 64 + 0x80)] := by
  have hone : ¬c.toNat ≤ 0x7f := by omega
  have htwo : ¬c.toNat ≤ 0x7ff := by omega
  rw [String.utf8EncodeChar]
  exact (if_neg hone).trans ((if_neg htwo).trans (if_neg (Nat.not_le.mpr hlow)))

theorem isTail_ofNat (n : Nat) : IsTail (UInt8.ofNat (n % 64 + 0x80)) := by
  rw [IsTail, UInt8.toNat_ofNat']
  omega

theorem isCharacter_encodeChar (c : Char) : IsCharacter (String.utf8EncodeChar c) := by
  have hvalid : c.toNat < 0xd800 ∨ 0xdfff < c.toNat ∧ c.toNat < 0x110000 := c.valid
  -- Each form is for the codes above the next shorter one. That bound and the ranges of the codes
  -- of characters are what makes the ranges of the second octet narrower.
  rcases Nat.lt_or_ge 0xffff c.toNat with hfour | hle
  · rw [encodeChar_four hfour]
    refine .four ?_ ?_ (isTail_ofNat _) (isTail_ofNat _) (isTail_ofNat _) ?_ ?_
    all_goals
      simp only [UInt8.toNat_ofNat']
      omega
  rcases Nat.lt_or_ge 0x7ff c.toNat with hthree | hle'
  · rw [encodeChar_three hthree hle]
    refine .three ?_ ?_ (isTail_ofNat _) (isTail_ofNat _) ?_ ?_
    all_goals
      simp only [UInt8.toNat_ofNat']
      omega
  rcases Nat.lt_or_ge 0x7f c.toNat with htwo | hone
  · rw [encodeChar_two htwo hle']
    refine .two ?_ ?_ (isTail_ofNat _)
    all_goals
      rw [UInt8.toNat_ofNat']
      omega
  · rw [encodeChar_of_le hone]
    apply IsCharacter.one
    rw [UInt8.toNat_ofNat']
    omega

end Encode

theorem exists_char {n : Nat} (h : n < 0xd800 ∨ 0xdfff < n ∧ n < 0x110000) :
    ∃ c : Char, c.toNat = n :=
  ⟨Char.ofNat n, Octets.toNat_charOfNat h⟩

/-- The octets of a character are the form of the one whose code they make. -/
theorem IsCharacter.exists_encodeChar {octets : Octets} (h : IsCharacter octets) :
    ∃ c, String.utf8EncodeChar c = octets := by
  -- The code is put together from six bits of each tail. The narrower ranges of the second octet
  -- keep it among the codes of characters and above those of shorter forms.
  cases h with
  | @one a ha =>
      obtain ⟨x, hx⟩ := exists_char (n := a.toNat) (by omega)
      refine ⟨x, (encodeChar_of_le (by omega)).trans ?_⟩
      rw [hx, UInt8.ofNat_toNat]
  | @two a b hlow hhigh hb =>
      obtain ⟨hb, hb'⟩ := hb
      obtain ⟨x, hx⟩ := exists_char (n := 64 * (a.toNat - 0xc0) + (b.toNat - 0x80)) (by omega)
      refine ⟨x, (encodeChar_two (by omega) (by omega)).trans ?_⟩
      simp only [List.cons.injEq, and_true, UInt8.ofNat_eq_iff_mod_eq_toNat]
      omega
  | @three a b c hlow hhigh hb hc hshorter hsurrogate =>
      obtain ⟨hb, hb'⟩ := hb
      obtain ⟨hc, hc'⟩ := hc
      obtain ⟨x, hx⟩ := exists_char
        (n := 4096 * (a.toNat - 0xe0) + 64 * (b.toNat - 0x80) + (c.toNat - 0x80)) (by omega)
      refine ⟨x, (encodeChar_three (by omega) (by omega)).trans ?_⟩
      simp only [List.cons.injEq, and_true, UInt8.ofNat_eq_iff_mod_eq_toNat]
      omega
  | @four a b c d hlow hhigh hb hc hd hshorter hlast =>
      obtain ⟨hb, hb'⟩ := hb
      obtain ⟨hc, hc'⟩ := hc
      obtain ⟨hd, hd'⟩ := hd
      obtain ⟨x, hx⟩ := exists_char
        (n := 262144 * (a.toNat - 0xf0) + 4096 * (b.toNat - 0x80) + 64 * (c.toNat - 0x80) +
          (d.toNat - 0x80)) (by omega)
      refine ⟨x, (encodeChar_four (by omega)).trans ?_⟩
      simp only [List.cons.injEq, and_true, UInt8.ofNat_eq_iff_mod_eq_toNat]
      omega

/-! ## Texts -/

theorem wellFormed_flatMap (chars : List Char) :
    WellFormed (chars.flatMap String.utf8EncodeChar) := by
  induction chars with
  | nil => exact .nil
  | cons c chars ih =>
      rw [List.flatMap_cons]
      exact .append (isCharacter_encodeChar c) ih

theorem wellFormed_iff_exists_encode {octets : Octets} :
    WellFormed octets ↔ ∃ text, octets = encode text := by
  constructor
  · intro h
    induction h with
    | nil => exact ⟨"", rfl⟩
    | append hfirst _ ih =>
        obtain ⟨c, rfl⟩ := hfirst.exists_encodeChar
        obtain ⟨text, rfl⟩ := ih
        refine ⟨String.ofList (c :: text.toList), ?_⟩
        rw [encode, encode, String.toList_ofList, List.flatMap_cons]
  · rintro ⟨text, rfl⟩
    exact wellFormed_flatMap text.toList

theorem exists_decode?_iff {octets : Octets} :
    (∃ text, decode? octets = some text) ↔ WellFormed octets := by
  rw [wellFormed_iff_exists_encode]
  exact exists_congr fun text => decode?_eq_some_iff.trans eq_comm

instance : DecidablePred WellFormed := fun octets =>
  decidable_of_iff ((decode? octets).isSome = true) <| by
    rw [Option.isSome_iff_exists, exists_decode?_iff]

end Pkix.Utf8
