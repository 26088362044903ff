import Pkix.Proofs.Der.Text
import Pkix.Proofs.Fallible

/-!
# Texts of an alphabet

A text is read from an element of six string types, whatever characters it has. Whether these belong
to an alphabet of ASCII characters can be told from the content: every octet of it is the code of
such a character, or in a BMPString every other one, after a zero.
-/

namespace Pkix

open Der

/-! ## Characters and octets -/

namespace Octets

/-- The character that an octet is the code of. -/
def char (b : UInt8) : Char := Char.ofNat b.toNat

theorem toNat_charOfNat {n : Nat} (h : n.isValidChar) : (Char.ofNat n).toNat = n := by
  rw [Char.ofNat, dif_pos h]
  rfl

theorem toNat_char (b : UInt8) : (char b).toNat = b.toNat := by
  have hb := b.toNat_lt
  exact toNat_charOfNat (Or.inl (by omega))

theorem char_ofNat {c : Char} (hc : c.toNat ≤ 0x7f) : char (UInt8.ofNat c.toNat) = c := by
  have hcode : (UInt8.ofNat c.toNat).toNat = c.toNat := by
    rw [UInt8.toNat_ofNat']
    omega
  rw [char, hcode, Char.ofNat_toNat]

end Octets

/-- Whether all characters of an alphabet are in ASCII. -/
def IsAsciiAlphabet (alphabet : Char → Bool) : Prop :=
  ∀ c, alphabet c = true → c.toNat ≤ 0x7f

theorem Der.isAsciiAlphabet_isIa5 : IsAsciiAlphabet isIa5 := fun c hc => by
  simpa [isIa5] using hc

theorem Der.isAsciiAlphabet_isPrintable : IsAsciiAlphabet isPrintable := fun c hc => by
  have hmarks : (" '()+,-./:=?".toList.all isIa5) = true := by decide
  rcases Bool.or_eq_true_iff.mp hc with halnum | hmark
  · have hranges : (decide (65 ≤ c.val ∧ c.val ≤ 90) || (97 ≤ c.val && c.val ≤ 122) ||
        (48 ≤ c.val && c.val ≤ 57)) = true := halnum
    simp only [Bool.or_eq_true, Bool.and_eq_true, decide_eq_true_eq, UInt32.le_iff_toNat_le,
      UInt32.reduceToNat, Char.toNat_val] at hranges
    omega
  · exact isAsciiAlphabet_isIa5 c (List.all_eq_true.mp hmarks c (by simpa using hmark))

/-! ## The content of a text -/

namespace Utf8

/-- The UTF-8 form of a text is all that it is read from. -/
theorem decode?_eq_some_iff {octets : Octets} {text : String} :
    decode? octets = some text ↔ encode text = octets := by
  constructor
  · intro h
    rw [decode?, String.fromUTF8?] at h
    split at h
    · obtain rfl := Option.some.inj h
      rw [encode_eq]
      rfl
    · cases h
  · rintro rfl
    exact decode?_encode text

theorem encodeChar_of_le {c : Char} (hc : c.toNat ≤ 0x7f) :
    String.utf8EncodeChar c = [UInt8.ofNat c.toNat] := by
  rw [String.utf8EncodeChar]
  exact if_pos hc

/-- The first of several octets is no code of an ASCII character. -/
theorem exists_mem_encodeChar_of_lt {c : Char} (hc : 0x7f < c.toNat) :
    ∃ b ∈ String.utf8EncodeChar c, 0x7f < b.toNat := by
  have hval : ¬ c.val.toNat ≤ 127 := Nat.not_le.mpr hc
  simp only [String.utf8EncodeChar, if_neg hval]
  split
  · exact ⟨_, List.mem_cons_self, by rw [UInt8.toNat_ofNat']; omega⟩
  · split
    all_goals exact ⟨_, List.mem_cons_self, by rw [UInt8.toNat_ofNat']; omega⟩

/-- A text is in an alphabet of ASCII characters if its octets are the codes of such characters. -/
theorem forall_mem_iff_of_encode {alphabet : Char → Bool} (hascii : IsAsciiAlphabet alphabet)
    (text : String) :
    (∀ c ∈ text.toList, alphabet c = true) ↔
      ∀ b ∈ encode text, alphabet (Octets.char b) = true := by
  have hone : ∀ c : Char, alphabet c = true ↔
      ∀ b ∈ String.utf8EncodeChar c, alphabet (Octets.char b) = true := by
    intro c
    by_cases hc : c.toNat ≤ 0x7f
    · rw [encodeChar_of_le hc, List.forall_mem_singleton, Octets.char_ofNat hc]
    · obtain ⟨b, hb, hhigh⟩ := exists_mem_encodeChar_of_lt (Nat.not_le.mp hc)
      refine iff_of_false (fun h => hc (hascii c h)) (fun h => ?_)
      have hlow := hascii _ (h b hb)
      rw [Octets.toNat_char] at hlow
      omega
  rw [encode, List.forall_mem_flatMap]
  exact forall₂_congr fun c _ => hone c

end Utf8

/-- The codes of characters, each after a zero: what a BMPString of them holds. -/
def Octets.widened (codes : Octets) : Octets := codes.flatMap fun b => [0, b]

theorem Octets.widened_cons (b : UInt8) (codes : Octets) :
    widened (b :: codes) = 0 :: b :: widened codes := rfl

namespace Der

/-- A unit of sixteen bits is the code of an ASCII character if its low octet is, after a zero. -/
theorem alphabet_unit_iff {alphabet : Char → Bool} (hascii : IsAsciiAlphabet alphabet)
    {high low : UInt8} (hunit : (256 * high.toNat + low.toNat).isValidChar) :
    alphabet (Char.ofNat (256 * high.toNat + low.toNat)) = true ↔
      high = 0 ∧ alphabet (Octets.char low) = true := by
  constructor
  · intro h
    have hle := hascii _ h
    rw [Octets.toNat_charOfNat hunit] at hle
    obtain rfl : high = 0 := UInt8.toNat_inj.mp (by rw [UInt8.toNat_zero]; omega)
    exact ⟨rfl, by simpa [Octets.char] using h⟩
  · rintro ⟨rfl, h⟩
    simpa [Octets.char] using h

/-- The units of a BMPString are characters of an alphabet of ASCII characters if they are the codes
of these, each after a zero. -/
theorem forall_mem_iff_of_decodeBmp? {alphabet : Char → Bool} (hascii : IsAsciiAlphabet alphabet)
    {content : Octets} {chars : List Char} (h : decodeBmp? content = some chars) :
    (∀ c ∈ chars, alphabet c = true) ↔
      ∃ codes : Octets, (∀ b ∈ codes, alphabet (Octets.char b) = true) ∧
        content = codes.widened := by
  fun_induction decodeBmp? content generalizing chars with
  | case1 =>
      obtain rfl := Option.some.inj h
      exact iff_of_true (by simp) ⟨[], by simp, rfl⟩
  | case2 => cases h
  | case3 high low rest unit hunit =>
      rename_i ih
      obtain ⟨chars, hchars, rfl⟩ := Option.map_eq_some_iff.mp h
      have hvalid : unit.isValidChar := by
        rcases hunit with hbelow | ⟨habove, hbelow⟩
        · exact Or.inl hbelow
        · exact Or.inr ⟨habove, by omega⟩
      rw [List.forall_mem_cons, ih hchars, alphabet_unit_iff hascii hvalid]
      constructor
      · rintro ⟨⟨rfl, hlow⟩, codes, hcodes, rfl⟩
        exact ⟨low :: codes, List.forall_mem_cons.mpr ⟨hlow, hcodes⟩, rfl⟩
      · rintro ⟨codes, hcodes, hcontent⟩
        cases codes with
        | nil => cases hcontent
        | cons b codes =>
            obtain ⟨hfirst, hrest⟩ := List.forall_mem_cons.mp hcodes
            obtain ⟨rfl, rfl, rfl⟩ : high = 0 ∧ low = b ∧ rest = Octets.widened codes := by
              simpa [Octets.widened_cons] using hcontent
            exact ⟨⟨rfl, hfirst⟩, codes, hrest, rfl⟩
  | case4 => cases h

/-- Whether the content of an element is made of the codes of characters in an alphabet: one octet
each, or two in a BMPString. -/
def Element.IsWithin (alphabet : Char → Bool) (e : Element) : Prop :=
  ∃ codes : Octets, (∀ b ∈ codes, alphabet (Octets.char b) = true) ∧
    e.content = if e.tag = .universal .bmpString then codes.widened else codes

end Der

/-- A text is within an alphabet of ASCII characters if the content that it was read from is. -/
theorem DirectoryText.forall_mem_iff_isWithin {alphabet : Char → Bool}
    (hascii : IsAsciiAlphabet alphabet) {e : Element} {text : String} (h : decode e = .ok text) :
    (∀ c ∈ text.toList, alphabet c = true) ↔ e.IsWithin alphabet := by
  simp only [decode] at h
  split at h
  case h_6 htag =>
    obtain ⟨chars, hchars, rfl⟩ := Option.map_eq_some_iff.mp (Error.ifNone_eq_ok_iff.mp h)
    rw [String.toList_ofList, forall_mem_iff_of_decodeBmp? hascii hchars, Element.IsWithin, htag]
    simp
  case h_7 => cases h
  all_goals
    rename_i htag
    have hcontent := Utf8.decode?_eq_some_iff.mp (Error.ifNone_eq_ok_iff.mp h)
    rw [Utf8.forall_mem_iff_of_encode hascii, hcontent, Element.IsWithin, htag]
    simp

end Pkix
