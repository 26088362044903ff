import Pkix.Proofs.Text.WellFormed

/-!
# Texts under any string type

A text is the same under each of the string types: as UTF-8 under the five whose content is octets,
and as units of sixteen bits in a BMPString if its characters have codes below U+FFFF. Nothing but
the content decides whether there is a text; under other tags there is none.
-/

namespace Pkix

open Der

namespace Der

/-! ## Units of sixteen bits -/

/-- The octets of a unit, high octet first. -/
def unitOctets (n : Nat) : Octets := [UInt8.ofNat (n / 256), UInt8.ofNat n]

/-- The units of a text whose characters have one unit each. -/
def encodeBmp (text : String) : Octets := text.toList.flatMap fun c => unitOctets c.toNat

/-- Whether the characters of a text have codes below U+FFFF. -/
def IsBasic (text : String) : Prop := ∀ c ∈ text.toList, c.toNat < 0xffff

instance : DecidablePred IsBasic := fun text => List.decidableBAll _ text.toList

def IsSurrogate (n : Nat) : Prop := 0xd800 ≤ n ∧ n ≤ 0xdfff

/-- Whether two octets of a string, an even number of octets from its start, make a unit. -/
def HasUnit (octets : Octets) (n : Nat) : Prop :=
  ∃ before high low after, octets = before ++ high :: low :: after ∧ before.length % 2 = 0 ∧
    n = 256 * high.toNat + low.toNat

theorem unitOctets_eq (high low : UInt8) :
    unitOctets (256 * high.toNat + low.toNat) = [high, low] := by
  have hlow := low.toNat_lt
  have hhigh := high.toNat_lt
  simp only [unitOctets, List.cons.injEq, and_true, UInt8.ofNat_eq_iff_mod_eq_toNat]
  omega

theorem not_hasUnit_of_length_lt {octets : Octets} (h : octets.length < 2) (n : Nat) :
    ¬HasUnit octets n := by
  rintro ⟨before, high, low, after, rfl, -, -⟩
  simp only [List.length_append, List.length_cons] at h
  omega

theorem hasUnit_cons_cons {high low : UInt8} {rest : Octets} {n : Nat} :
    HasUnit (high :: low :: rest) n ↔ n = 256 * high.toNat + low.toNat ∨ HasUnit rest n := by
  constructor
  · rintro ⟨before, high', low', after, hsplit, heven, rfl⟩
    match before with
    | [] =>
        obtain ⟨rfl, rfl, rfl⟩ : high = high' ∧ low = low' ∧ rest = after := by simpa using hsplit
        exact Or.inl rfl
    | [_] => cases heven -- No unit starts at the second octet.
    | _ :: _ :: before =>
        obtain ⟨rfl, rfl, rfl⟩ := by simpa using hsplit
        refine Or.inr ⟨before, high', low', after, rfl, ?_, rfl⟩
        simp only [List.length_cons] at heven
        omega
  · rintro (rfl | ⟨before, high', low', after, rfl, heven, rfl⟩)
    · exact ⟨[], high, low, rest, rfl, rfl, rfl⟩
    · refine ⟨high :: low :: before, high', low', after, rfl, ?_, rfl⟩
      simp only [List.length_cons]
      omega

/-- A BMPString holds the units of its text and no others. -/
theorem decodeBmp?_eq_some_iff {octets : Octets} {chars : List Char} :
    decodeBmp? octets = some chars ↔
      (∀ c ∈ chars, c.toNat < 0xffff) ∧ octets = chars.flatMap fun c => unitOctets c.toNat := by
  constructor
  · intro h
    fun_induction decodeBmp? octets generalizing chars with
    | case1 =>
        obtain rfl := Option.some.inj h
        exact ⟨by simp, rfl⟩
    | case2 => cases h
    | case3 high low rest unit hunit =>
        rename_i ih
        obtain ⟨chars, hchars, rfl⟩ := Option.map_eq_some_iff.mp h
        obtain ⟨hbasic, rfl⟩ := ih hchars
        have hcode : (Char.ofNat unit).toNat = unit := by
          apply Octets.toNat_charOfNat
          rcases hunit with hbelow | ⟨habove, hbelow⟩
          · exact Or.inl hbelow
          · exact Or.inr ⟨habove, by omega⟩
        refine ⟨List.forall_mem_cons.mpr ⟨by omega, hbasic⟩, ?_⟩
        rw [List.flatMap_cons, hcode, unitOctets_eq]
        rfl
    | case4 => cases h
  · rintro ⟨hbasic, rfl⟩
    induction chars with
    | nil => rfl
    | cons c chars ih =>
        obtain ⟨hc, hrest⟩ := List.forall_mem_cons.mp hbasic
        have hvalid : c.toNat < 0xd800 ∨ 0xdfff < c.toNat ∧ c.toNat < 0x110000 := c.valid
        have hunit : 256 * (UInt8.ofNat (c.toNat / 256)).toNat + (UInt8.ofNat c.toNat).toNat =
            c.toNat := by
          rw [UInt8.toNat_ofNat', UInt8.toNat_ofNat']
          omega
        rw [List.flatMap_cons, unitOctets, List.cons_append, List.cons_append, List.nil_append,
          decodeBmp?, hunit, ih hrest, Char.ofNat_toNat]
        exact if_pos (by omega)

/-- A string of octets is a BMPString if it can be split into units of which each is a character
below U+FFFF. -/
theorem exists_decodeBmp?_iff {octets : Octets} :
    (∃ chars, decodeBmp? octets = some chars) ↔
      octets.length % 2 = 0 ∧ ∀ n, HasUnit octets n → ¬IsSurrogate n ∧ n ≠ 0xffff := by
  fun_induction decodeBmp? octets with
  | case1 =>
      refine iff_of_true ⟨[], rfl⟩ ⟨rfl, fun n hn => ?_⟩
      exact absurd hn (not_hasUnit_of_length_lt (by decide) n)
  | case2 => exact iff_of_false (by simp) (by simp)
  | case3 high low rest unit hunit ih =>
      have hfirst : ¬IsSurrogate unit ∧ unit ≠ 0xffff := by
        rw [IsSurrogate]
        omega
      have hrest : (∃ chars, (decodeBmp? rest).map (Char.ofNat unit :: ·) = some chars) ↔
          ∃ chars, decodeBmp? rest = some chars := by
        simp [Option.map_eq_some_iff]
      rw [hrest, ih, List.length_cons, List.length_cons]
      simp only [hasUnit_cons_cons, forall_eq_or_imp]
      exact and_congr (by omega) (and_iff_right hfirst).symm
  | case4 high low rest unit hunit =>
      have hlow := low.toNat_lt
      have hhigh := high.toNat_lt
      refine iff_of_false (by simp) ?_
      rintro ⟨-, hunits⟩
      -- No unit is above 0xffff, so what is not read is a surrogate or the last one.
      obtain ⟨hcharacter, hlast⟩ := hunits unit (hasUnit_cons_cons.mpr (Or.inl rfl))
      rw [IsSurrogate] at hcharacter
      omega

end Der

namespace DirectoryText

/-- The string types whose content is octets of UTF-8. -/
def octetTypes : List UniversalType :=
  [.utf8String, .printableString, .ia5String, .visibleString, .teletexString]

/-- All string types that a text is read from. -/
def stringTypes : List UniversalType := .bmpString :: octetTypes

/-- What an element of a string type holds for a text. -/
def content (type : UniversalType) (text : String) : Octets :=
  if type = .bmpString then encodeBmp text else Utf8.encode text

section Octets

variable {type : UniversalType} {octets : Octets} {text : String}

theorem decode_eq_of_mem_octetTypes (h : type ∈ octetTypes) (octets : Octets) :
    decode ⟨.universal type, octets⟩ = Error.decoding.ifNone (Utf8.decode? octets) := by
  simp only [octetTypes, List.mem_cons, List.not_mem_nil, or_false] at h
  rcases h with rfl | rfl | rfl | rfl | rfl
  all_goals rfl

theorem decode_octets_eq_ok_iff (h : type ∈ octetTypes) :
    decode ⟨.universal type, octets⟩ = .ok text ↔ octets = Utf8.encode text := by
  rw [decode_eq_of_mem_octetTypes h, Error.ifNone_eq_ok_iff, Utf8.decode?_eq_some_iff, eq_comm]

theorem exists_decode_octets_iff (h : type ∈ octetTypes) :
    (∃ text, decode ⟨.universal type, octets⟩ = .ok text) ↔ Utf8.WellFormed octets := by
  simp only [decode_eq_of_mem_octetTypes h, Error.ifNone_eq_ok_iff, Utf8.exists_decode?_iff]

theorem decode_bmpString (octets : Octets) :
    decode ⟨.universal .bmpString, octets⟩ =
      Error.decoding.ifNone ((decodeBmp? octets).map String.ofList) := rfl

theorem decode_units_eq_ok_iff :
    decode ⟨.universal .bmpString, octets⟩ = .ok text ↔ IsBasic text ∧ octets = encodeBmp text := by
  rw [decode_bmpString, Error.ifNone_eq_ok_iff, Option.map_eq_some_iff]
  constructor
  · rintro ⟨chars, hchars, rfl⟩
    simpa [IsBasic, encodeBmp] using decodeBmp?_eq_some_iff.mp hchars
  · intro h
    exact ⟨text.toList, decodeBmp?_eq_some_iff.mpr h, String.ofList_toList⟩

theorem exists_decode_units_iff :
    (∃ text, decode ⟨.universal .bmpString, octets⟩ = .ok text) ↔
      octets.length % 2 = 0 ∧ ∀ n, HasUnit octets n → ¬IsSurrogate n ∧ n ≠ 0xffff := by
  rw [← exists_decodeBmp?_iff]
  simp only [decode_bmpString, Error.ifNone_eq_ok_iff, Option.map_eq_some_iff]
  constructor
  · rintro ⟨text, chars, hchars, -⟩
    exact ⟨chars, hchars⟩
  · rintro ⟨chars, hchars⟩
    exact ⟨String.ofList chars, chars, hchars, rfl⟩

theorem exists_decode_eq_ifNone (h : type ∈ stringTypes) (octets : Octets) :
    ∃ o, decode ⟨.universal type, octets⟩ = Error.decoding.ifNone o := by
  rcases List.mem_cons.mp h with rfl | hoctets
  · exact ⟨_, decode_bmpString octets⟩
  · exact ⟨_, decode_eq_of_mem_octetTypes hoctets octets⟩

/-- Content under a string type that is no text does not follow the rules. -/
theorem decode_eq_decoding (h : type ∈ stringTypes)
    (hnone : ¬∃ text, decode ⟨.universal type, octets⟩ = .ok text) :
    decode ⟨.universal type, octets⟩ = .error .decoding := by
  obtain ⟨o, ho⟩ := exists_decode_eq_ifNone h octets
  rw [ho] at hnone ⊢
  cases o with
  | none => rfl
  | some text => exact absurd ⟨text, rfl⟩ hnone

theorem decode_eq_unsupported {tag : Tag} (h : ∀ type ∈ stringTypes, tag ≠ .universal type) :
    decode ⟨tag, octets⟩ = .error (.unsupportedText tag) := by
  cases tag with
  | other tagClass constructed number => rfl
  | universal type =>
      have hnot : type ∉ stringTypes := fun hmem => h type hmem rfl
      revert hnot
      cases type
      all_goals simp [stringTypes, octetTypes, decode]

theorem decode_content (htext : IsBasic text) (h : type ∈ stringTypes) :
    decode ⟨.universal type, content type text⟩ = .ok text := by
  rcases List.mem_cons.mp h with rfl | hoctets
  · exact decode_units_eq_ok_iff.mpr ⟨htext, rfl⟩
  · have hne : type ≠ .bmpString := by
      rintro rfl
      exact absurd hoctets (by decide)
    exact (decode_octets_eq_ok_iff hoctets).mpr (if_neg hne)

end Octets

/-- A text of characters below U+FFFF is read under each of the string types from what the type
holds for it. Under the five types of octets the text is the one whose UTF-8 form the content is,
and there is one exactly if the content is well-formed. Under the type of units it is the one whose
units the content is, and there is one exactly if the number of octets is even and no unit is a
surrogate or U+FFFF. Other content cannot be decoded, and other tags are not supported. -/
theorem decode_stringTypes :
    (∀ text, IsBasic text → ∀ type ∈ stringTypes,
      decode ⟨.universal type, content type text⟩ = .ok text) ∧
    (∀ type ∈ octetTypes, ∀ octets,
      (∀ text, decode ⟨.universal type, octets⟩ = .ok text ↔ octets = Utf8.encode text) ∧
      ((∃ text, decode ⟨.universal type, octets⟩ = .ok text) ↔ Utf8.WellFormed octets) ∧
      (¬Utf8.WellFormed octets → decode ⟨.universal type, octets⟩ = .error .decoding)) ∧
    (∀ octets,
      (∀ text, decode ⟨.universal .bmpString, octets⟩ = .ok text ↔
        IsBasic text ∧ octets = encodeBmp text) ∧
      ((∃ text, decode ⟨.universal .bmpString, octets⟩ = .ok text) ↔
        octets.length % 2 = 0 ∧ ∀ n, HasUnit octets n → ¬IsSurrogate n ∧ n ≠ 0xffff) ∧
      (octets.length % 2 = 1 ∨ (∃ n, HasUnit octets n ∧ IsSurrogate n) →
        decode ⟨.universal .bmpString, octets⟩ = .error .decoding)) ∧
    ∀ tag, (∀ type ∈ stringTypes, tag ≠ .universal type) → ∀ octets,
      decode ⟨tag, octets⟩ = .error (.unsupportedText tag) := by
  refine ⟨fun text htext type h => decode_content htext h, fun type h octets => ?_,
    fun octets => ?_, fun tag h octets => decode_eq_unsupported h⟩
  · have hstring : type ∈ stringTypes := List.mem_cons_of_mem _ h
    refine ⟨fun text => decode_octets_eq_ok_iff h, exists_decode_octets_iff h, fun hill => ?_⟩
    apply decode_eq_decoding hstring
    rwa [exists_decode_octets_iff h]
  · refine ⟨fun text => decode_units_eq_ok_iff, exists_decode_units_iff, fun hill => ?_⟩
    apply decode_eq_decoding List.mem_cons_self
    rw [exists_decode_units_iff]
    rintro ⟨heven, hunits⟩
    rcases hill with hodd | ⟨n, hn, hsurrogate⟩
    · omega
    · exact (hunits n hn).1 hsurrogate

/-- A text outside ASCII under two types, a longer form of a character than its shortest one, two
surrogates that make a character elsewhere, and digits under a type that is not read. -/
theorem decode_stringTypes_accented :
    let text := "é中"
    IsBasic text ∧
      decode ⟨.universal .teletexString, [0xc3, 0xa9, 0xe4, 0xb8, 0xad]⟩ = .ok text ∧
      decode ⟨.universal .bmpString, [0x00, 0xe9, 0x4e, 0x2d]⟩ = .ok text ∧
      decode ⟨.universal .ia5String, [0xc1, 0xa9]⟩ = .error .decoding ∧
      decode ⟨.universal .bmpString, [0xd8, 0x3d, 0xde, 0x00]⟩ = .error .decoding ∧
      decode ⟨.universal .numericString, [0x31]⟩ =
        .error (.unsupportedText (.universal .numericString)) := by
  intro text
  obtain ⟨hsame, hoctets, hunits, hother⟩ := decode_stringTypes
  have htext : IsBasic text := by decide
  have hsurrogate : HasUnit [0xd8, 0x3d, 0xde, 0x00] 0xd83d :=
    ⟨[], 0xd8, 0x3d, [0xde, 0x00], rfl, rfl, rfl⟩
  have hoctetForm : content .teletexString text = [0xc3, 0xa9, 0xe4, 0xb8, 0xad] := by
    decide +kernel
  have hunitForm : content .bmpString text = [0x00, 0xe9, 0x4e, 0x2d] := by decide +kernel
  refine ⟨htext, ?_, ?_, ?_, ?_, ?_⟩
  · rw [← hoctetForm]
    exact hsame text htext .teletexString (by decide)
  · rw [← hunitForm]
    exact hsame text htext .bmpString (by decide)
  · exact (hoctets .ia5String (by decide) _).2.2 (by decide +kernel)
  · exact (hunits _).2.2 (Or.inr ⟨_, hsurrogate, by decide, by decide⟩)
  · exact hother _ (by decide) _

end DirectoryText

end Pkix
