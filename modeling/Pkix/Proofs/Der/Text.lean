import Pkix.Name.DirectoryName

/-!
# Texts come back

The UTF-8 form of a text is read as that text, and so is an element that holds it under any of the
string types that texts are written in.
-/

namespace Pkix

namespace Utf8

theorem decode?_encode (text : String) : decode? (encode text) = some text := by
  have hbytes : (⟨(encode text).toArray⟩ : ByteArray) = text.toByteArray := by
    rw [encode_eq]
  rw [decode?, hbytes, String.fromUTF8?, dif_pos text.isValidUTF8]
  rfl

theorem encode_injective : Function.Injective encode := fun s t h => by
  simpa [decode?_encode] using congrArg decode? h

end Utf8

/-- Whether a text is in ASCII. -/
def IsAscii (text : String) : Prop := ∀ c ∈ text.toList, c.toNat ≤ 0x7f

theorem Der.StringType.admits_ia5_iff {text : String} :
    ia5.admits text = true ↔ IsAscii text := by
  simp [admits, isIa5, IsAscii]

instance : DecidablePred IsAscii := fun _ => decidable_of_iff _ Der.StringType.admits_ia5_iff

namespace Der.Element

@[simp] theorem tag_text (type : StringType) (s : String) :
    (text type s).tag = .universal type.universal := rfl

/-- A text comes back from a string type that admits it. -/
theorem text?_text {type : StringType} {s : String} (h : type.admits s = true) :
    (text type s).text? type = some s := by
  have hread : Utf8.decode? (text type s).content = some s := Utf8.decode?_encode s
  simp [text?, hread, h]

end Der.Element

/-- Where the string type is not asked for, the alphabet does not matter. -/
theorem DirectoryText.decode_text (type : Der.StringType) (s : String) :
    decode (.text type s) = .ok s := by
  have hread : Utf8.decode? (Der.Element.text type s).content = some s := Utf8.decode?_encode s
  cases type <;> simp [decode, Der.StringType.universal, hread, Error.ifNone]

end Pkix
