import Pkix.Der.Element

/-!
# Character strings

Texts are written in UTF-8. Writing one as a PrintableString or an IA5String requires its characters
to be in the type's alphabet. Reading is more lenient than writing: the eight-bit types are all read
as UTF-8, and a BMPString as 16-bit units each of which is a character.
-/

namespace Pkix

/-! ## UTF-8 -/

namespace Utf8

def encode (text : String) : Octets :=
  text.toList.flatMap String.utf8EncodeChar

/-- The text whose UTF-8 form is `octets`; there is at most one. -/
def decode? (octets : Octets) : Option String :=
  String.fromUTF8? ⟨octets.toArray⟩

theorem encode_eq (text : String) : encode text = text.toByteArray.data.toList := by
  conv => rhs; rw [← String.utf8Encode_toList]
  simp [encode, List.utf8Encode]

end Utf8

/-! ## String types -/

namespace Der

/-- Whether a character may stand in a PrintableString. -/
def isPrintable (c : Char) : Bool :=
  c.isAlphanum || " '()+,-./:=?".toList.contains c

/-- Whether a character may stand in an IA5String. -/
def isIa5 (c : Char) : Bool :=
  c.toNat ≤ 0x7f

/-- The string types whose alphabet is checked. -/
inductive StringType where
  | printable
  | ia5
  | teletex
  | utf8
  deriving DecidableEq

namespace StringType

/-- The universal type of a string type. -/
def universal : StringType → UniversalType
  | printable => .printableString
  | ia5 => .ia5String
  | teletex => .teletexString
  | utf8 => .utf8String

/-- Whether a text can be written in a string type. Of the Teletex alphabet only ASCII is known. -/
def admits (type : StringType) (text : String) : Bool :=
  match type with
  | printable => text.toList.all isPrintable
  | ia5 | teletex => text.toList.all isIa5
  | utf8 => true

end StringType

namespace Element

/-- A text in a string type that admits it. -/
def text (type : StringType) (text : String) : Element :=
  ⟨.universal type.universal, Utf8.encode text⟩

/-- The text of an element of the given string type, with the type's alphabet checked. -/
def text? (type : StringType) (e : Element) : Option String := do
  let text ← Utf8.decode? e.content
  if e.tag = .universal type.universal ∧ type.admits text then some text else none

end Element

/-- The text of 16-bit units, high octet first. Surrogates and U+FFFF are refused. -/
def decodeBmp? : Octets → Option (List Char)
  | [] => some []
  | [_] => none
  | high :: low :: rest =>
    let unit := 256 * high.toNat + low.toNat
    if unit < 0xd800 ∨ (0xdfff < unit ∧ unit < 0xffff) then
      (decodeBmp? rest).map (Char.ofNat unit :: ·)
    else none

end Der

end Pkix
