/-!
# Tags

A tag is one octet: two bits of class, one bit that tells constructed from primitive encodings and
five bits of number. Of the universal class only the types below are known, each with the one form
that DER allows it; in the other classes every number that fits the octet is known. `ofOctet?` and
`octet` undo each other, which the module checks over all octets and all tags.
-/

namespace Pkix.Der

inductive UniversalType where
  | boolean
  | integer
  | bitString
  | octetString
  | null
  | objectIdentifier
  | real
  | enumerated
  | utf8String
  | sequence
  | set
  | numericString
  | printableString
  | teletexString
  | videotexString
  | ia5String
  | utcTime
  | generalizedTime
  | visibleString
  | bmpString
  deriving DecidableEq

namespace UniversalType

def all : List UniversalType :=
  [boolean, integer, bitString, octetString, null, objectIdentifier, real, enumerated, utf8String,
   sequence, set, numericString, printableString, teletexString, videotexString, ia5String,
   utcTime, generalizedTime, visibleString, bmpString]

/-- The tag octet of a universal type; sequences and sets are constructed. -/
def octet : UniversalType → UInt8
  | boolean => 0x01
  | integer => 0x02
  | bitString => 0x03
  | octetString => 0x04
  | null => 0x05
  | objectIdentifier => 0x06
  | real => 0x09
  | enumerated => 0x0a
  | utf8String => 0x0c
  | sequence => 0x30
  | set => 0x31
  | numericString => 0x12
  | printableString => 0x13
  | teletexString => 0x14
  | videotexString => 0x15
  | ia5String => 0x16
  | utcTime => 0x17
  | generalizedTime => 0x18
  | visibleString => 0x1a
  | bmpString => 0x1e

/-- The name of a universal type in messages. -/
def name : UniversalType → String
  | boolean => "BOOLEAN"
  | integer => "INTEGER"
  | bitString => "BIT STRING"
  | octetString => "OCTET STRING"
  | null => "NULL"
  | objectIdentifier => "OBJECT IDENTIFIER"
  | real => "REAL"
  | enumerated => "ENUMERATED"
  | utf8String => "UTF8String"
  | sequence => "SEQUENCE"
  | set => "SET"
  | numericString => "NumericString"
  | printableString => "PrintableString"
  | teletexString => "TeletexString"
  | videotexString => "VideotexString"
  | ia5String => "IA5String"
  | utcTime => "UTCTime"
  | generalizedTime => "GeneralizedTime"
  | visibleString => "VisibleString"
  | bmpString => "BMPString"

/-- Whether values of the type are encoded as a series of other encodings. -/
def isConstructed : UniversalType → Bool
  | sequence | set => true
  | _ => false

end UniversalType

/-- The classes whose numbers mean what their context says. -/
inductive TagClass where
  | application
  | contextSpecific
  | privateUse
  deriving DecidableEq

/-- The two class bits, as the number they make. -/
def TagClass.bits : TagClass → Nat
  | .application => 1
  | .contextSpecific => 2
  | .privateUse => 3

/-- The name of a class in messages. -/
def TagClass.name : TagClass → String
  | .application => "APPLICATION"
  | .contextSpecific => "CONTEXT-SPECIFIC"
  | .privateUse => "PRIVATE"

/-- The numbers that fit a tag octet. -/
abbrev TagNumber := Fin 31

/-- A numeral stands for the tag number with its value. -/
instance TagNumber.instOfNat (n : Nat) : OfNat TagNumber n :=
  ⟨n % 31, Nat.mod_lt n (by decide)⟩

inductive Tag where
  | universal (type : UniversalType)
  | other (tagClass : TagClass) (constructed : Bool) (number : TagNumber)
  deriving DecidableEq

namespace Tag

abbrev context (constructed : Bool) (number : TagNumber) : Tag :=
  .other .contextSpecific constructed number

def octet : Tag → UInt8
  | universal type => type.octet
  | other tagClass constructed number =>
    UInt8.ofNat (64 * tagClass.bits + (if constructed then 32 else 0) + number)

/-- The tag of an octet; `none` for an unknown universal type and for a number above 30. -/
def ofOctet? (b : UInt8) : Option Tag :=
  let n := b.toNat
  if n < 64 then (UniversalType.all.find? (·.octet = b)).map universal
  else if h : n % 32 < 31 then
    let tagClass :=
      if n < 128 then .application else if n < 192 then .contextSpecific else .privateUse
    some (other tagClass (n / 32 % 2 = 1) ⟨n % 32, h⟩)
  else none

/-- Whether encodings with the tag are a series of other encodings. -/
def isConstructed : Tag → Bool
  | universal type => type.isConstructed
  | other _ constructed _ => constructed

def describe : Tag → String
  | universal type => type.name
  | other tagClass constructed number =>
    tagClass.name ++ " [" ++ toString number.val ++ "] (" ++
      (if constructed then "constructed" else "primitive") ++ ")"

theorem ofOctet?_octet (t : Tag) : ofOctet? t.octet = some t := by
  cases t with
  | universal type => cases type <;> rfl
  | other tagClass constructed number =>
    revert number
    cases tagClass <;> cases constructed <;> decide

theorem octet_of_ofOctet? {b : UInt8} {t : Tag} (h : ofOctet? b = some t) : t.octet = b := by
  have all : ∀ n : Fin 256, ∀ t ∈ ofOctet? (UInt8.ofNat n), t.octet = UInt8.ofNat n := by
    decide +kernel
  have := all ⟨b.toNat, b.toNat_lt⟩ t
  simp only [UInt8.ofNat_toNat] at this
  exact this h

end Tag

end Pkix.Der
