import Pkix.Proofs.Der.Alphabet
import Pkix.Proofs.Name.Reading
import Pkix.Proofs.Name.Relative

/-!
# Names that were read and are written again

Reading takes a value in any string type for every attribute type, and checks no alphabet. Writing
has one string type for each attribute type, and refuses values outside its alphabet. A name that
was read is written again exactly if the values of the attribute types that are written as
PrintableString or IA5String were within these alphabets, whatever string types they were in. It is
then read again as the same name.
-/

namespace Pkix

open Der

namespace Wire.Attribute

/-- Whether the value of an attribute is within the alphabet that values of its type are written in.
The values of types that are written in UTF-8 are, and attributes of other types do not matter. -/
def Rewritable (a : Attribute) : Prop :=
  ∀ type ∈ AttributeType.ofOid? a.type,
    match type.stringType with
    | .printable => a.value.IsWithin isPrintable
    | .ia5 | .teletex => a.value.IsWithin isIa5
    | .utf8 => True

end Wire.Attribute

namespace NameEntry

theorem fitsType_iff_rewritable {a : Wire.Attribute} {e : NameEntry}
    (htype : AttributeType.ofOid? a.type = some e.type)
    (hvalue : DirectoryText.decode a.value = .ok e.value) : e.FitsType ↔ a.Rewritable := by
  have hprintable := DirectoryText.forall_mem_iff_isWithin isAsciiAlphabet_isPrintable hvalue
  have hia5 := DirectoryText.forall_mem_iff_isWithin isAsciiAlphabet_isIa5 hvalue
  rw [← admits_iff, Wire.Attribute.Rewritable, htype]
  cases hstring : e.type.stringType <;>
    simp [StringType.admits, hstring, ← hprintable, ← hia5]

section OfAttributes

variable {attributes : List Wire.Attribute} {entries : List NameEntry}

/-- Every attribute of a known type is read as an entry. -/
theorem exists_entry_of_mem (h : ofAttributes attributes = .ok entries) {a : Wire.Attribute}
    (ha : a ∈ attributes) {type : AttributeType} (htype : AttributeType.ofOid? a.type = some type) :
    ∃ e ∈ entries, e.type = type ∧ DirectoryText.decode a.value = .ok e.value := by
  rw [AttributeType.ofOid?_eq_some_iff] at htype
  have hsupported : a ∈ attributes.filter fun a => a.IsSupported :=
    List.mem_filter.mpr ⟨ha, decide_eq_true ⟨type, htype⟩⟩
  obtain ⟨e, he, hread, htext⟩ := exists_of_mem_left (ofAttributes_eq_ok_iff.mp h) hsupported
  exact ⟨e, he, AttributeType.oid_injective (hread.symm.trans htype), htext⟩

/-- Every entry was read from an attribute of its type. -/
theorem exists_attribute_of_mem (h : ofAttributes attributes = .ok entries) {e : NameEntry}
    (he : e ∈ entries) :
    ∃ a ∈ attributes, AttributeType.ofOid? a.type = some e.type ∧
      DirectoryText.decode a.value = .ok e.value := by
  obtain ⟨a, hsupported, hread, htext⟩ := exists_of_mem_right (ofAttributes_eq_ok_iff.mp h) he
  exact ⟨a, List.mem_of_mem_filter hsupported, AttributeType.ofOid?_eq_some_iff.mpr hread, htext⟩

/-- The entries that were read fit their types exactly if all attributes can be rewritten. -/
theorem forall_fitsType_iff (h : ofAttributes attributes = .ok entries) :
    (∀ e ∈ entries, e.FitsType) ↔ ∀ a ∈ attributes, a.Rewritable := by
  constructor
  · intro hfits a ha type htype
    obtain ⟨e, he, rfl, hvalue⟩ := exists_entry_of_mem h ha htype
    exact (fitsType_iff_rewritable htype hvalue).mp (hfits e he) _ htype
  · intro hrewritable e he
    obtain ⟨a, ha, htype, hvalue⟩ := exists_attribute_of_mem h he
    exact (fitsType_iff_rewritable htype hvalue).mpr (hrewritable a ha)

end OfAttributes

end NameEntry

namespace DirectoryName

variable {w : Wire.Name} {name : DirectoryName}

theorem toWire_eq_error_iff {err : Error} :
    name.toWire = .error err ↔
      ∃ e ∈ name.misfit?, err = .invalidAttributeValue e.type e.value := by
  rw [← mapM_toWire_eq_error_iff, toWire, mapM_eq_error_iff, mapM_eq_error_iff]
  simp [map_eq_ok_iff, map_eq_error_iff]

theorem exists_toWire_eq_ok_iff_rewritable (h : ofWire w = .ok name) :
    (∃ w', name.toWire = .ok w') ↔ ∀ rdn ∈ w, ∀ a ∈ rdn.attributes, a.Rewritable := by
  have hfits := NameEntry.forall_fitsType_iff (ofWire_eq_ok_iff.mp h)
  rw [← List.forall_mem_flatMap, ← hfits]
  simp only [toWire_eq_ok_iff, exists_and_left, exists_eq, and_true]

/-- A name that was read is written again exactly if the values of all its attributes are within the
alphabets of their types, and is refused for the first one that is not otherwise. Whenever it is
written, it is read again as the same name. -/
theorem toWire_of_ofWire (h : ofWire w = .ok name) :
    ((∃ w', name.toWire = .ok w') ↔ ∀ rdn ∈ w, ∀ a ∈ rdn.attributes, a.Rewritable) ∧
      (∀ err, name.toWire = .error err ↔
        ∃ e ∈ name.misfit?, err = .invalidAttributeValue e.type e.value) ∧
      ∀ w', name.toWire = .ok w' → ofWire w' = .ok name :=
  ⟨exists_toWire_eq_ok_iff_rewritable h, fun _ => toWire_eq_error_iff, fun _ => ofWire_of_toWire⟩

/-- A country in a UTF8String, whose letters could be in a PrintableString, and a name and a domain
component in BMPStrings are read and written in other string types. -/
theorem toWire_of_ofWire_otherStrings :
    let w : Wire.Name :=
      [.singleton ⟨Oid.countryName, ⟨.universal .utf8String, [0x42, 0x52]⟩⟩,
       .singleton ⟨Oid.commonName, ⟨.universal .bmpString, [0x00, 0x41, 0x4e, 0x2d]⟩⟩,
       .singleton ⟨Oid.domainComponent, ⟨.universal .bmpString, [0x00, 0x62, 0x00, 0x72]⟩⟩]
    let name : DirectoryName :=
      ⟨[⟨.country, "BR"⟩, ⟨.commonName, "A中"⟩, ⟨.domainComponent, "br"⟩]⟩
    ofWire w = .ok name ∧ (∀ rdn ∈ w, ∀ a ∈ rdn.attributes, a.Rewritable) ∧
      ∃ w', name.toWire = .ok w' ∧ w' ≠ w ∧ ofWire w' = .ok name := by
  intro w name
  have hread : ofWire w = .ok name := by decide +kernel
  obtain ⟨hexists, -, hback⟩ := toWire_of_ofWire hread
  have hwrite : name.toWire = .ok (name.entries.map fun e => .singleton e.written) :=
    toWire_eq_ok_iff.mpr ⟨by decide +kernel, rfl⟩
  exact ⟨hread, hexists.mp ⟨_, hwrite⟩, _, hwrite, by decide +kernel, hback _ hwrite⟩

/-- A country with a character that is in no PrintableString can be read from a UTF8String, and
cannot be written. -/
theorem starredCountry_not_written :
    let octets : Octets :=
      [0x30, 0x0d, 0x31, 0x0b, 0x30, 0x09, 0x06, 0x03, 0x55, 0x04, 0x06, 0x0c, 0x02, 0x42, 0x2a]
    let name : DirectoryName := ⟨[⟨.country, "B*"⟩]⟩
    (Message.read Wire.Name.ofElement? octets >>= ofWire) = .ok name ∧
      name.toWire = .error (.invalidAttributeValue .country "B*") := by
  decide +kernel

end DirectoryName

end Pkix
