import Pkix.Proofs.AccessDescription
import Pkix.Proofs.Extension.AuthorityKeyIdentifier
import Pkix.Proofs.Extension.Record
import Pkix.Proofs.Extension.Scalar
import Pkix.Proofs.Extension.Value

/-!
# Which extensions come back

A value of any kind that was encoded can be decoded unless it holds an identifier whose octets cannot
be read, or a serial number without octets. What it is decoded as differs from it only in what its
identifiers stand for, in leading zeros and in the order of relative names.
-/

namespace Pkix

open Der

namespace ExtensionValue

/-- Whether the octets of all identifiers in a value can be read, and its serial number has octets
if there is one. -/
def Readable : ExtensionValue → Prop
  | extendedKeyUsage purposes => ∀ x ∈ purposes, x.Readable
  | authorityKeyIdentifier key => key.Readable
  | subjectAlternativeName names | issuerAlternativeName names => ∀ n ∈ names, n.Readable
  | crlDistributionPoints points => ∀ p ∈ points, p.Readable
  | certificatePolicies policies => ∀ p ∈ policies, p.identifier.Readable
  | authorityInformationAccess descriptions => ∀ d ∈ descriptions, d.Readable
  | basicConstraints _ | keyUsage _ | subjectKeyIdentifier _ | deltaCrlIndicator _ | crlNumber _ =>
    True

instance : DecidablePred Readable
  | extendedKeyUsage purposes => inferInstanceAs (Decidable (∀ x ∈ purposes, x.Readable))
  | authorityKeyIdentifier key => inferInstanceAs (Decidable key.Readable)
  | subjectAlternativeName names | issuerAlternativeName names =>
      inferInstanceAs (Decidable (∀ n ∈ names, n.Readable))
  | crlDistributionPoints points => inferInstanceAs (Decidable (∀ p ∈ points, p.Readable))
  | certificatePolicies policies =>
      inferInstanceAs (Decidable (∀ p ∈ policies, p.identifier.Readable))
  | authorityInformationAccess descriptions =>
      inferInstanceAs (Decidable (∀ d ∈ descriptions, d.Readable))
  | basicConstraints _ | keyUsage _ | subjectKeyIdentifier _ | deltaCrlIndicator _ | crlNumber _ =>
      inferInstanceAs (Decidable True)

/-- What a value is decoded as. -/
def asRead (reg : Registry) : ExtensionValue → ExtensionValue
  | extendedKeyUsage purposes => extendedKeyUsage (purposes.map (Identifier.asRead reg))
  | authorityKeyIdentifier key => authorityKeyIdentifier (key.asRead reg)
  | subjectAlternativeName names => subjectAlternativeName (names.map (GeneralName.asRead reg))
  | issuerAlternativeName names => issuerAlternativeName (names.map (GeneralName.asRead reg))
  | crlDistributionPoints points =>
    crlDistributionPoints (points.map (DistributionPoint.asRead reg))
  | certificatePolicies policies =>
    certificatePolicies (policies.map (PolicyInformation.asRead reg))
  | authorityInformationAccess descriptions =>
    authorityInformationAccess (descriptions.map (AccessDescription.asRead reg))
  | value => value

variable {octets : Octets}

/-- A value whose content has a round trip is decoded if the content can be read. -/
theorem decode_of_roundTrip {α β : Type} {toWire : α → Except Error β} {toElement : β → Element}
    {ofElement? : Element → Option β} {ofWire : β → Except Error α} {P : α → Prop} {back : α → α}
    (h : RoundTrip toWire toElement ofElement? ofWire P back) {a : α} [Decidable (P a)]
    (mk : α → ExtensionValue) (hvalue : (mk a).toElement = do return toElement (← toWire a))
    (hencode : (mk a).encode = .ok octets) :
    (do
      let w ← Message.read ofElement? octets
      return mk (← ofWire w)) = if P a then .ok (mk (back a)) else .error .decoding := by
  have hwrite : (do Message.write (toElement (← toWire a))) = Except.ok octets := by
    rw [← hencode, encode, hvalue, bind_assoc]
    simp only [pure_bind]
  calc
    _ = mk <$> (Message.read ofElement? octets >>= ofWire) := by
      simp only [map_eq_pure_bind, bind_assoc]
    _ = mk <$> (if P a then .ok (back a) else .error .decoding) := by rw [h.message hwrite]
    _ = _ := by split <;> rfl

/-- A value that was encoded is decoded exactly if it can be read. -/
theorem decode_encode (reg : Registry) {value : ExtensionValue} (h : value.encode = .ok octets) :
    decode reg value.kind octets =
      if value.Readable then .ok (value.asRead reg) else .error .decoding := by
  cases value with
  | basicConstraints constraints =>
      obtain ⟨e, he, hwrite⟩ := encode_eq_ok_iff.mp h
      have hread := Message.read_of_write hwrite fun hfits =>
        BasicConstraints.ofElement?_of_toElement he hfits
      simp only [kind, decode, hread]
      rfl
  | keyUsage usage =>
      have hread := Message.read_of_write h fun _ => Element.namedBits?_namedBits usage.bits
      simp only [kind, decode, hread]
      rfl
  | extendedKeyUsage purposes =>
      -- Identifiers are resolved without failing, so that a plain map stands for the traversal.
      have hmap (oids : List Oid) : oids.mapM (fun oid => .ok (reg.resolve oid)) =
          (.ok (oids.map reg.resolve) : Except Error (List Identifier)) :=
        mapM_eq_pure fun _ _ => rfl
      have hdecode := decode_of_roundTrip (Identifier.roundTrip reg).list extendedKeyUsage rfl h
      simp only [hmap] at hdecode
      exact hdecode
  | subjectKeyIdentifier key =>
      have hread := Message.read_of_write h fun _ => Element.octetString?_octetString key
      simp only [kind, decode, hread]
      rfl
  | authorityKeyIdentifier key =>
      exact decode_of_roundTrip (AuthorityKeyIdentifier.roundTrip reg) authorityKeyIdentifier rfl h
  | subjectAlternativeName names =>
      exact decode_of_roundTrip (GeneralNames.roundTrip reg) subjectAlternativeName rfl h
  | issuerAlternativeName names =>
      exact decode_of_roundTrip (GeneralNames.roundTrip reg) issuerAlternativeName rfl h
  | crlDistributionPoints points =>
      exact decode_of_roundTrip (DistributionPoint.roundTrip reg).list crlDistributionPoints rfl h
  | certificatePolicies policies =>
      exact decode_of_roundTrip (PolicyInformation.roundTrip reg).list certificatePolicies rfl h
  | deltaCrlIndicator number =>
      exact decode_of_roundTrip CrlNumber.roundTrip deltaCrlIndicator rfl h
  | crlNumber number => exact decode_of_roundTrip CrlNumber.roundTrip crlNumber rfl h
  | authorityInformationAccess descriptions =>
      exact decode_of_roundTrip (AccessDescription.roundTrip reg).list authorityInformationAccess
        rfl h

end ExtensionValue

namespace TypedExtension

/-- The record of an extension is read, whatever the registry, exactly if the octets of all
identifiers in its value can be read and its serial number is not empty. It is then read as the
extension of that kind with the same flag, and with what its identifiers and its serial number
stand for; otherwise it does not follow the rules. -/
theorem ofRecord_of_toRecord (reg : Registry) {e : TypedExtension} {r : Wire.Extension}
    (h : e.toRecord = .ok r) :
    ofRecord reg e.kind r =
      if e.value.Readable then .ok ⟨e.critical, e.value.asRead reg⟩ else .error .decoding := by
  obtain ⟨hid, hcritical, hencode⟩ := toRecord_eq_ok_iff.mp h
  have hdecode := ExtensionValue.decode_encode reg hencode
  rw [ofRecord, if_pos hid, hcritical]
  have hkind : e.kind = e.value.kind := rfl
  rw [hkind, hdecode]
  split <;> rfl

/-- A key identifier with a serial number whose first octet looks like a sign, after a zero. -/
def signedSerial (serial : Octets) : TypedExtension :=
  ⟨true, .authorityKeyIdentifier
    ⟨some [0x01, 0x02], [.registeredId (Registry.builtin.resolve Oid.anyPolicy)], some serial⟩⟩

def signedSerialRecord : Wire.Extension :=
  ⟨Oid.authorityKeyIdentifier, true,
    [0x30, 0x10, 0x80, 0x02, 0x01, 0x02, 0xa1, 0x06, 0x88, 0x04, 0x55, 0x1d, 0x20, 0x00, 0x82, 0x02,
     0x00, 0x80]⟩

theorem ofRecord_of_toRecord_signedSerial :
    (signedSerial [0x00, 0x80]).toRecord = .ok signedSerialRecord ∧
      ofRecord Registry.builtin .authorityKeyIdentifier signedSerialRecord =
        .ok (signedSerial [0x80]) := by
  have hwrite : (signedSerial [0x00, 0x80]).toRecord = .ok signedSerialRecord := by decide +kernel
  have hread := ofRecord_of_toRecord Registry.builtin hwrite
  rw [if_pos (by decide +kernel)] at hread
  refine ⟨hwrite, hread.trans ?_⟩
  decide +kernel

/-- A serial number without octets and an identifier of two octets are written, and refused when
they are read. -/
theorem ofRecord_of_toRecord_fails :
    let noSerial : TypedExtension :=
      ⟨false, .authorityKeyIdentifier (AuthorityKeyIdentifier.empty.setSerial [])⟩
    let shortPurpose : TypedExtension :=
      ⟨false, .extendedKeyUsage [.defined ⟨[0x2a, 0x03]⟩ none]⟩
    let serialRecord : Wire.Extension :=
      ⟨Oid.authorityKeyIdentifier, false, [0x30, 0x02, 0x82, 0x00]⟩
    let purposeRecord : Wire.Extension :=
      ⟨Oid.extKeyUsage, false, [0x30, 0x04, 0x06, 0x02, 0x2a, 0x03]⟩
    (noSerial.toRecord = .ok serialRecord ∧
        ofRecord Registry.builtin noSerial.kind serialRecord = .error .decoding) ∧
      Registry.builtin.find "1.2.3" = .ok (.defined ⟨[0x2a, 0x03]⟩ none) ∧
        shortPurpose.toRecord = .ok purposeRecord ∧
          ofRecord Registry.builtin shortPurpose.kind purposeRecord = .error .decoding := by
  decide +kernel

end TypedExtension

end Pkix
