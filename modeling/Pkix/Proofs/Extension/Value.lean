import Pkix.Extension.Value
import Pkix.Proofs.DistributionPoint
import Pkix.Proofs.Policy

/-!
# Extension values come back

A value is encoded exactly if it has an element and the octets of that are within the limit. What
was encoded is decoded as it was, for the kinds whose parts are all shown to come back.
-/

namespace Pkix.ExtensionValue

open Der

theorem encode_eq_ok_iff {value : ExtensionValue} {octets : Octets} :
    value.encode = .ok octets ↔ ∃ e, value.toElement = .ok e ∧ Message.write e = .ok octets :=
  bind_eq_ok_iff

/-- Whether the element of a value, if there is one, is short enough to be encoded. -/
def WithinLimit (value : ExtensionValue) : Prop :=
  ∀ e, value.toElement = .ok e → e.octets.length ≤ maxLength

theorem withinLimit_iff {value : ExtensionValue} :
    value.WithinLimit ↔ ∀ e ∈ value.toElement.toOption, e.octets.length ≤ maxLength := by
  rw [WithinLimit]
  cases value.toElement <;> simp [Except.toOption]

instance : DecidablePred WithinLimit := fun _ => decidable_of_iff _ withinLimit_iff.symm

theorem exists_encode_eq_ok_iff {value : ExtensionValue} (hlength : value.WithinLimit) :
    (∃ octets, value.encode = .ok octets) ↔ ∃ e, value.toElement = .ok e := by
  simp only [encode_eq_ok_iff]
  constructor
  · rintro ⟨-, e, he, -⟩
    exact ⟨e, he⟩
  · rintro ⟨e, he⟩
    exact ⟨e.octets, e, he, Message.write_eq_ok_iff.mpr ⟨hlength e he, rfl⟩⟩

/-! ## Values that are lists

The element of such a value is a sequence of what the members are written as. -/

section Lists

variable {α β : Type} {value : ExtensionValue} {members : List α} {toWire : α → Except Error β}
  {toElement : β → Element}

theorem toElement_eq_ok_iff_of_list
    (hvalue : value.toElement = do return .sequenceOf toElement (← members.mapM toWire))
    {e : Element} :
    value.toElement = .ok e ↔
      ∃ ws, members.mapM toWire = .ok ws ∧ .sequenceOf toElement ws = e := by
  simp only [hvalue, bind_eq_ok_iff, pure_eq_ok_iff]

/-- A list can be encoded exactly if all its members can be written. -/
theorem exists_encode_eq_ok_iff_of_list
    (hvalue : value.toElement = do return .sequenceOf toElement (← members.mapM toWire))
    (hlength : value.WithinLimit) :
    (∃ octets, value.encode = .ok octets) ↔ ∀ a ∈ members, ∃ w, toWire a = .ok w := by
  rw [exists_encode_eq_ok_iff hlength, ← exists_mapM_eq_ok_iff]
  simp [toElement_eq_ok_iff_of_list hvalue]

/-- The message that a list was encoded to is read as what its members were written as. -/
theorem read_of_encode_of_list
    (hvalue : value.toElement = do return .sequenceOf toElement (← members.mapM toWire))
    {ofElement? : Element → Option β} {octets : Octets} (hencode : value.encode = .ok octets)
    (hread : ∀ a ∈ members, ∀ w, toWire a = .ok w → (toElement w).Fits →
      ofElement? (toElement w) = some w) :
    ∃ ws, members.mapM toWire = .ok ws ∧ (∀ w ∈ ws, (toElement w).Fits) ∧
      Message.read (Element.sequenceOf? ofElement?) octets = .ok ws := by
  obtain ⟨e, he, hwrite⟩ := encode_eq_ok_iff.mp hencode
  obtain ⟨ws, hws, rfl⟩ := (toElement_eq_ok_iff_of_list hvalue).mp he
  have hfits := Element.fits_of_octets (Message.write_eq_ok_iff.mp hwrite).1
  refine ⟨ws, hws, fun w hw => hfits.of_mem (List.mem_map.mpr ⟨w, hw, rfl⟩), ?_⟩
  refine Message.read_of_write hwrite fun _ => Element.sequenceOf?_sequenceOf hfits fun w hw => ?_
  obtain ⟨a, ha, hone⟩ := exists_of_mem_mapM hws hw
  exact hread a ha w hone

end Lists

/-! ## Policies -/

/-- A list of policies can be encoded exactly if every policy has an identifier, every qualifier
has a form, and every URI is ASCII. The list is decoded from its encoding as it was. -/
theorem decode_encode_certificatePolicies {reg : Registry} {policies : List PolicyInformation}
    (hids : ∀ p ∈ policies, p.identifier.Canonical reg)
    (hlength : (certificatePolicies policies).WithinLimit) :
    ((∃ octets, (certificatePolicies policies).encode = .ok octets) ↔
        ∀ p ∈ policies, p.Writable) ∧
      ∀ octets, (certificatePolicies policies).encode = .ok octets →
        decode reg .certificatePolicies octets = .ok (certificatePolicies policies) := by
  refine ⟨?_, fun octets hencode => ?_⟩
  · rw [exists_encode_eq_ok_iff_of_list rfl hlength]
    exact forall₂_congr fun p _ => PolicyInformation.exists_toWire_eq_ok_iff
  · obtain ⟨ws, hws, hfits, hread⟩ := read_of_encode_of_list rfl hencode fun p hp w hw =>
      Wire.PolicyInformation.ofElement?_toElement
        (PolicyInformation.readable_of_toWire (hids p hp) hw)
    have hback : ws.mapM (PolicyInformation.ofWire reg) = .ok policies :=
      mapM_eq_ok_of_mapM_eq_ok hws fun p hp w hw hone =>
        PolicyInformation.ofWire_of_toWire (hids p hp) hone (hfits w hw)
    simp only [decode, bind_eq_ok_iff, pure_eq_ok_iff]
    exact ⟨ws, hread, policies, hback, rfl⟩

/-- Policies whose notices leave out each of their parts, and one without qualifiers. -/
def mixedPolicies : List PolicyInformation :=
  [⟨Registry.builtin.resolve Oid.anyPolicy,
    [.userNotice ⟨"", [-1, Int64.minValue, 128], ""⟩, .cpsUri "", .userNotice .empty,
     .cpsUri "http://example.org/cps", .userNotice ⟨"Organização", [], "Leia o aviso"⟩]⟩,
   ⟨Registry.builtin.resolve ⟨[0x60, 0x4c, 0x01, 0x02]⟩, []⟩]

theorem decode_encode_certificatePolicies_mixedPolicies :
    ∃ octets, (certificatePolicies mixedPolicies).encode = .ok octets ∧
      decode Registry.builtin .certificatePolicies octets =
        .ok (certificatePolicies mixedPolicies) := by
  have hids : ∀ p ∈ mixedPolicies, p.identifier.Canonical Registry.builtin := by decide +kernel
  have hlength : (certificatePolicies mixedPolicies).WithinLimit := by decide +kernel
  obtain ⟨hexists, hdecode⟩ := decode_encode_certificatePolicies hids hlength
  obtain ⟨octets, hencode⟩ := hexists.mpr (by decide +kernel)
  exact ⟨octets, hencode, hdecode octets hencode⟩

/-! ## Distribution points -/

/-- A list of distribution points can be encoded exactly if all texts in it fit their string types
and no relative name has an entry twice. Its encoding is decoded as a list of as many points, each
of which is the one in its place but for the order of the entries of a relative name. -/
theorem decode_encode_crlDistributionPoints {reg : Registry} {points : List DistributionPoint}
    (hnames : ∀ p ∈ points, p.Canonical reg)
    (hlength : (crlDistributionPoints points).WithinLimit) :
    ((∃ octets, (crlDistributionPoints points).encode = .ok octets) ↔
        ∀ p ∈ points, p.Writable) ∧
      ∀ octets, (crlDistributionPoints points).encode = .ok octets →
        ∃ points', decode reg .crlDistributionPoints octets = .ok (crlDistributionPoints points') ∧
          List.Forall₂ DistributionPoint.ReadBackAs points points' := by
  refine ⟨?_, fun octets hencode => ?_⟩
  · rw [exists_encode_eq_ok_iff_of_list rfl hlength]
    exact forall₂_congr fun p hp => DistributionPoint.exists_toWire_eq_ok_iff (hnames p hp)
  · obtain ⟨ws, hws, -, hread⟩ := read_of_encode_of_list rfl hencode fun p hp w hw =>
      Wire.DistributionPoint.ofElement?_toElement
        (DistributionPoint.readable_of_toWire (hnames p hp) hw)
    obtain ⟨points', hback, hall⟩ := exists_mapM_of_mapM_eq_ok hws fun p hp w _ hone =>
      DistributionPoint.exists_ofWire_of_toWire (hnames p hp) hone
    refine ⟨points', ?_, hall⟩
    simp only [decode, bind_eq_ok_iff, pure_eq_ok_iff]
    exact ⟨ws, hread, points', hback, rfl⟩

/-- A relative name whose entries do not stand in the order of their encodings. -/
def unsortedName : DirectoryName :=
  ⟨[⟨.organization, "Example"⟩, ⟨.commonName, "João"⟩, ⟨.country, "BR"⟩]⟩

/-- The same name with its entries in that order. -/
def sortedName : DirectoryName :=
  ⟨[⟨.country, "BR"⟩, ⟨.commonName, "João"⟩, ⟨.organization, "Example"⟩]⟩

theorem arranges_unsortedName : unsortedName.Arranges sortedName :=
  ⟨by decide +kernel, by decide +kernel⟩

/-- Points with a name of each kind, full and relative ones also without names in them. -/
def mixedPoints : List DistributionPoint :=
  [⟨.relative unsortedName, 0b101, [.dnsName "example.org", .otherName "2.16.76.1.3.3" "sócio"]⟩,
   ⟨.full [.uri "http://example.org/ca.crl"], 0, []⟩, ⟨.full [], 0b100000000, []⟩,
   ⟨.relative ⟨[]⟩, 0, []⟩, .empty]

theorem withinLimit_mixedPoints : (crlDistributionPoints mixedPoints).WithinLimit := by
  have hset := arranges_unsortedName.toRdn_eq_ok (by decide +kernel)
  rw [withinLimit_iff]
  simp only [toElement, mixedPoints, List.mapM_cons, DistributionPoint.toWire, PointName.toWire,
    hset]
  decide +kernel

theorem decode_encode_crlDistributionPoints_mixedPoints :
    ∃ octets points', (crlDistributionPoints mixedPoints).encode = .ok octets ∧
      decode Registry.builtin .crlDistributionPoints octets =
          .ok (crlDistributionPoints points') ∧
        List.Forall₂ DistributionPoint.ReadBackAs mixedPoints points' := by
  have hnames : ∀ p ∈ mixedPoints, p.Canonical Registry.builtin := by decide +kernel
  obtain ⟨hexists, hdecode⟩ := decode_encode_crlDistributionPoints hnames withinLimit_mixedPoints
  obtain ⟨octets, hencode⟩ := hexists.mpr (by decide +kernel)
  obtain ⟨points', hback, hall⟩ := hdecode octets hencode
  exact ⟨octets, points', hencode, hback, hall⟩

end Pkix.ExtensionValue
