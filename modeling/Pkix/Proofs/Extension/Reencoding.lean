import Pkix.Proofs.Extension.RoundTrip

/-!
# Extensions that were read come back

An extension that was read from a record is canonical: it holds its identifiers, names and numbers as
reading gives them. Written again and read once more it is the same, but for the entries of relative
names. These are sets on the wire, and come back in the order of the encodings that are written for
them, which need not be the order of those that were read.
-/

namespace Pkix

open Der

namespace ExtensionValue

/-- Whether a value holds its identifiers and numbers as reading them gives them. -/
def Canonical (reg : Registry) : ExtensionValue → Prop
  | extendedKeyUsage purposes => ∀ x ∈ purposes, x.Canonical reg
  | authorityKeyIdentifier key => key.Canonical reg
  | subjectAlternativeName names | issuerAlternativeName names => ∀ n ∈ names, n.Canonical reg
  | crlDistributionPoints points => ∀ p ∈ points, p.Canonical reg
  | certificatePolicies policies => ∀ p ∈ policies, p.identifier.Canonical reg
  | authorityInformationAccess descriptions => ∀ d ∈ descriptions, d.Canonical reg
  | _ => True

def generalNames : ExtensionValue → GeneralNames
  | authorityKeyIdentifier key => key.issuer
  | subjectAlternativeName names | issuerAlternativeName names => names
  | crlDistributionPoints points => points.flatMap DistributionPoint.generalNames
  | authorityInformationAccess descriptions => descriptions.map (·.location)
  | _ => []

def relativeNames : ExtensionValue → List DirectoryName
  | crlDistributionPoints points => points.flatMap (·.name.relativeNames)
  | _ => []

/-- The value with the entries of every relative name in the order of their encodings. -/
def arranged : ExtensionValue → ExtensionValue
  | crlDistributionPoints points => crlDistributionPoints (points.map DistributionPoint.arranged)
  | value => value

variable {reg : Registry} {kind : ExtensionKind} {octets : Octets} {value : ExtensionValue}

theorem Canonical.readable (h : value.Canonical reg) : value.Readable := by
  cases value with
  | basicConstraints _ | keyUsage _ | subjectKeyIdentifier _ | deltaCrlIndicator _ | crlNumber _ =>
      trivial
  | authorityKeyIdentifier key => exact AuthorityKeyIdentifier.Canonical.readable h
  | extendedKeyUsage _ | subjectAlternativeName _ | issuerAlternativeName _
    | crlDistributionPoints _ | certificatePolicies _ | authorityInformationAccess _ =>
      intro member hmember
      exact (h member hmember).readable

theorem Canonical.asRead_eq (h : value.Canonical reg) : value.asRead reg = value.arranged := by
  cases value with
  | basicConstraints _ | keyUsage _ | subjectKeyIdentifier _ | deltaCrlIndicator _ | crlNumber _ =>
      rfl
  | authorityKeyIdentifier key =>
      exact congrArg authorityKeyIdentifier (AuthorityKeyIdentifier.Canonical.asRead_eq h)
  | extendedKeyUsage purposes =>
      exact congrArg extendedKeyUsage (map_eq_self fun x hx => (h x hx).asRead_eq)
  | subjectAlternativeName names =>
      exact congrArg subjectAlternativeName (GeneralNames.map_asRead_eq h)
  | issuerAlternativeName names =>
      exact congrArg issuerAlternativeName (GeneralNames.map_asRead_eq h)
  | crlDistributionPoints points =>
      exact congrArg crlDistributionPoints
        (List.map_congr_left fun p hp => (h p hp).asRead_eq)
  | certificatePolicies policies =>
      exact congrArg certificatePolicies
        (map_eq_self fun p hp => PolicyInformation.asRead_eq (h p hp))
  | authorityInformationAccess descriptions =>
      exact congrArg authorityInformationAccess (map_eq_self fun d hd => (h d hd).asRead_eq)

/-- A value that was decoded is canonical, if the types of its other names print as texts that stand
for them. -/
theorem canonical_of_decode (hreg : reg.KeepsOids) (h : decode reg kind octets = .ok value)
    (hstable : ∀ n ∈ value.generalNames, n.Stable) : value.Canonical reg := by
  cases kind with
  | basicConstraints | keyUsage | subjectKeyIdentifier =>
      obtain ⟨content, -, h⟩ := bind_eq_ok_iff.mp h
      obtain rfl := pure_eq_ok_iff.mp h
      trivial
  | deltaCrlIndicator | crlNumber =>
      obtain ⟨n, -, h⟩ := bind_eq_ok_iff.mp h
      obtain ⟨number, -, h⟩ := bind_eq_ok_iff.mp h
      obtain rfl := pure_eq_ok_iff.mp h
      trivial
  | extendedKeyUsage =>
      obtain ⟨oids, hread, h⟩ := bind_eq_ok_iff.mp h
      obtain rfl := pure_eq_ok_iff.mp h
      obtain ⟨e, he⟩ := Message.exists_of_read hread
      intro x hx
      obtain ⟨oid, hoid, rfl⟩ := List.mem_map.mp hx
      obtain ⟨member, hmember⟩ := Element.exists_of_mem_sequenceOf? he hoid
      exact Identifier.canonical_resolve hreg (Oid.isReadable_of_ofElement? hmember)
  | authorityKeyIdentifier =>
      obtain ⟨w, hread, h⟩ := bind_eq_ok_iff.mp h
      obtain ⟨key, hkey, h⟩ := bind_eq_ok_iff.mp h
      obtain rfl := pure_eq_ok_iff.mp h
      obtain ⟨e, he⟩ := Message.exists_of_read hread
      have hw := Wire.AuthorityKeyIdentifier.readable_of_ofElement? he
      exact AuthorityKeyIdentifier.canonical_of_ofWire hreg hw hkey hstable
  | subjectAlternativeName | issuerAlternativeName =>
      obtain ⟨w, hread, h⟩ := bind_eq_ok_iff.mp h
      obtain ⟨names, hnames, h⟩ := bind_eq_ok_iff.mp h
      obtain rfl := pure_eq_ok_iff.mp h
      obtain ⟨e, he⟩ := Message.exists_of_read hread
      have hw := Wire.GeneralNames.readable_of_ofElement? he
      exact GeneralNames.canonical_of_ofWire hreg hw hnames hstable
  | crlDistributionPoints =>
      obtain ⟨ws, hread, h⟩ := bind_eq_ok_iff.mp h
      obtain ⟨points, hpoints, h⟩ := bind_eq_ok_iff.mp h
      obtain rfl := pure_eq_ok_iff.mp h
      -- The order of a relative name is no part of this: any order is canonical.
      intro p hp
      obtain ⟨e, w, he, hw⟩ := exists_of_mem_of_read hread hpoints hp
      apply DistributionPoint.canonical_of_ofWire hreg
        (Wire.DistributionPoint.readable_of_ofElement? he) hw
      intro n hn
      exact hstable n (List.mem_flatMap.mpr ⟨p, hp, hn⟩)
  | certificatePolicies =>
      obtain ⟨ws, hread, h⟩ := bind_eq_ok_iff.mp h
      obtain ⟨policies, hpolicies, h⟩ := bind_eq_ok_iff.mp h
      obtain rfl := pure_eq_ok_iff.mp h
      intro p hp
      obtain ⟨e, w, he, hw⟩ := exists_of_mem_of_read hread hpolicies hp
      exact PolicyInformation.canonical_of_ofWire hreg
        (Wire.PolicyInformation.readable_of_ofElement? he) hw
  | authorityInformationAccess =>
      obtain ⟨ws, hread, h⟩ := bind_eq_ok_iff.mp h
      obtain ⟨descriptions, hdescriptions, h⟩ := bind_eq_ok_iff.mp h
      obtain rfl := pure_eq_ok_iff.mp h
      intro d hd
      obtain ⟨e, w, he, hw⟩ := exists_of_mem_of_read hread hdescriptions hd
      exact AccessDescription.canonical_of_ofWire hreg
        (Wire.AccessDescription.readable_of_ofElement? he) hw
        (hstable d.location (List.mem_map.mpr ⟨d, hd, rfl⟩))

theorem decode_encode_of_decode (hreg : reg.KeepsOids) (h : decode reg kind octets = .ok value)
    (hstable : ∀ n ∈ value.generalNames, n.Stable) {octets' : Octets}
    (hencode : value.encode = .ok octets') :
    decode reg value.kind octets' = .ok value.arranged := by
  have hcanonical := canonical_of_decode hreg h hstable
  rw [decode_encode reg hencode, if_pos hcanonical.readable, hcanonical.asRead_eq]

/-! ## The order of relative names -/

theorem exists_toWire_of_encode {points : List DistributionPoint}
    (h : (crlDistributionPoints points).encode = .ok octets) :
    ∀ p ∈ points, ∃ w, p.toWire = .ok w := by
  obtain ⟨e, he, -⟩ := encode_eq_ok_iff.mp h
  obtain ⟨ws, hws, -⟩ := bind_eq_ok_iff.mp he
  exact exists_mapM_eq_ok_iff.mp ⟨ws, hws⟩

theorem arranges_of_encode (h : value.encode = .ok octets) :
    ∀ name ∈ value.relativeNames, name.Arranges name.arranged := by
  cases value with
  | crlDistributionPoints points =>
      intro name hname
      obtain ⟨p, hp, hname⟩ := List.mem_flatMap.mp hname
      obtain ⟨w, hw⟩ := exists_toWire_of_encode h p hp
      exact DistributionPoint.arranges_of_toWire hw name hname
  | _ => simp [relativeNames]

theorem arranged_eq_self_iff (h : value.encode = .ok octets) :
    value.arranged = value ↔ ∀ name ∈ value.relativeNames, name.IsArranged := by
  cases value with
  | crlDistributionPoints points =>
      have hone : ∀ p ∈ points, p.arranged = p ↔
          ∀ name ∈ p.name.relativeNames, name.IsArranged := by
        intro p hp
        obtain ⟨w, hw⟩ := exists_toWire_of_encode h p hp
        exact DistributionPoint.arranged_eq_self_iff hw
      rw [arranged, crlDistributionPoints.injEq, map_eq_self_iff, forall₂_congr hone]
      simp only [relativeNames, List.mem_flatMap, forall_exists_index, and_imp]
      exact ⟨fun hall name p hp => hall p hp name, fun hall p hp name => hall name p hp⟩
  | _ => simp [relativeNames, arranged]

end ExtensionValue

namespace Extension

def generalNames : Extension → GeneralNames
  | typed e => e.value.generalNames
  | unknown _ => []

def relativeNames : Extension → List DirectoryName
  | typed e => e.value.relativeNames
  | unknown _ => []

def arranged : Extension → Extension
  | typed e => typed { e with value := e.value.arranged }
  | unknown e => unknown e

/-- Whatever was registered before, an extension that was read and written again is read as itself
with the entries of its relative names in the order of their encodings: as the same extension exactly
if they stand in that order already. The types of other names are to print as texts that stand for
them. -/
theorem ofRecord_reencoded (calls : List Registry.Call) {r r' : Wire.Extension} {e : Extension}
    (h : ofRecord (Registry.builtin.run calls) r = .ok e)
    (hstable : ∀ n ∈ e.generalNames, n.Stable) (hr' : e.toRecord = .ok r') :
    ofRecord (Registry.builtin.run calls) r' = .ok e.arranged ∧
      (∀ name ∈ e.relativeNames, name.Arranges name.arranged) ∧
        (e.arranged = e ↔ ∀ name ∈ e.relativeNames, name.IsArranged) := by
  have hreg := Registry.keepsOids_run_builtin calls
  rcases ofRecord_eq_ok_iff.mp h with ⟨kind, t, -, ht, rfl⟩ | ⟨hnone, rfl⟩
  · obtain ⟨-, -, hdecode⟩ := TypedExtension.ofRecord_eq_ok_iff.mp ht
    obtain ⟨hid, hcritical, hencode⟩ := TypedExtension.toRecord_eq_ok_iff.mp hr'
    have hback : TypedExtension.ofRecord (Registry.builtin.run calls) t.kind r' =
        .ok { t with value := t.value.arranged } :=
      TypedExtension.ofRecord_eq_ok_iff.mpr ⟨hid, hcritical.symm,
        ExtensionValue.decode_encode_of_decode hreg hdecode hstable hencode⟩
    refine ⟨?_, ExtensionValue.arranges_of_encode hencode, ?_⟩
    · rw [ofRecord_of_kind hid, hback]
      rfl
    · rw [relativeNames, ← ExtensionValue.arranged_eq_self_iff hencode]
      obtain ⟨critical, value⟩ := t
      simp [arranged]
  · rw [toRecord, RawExtension.toRecord_ofRecord hreg] at hr'
    split at hr'
    · obtain rfl := Except.ok.inj hr'
      refine ⟨ofRecord_of_forall_ne hnone, ?_, ?_⟩ <;> simp [relativeNames, arranged]
    · cases hr'

/-! A set holds its members in the order of their encodings, in which the string type of a text comes
before the text. All common names are written in the same type, so that the order may change. -/

def pointNamed (values : List String) : Extension :=
  .typed ⟨false, .crlDistributionPoints [⟨.relative (.addMany .empty .commonName values), 0, []⟩]⟩

theorem ofRecord_of_set (rdn : Wire.Rdn) {values : List String} {octets : Octets}
    (hreadable : ∀ a ∈ rdn.attributes, Oid.isReadable a.type.octets = true)
    (hwrite : Message.write
      (.sequenceOf Wire.DistributionPoint.toElement [⟨some (.relative rdn), none, none⟩]) =
        .ok octets)
    (hnames : DirectoryName.ofRdn rdn = .ok (.addMany .empty .commonName values)) :
    ofRecord Registry.builtin ⟨Oid.crlDistributionPoints, false, octets⟩ =
      .ok (pointNamed values) := by
  have hread := Message.read_of_write hwrite fun hfits =>
    Element.sequenceOf?_sequenceOf hfits fun p hp hone => by
      obtain rfl := List.mem_singleton.mp hp
      have hname : Wire.PointName.Readable (.relative rdn) := hreadable
      exact Wire.DistributionPoint.ofElement?_toElement ⟨by simpa using hname, by simp⟩ hone
  have hdecode : ExtensionValue.decode Registry.builtin .crlDistributionPoints octets =
      .ok (.crlDistributionPoints [⟨.relative (.addMany .empty .commonName values), 0, []⟩]) := by
    simp only [ExtensionValue.decode, hread, bind_eq_ok_iff, pure_eq_ok_iff]
    refine ⟨_, rfl, _, ?_, rfl⟩
    simp only [List.mapM_cons, DistributionPoint.ofWire, Option.mapM_some, PointName.ofWire, hnames]
    rfl
  exact ofRecord_eq_ok_iff.mpr (Or.inl ⟨.crlDistributionPoints, ⟨false, _⟩, rfl,
    TypedExtension.ofRecord_eq_ok_iff.mpr ⟨rfl, rfl, hdecode⟩, rfl⟩)

def mixedSetRecord : Wire.Extension :=
  ⟨Oid.crlDistributionPoints, false,
    [0x30, 0x1a, 0x30, 0x18, 0xa0, 0x16, 0xa1, 0x14, 0x30, 0x08, 0x06, 0x03, 0x55, 0x04, 0x03, 0x0c,
     0x01, 0x43, 0x30, 0x08, 0x06, 0x03, 0x55, 0x04, 0x03, 0x13, 0x01, 0x42]⟩

def arrangedSetRecord : Wire.Extension :=
  ⟨Oid.crlDistributionPoints, false,
    [0x30, 0x1a, 0x30, 0x18, 0xa0, 0x16, 0xa1, 0x14, 0x30, 0x08, 0x06, 0x03, 0x55, 0x04, 0x03, 0x0c,
     0x01, 0x42, 0x30, 0x08, 0x06, 0x03, 0x55, 0x04, 0x03, 0x0c, 0x01, 0x43]⟩

theorem ofRecord_mixedSetRecord :
    ofRecord Registry.builtin mixedSetRecord = .ok (pointNamed ["C", "B"]) := by
  -- Arranging a list does not reduce, so the set is given as it stands in the octets.
  let rdn : Wire.Rdn :=
    ⟨[⟨AttributeType.commonName.oid, .text .utf8 "C"⟩,
      ⟨AttributeType.commonName.oid, .text .printable "B"⟩], by decide +kernel⟩
  exact ofRecord_of_set rdn (by decide +kernel) (by decide +kernel) (by decide +kernel)

theorem ofRecord_arrangedSetRecord :
    ofRecord Registry.builtin arrangedSetRecord = .ok (pointNamed ["B", "C"]) := by
  let rdn : Wire.Rdn :=
    ⟨[⟨AttributeType.commonName.oid, .text .utf8 "B"⟩,
      ⟨AttributeType.commonName.oid, .text .utf8 "C"⟩], by decide +kernel⟩
  exact ofRecord_of_set rdn (by decide +kernel) (by decide +kernel) (by decide +kernel)

theorem arranges_commonNames :
    DirectoryName.Arranges (.addMany .empty .commonName ["C", "B"])
      (.addMany .empty .commonName ["B", "C"]) :=
  ⟨by decide +kernel, by decide +kernel⟩

theorem toRecord_pointNamed : (pointNamed ["C", "B"]).toRecord = .ok arrangedSetRecord := by
  have hset := arranges_commonNames.toRdn_eq_ok (by decide +kernel)
  simp only [toRecord, pointNamed, TypedExtension.toRecord, ExtensionValue.encode,
    ExtensionValue.toElement, List.mapM_cons, DistributionPoint.toWire, PointName.toWire, hset]
  decide +kernel

/-! The data of another name is read whatever its tag is, and its type is held as a text. -/

def otherNamed (type : String) : Extension :=
  .typed ⟨false, .subjectAlternativeName [.otherName type "A"]⟩

def otherNameRecord (type : Octets) (tag : UInt8) : Wire.Extension :=
  ⟨Oid.subjectAltName, false,
    [0x30, .ofNat (type.length + 9), 0xa0, .ofNat (type.length + 7), 0x06, .ofNat type.length] ++
      type ++ [0xa0, 0x03, tag, 0x01, 0x41]⟩

theorem ofRecord_reencoded_records :
    (ofRecord Registry.builtin arrangedSetRecord = .ok (pointNamed ["C", "B"]).arranged ∧
        (pointNamed ["C", "B"]).arranged ≠ pointNamed ["C", "B"]) ∧
      ofRecord Registry.builtin (otherNameRecord [0x2a, 0x03, 0x04] 0x0c) =
          .ok (otherNamed "1.2.3.4") ∧
        (otherNamed "1.2.3.4").toRecord = .ok (otherNameRecord [0x2a, 0x03, 0x04] 0x04) ∧
          ofRecord Registry.builtin (otherNameRecord [0x2a, 0x03, 0x04] 0x04) =
            .ok (otherNamed "1.2.3.4") := by
  constructor
  · have hstable : ∀ n ∈ (pointNamed ["C", "B"]).generalNames, n.Stable := by decide +kernel
    obtain ⟨hread, -, hsame⟩ :=
      ofRecord_reencoded [] ofRecord_mixedSetRecord hstable toRecord_pointNamed
    refine ⟨hread, fun hself => ?_⟩
    have harranged := hsame.mp hself
    revert harranged
    decide +kernel
  · have hread : ofRecord Registry.builtin (otherNameRecord [0x2a, 0x03, 0x04] 0x0c) =
        .ok (otherNamed "1.2.3.4") := by decide +kernel
    have hwrite : (otherNamed "1.2.3.4").toRecord =
        .ok (otherNameRecord [0x2a, 0x03, 0x04] 0x04) := by decide +kernel
    obtain ⟨hback, -, -⟩ := ofRecord_reencoded [] hread (by decide +kernel) hwrite
    exact ⟨hread, hwrite, hback⟩

/-- Three records that are read and written again as records of something else: a set of common
names in another order, another name whose type prints as the text of another identifier, and one
whose type prints as the text of an identifier that cannot be read. -/
theorem ofRecord_reencoded_differs :
    (ofRecord Registry.builtin mixedSetRecord = .ok (pointNamed ["C", "B"]) ∧
        (pointNamed ["C", "B"]).toRecord = .ok arrangedSetRecord ∧
          ofRecord Registry.builtin arrangedSetRecord = .ok (pointNamed ["B", "C"]) ∧
            pointNamed ["B", "C"] ≠ pointNamed ["C", "B"]) ∧
      (ofRecord Registry.builtin (otherNameRecord [0x2a, 0x81, 0x00, 0x01] 0x04) =
            .ok (otherNamed "1.2.128.1") ∧
          (otherNamed "1.2.128.1").toRecord =
              .ok (otherNameRecord [0x2a, 0x80, 0x00, 0x01] 0x04) ∧
            ofRecord Registry.builtin (otherNameRecord [0x2a, 0x80, 0x00, 0x01] 0x04) =
                .ok (otherNamed "1.2.0.1") ∧
              otherNamed "1.2.0.1" ≠ otherNamed "1.2.128.1") ∧
        ofRecord Registry.builtin (otherNameRecord [0x2a, 0x80, 0x00] 0x04) =
            .ok (otherNamed "1.2.0") ∧
          (otherNamed "1.2.0").toRecord = .ok (otherNameRecord [0x2a, 0x00] 0x04) ∧
            ofRecord Registry.builtin (otherNameRecord [0x2a, 0x00] 0x04) = .error .decoding := by
  refine ⟨⟨ofRecord_mixedSetRecord, toRecord_pointNamed, ofRecord_arrangedSetRecord, ?_⟩, ?_⟩
  · decide +kernel
  · decide +kernel

end Extension

end Pkix
