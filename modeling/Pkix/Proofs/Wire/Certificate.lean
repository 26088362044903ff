import Pkix.Proofs.Der.Rewrites
import Pkix.Proofs.Wire.Name
import Pkix.Proofs.Wire.SerialNumber
import Pkix.Wire.Certificate

/-!
# Certificates on the wire come back

Three parts of a certificate are read more leniently than they are written. The version and the
flags of its extensions may be there where they could be left out, the sets in its names may stand
in any order, and fields between the optional ones are passed over. All others are read exactly.
-/

namespace Pkix.Wire

open Der

/-! ## Parts -/

theorem SerialNumber.toElement_of_ofElement? :
    Element.Exact SerialNumber.ofElement? SerialNumber.toElement := by
  intro e serial h
  rw [ofElement?] at h
  split at h
  · rename_i hread
    obtain rfl := Option.some.inj h
    rw [toElement, ← hread.1]
  · cases h

theorem Algorithm.toElement_of_ofElement? :
    Element.Exact Algorithm.ofElement? Algorithm.toElement := by
  intro e a h
  obtain ⟨fields, hfields, h⟩ := Option.bind_eq_some_iff.mp h
  rw [← Element.sequence_of_sequence? e fields hfields]
  split at h
  · obtain ⟨oid, hoid, h⟩ := Option.bind_eq_some_iff.mp h
    obtain rfl := Option.some.inj h
    rw [toElement, Oid.toElement_of_ofElement? _ _ hoid]
    rfl
  · obtain ⟨oid, hoid, h⟩ := Option.bind_eq_some_iff.mp h
    obtain rfl := Option.some.inj h
    rw [toElement, Oid.toElement_of_ofElement? _ _ hoid]
    rfl
  · cases h

theorem PublicKeyInfo.toElement_of_ofElement? :
    Element.Exact PublicKeyInfo.ofElement? PublicKeyInfo.toElement := by
  intro e k h
  obtain ⟨fields, hfields, h⟩ := Option.bind_eq_some_iff.mp h
  rw [← Element.sequence_of_sequence? e fields hfields]
  split at h
  · obtain ⟨algorithm, halgorithm, h⟩ := Option.bind_eq_some_iff.mp h
    obtain ⟨key, hkey, h⟩ := Option.bind_eq_some_iff.mp h
    obtain rfl := Option.some.inj h
    rw [toElement, Algorithm.toElement_of_ofElement? _ _ halgorithm,
      Element.bitString_of_bitString? _ _ hkey]
  · cases h

theorem Version.toElement_of_ofElement? :
    Element.Exact Version.ofElement? Version.toElement := by
  intro e v h
  obtain ⟨n, hn, h⟩ := Option.bind_eq_some_iff.mp h
  have hnumber : v.number = n := by simpa using List.find?_some h
  rw [toElement, hnumber]
  exact Element.integer_of_natural? e n hn

theorem Version.ofElement?_toElement (v : Version) : ofElement? v.toElement = some v := by
  rw [ofElement?, toElement, Element.natural?_integer]
  cases v <;> rfl

/-! ## Names -/

theorem Attribute.toElement_of_ofElement? :
    Element.Exact Attribute.ofElement? Attribute.toElement := by
  intro e a h
  obtain ⟨fields, hfields, h⟩ := Option.bind_eq_some_iff.mp h
  rw [← Element.sequence_of_sequence? e fields hfields]
  split at h
  · obtain ⟨type, htype, h⟩ := Option.bind_eq_some_iff.mp h
    obtain rfl := Option.some.inj h
    rw [toElement, Oid.toElement_of_ofElement? _ _ htype]
  · cases h

/-- Arranging the members of a set changes neither their encodings nor how long the set is. -/
theorem Rdn.rewrites : Element.Rewrites Rdn.ofElement? Rdn.toElement := by
  constructor
  · intro e rdn h
    rw [ofElement?] at h
    split at h
    · rename_i htag
      obtain ⟨members, hmembers, h⟩ := Option.bind_eq_some_iff.mp h
      obtain ⟨attributes, hattributes, hset⟩ := Option.bind_eq_some_iff.mp h
      have hperm : (rdn.attributes.map Attribute.toElement).Perm members := by
        rw [← map_eq_of_mapM_eq_some Attribute.toElement_of_ofElement? hattributes]
        exact (ofList?_eq_some_iff.mp hset).map Attribute.toElement
      rw [← Element.ofElements_of_elements? hmembers]
      exact Element.length_octets_le (Nat.le_of_eq (Element.seriesLength_perm hperm))
    · cases h
  · intro e rdn h hfits
    exact ofElement?_toElement (readable_of_ofElement? h) hfits

theorem Name.rewrites : Element.Rewrites Name.ofElement? Name.toElement :=
  Rdn.rewrites.sequenceOf

/-! ## Extensions -/

namespace Extension

theorem ofElement?_toElement {r : Extension} (hid : Oid.isReadable r.id.octets = true)
    (hfits : r.toElement.Fits) : ofElement? r.toElement = some r := by
  obtain ⟨id, critical, value⟩ := r
  rw [ofElement?, toElement, Element.sequence?_sequence hfits]
  cases critical with
  | false => simp [Oid.ofElement?_toElement hid]
  | true =>
      have htrue : (Element.boolean true).boolean? = some true := rfl
      simp [Oid.ofElement?_toElement hid, htrue]

theorem exists_of_ofElement? {e : Element} {r : Extension} (h : ofElement? e = some r) :
    ∃ id flag value, e.sequence? = some (id :: (Option.toList flag ++ [value])) ∧
      Oid.ofElement? id = some r.id ∧
        (∃ c, flag.mapM Element.boolean? = some c ∧ r.critical = c.getD false) ∧
          value.octetString? = some r.value := by
  obtain ⟨fields, hfields, h⟩ := Option.bind_eq_some_iff.mp h
  split at h
  · obtain ⟨oid, hid, h⟩ := Option.bind_eq_some_iff.mp h
    obtain ⟨octets, hvalue, h⟩ := Option.bind_eq_some_iff.mp h
    obtain rfl := Option.some.inj h
    exact ⟨_, none, _, hfields, hid, ⟨none, rfl, rfl⟩, hvalue⟩
  · rename_i flag _
    obtain ⟨oid, hid, h⟩ := Option.bind_eq_some_iff.mp h
    obtain ⟨critical, hcritical, h⟩ := Option.bind_eq_some_iff.mp h
    obtain ⟨octets, hvalue, h⟩ := Option.bind_eq_some_iff.mp h
    obtain rfl := Option.some.inj h
    have hflag : (some flag).mapM Element.boolean? = some (some critical) := by
      rw [Option.mapM_some, hcritical]
      rfl
    exact ⟨_, some flag, _, hfields, hid, ⟨some critical, hflag, rfl⟩, hvalue⟩
  · cases h

/-- A flag that is not set is left out when an extension is written again. -/
theorem rewrites : Element.Rewrites ofElement? toElement := by
  constructor
  · intro e r h
    obtain ⟨id, flag, value, hfields, hid, ⟨c, hflag, hcritical⟩, hvalue⟩ := exists_of_ofElement? h
    apply Element.length_sequence_le hfields
    rw [Oid.toElement_of_ofElement? _ _ hid, Element.octetString_of_octetString? _ _ hvalue,
      ← Element.boolean_of_boolean?.map_of_mapM_option hflag, hcritical]
    rcases c with _ | _ | _ <;> simp
  · intro e r h hfits
    obtain ⟨id, flag, value, -, hid, -, -⟩ := exists_of_ofElement? h
    exact ofElement?_toElement (Oid.isReadable_of_ofElement? hid) hfits

/-- The records of a certificate or a list of revocations. -/
theorem rewrites_list : Element.Rewrites (Element.sequenceOf? ofElement?)
    (Element.sequenceOf toElement) :=
  rewrites.sequenceOf

end Extension

/-! ## The signed part -/

namespace TbsCertificate

theorem validity_of_validity? {e : Element} {notBefore notAfter : Time}
    (h : validity? e = some (notBefore, notAfter)) :
    Element.sequence [notBefore.toElement, notAfter.toElement] = e := by
  obtain ⟨fields, hfields, h⟩ := Option.bind_eq_some_iff.mp h
  rw [← Element.sequence_of_sequence? e fields hfields]
  split at h
  · obtain ⟨a, ha, h⟩ := Option.bind_eq_some_iff.mp h
    obtain ⟨b, hb, h⟩ := Option.bind_eq_some_iff.mp h
    obtain ⟨rfl, rfl⟩ := Prod.mk.inj (Option.some.inj h)
    rw [Time.toElement_of_ofElement? _ _ ha, Time.toElement_of_ofElement? _ _ hb]
  · cases h

/-- The elements that the parts of a certificate are read from and written as. -/
structure Fields where
  version : Option Element
  serial : Element
  signature : Element
  issuer : Element
  validity : Element
  subject : Element
  publicKey : Element
  issuerUniqueId : Option Element
  subjectUniqueId : Option Element
  extensions : Option Element

namespace Fields

def elements (f : Fields) : List Element :=
  f.version.toList ++
    ([f.serial, f.signature, f.issuer, f.validity, f.subject, f.publicKey] ++
      (f.issuerUniqueId.toList ++ f.subjectUniqueId.toList ++ f.extensions.toList))

/-- Whether the fields are taken off a list of elements that then is used up. What is passed over
is not among them. -/
def TakenOff (f : Fields) (all : List Element) : Prop :=
  ∃ rest rest' rest'',
    Element.takeContext 0 all = (f.version, f.serial :: f.signature :: f.issuer ::
      f.validity :: f.subject :: f.publicKey :: rest) ∧
    Element.takeContext 1 rest = (f.issuerUniqueId, rest') ∧
    Element.takeContext 2 rest' = (f.subjectUniqueId, rest'') ∧
    Element.takeContext 3 rest'' = (f.extensions, [])

/-- Whether every field is read as the part of a certificate that it stands for. -/
structure ReadAs (f : Fields) (t : TbsCertificate) : Prop where
  version : ∃ v, (f.version.mapM fun e => do Version.ofElement? (← e.explicit? 0)) = some v ∧
    t.version = v.getD .v1
  serial : SerialNumber.ofElement? f.serial = some t.serial
  signature : Algorithm.ofElement? f.signature = some t.signature
  issuer : Name.ofElement? f.issuer = some t.issuer
  validity : validity? f.validity = some (t.notBefore, t.notAfter)
  subject : Name.ofElement? f.subject = some t.subject
  publicKey : PublicKeyInfo.ofElement? f.publicKey = some t.publicKey
  issuerUniqueId : (f.issuerUniqueId.mapM fun e => do (← e.implicit? 1 .bitString).bitString?) =
    some t.issuerUniqueId
  subjectUniqueId : (f.subjectUniqueId.mapM fun e => do (← e.implicit? 2 .bitString).bitString?) =
    some t.subjectUniqueId
  extensions : (f.extensions.mapM fun e => do
    (← e.explicit? 3).sequenceOf? Extension.ofElement?) = some t.extensions

theorem TakenOff.seriesLength_le {f : Fields} {all : List Element} (h : f.TakenOff all) :
    Element.seriesLength f.elements ≤ Element.seriesLength all := by
  obtain ⟨rest, rest', rest'', h0, h1, h2, h3⟩ := h
  have hversion := Element.seriesLength_takeContext h0
  have hissuer := Element.seriesLength_takeContext h1
  have hsubject := Element.seriesLength_takeContext h2
  have hextensions := Element.seriesLength_takeContext h3
  simp only [elements, Element.seriesLength_append, Element.seriesLength_cons,
    Element.seriesLength_nil] at *
  omega

end Fields

/-- A certificate is read from the fields that are taken off. -/
theorem ofElement?_eq_some_iff (e : Element) (t : TbsCertificate) :
    ofElement? e = some t ↔
      ∃ all f, e.sequence? = some all ∧ Fields.TakenOff f all ∧ f.ReadAs t := by
  constructor
  · intro h
    obtain ⟨all, hall, h⟩ := Option.bind_eq_some_iff.mp h
    dsimp only at h
    obtain ⟨version, hversion, h⟩ := Option.bind_eq_some_iff.mp h
    split at h
    · rename_i serial signature issuer validity subject publicKey rest hfields
      split at h
      · rename_i hrest
        obtain ⟨⟨notBefore, notAfter⟩, hvalidity, h⟩ := Option.bind_eq_some_iff.mp h
        obtain ⟨s, hserial, h⟩ := Option.bind_eq_some_iff.mp h
        obtain ⟨a, hsignature, h⟩ := Option.bind_eq_some_iff.mp h
        obtain ⟨i, hissuer, h⟩ := Option.bind_eq_some_iff.mp h
        obtain ⟨n, hsubject, h⟩ := Option.bind_eq_some_iff.mp h
        obtain ⟨k, hkey, h⟩ := Option.bind_eq_some_iff.mp h
        obtain ⟨u, hissuerId, h⟩ := Option.bind_eq_some_iff.mp h
        obtain ⟨u', hsubjectId, h⟩ := Option.bind_eq_some_iff.mp h
        obtain ⟨x, hextensions, h⟩ := Option.bind_eq_some_iff.mp h
        obtain rfl := Option.some.inj h
        refine ⟨all, ⟨_, serial, signature, issuer, validity, subject, publicKey, _, _, _⟩,
          hall, ⟨rest, _, _, Prod.ext rfl hfields, rfl, rfl,
            Prod.ext rfl (List.isEmpty_iff.mp hrest)⟩, ?_⟩
        exact ⟨⟨version, hversion, rfl⟩, hserial, hsignature, hissuer, hvalidity, hsubject, hkey,
          hissuerId, hsubjectId, hextensions⟩
      · cases h
    · cases h
  · rintro ⟨all, f, hall, ⟨rest, rest', rest'', h0, h1, h2, h3⟩, hread⟩
    obtain ⟨v, hv, hversion⟩ := hread.version
    have hissuerId := hread.issuerUniqueId
    have hsubjectId := hread.subjectUniqueId
    have hextensions := hread.extensions
    simp only [Option.bind_eq_bind] at hv hissuerId hsubjectId hextensions
    simp [ofElement?, hall, h0, h1, h2, h3, hv, ← hversion, hread.serial, hread.signature,
      hread.issuer, hread.validity, hread.subject, hread.publicKey, hissuerId, hsubjectId,
      hextensions]

/-- The fields that a certificate is written as. -/
def fields (t : TbsCertificate) : Fields where
  version := if t.version = .v1 then none else some (.explicit 0 t.version.toElement)
  serial := SerialNumber.toElement t.serial
  signature := t.signature.toElement
  issuer := Name.toElement t.issuer
  validity := .sequence [t.notBefore.toElement, t.notAfter.toElement]
  subject := Name.toElement t.subject
  publicKey := t.publicKey.toElement
  issuerUniqueId := t.issuerUniqueId.map fun s => .implicit 1 (.bitString s)
  subjectUniqueId := t.subjectUniqueId.map fun s => .implicit 2 (.bitString s)
  extensions := t.extensions.map fun records =>
    .explicit 3 (.sequenceOf Extension.toElement records)

theorem toElement_eq (t : TbsCertificate) : t.toElement = .sequence t.fields.elements := by
  by_cases hversion : t.version = .v1 <;>
    simp [toElement, optionalElements, Fields.elements, fields, hversion]

theorem takeContext_fields (t : TbsCertificate) :
    let f := t.fields
    Element.takeContext 1
        (f.issuerUniqueId.toList ++ f.subjectUniqueId.toList ++ f.extensions.toList) =
          (f.issuerUniqueId, f.subjectUniqueId.toList ++ f.extensions.toList) ∧
      Element.takeContext 2 (f.subjectUniqueId.toList ++ f.extensions.toList) =
          (f.subjectUniqueId, f.extensions.toList) ∧
        Element.takeContext 3 f.extensions.toList = (f.extensions, []) :=
  Element.takeContext_three (by decide) (by decide) (by simp) (by simp) (by simp)
    t.issuerUniqueId t.subjectUniqueId t.extensions

theorem takenOff_fields (t : TbsCertificate) : t.fields.TakenOff t.fields.elements := by
  obtain ⟨hissuerId, hsubjectId, hextensions⟩ := takeContext_fields t
  refine ⟨_, _, _, ?_, hissuerId, hsubjectId, hextensions⟩
  have hserial : t.fields.serial.tag = .universal .integer := rfl
  apply Element.takeContext_append_universal _ hserial
  intro e he
  by_cases hv1 : t.version = .v1
  · simp [fields, hv1] at he
  · obtain rfl : Element.explicit 0 t.version.toElement = e := by simpa [fields, hv1] using he
    exact ⟨true, rfl⟩

namespace Fields

variable {f : Fields} {t : TbsCertificate}

/-- All fields but the version, the names and the extensions are read exactly. -/
theorem ReadAs.exact (h : f.ReadAs t) :
    t.fields = ⟨t.fields.version, f.serial, f.signature, t.fields.issuer, f.validity,
      t.fields.subject, f.publicKey, f.issuerUniqueId, f.subjectUniqueId, t.fields.extensions⟩ := by
  have hserial := SerialNumber.toElement_of_ofElement? _ _ h.serial
  have hsignature := Algorithm.toElement_of_ofElement? _ _ h.signature
  have hvalidity := validity_of_validity? h.validity
  have hkey := PublicKeyInfo.toElement_of_ofElement? _ _ h.publicKey
  have hissuerId := (Element.bitString_of_bitString?.implicit 1).map_of_mapM_option
    h.issuerUniqueId
  have hsubjectId := (Element.bitString_of_bitString?.implicit 2).map_of_mapM_option
    h.subjectUniqueId
  simp only [fields, hserial, hsignature, hvalidity, hkey, hissuerId, hsubjectId]

theorem ReadAs.seriesLength_version (h : f.ReadAs t) :
    Element.seriesLength t.fields.version.toList ≤ Element.seriesLength f.version.toList := by
  obtain ⟨v, hv, hversion⟩ := h.version
  by_cases hv1 : t.version = .v1
  · simp [fields, hv1]
  · have hle := (Version.toElement_of_ofElement?.rewrites.explicit 0).seriesLength_option hv
    cases v with
    | none => exact absurd hversion hv1
    | some v =>
        obtain rfl : t.version = v := hversion
        simpa [fields, hv1] using hle

theorem ReadAs.seriesLength_le (h : f.ReadAs t) :
    Element.seriesLength t.fields.elements ≤ Element.seriesLength f.elements := by
  have hversion := h.seriesLength_version
  have hissuer : t.fields.issuer.octets.length ≤ f.issuer.octets.length :=
    Name.rewrites.length_le h.issuer
  have hsubject : t.fields.subject.octets.length ≤ f.subject.octets.length :=
    Name.rewrites.length_le h.subject
  have hextensions : Element.seriesLength t.fields.extensions.toList ≤
      Element.seriesLength f.extensions.toList :=
    (Extension.rewrites_list.explicit 3).seriesLength_option h.extensions
  rw [h.exact]
  simp only [elements, Element.seriesLength_append, Element.seriesLength_cons,
    Element.seriesLength_nil]
  omega

theorem version_again (hfits : ∀ e ∈ t.fields.version, e.Fits) :
    ∃ v, (t.fields.version.mapM fun e => do Version.ofElement? (← e.explicit? 0)) = some v ∧
      t.version = v.getD .v1 := by
  by_cases hv1 : t.version = .v1
  · refine ⟨none, ?_, hv1⟩
    simp [fields, hv1]
  · have hfield : t.fields.version = some (.explicit 0 t.version.toElement) := if_neg hv1
    have hexplicit := Element.explicit?_explicit (hfits _ hfield)
    refine ⟨some t.version, ?_, rfl⟩
    simp [hfield, hexplicit, Version.ofElement?_toElement]

/-- The fields that a certificate is written as are read as those it was read from. -/
theorem ReadAs.again (h : f.ReadAs t) (hfits : ∀ e ∈ t.fields.elements, e.Fits) :
    t.fields.ReadAs t := by
  have hversion : ∀ e ∈ t.fields.version, e.Fits := by
    intro e he
    apply hfits
    simp [elements, Option.mem_def.mp he]
  have hextensions : ∀ e ∈ t.fields.extensions, e.Fits := by
    intro e he
    apply hfits
    simp [elements, Option.mem_def.mp he]
  have hissuer := Name.rewrites.again h.issuer (hfits t.fields.issuer (by simp [elements]))
  have hsubject := Name.rewrites.again h.subject (hfits t.fields.subject (by simp [elements]))
  have hrecords := (Extension.rewrites_list.explicit 3).mapM_option h.extensions
    fun records hrecords => hextensions _ (Option.mem_map_of_mem _ hrecords)
  rw [h.exact]
  exact ⟨version_again hversion, h.serial, h.signature, hissuer, h.validity, hsubject,
    h.publicKey, h.issuerUniqueId, h.subjectUniqueId, hrecords⟩

end Fields

/-- What was passed over is left out when a certificate is written again. -/
theorem rewrites : Element.Rewrites ofElement? toElement :=
  .of_fields ofElement?_eq_some_iff toElement_eq takenOff_fields Fields.TakenOff.seriesLength_le
    Fields.ReadAs.seriesLength_le Fields.ReadAs.again

end TbsCertificate

/-! ## Signed statements -/

section Signed

variable {α β : Type} {ofElement? : Element → Option α} {toElement : α → Element}
  {sign : α → Algorithm → BitString → β} {signedOf? : Element → Option β}

theorem eq_some_iff_of_signed
    (hread : ∀ e, signedOf? e = do
      match ← e.sequence? with
      | [tbs, algorithm, signature] =>
        return sign (← ofElement? tbs) (← Algorithm.ofElement? algorithm) (← signature.bitString?)
      | _ => none) {e : Element} {b : β} :
    signedOf? e = some b ↔ ∃ tbs algorithm signature t a s,
      e.sequence? = some [tbs, algorithm, signature] ∧ ofElement? tbs = some t ∧
        Algorithm.ofElement? algorithm = some a ∧ signature.bitString? = some s ∧
          sign t a s = b := by
  rw [hread]
  constructor
  · intro h
    obtain ⟨fields, hfields, h⟩ := Option.bind_eq_some_iff.mp h
    split at h
    · obtain ⟨t, htbs, h⟩ := Option.bind_eq_some_iff.mp h
      obtain ⟨a, halgorithm, h⟩ := Option.bind_eq_some_iff.mp h
      obtain ⟨s, hsignature, h⟩ := Option.bind_eq_some_iff.mp h
      exact ⟨_, _, _, t, a, s, hfields, htbs, halgorithm, hsignature, Option.some.inj h⟩
    · cases h
  · rintro ⟨tbs, algorithm, signature, t, a, s, hfields, htbs, halgorithm, hsignature, rfl⟩
    simp [hfields, htbs, halgorithm, hsignature]

/-- A signed statement can be written again if what is signed can. -/
theorem rewrites_signed {signedTo : β → Element} (htbs : Element.Rewrites ofElement? toElement)
    (hread : ∀ e, signedOf? e = do
      match ← e.sequence? with
      | [tbs, algorithm, signature] =>
        return sign (← ofElement? tbs) (← Algorithm.ofElement? algorithm) (← signature.bitString?)
      | _ => none)
    (hwrite : ∀ t a s, signedTo (sign t a s) =
      .sequence [toElement t, a.toElement, .bitString s]) :
    Element.Rewrites signedOf? signedTo := by
  constructor
  · intro e b h
    obtain ⟨tbs, algorithm, signature, t, a, s, hfields, ht, ha, hs, rfl⟩ :=
      (eq_some_iff_of_signed hread).mp h
    rw [hwrite, Algorithm.toElement_of_ofElement? _ _ ha, Element.bitString_of_bitString? _ _ hs]
    apply Element.length_sequence_le hfields
    simpa using htbs.length_le ht
  · intro e b h hfits
    obtain ⟨tbs, algorithm, signature, t, a, s, -, ht, ha, hs, rfl⟩ :=
      (eq_some_iff_of_signed hread).mp h
    rw [hwrite, Algorithm.toElement_of_ofElement? _ _ ha,
      Element.bitString_of_bitString? _ _ hs] at hfits ⊢
    apply (eq_some_iff_of_signed hread).mpr
    have hagain := htbs.again ht (hfits.of_mem List.mem_cons_self)
    exact ⟨_, _, _, t, a, s, Element.sequence?_sequence hfits, hagain, ha, hs, rfl⟩

end Signed

theorem Certificate.rewrites : Element.Rewrites Certificate.ofElement? Certificate.toElement :=
  rewrites_signed TbsCertificate.rewrites (fun _ => rfl) fun _ _ _ => rfl

end Pkix.Wire
