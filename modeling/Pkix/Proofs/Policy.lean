import Pkix.Policy.Information
import Pkix.Proofs.Der.Text
import Pkix.Proofs.Identifier
import Pkix.Proofs.Wire.Policy

/-!
# Policies come back

Notices are always written; a qualifier is if it has a form and its URI is ASCII, and a policy if
its identifier is defined and all its qualifiers are written. What was written is read as it was:
the parts of a notice and the list of qualifiers are left out exactly when they are empty.
-/

namespace Pkix

open Der

namespace UserNotice

/-- A reference is left out only if both of its parts are empty, and a text only if it is. -/
theorem ofWire_toWire (n : UserNotice) : ofWire n.toWire = .ok n := by
  obtain ⟨organization, numbers, text⟩ := n
  have htext : (toWire ⟨organization, numbers, text⟩).text.mapM DirectoryText.decode =
      .ok (if text = "" then none else some text) := by
    by_cases h : text = "" <;> simp [toWire, h, DirectoryText.decode_text, pure, Except.pure]
  have hget : (if text = "" then none else some text).getD "" = text := by
    split <;> simp_all
  rw [ofWire, htext]
  by_cases href : hasReference ⟨organization, numbers, text⟩ = true
  · simp [toWire, href, hget, DirectoryText.decode_text, bind, Except.bind, pure, Except.pure]
  · obtain ⟨rfl, rfl⟩ : organization = "" ∧ numbers = [] := by simpa [hasReference] using href
    simp [toWire, href, hget, bind, Except.bind, pure, Except.pure]

theorem tag_text_toWire {n : UserNotice} {e : Element} (h : e ∈ n.toWire.text) :
    e.tag ≠ .universal .sequence := by
  simp only [toWire, Option.mem_def, Option.ite_none_left_eq_some, Option.some.injEq] at h
  obtain ⟨-, rfl⟩ := h
  simp [StringType.universal]

/-- A notice comes back from the value of its qualifier. -/
theorem ofQualifierValue_toElement {n : UserNotice} (hfits : n.toWire.toElement.Fits) :
    ofQualifierValue (some n.toWire.toElement) = .ok n := by
  have hread : Wire.UserNotice.ofElement? n.toWire.toElement = some n.toWire :=
    Wire.UserNotice.ofElement?_toElement (fun _ he => tag_text_toWire he) hfits
  rw [ofQualifierValue, hread]
  exact ofWire_toWire n

end UserNotice

namespace PolicyQualifier

/-- Whether a qualifier has a form, and a URI in ASCII if it has a URI. -/
def Writable : PolicyQualifier → Prop
  | undefined => False
  | cpsUri uri => IsAscii uri
  | userNotice _ => True

instance : DecidablePred Writable
  | undefined => inferInstanceAs (Decidable False)
  | cpsUri uri => inferInstanceAs (Decidable (IsAscii uri))
  | userNotice _ => inferInstanceAs (Decidable True)

variable {q : PolicyQualifier} {w : Wire.PolicyQualifier}

theorem toWire_cpsUri_eq_ok_iff {uri : String} :
    (cpsUri uri).toWire = .ok w ↔
      (cpsUri uri).Writable ∧ w = ⟨Oid.qualifierCps, some (.text .ia5 uri)⟩ := by
  rw [Writable, ← StringType.admits_ia5_iff, toWire]
  by_cases h : StringType.ia5.admits uri = true <;> simp [h, eq_comm]

theorem exists_toWire_eq_ok_iff : (∃ w, q.toWire = .ok w) ↔ q.Writable := by
  cases q with
  | undefined => simp [toWire, Writable]
  | cpsUri uri => simp [toWire_cpsUri_eq_ok_iff]
  | userNotice notice => simp [toWire, Writable]

/-- The identifiers of both forms can be read. -/
theorem readable_of_toWire (h : q.toWire = .ok w) : w.Readable := by
  cases q with
  | undefined => simp [toWire] at h
  | cpsUri uri =>
      obtain ⟨-, rfl⟩ := toWire_cpsUri_eq_ok_iff.mp h
      exact show Oid.isReadable Oid.qualifierCps.octets = true by decide
  | userNotice notice =>
      obtain rfl : _ = w := by simpa [toWire] using h
      exact show Oid.isReadable Oid.qualifierUserNotice.octets = true by decide

theorem ofWire_of_toWire (h : q.toWire = .ok w) (hfits : w.toElement.Fits) :
    ofWire w = .ok q := by
  cases q with
  | undefined => simp [toWire] at h
  | cpsUri uri =>
      obtain ⟨-, rfl⟩ := toWire_cpsUri_eq_ok_iff.mp h
      simp [ofWire, DirectoryText.decode_text]
  | userNotice notice =>
      obtain rfl : _ = w := by simpa [toWire] using h
      have hread := UserNotice.ofQualifierValue_toElement (n := notice) (hfits.of_mem (by simp))
      have hother : Oid.qualifierUserNotice ≠ Oid.qualifierCps := by decide
      simp [ofWire, hother, hread]

end PolicyQualifier

namespace PolicyInformation

/-- Whether a policy has an identifier and only qualifiers that can be written. -/
def Writable (p : PolicyInformation) : Prop :=
  p.identifier.isDefined = true ∧ ∀ q ∈ p.qualifiers, q.Writable

instance : DecidablePred Writable := fun p =>
  inferInstanceAs (Decidable (p.identifier.isDefined = true ∧ ∀ q ∈ p.qualifiers, q.Writable))

variable {reg : Registry} {p : PolicyInformation} {w : Wire.PolicyInformation}

theorem toWire_eq_ok_iff :
    p.toWire = .ok w ↔
      ∃ qualifiers oid, p.qualifiers.mapM PolicyQualifier.toWire = .ok qualifiers ∧
        p.identifier.toOid = .ok oid ∧
          w = ⟨oid, if qualifiers.isEmpty then none else some qualifiers⟩ := by
  simp only [toWire, bind_eq_ok_iff, pure_eq_ok_iff, eq_comm (b := w), exists_and_left]

theorem exists_toWire_eq_ok_iff : (∃ w, p.toWire = .ok w) ↔ p.Writable := by
  have hqualifiers : (∃ qualifiers, p.qualifiers.mapM PolicyQualifier.toWire = .ok qualifiers) ↔
      ∀ q ∈ p.qualifiers, q.Writable := by
    simp only [exists_mapM_eq_ok_iff, PolicyQualifier.exists_toWire_eq_ok_iff]
  rw [Writable, ← Identifier.exists_toOid_eq_ok_iff, ← hqualifiers]
  constructor
  · rintro ⟨w, hw⟩
    obtain ⟨qualifiers, oid, hlist, hoid, -⟩ := toWire_eq_ok_iff.mp hw
    exact ⟨⟨oid, hoid⟩, qualifiers, hlist⟩
  · rintro ⟨⟨oid, hoid⟩, qualifiers, hlist⟩
    exact ⟨_, toWire_eq_ok_iff.mpr ⟨qualifiers, oid, hlist, hoid, rfl⟩⟩

def asRead (reg : Registry) (p : PolicyInformation) : PolicyInformation :=
  { p with identifier := p.identifier.asRead reg }

theorem readable_toWire (hid : p.identifier.Readable) (hw : p.toWire = .ok w) : w.Readable := by
  obtain ⟨qualifiers, oid, hlist, hoid, rfl⟩ := toWire_eq_ok_iff.mp hw
  refine ⟨hid oid (Identifier.toOid_eq_ok_iff.mp hoid), fun written hwritten w hmem => ?_⟩
  obtain ⟨-, rfl⟩ : qualifiers ≠ [] ∧ qualifiers = written := by simpa using hwritten
  obtain ⟨q, -, hq⟩ := exists_of_mem_mapM hlist hmem
  exact PolicyQualifier.readable_of_toWire hq

theorem readable_of_ofElement? {w' : Wire.PolicyInformation} (hw : p.toWire = .ok w)
    (hfits : w.toElement.Fits) (h : Wire.PolicyInformation.ofElement? w.toElement = some w') :
    p.identifier.Readable := by
  have hread := Wire.PolicyInformation.isReadable_of_ofElement?_toElement hfits h
  obtain ⟨qualifiers, oid, -, hoid, rfl⟩ := toWire_eq_ok_iff.mp hw
  exact Identifier.readable_of_toOid hoid hread

/-- A policy comes back: its list of qualifiers is left out only if it is empty. -/
theorem ofWire_toWire (hw : p.toWire = .ok w) (hfits : w.toElement.Fits) :
    ofWire reg w = .ok (p.asRead reg) := by
  obtain ⟨qualifiers, oid, hlist, hoid, rfl⟩ := toWire_eq_ok_iff.mp hw
  have hget : (if qualifiers.isEmpty then none else some qualifiers).getD [] = qualifiers := by
    cases qualifiers <;> rfl
  have hfitsOne : ∀ q ∈ qualifiers, q.toElement.Fits := by
    intro q hq
    have hmember : Element.sequenceOf Wire.PolicyQualifier.toElement qualifiers ∈
        ((if qualifiers.isEmpty then none else some qualifiers).map
          (Element.sequenceOf Wire.PolicyQualifier.toElement)).toList := by
      rw [if_neg (by simpa using List.ne_nil_of_mem hq)]
      simp
    have hseries := hfits.of_mem (List.mem_cons_of_mem _ hmember)
    exact hseries.of_mem (List.mem_map.mpr ⟨q, hq, rfl⟩)
  have hback : qualifiers.mapM PolicyQualifier.ofWire = .ok p.qualifiers :=
    mapM_eq_ok_of_mapM_eq_ok hlist fun q _ w hmem hone =>
      PolicyQualifier.ofWire_of_toWire hone (hfitsOne w hmem)
  simp only [ofWire, hget, hback, Identifier.resolve_of_toOid hoid]
  rfl

theorem roundTrip (reg : Registry) :
    RoundTrip toWire Wire.PolicyInformation.toElement Wire.PolicyInformation.ofElement?
      (ofWire reg) (·.identifier.Readable) (asRead reg) where
  read hw hfits hid :=
    Wire.PolicyInformation.ofElement?_toElement (readable_toWire hid hw) hfits
  readable := readable_of_ofElement?
  back := ofWire_toWire

theorem canonical_of_ofWire (hreg : reg.KeepsOids) (hw : w.Readable) (h : ofWire reg w = .ok p) :
    p.identifier.Canonical reg := by
  obtain ⟨qualifiers, -, h⟩ := bind_eq_ok_iff.mp h
  obtain rfl := pure_eq_ok_iff.mp h
  exact Identifier.canonical_resolve hreg hw.1

theorem asRead_eq (hid : p.identifier.Canonical reg) : p.asRead reg = p := by
  rw [asRead, hid.asRead_eq]

theorem readable_of_toWire (hid : p.identifier.Canonical reg) (hw : p.toWire = .ok w) :
    w.Readable :=
  readable_toWire hid.readable hw

theorem ofWire_of_toWire (hid : p.identifier.Canonical reg) (hw : p.toWire = .ok w)
    (hfits : w.toElement.Fits) : ofWire reg w = .ok p := by
  rw [ofWire_toWire hw hfits, asRead_eq hid]

end PolicyInformation

end Pkix
