import Pkix.Proofs.Der.Integer
import Pkix.Proofs.Wire.Name
import Pkix.Wire.Policy

/-!
# Policies on the wire come back

A policy is read as it was written when its identifiers can be read: a list of qualifiers that is
there stays apart from one that is not, even if it is empty. A user notice is read as it was written
when its text is not a sequence, since that tag is what tells a reference from a text.
-/

namespace Pkix.Wire

open Der

namespace PolicyQualifier

/-- Whether the identifier of a qualifier can be read. -/
def Readable (q : PolicyQualifier) : Prop := Oid.isReadable q.id.octets = true

theorem ofElement?_toElement {q : PolicyQualifier} (h : q.Readable) (hfits : q.toElement.Fits) :
    ofElement? q.toElement = some q := by
  obtain ⟨id, value⟩ := q
  rw [ofElement?, toElement, Element.sequence?_sequence hfits]
  cases value <;> simp [Oid.ofElement?_toElement h]

theorem readable_of_ofElement? {e : Element} {q : PolicyQualifier} (h : ofElement? e = some q) :
    q.Readable := by
  obtain ⟨fields, -, h⟩ := Option.bind_eq_some_iff.mp h
  split at h
  · obtain ⟨id, hid, h⟩ := Option.bind_eq_some_iff.mp h
    obtain rfl := Option.some.inj h
    exact Oid.isReadable_of_ofElement? hid
  · obtain ⟨id, hid, h⟩ := Option.bind_eq_some_iff.mp h
    obtain rfl := Option.some.inj h
    exact Oid.isReadable_of_ofElement? hid
  · cases h

end PolicyQualifier

namespace PolicyInformation

/-- Whether the identifiers of a policy and of its qualifiers can be read. -/
def Readable (p : PolicyInformation) : Prop :=
  Oid.isReadable p.id.octets = true ∧ ∀ qualifiers ∈ p.qualifiers, ∀ q ∈ qualifiers, q.Readable

theorem ofElement?_toElement {p : PolicyInformation} (h : p.Readable)
    (hfits : p.toElement.Fits) : ofElement? p.toElement = some p := by
  obtain ⟨id, qualifiers⟩ := p
  obtain ⟨hid, hqualifiers⟩ := h
  rw [ofElement?, toElement, Element.sequence?_sequence hfits]
  cases qualifiers with
  | none => simp [Oid.ofElement?_toElement hid]
  | some qualifiers =>
      have hlist : (Element.sequenceOf PolicyQualifier.toElement qualifiers).Fits :=
        hfits.of_mem (by simp)
      have hread := Element.sequenceOf?_sequenceOf hlist fun q hq =>
        PolicyQualifier.ofElement?_toElement (hqualifiers qualifiers rfl q hq)
      simp [Oid.ofElement?_toElement hid, hread]

theorem isReadable_of_ofElement?_toElement {p p' : PolicyInformation} (hfits : p.toElement.Fits)
    (h : ofElement? p.toElement = some p') : Oid.isReadable p.id.octets = true := by
  obtain ⟨id, qualifiers⟩ := p
  obtain ⟨fields, hfields, h⟩ := Option.bind_eq_some_iff.mp h
  rw [toElement, Element.sequence?_sequence hfits] at hfields
  obtain rfl := Option.some.inj hfields
  cases qualifiers with
  | none =>
      obtain ⟨id', hid, -⟩ := Option.bind_eq_some_iff.mp h
      exact Oid.isReadable_of_ofElement?_toElement hid
  | some qualifiers =>
      obtain ⟨id', hid, -⟩ := Option.bind_eq_some_iff.mp h
      exact Oid.isReadable_of_ofElement?_toElement hid

theorem readable_of_ofElement? {e : Element} {p : PolicyInformation} (h : ofElement? e = some p) :
    p.Readable := by
  obtain ⟨fields, -, h⟩ := Option.bind_eq_some_iff.mp h
  split at h
  · obtain ⟨id, hid, h⟩ := Option.bind_eq_some_iff.mp h
    obtain rfl := Option.some.inj h
    exact ⟨Oid.isReadable_of_ofElement? hid, by simp⟩
  · obtain ⟨id, hid, h⟩ := Option.bind_eq_some_iff.mp h
    obtain ⟨qualifiers, hqualifiers, h⟩ := Option.bind_eq_some_iff.mp h
    obtain rfl := Option.some.inj h
    refine ⟨Oid.isReadable_of_ofElement? hid, fun written hwritten q hq => ?_⟩
    obtain rfl := Option.some.inj hwritten
    obtain ⟨member, hmember⟩ := Element.exists_of_mem_sequenceOf? hqualifiers hq
    exact PolicyQualifier.readable_of_ofElement? hmember
  · cases h

end PolicyInformation

/-! ## User notices -/

theorem int64OfElement?_int64Element (n : Int64) : int64OfElement? (int64Element n) = some n := by
  have hread : (int64Element n).integer? = some n.toInt := Element.integer?_integer n.toInt
  simp [int64OfElement?, hread]

namespace NoticeReference

@[simp] theorem tag_toElement (r : NoticeReference) :
    r.toElement.tag = .universal .sequence := rfl

theorem ofElement?_toElement {r : NoticeReference} (hfits : r.toElement.Fits) :
    ofElement? r.toElement = some r := by
  obtain ⟨organization, numbers⟩ := r
  have hread := Element.sequenceOf?_sequenceOf
    (hfits.of_mem (e := .sequenceOf int64Element numbers) (by simp))
    fun n _ _ => int64OfElement?_int64Element n
  rw [ofElement?, toElement, Element.sequence?_sequence hfits]
  simp [hread]

end NoticeReference

namespace UserNotice

/-- The reference is written first and is the only part that is a sequence. -/
theorem takeTagged_reference (reference : Option NoticeReference) {text : Option Element}
    (h : ∀ e ∈ text, e.tag ≠ .universal .sequence) :
    Element.takeTagged [.universal .sequence]
        ((reference.map NoticeReference.toElement).toList ++ text.toList) =
      (reference.map NoticeReference.toElement, text.toList) :=
  Element.takeTagged_option (by simp) fun e he => by simpa using h e (by simpa using he)

theorem ofElement?_toElement {n : UserNotice} (h : ∀ e ∈ n.text, e.tag ≠ .universal .sequence)
    (hfits : n.toElement.Fits) : ofElement? n.toElement = some n := by
  obtain ⟨reference, text⟩ := n
  have hreference : (reference.map NoticeReference.toElement).mapM NoticeReference.ofElement? =
      some reference := by
    rw [option_mapM_map fun r _ => rfl]
    exact option_mapM_self fun r hr =>
      NoticeReference.ofElement?_toElement (hfits.of_mem (by simpa using Or.inl ⟨r, hr, rfl⟩))
  rw [ofElement?, toElement, Element.sequence?_sequence hfits]
  simp only [Option.bind_eq_bind, Option.bind_some, takeTagged_reference reference h, hreference]
  cases text <;> rfl

end UserNotice

end Pkix.Wire
