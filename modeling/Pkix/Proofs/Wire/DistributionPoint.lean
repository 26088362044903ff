import Pkix.Proofs.Der.NamedBits
import Pkix.Proofs.Wire.GeneralName
import Pkix.Wire.DistributionPoint

/-!
# Distribution points on the wire come back

The two forms of a point name and the three fields of a point are told apart by their tags, so that
a point is read as it was written when the names in it can be read: an absent field stays apart from
one that holds an empty list or no reasons.
-/

namespace Pkix.Wire

open Der

namespace PointName

/-- Whether the names that a point name holds can be read. -/
def Readable : PointName → Prop
  | full names => names.Readable
  | relative rdn => rdn.Readable

theorem ofElement?_toElement {name : PointName} (h : name.Readable)
    (hfits : name.toElement.Fits) : ofElement? name.toElement = some name := by
  cases name with
  | full names =>
      have hnames := GeneralNames.ofElement?_toElement h hfits
      have hread := Element.implicit?_implicit (n := 0) names.tag_toElement
      simp [ofElement?, toElement, hread, hnames]
  | relative rdn =>
      have hrdn := Rdn.ofElement?_toElement h hfits
      have hread := Element.implicit?_implicit (n := 1) rdn.tag_toElement
      have hother : (Element.implicit 1 rdn.toElement).implicit? 0 .sequence = none :=
        if_neg (by simp)
      simp [ofElement?, toElement, hread, hother, hrdn]

theorem readable_of_ofElement? {e : Element} {name : PointName} (h : ofElement? e = some name) :
    name.Readable := by
  rw [ofElement?] at h
  split at h
  · obtain ⟨names, hnames, h⟩ := Option.bind_eq_some_iff.mp h
    obtain rfl := Option.some.inj h
    exact GeneralNames.readable_of_ofElement? hnames
  · obtain ⟨field, -, h⟩ := Option.bind_eq_some_iff.mp h
    obtain ⟨rdn, hrdn, h⟩ := Option.bind_eq_some_iff.mp h
    obtain rfl := Option.some.inj h
    exact Rdn.readable_of_ofElement? hrdn

theorem exists_of_ofElement?_full {names : GeneralNames} {name : PointName}
    (h : ofElement? (full names).toElement = some name) :
    ∃ names', GeneralNames.ofElement? (GeneralNames.toElement names) = some names' := by
  have hread := Element.implicit?_implicit (n := 0) names.tag_toElement
  obtain ⟨names', hnames, -⟩ : ∃ names',
      GeneralNames.ofElement? (GeneralNames.toElement names) = some names' ∧ full names' = name := by
    simpa [ofElement?, toElement, hread, Option.bind_eq_some_iff] using h
  exact ⟨names', hnames⟩

end PointName

namespace DistributionPoint

/-- Whether the names in a point can be read. -/
structure Readable (p : DistributionPoint) : Prop where
  name : ∀ name ∈ p.name, name.Readable
  crlIssuer : ∀ names ∈ p.crlIssuer, names.Readable

/-- The three fields are written in the order of their tags, and taken off in that order. -/
theorem takeContext_fields (name : Option PointName) (reasons : Option NamedBits)
    (crlIssuer : Option GeneralNames) :
    let names := name.map fun name => Element.explicit 0 name.toElement
    let flags := reasons.map fun reasons => Element.implicit 1 (.namedBits reasons)
    let issuers := crlIssuer.map fun names => Element.implicit 2 (GeneralNames.toElement names)
    Element.takeContext 0 (names.toList ++ flags.toList ++ issuers.toList) =
        (names, flags.toList ++ issuers.toList) ∧
      Element.takeContext 1 (flags.toList ++ issuers.toList) = (flags, issuers.toList) ∧
        Element.takeContext 2 issuers.toList = (issuers, []) :=
  Element.takeContext_three (by decide) (by decide) (by simp) (by simp) (by simp)
    name reasons crlIssuer

theorem fits_name {p : DistributionPoint} (hfits : p.toElement.Fits) :
    ∀ name ∈ p.name, (Element.explicit 0 name.toElement).Fits := by
  intro name hname
  exact hfits.of_mem (e := .explicit 0 name.toElement) (by simpa using Or.inl ⟨name, hname, rfl⟩)

theorem fits_crlIssuer {p : DistributionPoint} (hfits : p.toElement.Fits) :
    ∀ names ∈ p.crlIssuer, (GeneralNames.toElement names).Fits := by
  intro names hnames
  exact hfits.of_mem (e := .implicit 2 (GeneralNames.toElement names))
    (by simpa using Or.inr (Or.inr ⟨names, hnames, rfl⟩))

/-- The fields of a written point are taken off one by one. -/
theorem ofElement?_toElement_eq {p : DistributionPoint} (hfits : p.toElement.Fits) :
    ofElement? p.toElement = (do
      let name ← p.name.mapM fun name => PointName.ofElement? name.toElement
      let crlIssuer ← p.crlIssuer.mapM fun names =>
        GeneralNames.ofElement? (GeneralNames.toElement names)
      return ⟨name, p.reasons, crlIssuer⟩) := by
  obtain ⟨name, reasons, crlIssuer⟩ := p
  obtain ⟨htake0, htake1, htake2⟩ := takeContext_fields name reasons crlIssuer
  have hname := Element.mapM_explicit (fits_name hfits) PointName.ofElement?
  have hreasons := Element.mapM_implicit (n := 1) Element.tag_namedBits Element.namedBits? reasons
  have hissuer := Element.mapM_implicit (n := 2) GeneralNames.tag_toElement
    GeneralNames.ofElement? crlIssuer
  rw [option_mapM_self fun set _ => Element.namedBits?_namedBits set] at hreasons
  rw [ofElement?, toElement, Element.sequence?_sequence hfits]
  simp only [Option.bind_eq_bind] at hname hreasons hissuer ⊢
  simp only [Option.bind_some, htake0, htake1, htake2, hname, hreasons, hissuer]
  rfl

theorem ofElement?_toElement {p : DistributionPoint} (h : p.Readable)
    (hfits : p.toElement.Fits) : ofElement? p.toElement = some p := by
  have hname := option_mapM_self fun name hname =>
    PointName.ofElement?_toElement (h.name name hname) (fits_name hfits name hname).of_explicit
  have hissuer := option_mapM_self fun names hnames =>
    GeneralNames.ofElement?_toElement (h.crlIssuer names hnames)
      (fits_crlIssuer hfits names hnames)
  rw [ofElement?_toElement_eq hfits, hname, hissuer]
  rfl

/-- A written point is read only if its names are. -/
theorem exists_of_ofElement?_toElement {p p' : DistributionPoint} (hfits : p.toElement.Fits)
    (h : ofElement? p.toElement = some p') :
    (∀ name ∈ p.name, ∃ name', PointName.ofElement? name.toElement = some name') ∧
      ∀ names ∈ p.crlIssuer, ∃ names',
        GeneralNames.ofElement? (GeneralNames.toElement names) = some names' := by
  rw [ofElement?_toElement_eq hfits] at h
  obtain ⟨name, hname, h⟩ := Option.bind_eq_some_iff.mp h
  obtain ⟨crlIssuer, hissuer, -⟩ := Option.bind_eq_some_iff.mp h
  exact ⟨fun _ => exists_of_mem_option_mapM hname, fun _ => exists_of_mem_option_mapM hissuer⟩

theorem readable_of_ofElement? {e : Element} {p : DistributionPoint} (h : ofElement? e = some p) :
    p.Readable := by
  obtain ⟨fields, -, h⟩ := Option.bind_eq_some_iff.mp h
  dsimp only at h
  split at h
  · obtain ⟨name, hname, h⟩ := Option.bind_eq_some_iff.mp h
    obtain ⟨reasons, -, h⟩ := Option.bind_eq_some_iff.mp h
    obtain ⟨crlIssuer, hissuer, h⟩ := Option.bind_eq_some_iff.mp h
    obtain rfl := Option.some.inj h
    refine ⟨fun n hn => ?_, fun names hnames => ?_⟩
    · obtain ⟨field, hfield⟩ := exists_of_option_mapM hname hn
      obtain ⟨inner, -, hinner⟩ := Option.bind_eq_some_iff.mp hfield
      exact PointName.readable_of_ofElement? hinner
    · obtain ⟨field, hfield⟩ := exists_of_option_mapM hissuer hnames
      obtain ⟨inner, -, hinner⟩ := Option.bind_eq_some_iff.mp hfield
      exact GeneralNames.readable_of_ofElement? hinner
  · cases h

end DistributionPoint

end Pkix.Wire
