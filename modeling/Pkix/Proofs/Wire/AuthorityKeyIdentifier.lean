import Pkix.Proofs.Wire.GeneralName
import Pkix.Proofs.Wire.SerialNumber
import Pkix.Wire.AuthorityKeyIdentifier

/-!
# Authority key identifiers on the wire come back

The three parts are told apart by their tags, so that they are read as they were written when the
names and the serial number can be read, whichever of them are absent.
-/

namespace Pkix.Wire.AuthorityKeyIdentifier

open Der

/-- Whether the names and the serial number can be read. -/
structure Readable (a : AuthorityKeyIdentifier) : Prop where
  issuer : ∀ names ∈ a.issuer, names.Readable
  serial : ∀ serial ∈ a.serial, serial.Readable

theorem takeContext_fields (keyIdentifier : Option Octets) (issuer : Option GeneralNames)
    (serial : Option SerialNumber) :
    let key := keyIdentifier.map fun octets => Element.implicit 0 (.octetString octets)
    let names := issuer.map fun names => Element.implicit 1 (GeneralNames.toElement names)
    let number := serial.map fun s => Element.implicit 2 (SerialNumber.toElement s)
    Element.takeContext 0 (key.toList ++ names.toList ++ number.toList) =
        (key, names.toList ++ number.toList) ∧
      Element.takeContext 1 (names.toList ++ number.toList) = (names, number.toList) ∧
        Element.takeContext 2 number.toList = (number, []) :=
  Element.takeContext_three (by decide) (by decide) (by simp) (by simp) (by simp)
    keyIdentifier issuer serial

theorem fits_issuer {a : AuthorityKeyIdentifier} (hfits : a.toElement.Fits) :
    ∀ names ∈ a.issuer, (GeneralNames.toElement names).Fits := by
  intro names hnames
  exact hfits.of_mem (e := .implicit 1 (GeneralNames.toElement names))
    (by simpa using Or.inr (Or.inl ⟨names, hnames, rfl⟩))

/-- The fields of a written identifier are taken off one by one. -/
theorem ofElement?_toElement_eq {a : AuthorityKeyIdentifier} (hfits : a.toElement.Fits) :
    ofElement? a.toElement = (do
      let issuer ← a.issuer.mapM fun names =>
        GeneralNames.ofElement? (GeneralNames.toElement names)
      let serial ← a.serial.mapM fun s => SerialNumber.ofElement? (SerialNumber.toElement s)
      return ⟨a.keyIdentifier, issuer, serial⟩) := by
  obtain ⟨keyIdentifier, issuer, serial⟩ := a
  obtain ⟨htake0, htake1, htake2⟩ := takeContext_fields keyIdentifier issuer serial
  have hkey := Element.mapM_implicit (n := 0) Element.tag_octetString Element.octetString?
    keyIdentifier
  have hissuer := Element.mapM_implicit (n := 1) GeneralNames.tag_toElement
    GeneralNames.ofElement? issuer
  have hserial := Element.mapM_implicit (n := 2) SerialNumber.tag_toElement
    SerialNumber.ofElement? serial
  rw [option_mapM_self fun octets _ => Element.octetString?_octetString octets] at hkey
  rw [ofElement?, toElement, Element.sequence?_sequence hfits]
  simp only [Option.bind_eq_bind] at hkey hissuer hserial ⊢
  simp only [Option.bind_some, htake0, htake1, htake2, hkey, hissuer, hserial]
  rfl

theorem ofElement?_toElement {a : AuthorityKeyIdentifier} (h : a.Readable)
    (hfits : a.toElement.Fits) : ofElement? a.toElement = some a := by
  have hissuer := option_mapM_self fun names hnames =>
    GeneralNames.ofElement?_toElement (h.issuer names hnames) (fits_issuer hfits names hnames)
  have hserial := option_mapM_self fun s hs => SerialNumber.ofElement?_toElement (h.serial s hs)
  rw [ofElement?_toElement_eq hfits, hissuer, hserial]
  rfl

/-- A written identifier is read only if its names and its serial number are. -/
theorem exists_of_ofElement?_toElement {a a' : AuthorityKeyIdentifier} (hfits : a.toElement.Fits)
    (h : ofElement? a.toElement = some a') :
    (∀ names ∈ a.issuer, ∃ names',
        GeneralNames.ofElement? (GeneralNames.toElement names) = some names') ∧
      ∀ s ∈ a.serial, ∃ s', SerialNumber.ofElement? (SerialNumber.toElement s) = some s' := by
  rw [ofElement?_toElement_eq hfits] at h
  obtain ⟨issuer, hissuer, h⟩ := Option.bind_eq_some_iff.mp h
  obtain ⟨serial, hserial, -⟩ := Option.bind_eq_some_iff.mp h
  exact ⟨fun _ => exists_of_mem_option_mapM hissuer, fun _ => exists_of_mem_option_mapM hserial⟩

theorem readable_of_ofElement? {e : Element} {a : AuthorityKeyIdentifier}
    (h : ofElement? e = some a) : a.Readable := by
  obtain ⟨fields, -, h⟩ := Option.bind_eq_some_iff.mp h
  dsimp only at h
  split at h
  · obtain ⟨keyIdentifier, -, h⟩ := Option.bind_eq_some_iff.mp h
    obtain ⟨issuer, hissuer, h⟩ := Option.bind_eq_some_iff.mp h
    obtain ⟨serial, hserial, h⟩ := Option.bind_eq_some_iff.mp h
    obtain rfl := Option.some.inj h
    refine ⟨fun names hnames => ?_, fun s hs => ?_⟩
    · obtain ⟨field, hfield⟩ := exists_of_option_mapM hissuer hnames
      obtain ⟨inner, -, hinner⟩ := Option.bind_eq_some_iff.mp hfield
      exact GeneralNames.readable_of_ofElement? hinner
    · obtain ⟨field, hfield⟩ := exists_of_option_mapM hserial hs
      obtain ⟨inner, -, hinner⟩ := Option.bind_eq_some_iff.mp hfield
      exact (SerialNumber.eq_content_and_readable_of_ofElement? hinner).2
  · cases h

end Pkix.Wire.AuthorityKeyIdentifier
