import Pkix.AccessDescription
import Pkix.Proofs.Name.General

/-!
# Access descriptions come back

A description is written if its method is defined and its location can be written. It can be read
exactly if both can, and comes back if both are canonical.
-/

namespace Pkix.AccessDescription

open Der

/-- Whether the octets of the identifiers in a description can be read. -/
structure Readable (d : AccessDescription) : Prop where
  method : d.method.Readable
  location : d.location.Readable

instance : DecidablePred Readable := fun d =>
  decidable_of_iff (d.method.Readable ∧ d.location.Readable)
    ⟨fun h => ⟨h.1, h.2⟩, fun h => ⟨h.method, h.location⟩⟩

def asRead (reg : Registry) (d : AccessDescription) : AccessDescription :=
  ⟨d.method.asRead reg, d.location.asRead reg⟩

variable {reg : Registry} {d : AccessDescription} {w : Wire.AccessDescription}

theorem toWire_eq_ok_iff :
    d.toWire = .ok w ↔
      ∃ oid location, d.method.toOid = .ok oid ∧ d.location.toWire = .ok location ∧
        w = ⟨oid, location⟩ := by
  simp only [toWire, bind_eq_ok_iff, pure_eq_ok_iff, eq_comm (b := w), exists_and_left]

theorem roundTrip (reg : Registry) :
    RoundTrip toWire Wire.AccessDescription.toElement Wire.AccessDescription.ofElement?
      (ofWire reg) Readable (asRead reg) := by
  constructor
  · intro d w hw hfits hreadable
    obtain ⟨oid, location, hoid, hlocation, rfl⟩ := toWire_eq_ok_iff.mp hw
    apply Wire.AccessDescription.ofElement?_toElement _ hfits
    exact ⟨hreadable.method oid (Identifier.toOid_eq_ok_iff.mp hoid),
      hreadable.location.of_toWire hlocation⟩
  · intro d w w' hw hfits hread
    obtain ⟨oid, location, hoid, hlocation, rfl⟩ := toWire_eq_ok_iff.mp hw
    obtain ⟨hmethod, location', hlocation'⟩ :=
      Wire.AccessDescription.exists_of_ofElement?_toElement hfits hread
    have hinner : location.toElement.Fits := hfits.of_mem (by simp)
    exact ⟨Identifier.readable_of_toOid hoid hmethod,
      GeneralName.readable_of_ofElement? hlocation hinner hlocation'⟩
  · intro d w hw _
    obtain ⟨oid, location, hoid, hlocation, rfl⟩ := toWire_eq_ok_iff.mp hw
    rw [ofWire, Identifier.resolve_of_toOid hoid, GeneralName.ofWire_of_toWire hlocation]
    rfl

structure Canonical (reg : Registry) (d : AccessDescription) : Prop where
  method : d.method.Canonical reg
  location : d.location.Canonical reg

theorem Canonical.readable (h : d.Canonical reg) : d.Readable :=
  ⟨h.method.readable, h.location.readable⟩

theorem Canonical.asRead_eq (h : d.Canonical reg) : d.asRead reg = d := by
  rw [asRead, h.method.asRead_eq, h.location.asRead_eq]

theorem canonical_of_ofWire (hreg : reg.KeepsOids) (hw : w.Readable) (h : ofWire reg w = .ok d)
    (hstable : d.location.Stable) : d.Canonical reg := by
  obtain ⟨location, hlocation, h⟩ := bind_eq_ok_iff.mp h
  obtain rfl := pure_eq_ok_iff.mp h
  exact ⟨Identifier.canonical_resolve hreg hw.method,
    GeneralName.canonical_of_ofWire hreg hw.location hlocation hstable⟩

end Pkix.AccessDescription
