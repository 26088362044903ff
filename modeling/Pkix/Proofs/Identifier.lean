import Pkix.Proofs.Registry.Resolve
import Pkix.Proofs.RoundTrip
import Pkix.Proofs.Wire.Name

/-!
# Identifiers come back

Only defined identifiers are written. One whose octets can be read is read as what the registry
resolves them to. A defined identifier is *canonical* for a registry when it comes back in this way.
-/

namespace Pkix.Identifier

/-- Whether an identifier, if it is defined, holds what reading its octets gives. -/
def Canonical (reg : Registry) (x : Identifier) : Prop :=
  ∀ oid ∈ x.oid?, reg.resolve oid = x ∧ Oid.isReadable oid.octets = true

instance (reg : Registry) : DecidablePred (Canonical reg) := fun x =>
  inferInstanceAs (Decidable (∀ oid ∈ x.oid?, _ ∧ _))

/-- Whether the octets of an identifier, if it is defined, can be read. -/
def Readable (x : Identifier) : Prop := ∀ oid ∈ x.oid?, Oid.isReadable oid.octets = true

instance : DecidablePred Readable := fun x =>
  inferInstanceAs (Decidable (∀ oid ∈ x.oid?, Oid.isReadable oid.octets = true))

/-- What an identifier is read as. -/
def asRead (reg : Registry) (x : Identifier) : Identifier := (x.oid?.map reg.resolve).getD x

variable {reg : Registry} {x : Identifier} {oid : Oid}

theorem toOid_eq_ok_iff : x.toOid = .ok oid ↔ x.oid? = some oid :=
  Error.ifNone_eq_ok_iff

theorem exists_toOid_eq_ok_iff : (∃ oid, x.toOid = .ok oid) ↔ x.isDefined = true := by
  simp only [toOid_eq_ok_iff, isDefined, Option.isSome_iff_exists]

theorem resolve_of_toOid (h : x.toOid = .ok oid) : reg.resolve oid = x.asRead reg := by
  rw [asRead, toOid_eq_ok_iff.mp h]
  rfl

theorem readable_of_toOid (hoid : x.toOid = .ok oid) (h : Oid.isReadable oid.octets = true) :
    x.Readable := by
  intro oid' hoid'
  rw [toOid_eq_ok_iff.mp hoid] at hoid'
  obtain rfl := Option.some.inj hoid'
  exact h

theorem roundTrip (reg : Registry) :
    RoundTrip toOid Oid.toElement Oid.ofElement? (fun oid => .ok (reg.resolve oid)) Readable
      (asRead reg) := by
  constructor
  · intro x oid hoid _ hreadable
    exact Oid.ofElement?_toElement (hreadable oid (toOid_eq_ok_iff.mp hoid))
  · intro x oid oid' hoid _ hread
    exact readable_of_toOid hoid (Oid.isReadable_of_ofElement?_toElement hread)
  · intro x oid hoid _
    rw [resolve_of_toOid hoid]

theorem Canonical.readable (h : x.Canonical reg) : x.Readable :=
  fun oid hoid => (h oid hoid).2

theorem Canonical.asRead_eq (h : x.Canonical reg) : x.asRead reg = x := by
  cases x with
  | undefined => rfl
  | defined oid label => exact (h oid rfl).1

/-- An identifier that was read is canonical. -/
theorem canonical_resolve (hreg : reg.KeepsOids) (h : Oid.isReadable oid.octets = true) :
    (reg.resolve oid).Canonical reg := by
  intro oid' hoid'
  rw [hreg oid] at hoid'
  obtain rfl := Option.some.inj hoid'
  exact ⟨rfl, h⟩

end Pkix.Identifier
