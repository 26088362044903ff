import Pkix.Extension.BasicConstraints
import Pkix.Extension.Value
import Pkix.Proofs.Der.Integer
import Pkix.Proofs.RoundTrip

/-!
# Flags and numbers come back

Basic constraints are written if their path length fits an octet. Every list number is written, in at
most eight octets, which is as many as can be read.
-/

namespace Pkix

open Der

@[simp] theorem Der.Element.tag_boolean (b : Bool) : (boolean b).tag = .universal .boolean := rfl

@[simp] theorem Der.Element.tag_integer (z : Int) : (integer z).tag = .universal .integer := rfl

theorem Der.Element.boolean?_boolean (b : Bool) : (boolean b).boolean? = some b := by
  cases b <;> rfl

namespace BasicConstraints

theorem pathLengthOfElement?_integer {n : UInt32} (h : n < 256) :
    pathLengthOfElement? (.integer n.toNat) = some n := by
  have hlt : n.toNat < 256 := UInt32.lt_iff_toNat_lt.mp h
  rw [pathLengthOfElement?, Element.natural?_integer]
  simp [hlt]

theorem ofElement?_of_toElement {c : BasicConstraints} {e : Element} (h : c.toElement = .ok e)
    (hfits : e.Fits) : ofElement? e = some c := by
  obtain ⟨ca, pathLength⟩ := c
  obtain ⟨field, hfield, h⟩ := bind_eq_ok_iff.mp h
  obtain rfl := pure_eq_ok_iff.mp h
  rw [ofElement?, Element.sequence?_sequence hfits]
  rcases option_mapM_eq_ok_iff.mp hfield with ⟨rfl, rfl⟩ | ⟨n, e, rfl, he, rfl⟩
  · cases ca <;> simp [Element.takeTagged, Element.boolean?_boolean]
  · split at he
    · rename_i hn
      obtain rfl := Except.ok.inj he
      have hread := pathLengthOfElement?_integer hn
      cases ca <;> simp [Element.takeTagged, Element.boolean?_boolean, hread]
    · cases he

end BasicConstraints

namespace CrlNumber

theorem ofNat_toNat (n : UInt64) : ofNat n.toNat = .ok n := by
  have hlength : (Octets.ofNat n.toNat).length ≤ 8 := Octets.length_ofNat_le n.toNat_lt
  simp [ofNat, hlength]

/-- A natural number that is read as a list number is that number. -/
theorem toNat_of_ofNat {n : Nat} {m : UInt64} (h : ofNat n = .ok m) : m.toNat = n := by
  rw [ofNat] at h
  split at h
  · rename_i hlength
    obtain rfl := Except.ok.inj h
    have hlt := Octets.lt_pow_length_ofNat n
    have hle : 256 ^ (Octets.ofNat n).length ≤ 256 ^ 8 := Nat.pow_le_pow_right (by decide) hlength
    rw [UInt64.toNat_ofNat']
    omega
  · cases h

/-- Every list number can be read once it is written. -/
theorem roundTrip :
    RoundTrip (fun n : UInt64 => .ok n.toNat) (fun n => .integer n) Element.natural? ofNat
      (fun _ => True) id := by
  constructor
  · rintro n w hw - -
    exact Element.natural?_integer w
  · intros
    trivial
  · rintro n w hw -
    obtain rfl := Except.ok.inj hw
    exact ofNat_toNat n

end CrlNumber

end Pkix
