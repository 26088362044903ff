import Pkix.Proofs.Der.Exact
import Pkix.Proofs.Extension.Value
import Pkix.Proofs.Extension.Scalar

/-!
# Extension values with one encoding each

List numbers, key identifiers and lists of purposes are decoded only from the octets that they are
encoded to. For the purposes this rests on the registry, which keeps the octets of what it resolves.
-/

namespace Pkix

open Der

theorem Registry.KeepsOids.mapM_toOid {reg : Registry} (hreg : reg.KeepsOids) (oids : List Oid) :
    (oids.map reg.resolve).mapM Identifier.toOid = .ok oids := by
  apply mapM_map_eq_pure
  intro oid _
  exact Identifier.toOid_eq_ok_iff.mpr (hreg oid)

theorem CrlNumber.write_of_read {octets : Octets} {n : Nat} {number : UInt64}
    (hread : Message.read Element.natural? octets = .ok n) (hnumber : ofNat n = .ok number) :
    Message.write (toElement number) = .ok octets := by
  rw [toElement, toNat_of_ofNat hnumber]
  exact Message.write_of_read Element.integer_of_natural? hread

namespace ExtensionValue

/-- List numbers, delta indicators, key identifiers and purposes are encoded to the octets that they
were decoded from, so that no other octets are decoded as the same value. -/
theorem encode_of_decode (calls : List Registry.Call) {kind : ExtensionKind}
    (hkind : kind ∈ [.crlNumber, .deltaCrlIndicator, .subjectKeyIdentifier, .extendedKeyUsage])
    {octets : Octets} {value : ExtensionValue}
    (h : decode (Registry.builtin.run calls) kind octets = .ok value) :
    value.encode = .ok octets ∧
      ∀ octets', decode (Registry.builtin.run calls) kind octets' = .ok value →
        octets' = octets := by
  have hencode : ∀ octets, decode (Registry.builtin.run calls) kind octets = .ok value →
      value.encode = .ok octets := by
    intro octets h
    simp only [List.mem_cons, List.not_mem_nil, or_false] at hkind
    rcases hkind with rfl | rfl | rfl | rfl
    · obtain ⟨n, hread, h⟩ := bind_eq_ok_iff.mp h
      obtain ⟨number, hnumber, h⟩ := bind_eq_ok_iff.mp h
      obtain rfl := pure_eq_ok_iff.mp h
      exact CrlNumber.write_of_read hread hnumber
    · obtain ⟨n, hread, h⟩ := bind_eq_ok_iff.mp h
      obtain ⟨number, hnumber, h⟩ := bind_eq_ok_iff.mp h
      obtain rfl := pure_eq_ok_iff.mp h
      exact CrlNumber.write_of_read hread hnumber
    · obtain ⟨key, hread, h⟩ := bind_eq_ok_iff.mp h
      obtain rfl := pure_eq_ok_iff.mp h
      exact Message.write_of_read Element.octetString_of_octetString? hread
    · obtain ⟨oids, hread, h⟩ := bind_eq_ok_iff.mp h
      obtain rfl := pure_eq_ok_iff.mp h
      have hoids := (Registry.keepsOids_run_builtin calls).mapM_toOid oids
      have hwrite := Message.write_of_read Oid.toElement_of_ofElement?.sequenceOf hread
      rw [encode, toElement, hoids]
      exact hwrite
  refine ⟨hencode octets h, ?_⟩
  intro octets' h'
  exact Except.ok.inj ((hencode octets' h').symm.trans (hencode octets h))

/-- A purpose that is registered, and one that is not and whose arc has leading zero digits. -/
def mixedPurposes : ExtensionValue :=
  extendedKeyUsage
    [.defined ⟨[0x2a, 0x03, 0x04]⟩ (some ⟨10000, "first"⟩),
      .defined ⟨[0x2a, 0x80, 0x80, 0x01]⟩ none]

theorem encode_of_decode_mixedPurposes :
    let octets : Octets :=
      [0x30, 0x0b, 0x06, 0x03, 0x2a, 0x03, 0x04, 0x06, 0x04, 0x2a, 0x80, 0x80, 0x01]
    let reg := Registry.builtin.run Registry.mixedCalls
    (decode reg .extendedKeyUsage octets = .ok mixedPurposes ∧
        mixedPurposes.encode = .ok octets) ∧
      decode reg .crlNumber [0x02, 0x02, 0x00, 0x80] = .ok (crlNumber 128) ∧
        (crlNumber 128).encode = .ok [0x02, 0x02, 0x00, 0x80] := by
  intro octets reg
  have hpurposes : decode reg .extendedKeyUsage octets = .ok mixedPurposes := by decide +kernel
  have hnumber : decode reg .crlNumber [0x02, 0x02, 0x00, 0x80] = .ok (crlNumber 128) := by
    decide +kernel
  exact ⟨⟨hpurposes, (encode_of_decode _ (by decide) hpurposes).1⟩, hnumber,
    (encode_of_decode _ (by decide) hnumber).1⟩

end ExtensionValue

end Pkix
