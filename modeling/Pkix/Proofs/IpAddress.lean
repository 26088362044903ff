import Pkix.IpAddress

/-!
# Addresses come back from their octets
-/

namespace Pkix.IpAddress

theorem groupOf_groupOctets (g : UInt16) :
    groupOf (UInt8.ofNat (g.toNat / 256)) (UInt8.ofNat (g.toNat % 256)) = g := by
  have hlt := g.toNat_lt
  apply UInt16.toNat_inj.mp
  rw [groupOf, UInt16.toNat_ofNat', UInt8.toNat_ofNat', UInt8.toNat_ofNat']
  omega

theorem groupOctets_groupOf (high low : UInt8) : groupOctets (groupOf high low) = [high, low] := by
  have hhigh := high.toNat_lt
  have hlow := low.toNat_lt
  simp only [groupOctets, groupOf, UInt16.toNat_ofNat', List.cons.injEq, and_true,
    UInt8.ofNat_eq_iff_mod_eq_toNat]
  omega

theorem ofOctets?_octets (address : IpAddress) : ofOctets? address.octets = some address := by
  cases address with
  | v4 octets =>
      obtain ⟨⟨octets⟩, hsize⟩ := octets
      match octets, hsize with
      | [a, b, c, d], _ => rfl
  | v6 groups =>
      obtain ⟨⟨groups⟩, hsize⟩ := groups
      match groups, hsize with
      | [a, b, c, d, e, f, g, h], _ =>
        simp [octets, ofOctets?, groupOctets, groupOf_groupOctets]

/-- Octets that are no address have neither of the two lengths that addresses have. -/
theorem length_ne_of_ofOctets?_eq_none {octets : Octets} (h : ofOctets? octets = none) :
    octets.length ≠ 4 ∧ octets.length ≠ 16 := by
  constructor
  all_goals intro hlength
  · match octets, hlength with
    | [_, _, _, _], _ => cases h
  · match octets, hlength with
    | [_, _, _, _, _, _, _, _, _, _, _, _, _, _, _, _], _ => cases h

theorem octets_of_ofOctets? {octets : Octets} {address : IpAddress}
    (h : ofOctets? octets = some address) : address.octets = octets := by
  unfold ofOctets? at h
  split at h
  · obtain rfl := Option.some.inj h
    rfl
  · obtain rfl := Option.some.inj h
    simp [IpAddress.octets, groupOctets_groupOf]
  · cases h

theorem ofOctets?_eq_none {octets : Octets} (hfour : octets.length ≠ 4)
    (hsixteen : octets.length ≠ 16) : ofOctets? octets = none := by
  unfold ofOctets?
  split
  · exact absurd rfl hfour
  · exact absurd rfl hsixteen
  · rfl

/-- Octets are an address if there are four of them or sixteen. -/
theorem exists_of_length {octets : Octets} (h : octets.length = 4 ∨ octets.length = 16) :
    ∃ address, ofOctets octets = .ok address ∧ address.octets = octets := by
  cases haddress : ofOctets? octets with
  | none =>
      obtain ⟨hfour, hsixteen⟩ := length_ne_of_ofOctets?_eq_none haddress
      exact absurd h (by omega)
  | some address =>
      exact ⟨address, by rw [ofOctets, haddress]; rfl, octets_of_ofOctets? haddress⟩

end Pkix.IpAddress
