import Pkix.Name.GeneralName
import Pkix.Proofs.IpAddress.Text

/-!
# Addresses in names

Four octets or sixteen have a text, and that text makes any name hold the address with these octets,
which is written as them and shown as the text. No other octets have the same text.
-/

namespace Pkix

theorem IpAddress.parse_text (address : IpAddress) : parse address.text = .ok address := by
  rw [parse, parse?_text]
  rfl

theorem IpAddress.textOfOctets_eq_ok_iff {octets : Octets} {text : String} :
    textOfOctets octets = .ok text ↔ ∃ address, ofOctets octets = .ok address ∧
      address.text = text :=
  map_eq_ok_iff

theorem IpAddress.ofOctets_eq_error {octets : Octets} (hfour : octets.length ≠ 4)
    (hsixteen : octets.length ≠ 16) :
    ofOctets octets = .error (.invalidIpLength octets.length) := by
  rw [ofOctets, ofOctets?_eq_none hfour hsixteen]
  rfl

/-- The text of an address belongs to its octets alone. -/
theorem IpAddress.eq_of_textOfOctets_eq {octets octets' : Octets} {text : String}
    (h : textOfOctets octets = .ok text) (h' : textOfOctets octets' = .ok text) :
    octets = octets' := by
  obtain ⟨address, haddress, rfl⟩ := textOfOctets_eq_ok_iff.mp h
  obtain ⟨address', haddress', htext⟩ := textOfOctets_eq_ok_iff.mp h'
  obtain rfl := text_injective htext
  rw [← octets_of_ofOctets? (Error.ifNone_eq_ok_iff.mp haddress),
    ← octets_of_ofOctets? (Error.ifNone_eq_ok_iff.mp haddress')]

namespace GeneralName

/-- Octets that are an address are shown as a text that no other octets have. Any name takes the
address from that text, shows the text, is written as the octets and comes back from them. Other
octets have no text and are no name. -/
theorem setIpAddress_textOfOctets (octets : Octets) :
    (octets.length = 4 ∨ octets.length = 16 →
      ∃ text name, IpAddress.textOfOctets octets = .ok text ∧
        (∀ old : GeneralName, old.setIpAddress text = .ok name) ∧
        name.ipAddressText? = some text ∧ name.toWire = .ok (.ipAddress octets) ∧
        (∀ reg, ofWire reg (.ipAddress octets) = .ok name) ∧
        ∀ octets', IpAddress.textOfOctets octets' = .ok text → octets' = octets) ∧
    (octets.length ≠ 4 → octets.length ≠ 16 →
      IpAddress.textOfOctets octets = .error (.invalidIpLength octets.length) ∧
        ∀ reg, ofWire reg (.ipAddress octets) = .error (.invalidIpLength octets.length)) := by
  constructor
  · intro hlength
    obtain ⟨address, haddress, hoctets⟩ := IpAddress.exists_of_length hlength
    have htext : IpAddress.textOfOctets octets = .ok address.text :=
      IpAddress.textOfOctets_eq_ok_iff.mpr ⟨address, haddress, rfl⟩
    refine ⟨address.text, ipAddress address, htext, fun old => ?_, rfl, ?_, fun reg => ?_,
      fun octets' h => IpAddress.eq_of_textOfOctets_eq h htext⟩
    · rw [setIpAddress, IpAddress.parse_text]
      rfl
    · rw [toWire, hoctets]
    · rw [ofWire, haddress]
      rfl
  · intro hfour hsixteen
    have hrefused := IpAddress.ofOctets_eq_error hfour hsixteen
    refine ⟨?_, fun reg => ?_⟩
    · rw [IpAddress.textOfOctets, hrefused]
      rfl
    · rw [ofWire, hrefused]
      rfl

/-- The octets of a mapped address, whose text ends in numbers of version 4, and five octets. -/
theorem setIpAddress_textOfOctets_mapped :
    let octets : Octets := List.replicate 10 0 ++ [0xff, 0xff, 192, 0, 2, 1]
    let text := "::ffff:192.0.2.1"
    IpAddress.textOfOctets octets = .ok text ∧
      (∃ name, (dnsName "a").setIpAddress text = .ok name ∧ name.ipAddressText? = some text ∧
        name.toWire = .ok (.ipAddress octets)) ∧
      IpAddress.textOfOctets [192, 0, 2, 1, 0] = .error (.invalidIpLength 5) := by
  intro octets text
  obtain ⟨text', name, htext, hset, hshown, hwritten, -, -⟩ :=
    (setIpAddress_textOfOctets octets).1 (Or.inr rfl)
  obtain rfl : text' = text := by
    have hcomputed : IpAddress.textOfOctets octets = .ok text := by decide +kernel
    exact Except.ok.inj (htext.symm.trans hcomputed)
  have hrefused := (setIpAddress_textOfOctets [192, 0, 2, 1, 0]).2 (by decide) (by decide)
  exact ⟨htext, ⟨name, hset _, hshown, hwritten⟩, hrefused.1⟩

end GeneralName

end Pkix
