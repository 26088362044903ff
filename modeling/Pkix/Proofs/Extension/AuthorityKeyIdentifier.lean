import Pkix.Extension.AuthorityKeyIdentifier
import Pkix.Proofs.Name.General
import Pkix.Proofs.Wire.AuthorityKeyIdentifier

/-!
# Authority key identifiers come back

A serial number of no octets is written as an integer without content, which cannot be read. All
other serial numbers can be read, and are read without their leading zeros.
-/

namespace Pkix.AuthorityKeyIdentifier

open Der

/-- Whether the identifiers in the names can be read, and the serial number has octets if there is
one. -/
structure Readable (a : AuthorityKeyIdentifier) : Prop where
  issuer : ∀ n ∈ a.issuer, n.Readable
  serial : a.serial ≠ some []

instance : DecidablePred Readable := fun a =>
  decidable_of_iff ((∀ n ∈ a.issuer, n.Readable) ∧ a.serial ≠ some [])
    ⟨fun h => ⟨h.1, h.2⟩, fun h => ⟨h.issuer, h.serial⟩⟩

def asRead (reg : Registry) (a : AuthorityKeyIdentifier) : AuthorityKeyIdentifier :=
  ⟨a.keyIdentifier, a.issuer.map (GeneralName.asRead reg), a.serial.map Octets.stripZeros⟩

variable {reg : Registry} {a : AuthorityKeyIdentifier} {w : Wire.AuthorityKeyIdentifier}

theorem toWire_eq_ok_iff :
    a.toWire = .ok w ↔
      ∃ issuer serial,
        (if a.issuer.isEmpty then pure none else some <$> GeneralNames.toWire a.issuer) =
            .ok issuer ∧
          a.serial.mapM (fun octets =>
              Error.encoding.ifNone (Wire.SerialNumber.ofUnsigned? octets)) = .ok serial ∧
            w = ⟨a.keyIdentifier, issuer, serial⟩ := by
  have hstages : a.toWire =
      (if a.issuer.isEmpty then pure none else some <$> GeneralNames.toWire a.issuer) >>=
        fun issuer =>
          a.serial.mapM (fun octets =>
              Error.encoding.ifNone (Wire.SerialNumber.ofUnsigned? octets)) >>= fun serial =>
            pure ⟨a.keyIdentifier, issuer, serial⟩ := by
    by_cases hempty : a.issuer.isEmpty = true <;> simp [toWire, hempty]
  rw [hstages]
  simp only [bind_eq_ok_iff, pure_eq_ok_iff, eq_comm (b := w), exists_and_left]

theorem Readable.of_toWire (h : a.Readable) (hw : a.toWire = .ok w) : w.Readable := by
  obtain ⟨issuer, serial, hissuer, hserial, rfl⟩ := toWire_eq_ok_iff.mp hw
  refine ⟨GeneralNames.readable_optional hissuer h.issuer, ?_⟩
  rcases option_mapM_eq_ok_iff.mp hserial with ⟨-, rfl⟩ | ⟨octets, s, hoctets, hs, rfl⟩
  · simp
  · have hne : octets ≠ [] := by
      rintro rfl
      exact h.serial hoctets
    have hwritten := Error.ifNone_eq_ok_iff.mp hs
    simpa using (Wire.SerialNumber.readable_and_stripZeros_of_ofUnsigned? hwritten hne).1

theorem readable_of_ofElement? {w' : Wire.AuthorityKeyIdentifier} (hw : a.toWire = .ok w)
    (hfits : w.toElement.Fits)
    (h : Wire.AuthorityKeyIdentifier.ofElement? w.toElement = some w') : a.Readable := by
  obtain ⟨issuer, serial, hissuer, hserial, rfl⟩ := toWire_eq_ok_iff.mp hw
  obtain ⟨hreadIssuer, hreadSerial⟩ :=
    Wire.AuthorityKeyIdentifier.exists_of_ofElement?_toElement hfits h
  have hall := Wire.AuthorityKeyIdentifier.fits_issuer hfits
  refine ⟨GeneralNames.readable_of_optional hissuer hall hreadIssuer, ?_⟩
  -- No octets make an empty content, and that is no integer.
  intro hempty
  rw [hempty] at hserial
  obtain ⟨s, hs⟩ := hreadSerial [] (by rw [← Except.ok.inj hserial]; rfl)
  obtain ⟨rfl, hreadable⟩ := Wire.SerialNumber.eq_content_and_readable_of_ofElement? hs
  exact Wire.SerialNumber.ne_nil_of_readable hreadable rfl

theorem ofWire_of_toWire (hw : a.toWire = .ok w) : ofWire reg w = .ok (a.asRead reg) := by
  obtain ⟨issuer, serial, hissuer, hserial, rfl⟩ := toWire_eq_ok_iff.mp hw
  obtain ⟨issuer', hissuer', hissuerBack⟩ := GeneralNames.ofWire_optional reg hissuer
  have hserialBack : serial.map Octets.stripZeros = a.serial.map Octets.stripZeros := by
    rcases option_mapM_eq_ok_iff.mp hserial with ⟨hnone, rfl⟩ | ⟨octets, s, hoctets, hs, rfl⟩
    · rw [hnone]
    · have hwritten := Error.ifNone_eq_ok_iff.mp hs
      rw [hoctets, Option.map_some, Option.map_some,
        Wire.SerialNumber.stripZeros_of_ofUnsigned? hwritten]
  rw [asRead, ← hissuerBack, ← hserialBack]
  simp only [ofWire, hissuer']
  rfl

theorem roundTrip (reg : Registry) :
    RoundTrip toWire Wire.AuthorityKeyIdentifier.toElement Wire.AuthorityKeyIdentifier.ofElement?
      (ofWire reg) Readable (asRead reg) where
  read hw hfits hreadable :=
    Wire.AuthorityKeyIdentifier.ofElement?_toElement (hreadable.of_toWire hw) hfits
  readable := readable_of_ofElement?
  back hw _ := ofWire_of_toWire hw

structure Canonical (reg : Registry) (a : AuthorityKeyIdentifier) : Prop where
  issuer : ∀ n ∈ a.issuer, n.Canonical reg
  serial : ∀ octets ∈ a.serial, octets ≠ [] ∧ Octets.stripZeros octets = octets

theorem Canonical.readable (h : a.Canonical reg) : a.Readable :=
  ⟨fun n hn => (h.issuer n hn).readable, fun hempty => (h.serial [] hempty).1 rfl⟩

theorem Canonical.asRead_eq (h : a.Canonical reg) : a.asRead reg = a := by
  have hserial : a.serial.map Octets.stripZeros = a.serial := by
    cases hs : a.serial with
    | none => rfl
    | some octets => rw [Option.map_some, (h.serial octets hs).2]
  rw [asRead, GeneralNames.map_asRead_eq h.issuer, hserial]

theorem canonical_of_ofWire (hreg : reg.KeepsOids) (hw : w.Readable) (h : ofWire reg w = .ok a)
    (hstable : ∀ n ∈ a.issuer, n.Stable) : a.Canonical reg := by
  obtain ⟨issuer, hissuer, h⟩ := bind_eq_ok_iff.mp h
  obtain rfl := pure_eq_ok_iff.mp h
  refine ⟨GeneralNames.canonical_optional hreg hw.issuer hissuer hstable, ?_⟩
  intro octets hoctets
  obtain ⟨s, hs, rfl⟩ := Option.map_eq_some_iff.mp hoctets
  have hne := Wire.SerialNumber.ne_nil_of_readable (hw.serial s hs)
  exact ⟨mt Octets.stripZeros_eq_nil_iff.mp hne, Octets.stripZeros_stripZeros s⟩

end Pkix.AuthorityKeyIdentifier
