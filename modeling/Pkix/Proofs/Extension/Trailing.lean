import Pkix.Extension.Value
import Pkix.Proofs.Der.Element

/-!
# No octets after a value

The decoder of every kind reads its octets as one message before it looks into it. A message ends
where the header of its element says, so that octets which hold a value hold none when others follow
them, and no value of a kind begins with another one.
-/

namespace Pkix

open Der

namespace Message

/-- Whether octets are one element and nothing else, within the limit. -/
def IsWhole (octets : Octets) : Prop := ∃ e, write e = .ok octets

variable {α : Type} {ofElement? : Element → Option α} {octets rest : Octets}

theorem isWhole_of_read {a : α} (h : read ofElement? octets = .ok a) : IsWhole octets := by
  obtain ⟨e, hwrite, -⟩ := read_eq_ok_iff.mp h
  exact ⟨e, hwrite⟩

theorem read_of_not_isWhole (h : ¬IsWhole octets) : read ofElement? octets = .error .decoding := by
  cases hread : read ofElement? octets with
  | ok a => exact absurd (isWhole_of_read hread) h
  | error err => rw [eq_decoding_of_read hread]

/-- Two messages of which one begins with the other are the same. -/
theorem IsWhole.eq_nil_of_append (h : IsWhole octets) (happend : IsWhole (octets ++ rest)) :
    rest = [] := by
  obtain ⟨e, he⟩ := h
  obtain ⟨e', he'⟩ := happend
  obtain ⟨hlength, rfl⟩ := write_eq_ok_iff.mp he
  obtain ⟨hlength', hoctets⟩ := write_eq_ok_iff.mp he'
  have hends : e.octets ++ rest = e'.octets ++ [] := by rw [hoctets, List.append_nil]
  have hfits := Element.fits_of_octets hlength
  have hfits' := Element.fits_of_octets hlength'
  exact (Element.octets_append_inj hfits hfits' hends).2

end Message

namespace ExtensionValue

variable {reg : Registry} {kind : ExtensionKind} {octets : Octets}

theorem isWhole_of_decode {value : ExtensionValue} (h : decode reg kind octets = .ok value) :
    Message.IsWhole octets := by
  cases kind
  all_goals
    obtain ⟨w, hread, -⟩ := bind_eq_ok_iff.mp h
    exact Message.isWhole_of_read hread

theorem decode_of_not_isWhole (h : ¬Message.IsWhole octets) :
    decode reg kind octets = .error .decoding := by
  cases kind <;> rw [decode, Message.read_of_not_isWhole h] <;> rfl

/-- Octets that hold a value of a kind, whatever the registry, hold none when others follow them:
the decoder of the kind then reports that they do not follow the rules. So no octets that the
decoder of a kind takes are the beginning of others that it takes. -/
theorem decode_append {value : ExtensionValue} (h : decode reg kind octets = .ok value) :
    (∀ rest, rest ≠ [] → decode reg kind (octets ++ rest) = .error .decoding) ∧
      ∀ octets' value', decode reg kind octets' = .ok value' → octets <+: octets' →
        octets = octets' := by
  have hwhole := isWhole_of_decode h
  refine ⟨fun rest hne => ?_, fun octets' value' h' hprefix => ?_⟩
  · exact decode_of_not_isWhole fun happend => hne (hwhole.eq_nil_of_append happend)
  · obtain ⟨rest, rfl⟩ := hprefix
    rw [hwhole.eq_nil_of_append (isWhole_of_decode h'), List.append_nil]

/-- A key identifier with a name and no serial number, which octets in the form of the missing field
follow. -/
theorem decode_append_serialField :
    let octets : Octets := [0x30, 0x09, 0x80, 0x01, 0x07, 0xa1, 0x04, 0x82, 0x02, 0x61, 0x62]
    let value := authorityKeyIdentifier ⟨some [0x07], [.dnsName "ab"], none⟩
    decode Registry.builtin .authorityKeyIdentifier octets = .ok value ∧
      decode Registry.builtin .authorityKeyIdentifier (octets ++ [0x82, 0x01, 0x05]) =
        .error .decoding := by
  intro octets value
  have h : decode Registry.builtin .authorityKeyIdentifier octets = .ok value := by decide +kernel
  exact ⟨h, (decode_append h).1 [0x82, 0x01, 0x05] (by decide)⟩

end ExtensionValue

end Pkix
