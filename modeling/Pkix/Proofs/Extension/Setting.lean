import Pkix.Proofs.Extension.RoundTrip

/-!
# Serial numbers of issuers keep their number

The serial number in an authority key identifier is unsigned. It is written as an integer that has a
sign, and what is read is that integer without leading zeros: the octets that were written, less the
zeros before them. Setting a serial number drops these zeros at once, so that a value that was set
part by part comes back as it is; a value that was built with such zeros loses them.
-/

namespace Pkix

open Der

namespace AuthorityKeyIdentifier

/-! ## Setting the parts one by one -/

/-- One part of an authority key identifier, to be set. -/
inductive Setting where
  | keyIdentifier (octets : Octets)
  | issuer (names : GeneralNames)
  | serial (octets : Octets)

def set (a : AuthorityKeyIdentifier) : Setting → AuthorityKeyIdentifier
  | .keyIdentifier octets => { a with keyIdentifier := some octets }
  | .issuer names => { a with issuer := names }
  | .serial octets => a.setSerial octets

/-- Whether the serial number has no leading zeros. -/
def Stripped (a : AuthorityKeyIdentifier) : Prop :=
  a.serial.map Octets.stripZeros = a.serial

variable {a : AuthorityKeyIdentifier}

theorem Stripped.set (h : a.Stripped) (s : Setting) : (a.set s).Stripped := by
  cases s with
  | keyIdentifier octets | issuer names => exact h
  | serial octets => exact congrArg some (Octets.stripZeros_stripZeros octets)

theorem Stripped.foldl_set (h : a.Stripped) (settings : List Setting) :
    (settings.foldl AuthorityKeyIdentifier.set a).Stripped := by
  induction settings generalizing a with
  | nil => exact h
  | cons s settings ih => exact ih (h.set s)

/-- Setting parts makes the values whose serial numbers have no leading zeros. -/
theorem exists_foldl_set_eq_iff :
    (∃ settings : List Setting, settings.foldl set empty = a) ↔ a.Stripped := by
  constructor
  · rintro ⟨settings, rfl⟩
    have hempty : empty.Stripped := rfl
    exact hempty.foldl_set settings
  · intro h
    obtain ⟨keyIdentifier, issuer, serial⟩ := a
    refine ⟨(keyIdentifier.map Setting.keyIdentifier).toList ++ .issuer issuer ::
      (serial.map Setting.serial).toList, ?_⟩
    -- Setting the serial number strips it, which changes nothing here.
    have hserial : serial.map Octets.stripZeros = serial := h
    rw [mk.injEq, ← hserial]
    cases keyIdentifier <;> cases serial <;> simp_all [set, setSerial, empty]

/-- If the issuer's names are read as they are, only the serial number can change. -/
theorem asRead_eq_of_canonical {reg : Registry} (h : ∀ n ∈ a.issuer, n.Canonical reg) :
    a.asRead reg = { a with serial := a.serial.map Octets.stripZeros } := by
  rw [asRead, GeneralNames.map_asRead_eq h]

/-- What is read for a value: the same key identifier and issuer, and a serial number exactly if
there was one, with the octets that are left of it without leading zeros. -/
structure ReadsAs (a back : AuthorityKeyIdentifier) : Prop where
  keyIdentifier : back.keyIdentifier = a.keyIdentifier
  issuer : back.issuer = a.issuer
  serial : Option.Rel Octets.StripsTo a.serial back.serial
  number : back.serial.map Octets.toNat = a.serial.map Octets.toNat

theorem readsAs_stripZeros (h : a.serial ≠ some []) :
    a.ReadsAs { a with serial := a.serial.map Octets.stripZeros } := by
  obtain ⟨keyIdentifier, issuer, serial⟩ := a
  cases serial with
  | none => exact ⟨rfl, rfl, .none, rfl⟩
  | some octets =>
      have hne : octets ≠ [] := fun hnil => h (congrArg some hnil)
      exact ⟨rfl, rfl, .some (Octets.stripsTo_stripZeros hne),
        congrArg some (Octets.toNat_stripZeros octets)⟩

end AuthorityKeyIdentifier

namespace ExtensionValue

variable {reg : Registry} {key : AuthorityKeyIdentifier} {octets : Octets}

/-- A value that was encoded is read with the same key identifier, the same names and the same
serial number without its leading zeros. It is read as it is exactly if it can be made by setting
its parts. -/
theorem decode_encode_authorityKeyIdentifier (hissuer : ∀ n ∈ key.issuer, n.Canonical reg)
    (hserial : key.serial ≠ some []) (hencode : (authorityKeyIdentifier key).encode = .ok octets) :
    ∃ back, decode reg .authorityKeyIdentifier octets = .ok (authorityKeyIdentifier back) ∧
      key.ReadsAs back ∧
        ((∃ settings : List AuthorityKeyIdentifier.Setting,
            settings.foldl AuthorityKeyIdentifier.set .empty = key) ↔ back = key) := by
  have hreadable : (authorityKeyIdentifier key).Readable :=
    AuthorityKeyIdentifier.Readable.mk (fun n hn => (hissuer n hn).readable) hserial
  have hdecode : decode reg .authorityKeyIdentifier octets =
      .ok (authorityKeyIdentifier (key.asRead reg)) :=
    (decode_encode reg hencode).trans (if_pos hreadable)
  rw [AuthorityKeyIdentifier.asRead_eq_of_canonical hissuer] at hdecode
  refine ⟨_, hdecode, AuthorityKeyIdentifier.readsAs_stripZeros hserial, ?_⟩
  rw [AuthorityKeyIdentifier.exists_foldl_set_eq_iff, AuthorityKeyIdentifier.Stripped]
  obtain ⟨keyIdentifier, issuer, serial⟩ := key
  simp

/-- A value of which the key identifier is empty and the serial number has a high bit behind two
zeros: one of these is written as the sign, and none is read. -/
theorem decode_encode_authorityKeyIdentifier_highBit :
    let names : GeneralNames :=
      [.otherName "2.16.76.1.3.3" "CA", .registeredId (Registry.builtin.resolve Oid.anyPolicy)]
    let key : AuthorityKeyIdentifier := ⟨some [], names, some [0x00, 0x00, 0x80]⟩
    let octets : Octets :=
      [0x30, 0x1d, 0x80, 0x00, 0xa1, 0x15, 0xa0, 0x0d, 0x06, 0x05, 0x60, 0x4c, 0x01, 0x03, 0x03,
       0xa0, 0x04, 0x04, 0x02, 0x43, 0x41, 0x88, 0x04, 0x55, 0x1d, 0x20, 0x00, 0x82, 0x02, 0x00,
       0x80]
    (authorityKeyIdentifier key).encode = .ok octets ∧
      decode Registry.builtin .authorityKeyIdentifier octets =
          .ok (authorityKeyIdentifier ⟨some [], names, some [0x80]⟩) ∧
        ¬ ∃ settings : List AuthorityKeyIdentifier.Setting,
            settings.foldl AuthorityKeyIdentifier.set .empty = key := by
  intro names key octets
  have hcanonical : ∀ n ∈ key.issuer, n.Canonical Registry.builtin := by decide +kernel
  have hencode : (authorityKeyIdentifier key).encode = .ok octets := by decide +kernel
  obtain ⟨⟨keyIdentifier, issuer, serial⟩, hdecode, hback, hset⟩ :=
    decode_encode_authorityKeyIdentifier hcanonical (by decide) hencode
  obtain rfl : keyIdentifier = some [] := hback.keyIdentifier
  obtain rfl : issuer = names := hback.issuer
  obtain rfl : serial = some [0x80] := by
    have hstrips : Option.Rel Octets.StripsTo (some [0x00, 0x00, 0x80]) serial := hback.serial
    cases hstrips with
    | some hstrips => exact congrArg some hstrips.eq_stripZeros.symm
  refine ⟨hencode, hdecode, fun hmade => ?_⟩
  exact absurd (congrArg AuthorityKeyIdentifier.serial (hset.mp hmade)) (by decide)

end ExtensionValue

end Pkix
