import Pkix.Proofs.Der.TwosComplement
import Pkix.Proofs.Extension.Scalar
import Pkix.Proofs.Extension.Value

/-!
# Numbers of lists are read exactly or refused

A list number and the base number of a delta list are integers of their own. Whatever integer stands
in such an extension, it is read as the number that it is if that has at most sixty-four bits, and
refused otherwise, the larger ones in another way than the negative ones. Every number of sixty-four
bits is written as the one encoding of the integer that it is.
-/

namespace Pkix

open Der

theorem Der.Element.natural?_integer_negSucc (n : Nat) :
    (integer (Int.negSucc n)).natural? = none := by
  rw [natural?, integer?_integer]
  rfl

namespace CrlNumber

theorem ofNat_of_lt {n : Nat} (h : n < 2 ^ 64) : ofNat n = .ok (UInt64.ofNat n) := by
  have hlength : (Octets.ofNat n).length ≤ 8 := Octets.length_ofNat_le h
  simp [ofNat, hlength]

/-- A number of more than sixty-four bits is refused with the number of its octets. -/
theorem exists_ofNat_of_le {n : Nat} (h : 2 ^ 64 ≤ n) :
    ∃ length, 256 ^ (length - 1) ≤ n ∧ n < 256 ^ length ∧
      ofNat n = .error (.unsupportedCrlNumber length) := by
  have hlt := Octets.lt_pow_length_ofNat n
  have hlength : ¬ (Octets.ofNat n).length ≤ 8 := by
    intro hle
    have hpow : 256 ^ (Octets.ofNat n).length ≤ 256 ^ 8 := Nat.pow_le_pow_right (by decide) hle
    omega
  exact ⟨_, Octets.pow_length_ofNat_le (by omega), hlt, by simp [ofNat, hlength]⟩

/-- Eight octets and one for the sign are far within the limit. -/
theorem write_toElement (n : UInt64) :
    Message.write (toElement n) = .ok (toElement n).octets := by
  have hoctets : (Octets.ofNat n.toNat).length ≤ 8 := Octets.length_ofNat_le n.toNat_lt
  have hcontent : (toElement n).content.length ≤ 9 := by
    change (Integer.natContent n.toNat).length ≤ 9
    unfold Integer.natContent
    split
    · simp
    · rename_i b rest hcons
      rw [hcons, List.length_cons] at hoctets
      split <;> simp only [List.length_cons] <;> omega
  refine Message.write_eq_ok_iff.mpr ⟨?_, rfl⟩
  have hlength : (lengthOctets (toElement n).content.length).length = 1 := by
    rw [lengthOctets, if_pos (by omega)]
    rfl
  rw [Element.octets, List.length_append, List.length_cons, hlength]
  exact Nat.le_trans (Nat.add_le_add_left hcontent _) (by decide)

end CrlNumber

namespace ExtensionValue

/-- The kinds whose values are numbers, with the values that they have. -/
def numberKinds : List (ExtensionKind × (UInt64 → ExtensionValue)) :=
  [(.crlNumber, crlNumber), (.deltaCrlIndicator, deltaCrlIndicator)]

theorem decode_encode_of_mem_numberKinds {kind : ExtensionKind} {mk : UInt64 → ExtensionValue}
    (hkind : (kind, mk) ∈ numberKinds) :
    (∀ reg octets, decode reg kind octets =
        do return mk (← CrlNumber.ofNat (← Message.read Element.natural? octets))) ∧
      ∀ n, (mk n).encode = Message.write (CrlNumber.toElement n) := by
  simp only [numberKinds, List.mem_cons, Prod.mk.injEq, List.not_mem_nil, or_false] at hkind
  rcases hkind with ⟨rfl, rfl⟩ | ⟨rfl, rfl⟩
  · exact ⟨fun _ _ => rfl, fun _ => rfl⟩
  · exact ⟨fun _ _ => rfl, fun _ => rfl⟩

/-- The integer itself decides what is read for its encoding. -/
theorem decode_integer {reg : Registry} {kind : ExtensionKind} {mk : UInt64 → ExtensionValue}
    (hkind : (kind, mk) ∈ numberKinds) {z : Int}
    (hlength : (Element.integer z).octets.length ≤ maxLength) :
    decode reg kind (Element.integer z).octets =
      do return mk (← CrlNumber.ofNat (← Error.decoding.ifNone (Element.integer z).natural?)) := by
  have hwrite : Message.write (.integer z) = .ok (Element.integer z).octets :=
    Message.write_eq_ok_iff.mpr ⟨hlength, rfl⟩
  rw [(decode_encode_of_mem_numberKinds hkind).1, Message.read_eq_of_write hwrite]

/-- The integer that is a message of its own is read as list numbers and base numbers are: as it is
from zero up to sixty-four bits, and not at all otherwise. Each of these numbers is written as the
encoding of that integer. -/
theorem decode_of_isInteger (reg : Registry) {kind : ExtensionKind} {mk : UInt64 → ExtensionValue}
    (hkind : (kind, mk) ∈ numberKinds) :
    (∀ z octets, IsInteger octets z → octets.length ≤ maxLength →
      (0 ≤ z → z < 2 ^ 64 → ∃ n : UInt64, n.toNat = z ∧ decode reg kind octets = .ok (mk n)) ∧
      (2 ^ 64 ≤ z → ∃ length, 256 ^ (length - 1) ≤ z.toNat ∧ z.toNat < 256 ^ length ∧
        decode reg kind octets = .error (.unsupportedCrlNumber length)) ∧
      (z < 0 → decode reg kind octets = .error .decoding)) ∧
    ∀ n : UInt64, ∃ octets, (mk n).encode = .ok octets ∧ IsInteger octets n.toNat := by
  refine ⟨fun z octets hoctets hlength => ?_, fun n => ?_⟩
  · obtain rfl := isInteger_iff.mp hoctets
    rw [decode_integer hkind hlength]
    cases z with
    | ofNat n =>
        have hread : (do
            let n ← Error.decoding.ifNone (Element.integer n).natural?
            return mk (← CrlNumber.ofNat n)) = mk <$> CrlNumber.ofNat n := by
          rw [Element.natural?_integer]
          rfl
        rw [Int.ofNat_eq_natCast, Int.toNat_natCast, hread]
        refine ⟨fun _ hlt => ?_, fun hle => ?_, fun hneg => absurd hneg (by omega)⟩
        · have hnumber := CrlNumber.ofNat_of_lt (by omega : n < 2 ^ 64)
          refine ⟨UInt64.ofNat n, ?_, by rw [hnumber]; rfl⟩
          rw [UInt64.toNat_ofNat']
          omega
        · obtain ⟨length, hlow, hhigh, hrefused⟩ :=
            CrlNumber.exists_ofNat_of_le (by omega : 2 ^ 64 ≤ n)
          exact ⟨length, hlow, hhigh, by rw [hrefused]; rfl⟩
    | negSucc n =>
        rw [Element.natural?_integer_negSucc]
        exact ⟨fun _ _ => by omega, fun _ => by omega, fun _ => rfl⟩
  · have hencode := (decode_encode_of_mem_numberKinds hkind).2 n
    exact ⟨_, hencode.trans (CrlNumber.write_toElement n), isInteger_iff.mpr rfl⟩

/-- The largest number that is read, the smallest one that has more bits, and the integer before
zero. -/
theorem decode_of_isInteger_boundary :
    let reg := Registry.builtin
    let largest : Octets := 0x02 :: 0x09 :: 0x00 :: List.replicate 8 0xff
    let above : Octets := 0x02 :: 0x09 :: 0x01 :: List.replicate 8 0x00
    (∃ n : UInt64, n.toNat = 2 ^ 64 - 1 ∧ decode reg .crlNumber largest = .ok (crlNumber n)) ∧
      (∃ length, decode reg .crlNumber above = .error (.unsupportedCrlNumber length)) ∧
      decode reg .deltaCrlIndicator [0x02, 0x01, 0xff] = .error .decoding ∧
      ∃ octets, (deltaCrlIndicator 0x8000000000000000).encode = .ok octets ∧
        IsInteger octets 0x8000000000000000 := by
  intro reg largest above
  have hkind : (.crlNumber, crlNumber) ∈ numberKinds := by simp [numberKinds]
  have hkind' : (.deltaCrlIndicator, deltaCrlIndicator) ∈ numberKinds := by simp [numberKinds]
  obtain ⟨hnumber, -⟩ := decode_of_isInteger reg hkind
  obtain ⟨hbase, hbases⟩ := decode_of_isInteger reg hkind'
  have hlargest : IsInteger largest (2 ^ 64 - 1) := isInteger_iff.mpr (by decide +kernel)
  have habove : IsInteger above (2 ^ 64) := isInteger_iff.mpr (by decide +kernel)
  have hnegative : IsInteger [0x02, 0x01, 0xff] (-1) := isInteger_iff.mpr (by decide +kernel)
  obtain ⟨n, hn, hread⟩ := (hnumber _ _ hlargest (by decide)).1 (by decide) (by decide)
  obtain ⟨length, -, -, hrefused⟩ := (hnumber _ _ habove (by decide)).2.1 (by decide)
  obtain ⟨octets, hencode, hinteger⟩ := hbases 0x8000000000000000
  exact ⟨⟨n, by omega, hread⟩, ⟨length, hrefused⟩,
    (hbase _ _ hnegative (by decide)).2.2 (by decide), octets, hencode, by simpa using hinteger⟩

end ExtensionValue

end Pkix
