import Pkix.Proofs.Der.Element
import Pkix.Proofs.Der.Integer

/-!
# The shortest content of an integer

The content of an integer is told here from the number that octets denote alone: in two's complement
the first octet counts negative where its high bit is set, and of all octets that denote an integer
its content has the fewest. There is exactly one such content, so that an integer has exactly one
encoding of this kind, and it is the one that is written.
-/

namespace Pkix

namespace Octets

theorem toNat_cons (b : UInt8) (rest : Octets) :
    toNat (b :: rest) = b.toNat * 256 ^ rest.length + toNat rest := by
  induction rest using List.reverseRecOn with
  | nil => simp [toNat]
  | append_singleton rest c ih =>
      rw [← List.cons_append, toNat_concat, ih, toNat_concat, List.length_append,
        List.length_singleton, Nat.pow_succ, ← Nat.mul_assoc]
      omega

/-- Octets without a leading zero denote a number of their length. -/
theorem pow_le_toNat {b : UInt8} (hb : b ≠ 0) (rest : Octets) :
    256 ^ rest.length ≤ toNat (b :: rest) := by
  have hpos : 0 < b.toNat := Nat.pos_of_ne_zero fun h => hb (UInt8.toNat_inj.mp h)
  rw [toNat_cons]
  exact Nat.le_add_right_of_le (Nat.le_mul_of_pos_left _ hpos)

theorem pow_length_ofNat_le {n : Nat} (h : 0 < n) : 256 ^ ((ofNat n).length - 1) ≤ n := by
  have hhead := head?_ofNat n
  have hnat := toNat_ofNat n
  cases hoctets : ofNat n with
  | nil =>
      rw [hoctets, toNat_nil] at hnat
      omega
  | cons b rest =>
      rw [hoctets] at hhead hnat
      rw [List.length_cons, Nat.add_sub_cancel, ← hnat]
      exact pow_le_toNat (by simpa using hhead) rest

end Octets

namespace Der.Integer

/-- The number that octets denote in two's complement. -/
def twosComplement (octets : Octets) : Int :=
  if octets.head?.any (0x80 ≤ ·) then Octets.toNat octets - (256 ^ octets.length : Nat)
  else Octets.toNat octets

theorem twosComplement_of_lt {b : UInt8} (hb : b < 0x80) (rest : Octets) :
    twosComplement (b :: rest) = Octets.toNat (b :: rest) :=
  if_neg (by simpa using hb)

theorem twosComplement_of_le {b : UInt8} (hb : 0x80 ≤ b) (rest : Octets) :
    twosComplement (b :: rest) = Octets.toNat (b :: rest) - (256 ^ (rest.length + 1) : Nat) :=
  if_pos (by simpa using hb)

theorem toNat_map_turn (octets : Octets) :
    Octets.toNat (octets.map turn) + Octets.toNat octets + 1 = 256 ^ octets.length := by
  induction octets using List.reverseRecOn with
  | nil => rfl
  | append_singleton octets b ih =>
      have hb := b.toNat_lt
      rw [List.map_append, List.map_singleton, Octets.toNat_concat, Octets.toNat_concat,
        List.length_append, List.length_singleton, Nat.pow_succ, ← ih, toNat_turn]
      omega

/-- Turning every octet and taking the negative successor is two's complement. -/
theorem value_eq_twosComplement (octets : Octets) : value octets = twosComplement octets := by
  cases octets with
  | nil => rfl
  | cons b rest =>
      rw [value]
      split
      · rename_i hb
        exact (twosComplement_of_lt hb rest).symm
      · rename_i hb
        have hturned : Octets.toNat ((b :: rest).map (255 - ·)) + Octets.toNat (b :: rest) + 1 =
          256 ^ (rest.length + 1) := toNat_map_turn (b :: rest)
        rw [twosComplement_of_le (UInt8.not_lt.mp hb), Int.negSucc_eq]
        omega

/-- Octets that are not minimal can lose the first one. -/
theorem exists_shorter {octets : Octets} (hne : octets ≠ []) (h : ¬ isMinimal octets = true) :
    ∃ shorter, shorter ≠ [] ∧ shorter.length < octets.length ∧
      twosComplement shorter = twosComplement octets := by
  match octets, hne, h with
  | [b], _, h => exact absurd rfl h
  | b :: c :: rest, _, h =>
      refine ⟨c :: rest, by simp, by simp, ?_⟩
      have hlead : b = 0 ∧ c < 0x80 ∨ b = 0xff ∧ 0x80 ≤ c := by
        by_contra hnot
        apply h
        simpa [isMinimal, not_or, imp_iff_not_or] using hnot
      rcases hlead with ⟨rfl, hc⟩ | ⟨rfl, hc⟩
      · rw [twosComplement_of_lt hc, twosComplement_of_lt (by decide), Octets.toNat_cons 0]
        simp
      · rw [twosComplement_of_le hc, twosComplement_of_le (by decide), Octets.toNat_cons 0xff,
          List.length_cons]
        simp only [UInt8.reduceToNat]
        omega

/-- Octets that denote an integer lose their first one until they are its content. -/
theorem length_content_le {octets : Octets} (hne : octets ≠ []) :
    (content (twosComplement octets)).length ≤ octets.length := by
  by_cases h : isMinimal octets = true
  · exact Nat.le_of_eq (by rw [← value_eq_twosComplement, content_value h])
  · obtain ⟨shorter, hshorter, hlt, hsame⟩ := exists_shorter hne h
    have hle := length_content_le hshorter
    rw [hsame] at hle
    exact Nat.le_trans hle (Nat.le_of_lt hlt)
termination_by octets.length

/-- Whether octets are the shortest ones that denote an integer. -/
structure IsCanonical (content : Octets) (z : Int) : Prop where
  ne_nil : content ≠ []
  denotes : twosComplement content = z
  least : ∀ other, other ≠ [] → twosComplement other = z → content.length ≤ other.length

theorem isCanonical_content (z : Int) : IsCanonical (content z) z := by
  obtain ⟨hminimal, hvalue⟩ : isMinimal (content z) = true ∧ value (content z) = z := by
    simpa [ofContent?] using ofContent?_content z
  refine ⟨?_, (value_eq_twosComplement _).symm.trans hvalue, ?_⟩
  · intro hnil
    rw [hnil] at hminimal
    cases hminimal
  · rintro other hother rfl
    exact length_content_le hother

/-- The content of an integer is the only one. -/
theorem isCanonical_iff {octets : Octets} {z : Int} : IsCanonical octets z ↔ octets = content z := by
  constructor
  · intro h
    have hminimal : isMinimal octets = true := by
      by_contra hnot
      obtain ⟨shorter, hne, hlt, hsame⟩ := exists_shorter h.ne_nil hnot
      exact absurd (h.least shorter hne (hsame.trans h.denotes)) (Nat.not_le.mpr hlt)
    rw [← h.denotes, ← value_eq_twosComplement, content_value hminimal]
  · rintro rfl
    exact isCanonical_content z

end Der.Integer

namespace Der

/-- Whether octets are the encoding of an integer: its tag, and the length of its shortest content
before that content. -/
def IsInteger (octets : Octets) (z : Int) : Prop :=
  ∃ content, Integer.IsCanonical content z ∧
    octets = 0x02 :: (lengthOctets content.length ++ content)

theorem isInteger_iff {octets : Octets} {z : Int} :
    IsInteger octets z ↔ octets = (Element.integer z).octets := by
  simp only [IsInteger, Integer.isCanonical_iff, exists_eq_left]
  rfl

end Der

end Pkix
