import Mathlib.Algebra.Group.Nat.Defs
import Mathlib.Data.List.Induction
import Pkix.Der.Scalar

/-!
# Integers come back

The content of every integer is minimal and denotes it, and no other minimal content does. Both
signs rest on one fact about the content of a natural number; turning every octet keeps a content
minimal and changes its sign.
-/

namespace Pkix.Octets

theorem toNat_lt (octets : Octets) : toNat octets < 256 ^ octets.length := by
  induction octets using List.reverseRecOn with
  | nil => decide
  | append_singleton octets b ih =>
      have hb := b.toNat_lt
      rw [toNat_concat, List.length_append, List.length_singleton, Nat.pow_succ]
      omega

theorem lt_pow_length_ofNat (n : Nat) : n < 256 ^ (ofNat n).length := by
  simpa using toNat_lt (ofNat n)

end Pkix.Octets

namespace Pkix.Der.Integer

/-- An octet with every bit turned. -/
abbrev turn (b : UInt8) : UInt8 := 255 - b

theorem toNat_turn (b : UInt8) : (turn b).toNat = 255 - b.toNat := by
  have hle : b ≤ 255 := UInt8.le_iff_toNat_le.mpr (Nat.le_of_lt_succ b.toNat_lt)
  rw [turn, UInt8.toNat_sub_of_le _ _ hle]
  rfl

theorem turn_turn (b : UInt8) : turn (turn b) = b := by
  have hlt := b.toNat_lt
  apply UInt8.toNat_inj.mp
  rw [toNat_turn, toNat_turn]
  omega

theorem turn_eq_iff {b c : UInt8} : turn b = c ↔ b = turn c := by
  constructor
  · rintro rfl
    exact (turn_turn b).symm
  · rintro rfl
    exact turn_turn c

theorem turn_lt_iff (b : UInt8) : turn b < 0x80 ↔ 0x80 ≤ b := by
  have hlt := b.toNat_lt
  rw [UInt8.lt_iff_toNat_lt, UInt8.le_iff_toNat_le, toNat_turn]
  simp only [UInt8.reduceToNat]
  omega

/-- The content of a natural number starts with an octet that is no sign, is minimal, and denotes
the number. -/
theorem natContent_spec (n : Nat) :
    ∃ b rest, natContent n = b :: rest ∧ b < 0x80 ∧ isMinimal (b :: rest) = true ∧
      Octets.toNat (b :: rest) = n := by
  have hhead := Octets.head?_ofNat n
  have hnat := Octets.toNat_ofNat n
  unfold natContent
  cases hoctets : Octets.ofNat n with
  | nil =>
      rw [hoctets] at hnat
      exact ⟨0, [], rfl, by decide, rfl, hnat⟩
  | cons b rest =>
      rw [hoctets] at hhead hnat
      have hb : b ≠ 0 := by simpa using hhead
      by_cases hsign : b < 0x80
      · refine ⟨b, rest, if_pos hsign, hsign, ?_, hnat⟩
        have hff : b ≠ 0xff := by
          rintro rfl
          simp at hsign
        cases rest <;> simp [isMinimal, hb, hff]
      · refine ⟨0, b :: rest, if_neg hsign, by decide, ?_, hnat⟩
        simpa [isMinimal] using hsign

/-- Turning an octet that looks like a sign gives one that does not, so neither kind of leading
octet that can be left out comes or goes. -/
theorem isMinimal_map_turn (octets : Octets) :
    isMinimal (octets.map turn) = isMinimal octets := by
  cases octets with
  | nil => rfl
  | cons b rest =>
      cases rest with
      | nil => rfl
      | cons c rest =>
          have hzero : (turn b == 0) = (b == 0xff) := by
            rw [Bool.eq_iff_iff, beq_iff_eq, beq_iff_eq, turn_eq_iff]
            rfl
          have hones : (turn b == 0xff) = (b == 0) := by
            rw [Bool.eq_iff_iff, beq_iff_eq, beq_iff_eq, turn_eq_iff]
            rfl
          have hlow : decide (turn c < 0x80) = decide (0x80 ≤ c) :=
            decide_eq_decide.mpr (turn_lt_iff c)
          have hhigh : decide (0x80 ≤ turn c) = decide (c < 0x80) := by
            rw [decide_eq_decide, ← turn_lt_iff, turn_turn]
          rw [List.map_cons, List.map_cons, isMinimal, isMinimal, hzero, hones, hlow, hhigh,
            Bool.and_comm]

/-- Every integer is the value of its content. -/
theorem ofContent?_content (z : Int) : ofContent? (content z) = some z := by
  cases z with
  | ofNat n =>
      obtain ⟨b, rest, hcontent, hb, hminimal, hnat⟩ := natContent_spec n
      simp [content, hcontent, ofContent?, hminimal, value, hb, hnat]
  | negSucc n =>
      obtain ⟨b, rest, hcontent, hb, hminimal, hnat⟩ := natContent_spec n
      have hturned := (isMinimal_map_turn (b :: rest)).trans hminimal
      have hsign : ¬ turn b < 0x80 := by
        rw [turn_lt_iff]
        exact UInt8.not_le.mpr hb
      have hback : ((b :: rest).map turn).map turn = b :: rest := by
        rw [List.map_map, show turn ∘ turn = id from funext turn_turn, List.map_id]
      rw [content, hcontent, ofContent?, if_pos hturned, List.map_cons, value, if_neg hsign,
        ← List.map_cons, hback, hnat]

/-- A minimal content without a sign is that of the number that it denotes. -/
theorem natContent_toNat {b : UInt8} {rest : Octets} (hminimal : isMinimal (b :: rest) = true)
    (hb : b < 0x80) : natContent (Octets.toNat (b :: rest)) = b :: rest := by
  by_cases hzero : b = 0
  · subst hzero
    cases rest with
    | nil => simp [natContent, Octets.toNat]
    | cons c rest =>
        have hc : ¬ c < 0x80 := by simpa [isMinimal] using hminimal
        have hhead : (c :: rest).head? ≠ some 0 := by
          intro hc0
          obtain rfl : c = 0 := by simpa using hc0
          exact hc (by decide)
        have hnat : Octets.toNat (0 :: c :: rest) = Octets.toNat (c :: rest) := rfl
        rw [natContent, hnat, Octets.ofNat_toNat hhead]
        exact if_neg hc
  · rw [natContent, Octets.ofNat_toNat (by simpa using hzero)]
    exact if_pos hb

/-- A minimal content is that of the integer that it denotes. -/
theorem content_value {octets : Octets} (h : isMinimal octets = true) :
    content (value octets) = octets := by
  cases octets with
  | nil => cases h
  | cons b rest =>
      rw [value]
      split
      · rename_i hb
        exact natContent_toNat h hb
      · rename_i hb
        have hturned : isMinimal ((b :: rest).map turn) = true :=
          (isMinimal_map_turn _).trans h
        have hlow : turn b < 0x80 := (turn_lt_iff b).mpr (UInt8.not_lt.mp hb)
        rw [content, List.map_cons, natContent_toNat hturned hlow, ← List.map_cons, List.map_map,
          show turn ∘ turn = id from funext turn_turn, List.map_id]

end Pkix.Der.Integer

namespace Pkix.Der.Element

theorem integer?_integer (z : Int) : (integer z).integer? = some z := by
  rw [integer?, integer, if_pos rfl, Integer.ofContent?_content]

theorem natural?_integer (n : Nat) : (integer n).natural? = some n := by
  rw [natural?, integer?_integer]
  rfl

end Pkix.Der.Element
