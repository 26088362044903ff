import Pkix.Proofs.Der.Element
import Pkix.Wire.SerialNumber

/-!
# Serial numbers come back

The content of a serial number is what is left of its octets without leading zeros, after a zero
octet where the first one would look like a sign. It is minimal unless there were no octets at all,
and without leading zeros it is the number that was written.
-/

namespace Pkix

open Der

namespace Octets

/-- Stripping leaves a single octet or starts with one that is not zero. -/
theorem stripZeros_cons {octets rest : Octets} {b : UInt8} (h : stripZeros octets = b :: rest) :
    b ≠ 0 ∨ rest = [] := by
  fun_induction stripZeros octets with
  | case1 => cases h
  | case2 c => exact Or.inr (List.cons.inj h).2.symm
  | case3 d rest' ih => exact ih h
  | case4 c d rest' hc =>
      obtain ⟨rfl, -⟩ := List.cons.inj h
      exact Or.inl hc

theorem stripZeros_eq_nil_iff {octets : Octets} : stripZeros octets = [] ↔ octets = [] := by
  fun_induction stripZeros octets <;> simp_all

theorem stripZeros_of_ne_zero {b : UInt8} (h : b ≠ 0) (rest : Octets) :
    stripZeros (b :: rest) = b :: rest := by
  cases rest with
  | nil => rfl
  | cons c rest => rw [stripZeros, if_neg h]

theorem stripZeros_stripZeros (octets : Octets) :
    stripZeros (stripZeros octets) = stripZeros octets := by
  cases h : stripZeros octets with
  | nil => rfl
  | cons b rest =>
      rcases stripZeros_cons h with hb | rfl
      · exact stripZeros_of_ne_zero hb rest
      · rfl

/-- Leading zeros do not count. -/
@[simp] theorem toNat_stripZeros (octets : Octets) : toNat (stripZeros octets) = toNat octets := by
  fun_induction stripZeros octets with
  | case1 => rfl
  | case2 b => rfl
  | case3 c rest ih => exact ih
  | case4 b c rest hb => rfl

/-- Whether octets are others without their leading zeros: zeros stand before them, and they are a
single zero or do not start with one. -/
def StripsTo (octets stripped : Octets) : Prop :=
  (∃ zeros, octets = List.replicate zeros 0 ++ stripped) ∧
    (stripped = [0] ∨ ∃ b rest, stripped = b :: rest ∧ b ≠ 0)

theorem StripsTo.cons_zero {octets stripped : Octets} (h : octets.StripsTo stripped) :
    StripsTo (0 :: octets) stripped := by
  obtain ⟨⟨zeros, rfl⟩, hstripped⟩ := h
  exact ⟨⟨zeros + 1, rfl⟩, hstripped⟩

theorem stripsTo_stripZeros {octets : Octets} (h : octets ≠ []) :
    octets.StripsTo (stripZeros octets) := by
  fun_induction stripZeros octets with
  | case1 => exact absurd rfl h
  | case2 b =>
      refine ⟨⟨0, rfl⟩, ?_⟩
      by_cases hb : b = 0
      · exact Or.inl (by rw [hb])
      · exact Or.inr ⟨b, [], rfl, hb⟩
  | case3 c rest ih => exact (ih (List.cons_ne_nil c rest)).cons_zero
  | case4 b c rest hb => exact ⟨⟨0, rfl⟩, Or.inr ⟨b, c :: rest, rfl, hb⟩⟩

/-- There is nothing else that octets are without their leading zeros. -/
theorem StripsTo.eq_stripZeros {octets stripped : Octets} (h : octets.StripsTo stripped) :
    stripZeros octets = stripped := by
  obtain ⟨⟨zeros, rfl⟩, hstripped⟩ := h
  have hstay : stripZeros stripped = stripped := by
    rcases hstripped with rfl | ⟨b, rest, rfl, hb⟩
    · rfl
    · exact stripZeros_of_ne_zero hb rest
  induction zeros with
  | zero => exact hstay
  | succ zeros ih =>
      have hne : List.replicate zeros 0 ++ stripped ≠ [] := by
        rcases hstripped with rfl | ⟨b, rest, rfl, -⟩ <;> simp
      obtain ⟨c, rest, hcons⟩ := List.exists_cons_of_ne_nil hne
      rw [List.replicate_succ, List.cons_append, hcons, stripZeros, if_pos rfl, ← hcons, ih]

end Octets

namespace Wire.SerialNumber

/-- Whether octets are the content of a serial number that can be read. -/
def Readable (serial : SerialNumber) : Prop :=
  Integer.isMinimal serial = true ∧ serial.length ≤ 21

@[simp] theorem tag_toElement (serial : SerialNumber) :
    (toElement serial).tag = .universal .integer := rfl

theorem ofElement?_toElement {serial : SerialNumber} (h : serial.Readable) :
    ofElement? (toElement serial) = some serial :=
  if_pos ⟨rfl, h⟩

theorem eq_content_and_readable_of_ofElement? {e : Element} {serial : SerialNumber}
    (h : ofElement? e = some serial) : e.content = serial ∧ serial.Readable := by
  rw [ofElement?] at h
  split at h
  · rename_i hread
    obtain rfl := Option.some.inj h
    exact ⟨rfl, hread.2⟩
  · cases h

theorem ne_nil_of_readable {serial : SerialNumber} (h : serial.Readable) : serial ≠ [] := by
  rintro rfl
  exact absurd h.1 (by decide)

/-- No octets make an empty content, which is no integer. -/
theorem ofUnsigned?_nil : ofUnsigned? [] = some [] := rfl

/-- Octets have a minimal content, from which stripping gets back the octets without leading
zeros. -/
theorem readable_and_stripZeros_of_ofUnsigned? {octets : Octets} {serial : SerialNumber}
    (h : ofUnsigned? octets = some serial) (hne : octets ≠ []) :
    serial.Readable ∧ Octets.stripZeros serial = Octets.stripZeros octets := by
  cases hstrip : Octets.stripZeros octets with
  | nil => exact absurd (Octets.stripZeros_eq_nil_iff.mp hstrip) hne
  | cons b rest =>
      have hhead := Octets.stripZeros_cons hstrip
      rw [ofUnsigned?, hstrip] at h
      by_cases hsign : b < 0x80
      · simp only [if_pos hsign, Option.ite_none_right_eq_some] at h
        obtain ⟨hlength, hserial⟩ := h
        obtain rfl := Option.some.inj hserial
        have hshort := Nat.le_succ_of_le hlength
        have hones : b ≠ 0xff := by
          rintro rfl
          exact absurd hsign (by decide)
        rcases hhead with hb | rfl
        · refine ⟨⟨?_, hshort⟩, Octets.stripZeros_of_ne_zero hb rest⟩
          cases rest <;> simp [Integer.isMinimal, hb, hones]
        · exact ⟨⟨rfl, hshort⟩, rfl⟩
      · simp only [if_neg hsign, Option.ite_none_right_eq_some] at h
        obtain ⟨hlength, hserial⟩ := h
        obtain rfl := Option.some.inj hserial
        have hshort := Nat.le_succ_of_le hlength
        have hb : b ≠ 0 := by
          rintro rfl
          exact hsign (by decide)
        refine ⟨⟨?_, hshort⟩, ?_⟩
        · simpa [Integer.isMinimal] using hsign
        · rw [Octets.stripZeros, if_pos rfl, Octets.stripZeros_of_ne_zero hb]

theorem stripZeros_of_ofUnsigned? {octets : Octets} {serial : SerialNumber}
    (h : ofUnsigned? octets = some serial) :
    Octets.stripZeros serial = Octets.stripZeros octets := by
  by_cases hne : octets = []
  · subst hne
    obtain rfl := Option.some.inj (ofUnsigned?_nil.symm.trans h)
    rfl
  · exact (readable_and_stripZeros_of_ofUnsigned? h hne).2

end Wire.SerialNumber

end Pkix
