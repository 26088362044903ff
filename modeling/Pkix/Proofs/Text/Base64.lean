import Pkix.Text.Base64

/-!
# Base64 comes back

Each of the sixty-four digits has its own character, so a group of characters is read as the octets
it was written for, whether it is full or the last one.
-/

namespace Pkix.Base64

theorem value?_digit {n : Nat} (h : n < 64) : value? (digit n) = some n := by
  revert n
  decide

theorem digit_ne_pad {n : Nat} (h : n < 64) : digit n ≠ '=' := by
  intro hpad
  have hvalue := value?_digit h
  rw [hpad] at hvalue
  cases hvalue

/-- Whatever holds of the digits and of the padding holds of all that is written. -/
theorem forall_encodeChars {P : Char → Prop} (hdigit : ∀ n < 64, P (digit n)) (hpad : P '=')
    (octets : Octets) : ∀ c ∈ encodeChars octets, P c := by
  fun_induction encodeChars octets with
  | case1 => simp
  | case2 a =>
      have ha := a.toNat_lt
      simp only [List.forall_mem_cons, List.not_mem_nil, false_implies, implies_true, and_true]
      exact ⟨hdigit _ (by omega), hdigit _ (by omega), hpad, hpad⟩
  | case3 a b =>
      have ha := a.toNat_lt
      have hb := b.toNat_lt
      simp only [List.forall_mem_cons, List.not_mem_nil, false_implies, implies_true, and_true]
      exact ⟨hdigit _ (by omega), hdigit _ (by omega), hdigit _ (by omega), hpad⟩
  | case4 a b c rest ih =>
      have ha := a.toNat_lt
      have hb := b.toNat_lt
      have hc := c.toNat_lt
      simp only [List.forall_mem_cons]
      exact ⟨hdigit _ (by omega), hdigit _ (by omega), hdigit _ (by omega), hdigit _ (by omega), ih⟩

/-! The digits of a group hold the bits of its octets, six at a time, so that each octet is put
together from two neighbours. -/

theorem ofNat_eq_of_eq_toNat {n : Nat} {b : UInt8} (h : n = b.toNat) : UInt8.ofNat n = b := by
  rw [h, UInt8.ofNat_toNat]

theorem decodeChars?_encodeChars (octets : Octets) :
    decodeChars? (encodeChars octets) = some octets := by
  fun_induction encodeChars octets with
  | case1 => rfl
  | case2 a =>
      have ha := a.toNat_lt
      have hp := value?_digit (n := a.toNat / 4) (by omega)
      have hq := value?_digit (n := a.toNat % 4 * 16) (by omega)
      have hoctet := ofNat_eq_of_eq_toNat (n := a.toNat / 4 * 4 + a.toNat % 4 * 16 / 16) (b := a)
        (by omega)
      rw [decodeChars?, hp, hq]
      exact (if_pos (by omega)).trans (by rw [hoctet])
  | case3 a b =>
      have ha := a.toNat_lt
      have hb := b.toNat_lt
      have hp := value?_digit (n := a.toNat / 4) (by omega)
      have hq := value?_digit (n := a.toNat % 4 * 16 + b.toNat / 16) (by omega)
      have hr := value?_digit (n := b.toNat % 16 * 4) (by omega)
      have hfirst := ofNat_eq_of_eq_toNat (b := a)
        (n := a.toNat / 4 * 4 + (a.toNat % 4 * 16 + b.toNat / 16) / 16) (by omega)
      have hsecond := ofNat_eq_of_eq_toNat (b := b)
        (n := (a.toNat % 4 * 16 + b.toNat / 16) % 16 * 16 + b.toNat % 16 * 4 / 4) (by omega)
      rw [decodeChars?, hp, hq, hr]
      · exact (if_pos (by omega)).trans (by rw [hfirst, hsecond])
      · exact digit_ne_pad (by omega)
  | case4 a b c rest ih =>
      have ha := a.toNat_lt
      have hb := b.toNat_lt
      have hc := c.toNat_lt
      have hp := value?_digit (n := a.toNat / 4) (by omega)
      have hq := value?_digit (n := a.toNat % 4 * 16 + b.toNat / 16) (by omega)
      have hr := value?_digit (n := b.toNat % 16 * 4 + c.toNat / 64) (by omega)
      have hs := value?_digit (n := c.toNat % 64) (by omega)
      have hfirst := ofNat_eq_of_eq_toNat (b := a)
        (n := a.toNat / 4 * 4 + (a.toNat % 4 * 16 + b.toNat / 16) / 16) (by omega)
      have hsecond := ofNat_eq_of_eq_toNat (b := b)
        (n := (a.toNat % 4 * 16 + b.toNat / 16) % 16 * 16 +
          (b.toNat % 16 * 4 + c.toNat / 64) / 4) (by omega)
      have hthird := ofNat_eq_of_eq_toNat (b := c)
        (n := (b.toNat % 16 * 4 + c.toNat / 64) % 4 * 64 + c.toNat % 64) (by omega)
      have hpad : digit (c.toNat % 64) ≠ '=' := digit_ne_pad (by omega)
      rw [decodeChars?, hp, hq, hr, hs, ih]
      · simp only [Option.bind_eq_bind, Option.bind_some, Option.pure_def, hfirst, hsecond, hthird]
      · exact fun _ hlast _ => hpad hlast
      · exact fun hlast _ => hpad hlast

end Pkix.Base64
