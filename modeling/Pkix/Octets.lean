/-!
# Octet strings

Everything that is stored, sent or hashed is a list of octets. Besides the type this module holds
the big-endian reading of an octet string as a natural number and the shortest octet string of a
number; the DER length and the DER integer are both built from these two. Octets are shown as two
hexadecimal digits each.
-/

namespace Pkix

/-- A string of octets, first octet first. -/
abbrev Octets := List UInt8

namespace Octets

/-- The number that an octet string denotes when its first octet is the most significant. -/
def toNat (octets : Octets) : Nat :=
  octets.foldl (fun n b => 256 * n + b.toNat) 0

/-- The shortest octet string that denotes `n`; zero has the empty one. -/
def ofNat (n : Nat) : Octets :=
  if n = 0 then [] else ofNat (n / 256) ++ [UInt8.ofNat n]
termination_by n
decreasing_by omega

/-- An octet string without its leading zeros, except that a string of zeros keeps its last one. -/
def stripZeros : Octets → Octets
  | [] => []
  | [b] => [b]
  | b :: c :: rest => if b = 0 then stripZeros (c :: rest) else b :: c :: rest

@[simp] theorem ofNat_zero : ofNat 0 = [] := by
  rw [ofNat, if_pos rfl]

theorem ofNat_of_pos {n : Nat} (h : 0 < n) : ofNat n = ofNat (n / 256) ++ [UInt8.ofNat n] := by
  rw [ofNat, if_neg (by omega)]

@[simp] theorem toNat_nil : toNat [] = 0 := rfl

@[simp] theorem toNat_concat (octets : Octets) (b : UInt8) :
    toNat (octets ++ [b]) = 256 * toNat octets + b.toNat := by
  simp [toNat]

@[simp] theorem toNat_ofNat (n : Nat) : toNat (ofNat n) = n := by
  fun_induction ofNat n with
  | case1 => rfl
  | case2 n hn ih =>
    simp only [toNat_concat, ih, UInt8.toNat_ofNat']
    omega

theorem ofNat_concat {n : Nat} {b : UInt8} (h : 0 < 256 * n + b.toNat) :
    ofNat (256 * n + b.toNat) = ofNat n ++ [b] := by
  have := b.toNat_lt
  rw [ofNat_of_pos h, show (256 * n + b.toNat) / 256 = n by omega]
  congr 2
  apply UInt8.toNat_inj.1
  rw [UInt8.toNat_ofNat']
  omega

theorem ofNat_foldl {n : Nat} (h : 0 < n) (octets : Octets) :
    ofNat (octets.foldl (fun n b => 256 * n + b.toNat) n) = ofNat n ++ octets := by
  induction octets generalizing n with
  | nil => simp
  | cons b rest ih =>
    rw [List.foldl_cons, ih (by omega), ofNat_concat (by omega), List.append_assoc,
      List.singleton_append]

theorem ofNat_toNat {octets : Octets} (h : octets.head? ≠ some 0) :
    ofNat (toNat octets) = octets := by
  cases octets with
  | nil => simp
  | cons b rest =>
    have pos : 0 < b.toNat := Nat.pos_of_ne_zero fun hb => h (by simp [← UInt8.toNat_inj, hb])
    have one : ofNat (256 * 0 + b.toNat) = [b] := by
      rw [ofNat_concat (by omega)]
      simp
    rw [toNat, List.foldl_cons, ofNat_foldl (by omega), one, List.singleton_append]

theorem head?_ofNat (n : Nat) : (ofNat n).head? ≠ some 0 := by
  fun_induction ofNat n with
  | case1 => simp
  | case2 n hn ih =>
    rw [List.head?_append]
    cases hq : (ofNat (n / 256)).head? with
    | some b => simpa [hq] using ih
    | none =>
      have h0 : n / 256 = 0 := by
        have := congrArg toNat (List.head?_eq_none_iff.1 hq)
        simpa using this
      simp only [List.head?_cons, Option.or_some, Option.getD_none, ne_eq, Option.some.injEq]
      intro h
      have := congrArg UInt8.toNat h
      simp only [UInt8.toNat_ofNat', UInt8.toNat_zero] at this
      omega

theorem length_ofNat_le {n k : Nat} (h : n < Nat.pow 256 k) : (ofNat n).length ≤ k := by
  induction k generalizing n with
  | zero =>
    have : n = 0 := by simpa using h
    simp [this]
  | succ k ih =>
    by_cases hn : n = 0
    · simp [hn]
    · have step : n < Nat.pow 256 k * 256 := h
      have := @ih (n / 256) (by omega)
      rw [ofNat_of_pos (by omega), List.length_append, List.length_singleton]
      omega

end Octets

/-! ## Hexadecimal text -/

namespace Hex

def digits (b : UInt8) : List Char :=
  [Nat.digitChar (b.toNat / 16), Nat.digitChar (b.toNat % 16)]

/-- Hexadecimal text with digits `a` to `f`. -/
def lower (octets : Octets) : String :=
  String.ofList (octets.flatMap digits)

/-- Hexadecimal text with digits `A` to `F`. -/
def upper (octets : Octets) : String :=
  String.ofList ((octets.flatMap digits).map Char.toUpper)

end Hex

end Pkix
