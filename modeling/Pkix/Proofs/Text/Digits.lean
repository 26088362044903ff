import Pkix.Error

/-!
# Digits of numbers

The digits of a number are letters and decimal digits, they are read as the number, and decimal
digits without leading zeros are the digits of the number that they are read as.
-/

namespace Pkix

/-! ## Characters -/

theorem isAlphanum_digitChar {n : Nat} (h : n < 16) : n.digitChar.isAlphanum = true := by
  revert n
  decide

theorem isAlphanum_of_mem_toDigits {b n : Nat} (hb : 1 < b) (hle : b ≤ 16) {c : Char}
    (hc : c ∈ b.toDigits n) : c.isAlphanum = true := by
  induction n using Nat.strongRecOn with
  | ind n ih =>
      rw [Nat.toDigits_eq_if hb] at hc
      split at hc
      · rw [List.mem_singleton.mp hc]
        exact isAlphanum_digitChar (by omega)
      · rcases List.mem_append.mp hc with hc | hc
        · exact ih (n / b) (Nat.div_lt_self (by omega) hb) hc
        · rw [List.mem_singleton.mp hc]
          exact isAlphanum_digitChar (Nat.lt_of_lt_of_le (Nat.mod_lt n (by omega)) hle)

/-- Marks do not occur among the digits of a number. -/
theorem not_mem_toDigits {b n : Nat} (hb : 1 < b) (hle : b ≤ 16) {c : Char}
    (hc : c.isAlphanum = false) : c ∉ b.toDigits n := by
  intro hmem
  rw [isAlphanum_of_mem_toDigits hb hle hmem] at hc
  cases hc

/-- Only the number zero begins with the digit zero. -/
theorem head?_toDigits_ne {b n : Nat} (hb : 1 < b) (hle : b ≤ 16) (hn : n ≠ 0) :
    (b.toDigits n).head? ≠ some '0' := by
  have hdigit : ∀ d < 16, d ≠ 0 → d.digitChar ≠ '0' := by decide
  induction n using Nat.strongRecOn with
  | ind n ih =>
      rw [Nat.toDigits_eq_if hb]
      split
      · simpa using hdigit n (by omega) hn
      · rename_i hge
        have hdiv : n / b ≠ 0 := Nat.ne_of_gt (Nat.div_pos (by omega) (by omega))
        have hhead := ih (n / b) (Nat.div_lt_self (by omega) hb) hdiv
        have hne : b.toDigits (n / b) ≠ [] := Nat.toDigits_ne_nil
        obtain ⟨c, digits, hdigits⟩ := List.exists_cons_of_ne_nil hne
        rw [hdigits] at hhead ⊢
        exact hhead

theorem toDigits_eq_of_head? {n : Nat} (h : (Nat.toDigits 10 n).head? = some '0') :
    Nat.toDigits 10 n = ['0'] := by
  by_cases hn : n = 0
  · rw [hn]
    rfl
  · exact absurd h (head?_toDigits_ne (by decide) (by decide) hn)

/-! ## Reading -/

/-- A reading that takes each digit for its value reads the digits of a number as the number. -/
theorem foldlM_toDigits {b : Nat} (hb : 1 < b) {read : Nat → Char → Option Nat}
    (hread : ∀ n d, d < b → read n d.digitChar = some (b * n + d)) (n : Nat) :
    (b.toDigits n).foldlM read 0 = some n := by
  induction n using Nat.strongRecOn with
  | ind n ih =>
      rw [Nat.toDigits_eq_if hb]
      split
      · rename_i hlt
        simp [hread 0 n hlt]
      · have hdigit : read (n / b) (n % b).digitChar = some (b * (n / b) + n % b) :=
          hread (n / b) (n % b) (Nat.mod_lt n (by omega))
        rw [List.foldlM_append, ih (n / b) (Nat.div_lt_self (by omega) hb)]
        simp [hdigit, Nat.div_add_mod]

/-- The number read so far with a decimal digit behind it. -/
def readDecimal? (n : Nat) (c : Char) : Option Nat :=
  if c.isDigit then some (10 * n + (c.toNat - 48)) else none

theorem readDecimal?_digitChar (n d : Nat) (hd : d < 10) :
    readDecimal? n d.digitChar = some (10 * n + d) := by
  have hdigit : ∀ d < 10, d.digitChar.isDigit = true ∧ d.digitChar.toNat - 48 = d := by decide
  obtain ⟨hisDigit, hvalue⟩ := hdigit d hd
  rw [readDecimal?, if_pos hisDigit, hvalue]

theorem digitChar_of_isDigit {c : Char} (h : c.isDigit = true) :
    (c.toNat - 48).digitChar = c ∧ c.toNat - 48 < 10 := by
  have hrange : 48 ≤ c.toNat ∧ c.toNat ≤ 57 := by
    simpa [Char.isDigit, UInt32.le_iff_toNat_le] using h
  have hlt : c.toNat - 48 < 10 := by omega
  refine ⟨?_, hlt⟩
  apply Char.toNat_inj.mp
  rw [Nat.toNat_digitChar_of_lt_ten hlt]
  omega

/-- Digits that are read behind a number other than zero are its further digits. -/
theorem toDigits_append_of_foldlM {digits : List Char} {m n : Nat} (hm : 0 < m)
    (h : digits.foldlM readDecimal? m = some n) :
    Nat.toDigits 10 m ++ digits = Nat.toDigits 10 n := by
  induction digits generalizing m with
  | nil => simp_all
  | cons c digits ih =>
      rw [List.foldlM_cons, readDecimal?] at h
      split at h
      · rename_i hc
        obtain ⟨hchar, hlt⟩ := digitChar_of_isDigit hc
        have hnext : Nat.toDigits 10 m ++ [c] = Nat.toDigits 10 (10 * m + (c.toNat - 48)) := by
          rw [← Nat.toDigits_append_toDigits (by decide) hm hlt, Nat.toDigits_of_lt_base hlt, hchar]
        rw [List.append_cons, hnext]
        exact ih (by omega) h
      · cases h

/-- Digits without a leading zero are those of the number that they are read as. -/
theorem toDigits_of_foldlM {digits : List Char} {n : Nat} (hne : digits ≠ [])
    (hzero : digits.head? = some '0' → digits = ['0']) (h : digits.foldlM readDecimal? 0 = some n) :
    Nat.toDigits 10 n = digits := by
  obtain ⟨c, digits, rfl⟩ := List.exists_cons_of_ne_nil hne
  by_cases hc : c = '0'
  · subst hc
    rw [hzero rfl] at h ⊢
    obtain rfl : 0 = n := by simpa [readDecimal?] using h
    rfl
  · rw [List.foldlM_cons, readDecimal?] at h
    split at h
    · rename_i hdigit
      obtain ⟨hchar, hlt⟩ := digitChar_of_isDigit hdigit
      have hpos : 0 < 10 * 0 + (c.toNat - 48) := by
        apply Nat.pos_of_ne_zero
        intro hvalue
        have hvalue' : c.toNat - 48 = 0 := by omega
        rw [hvalue'] at hchar
        exact hc hchar.symm
      rw [← toDigits_append_of_foldlM hpos h, Nat.mul_zero, Nat.zero_add,
        Nat.toDigits_of_lt_base hlt, hchar]
      rfl
    · cases h

/-! ## Numbers between points -/

theorem toList_intercalate_toString (ns : List Nat) :
    (".".intercalate (ns.map toString)).toList = ['.'].intercalate (ns.map (Nat.toDigits 10)) := by
  simp [String.toList_intercalate, Function.comp_def]

theorem splitOn_intercalate_toString {ns : List Nat} (hne : ns ≠ []) :
    (".".intercalate (ns.map toString)).toList.splitOn '.' = ns.map (Nat.toDigits 10) := by
  have hpoint (n : Nat) : '.' ∉ Nat.toDigits 10 n :=
    not_mem_toDigits (by decide) (by decide) (by decide)
  rw [toList_intercalate_toString]
  exact List.splitOn_intercalate '.' (List.forall_mem_map.mpr fun n _ => hpoint n)
    (by simpa using hne)

end Pkix
