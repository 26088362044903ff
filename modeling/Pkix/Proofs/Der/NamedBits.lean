import Pkix.Der.BitString

/-!
# Named bits come back

Packing bits into octets fills the last octet up with zeros, and the count of unused bits tells how
many were added, so every list of bits comes back. A set of named bits is the set of the bits that
it was written as, since only zeros were left out at the end.
-/

namespace Pkix.Der

namespace BitString

/-- The bits of an octet are those that it was made of, zeros for those that were missing. -/
theorem octetBits_octetOfBits (bits : List Bool) :
    octetBits (octetOfBits bits) = (List.range 8).map (bits.getD · false) := by
  have hall : ∀ a b c d e f g h : Bool,
      octetBits (UInt8.ofNat ([a, b, c, d, e, f, g, h].foldl (fun n x => 2 * n + x.toNat) 0)) =
        [a, b, c, d, e, f, g, h] := by
    decide +kernel
  exact hall _ _ _ _ _ _ _ _

/-- The entries of a list up to a bound, where the default stands for those that are missing. -/
theorem map_getD_range {n : Nat} {bits : List Bool} (h : bits.length ≤ n) :
    (List.range n).map (bits.getD · false) = bits ++ List.replicate (n - bits.length) false := by
  apply List.ext_getElem
  · simp only [List.length_map, List.length_range, List.length_append, List.length_replicate]
    omega
  · intro i hi hi'
    by_cases hlt : i < bits.length
    · simp [hlt, List.getD_eq_getElem?_getD]
    · simp [List.getElem_append, hlt, List.getD_eq_getElem?_getD]

theorem length_flatMap_octetBits (octets : Octets) :
    (octets.flatMap octetBits).length = 8 * octets.length := by
  induction octets with
  | nil => rfl
  | cons b rest ih =>
      simp only [List.flatMap_cons, List.length_append, ih, octetBits, List.length_map,
        List.length_range, List.length_cons]
      omega

/-- The bits of packed octets are the packed bits, filled up with zeros to whole octets. -/
theorem flatMap_octetBits_pack (bits : List Bool) :
    (pack bits).flatMap octetBits =
      bits ++ List.replicate ((8 - bits.length % 8) % 8) false := by
  fun_induction pack bits with
  | case1 => rfl
  | case2 b rest ih =>
      have hchunk : (b :: rest.take 7).length ≤ 8 := by
        simp only [List.length_cons, List.length_take]
        omega
      rw [List.flatMap_cons, octetBits_octetOfBits, map_getD_range hchunk, ih]
      by_cases hlong : 7 ≤ rest.length
      · have hfull : 8 - (b :: rest.take 7).length = 0 := by simp; omega
        have hrest : (8 - (rest.drop 7).length % 8) % 8 = (8 - (b :: rest).length % 8) % 8 := by
          simp only [List.length_drop, List.length_cons]
          omega
        rw [hfull, hrest]
        simp [← List.append_assoc, List.take_append_drop]
      · have hnone : rest.drop 7 = [] := List.drop_eq_nil_of_le (by omega)
        have hall : rest.take 7 = rest := List.take_of_length_le (by omega)
        have hpad : 8 - (b :: rest).length = (8 - (b :: rest).length % 8) % 8 := by
          simp only [List.length_cons]
          omega
        rw [hnone, hall, hpad]
        simp

/-- Every list of bits comes back from its bit string. -/
theorem bits_ofBits (bits : List Bool) : (ofBits bits).bits = bits := by
  have hpack := flatMap_octetBits_pack bits
  have hlen := congrArg List.length hpack
  rw [length_flatMap_octetBits, List.length_append, List.length_replicate] at hlen
  have hunused : (UInt8.ofNat ((8 - bits.length % 8) % 8)).toNat = (8 - bits.length % 8) % 8 := by
    rw [UInt8.toNat_ofNat']
    omega
  have hcount : 8 * (pack bits).length - (8 - bits.length % 8) % 8 = bits.length := by omega
  simp only [BitString.bits, ofBits, hpack, hunused, hcount, List.take_left]

theorem ofContent?_content_ofBits (bits : List Bool) :
    ofContent? (ofBits bits).content = some (ofBits bits) := by
  have hseven : UInt8.ofNat ((8 - bits.length % 8) % 8) ≤ 7 := by
    rw [UInt8.le_iff_toNat_le, UInt8.toNat_ofNat', show (7 : UInt8).toNat = 7 from rfl]
    omega
  have hempty : pack bits = [] → UInt8.ofNat ((8 - bits.length % 8) % 8) = 0 := fun hnil => by
    have hlen := congrArg List.length (flatMap_octetBits_pack bits)
    rw [hnil] at hlen
    have hbits : bits.length = 0 := by
      simp only [List.flatMap_nil, List.length_nil, List.length_append] at hlen
      omega
    rw [hbits]
    rfl
  rw [content, ofBits, ofContent?, if_pos ⟨hseven, hempty⟩]

end BitString

namespace NamedBits

theorem ofBits_toBits (set : NamedBits) : ofBits set.toBits = set := by
  revert set
  decide +kernel

theorem length_toBits_le (set : NamedBits) : set.toBits.length ≤ 9 := by
  have hsub := List.dropWhile_sublist (!·) (l := ((List.range 9).map set.getLsbD).reverse)
  simpa [toBits] using hsub.length_le

end NamedBits

@[simp] theorem Element.tag_namedBits (set : NamedBits) :
    (namedBits set).tag = .universal .bitString := rfl

/-- Every set of named bits comes back. -/
theorem Element.namedBits?_namedBits (set : NamedBits) :
    (namedBits set).namedBits? = some set := by
  have hstring : (namedBits set).bitString? = some (BitString.ofBits set.toBits) :=
    BitString.ofContent?_content_ofBits _
  have hle := set.length_toBits_le
  simp only [namedBits?, hstring, Option.bind_eq_bind, Option.bind_some, BitString.bits_ofBits]
  rw [if_pos (by omega), NamedBits.ofBits_toBits]

end Pkix.Der
