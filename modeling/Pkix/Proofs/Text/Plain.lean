import Pkix.IpAddress
import Pkix.Proofs.Text.Base64
import Pkix.Proofs.Text.Digits

/-!
# Plain texts

Numbers, identifiers, addresses and octets are shown in letters, digits and a few marks. Such plain
texts hold no character that markup gives a meaning to, and no line feed.
-/

namespace Pkix

/-- Whether a character is a letter, a digit or one of the marks that stand between them. -/
def isPlain (c : Char) : Bool :=
  c.isAlphanum || [' ', '+', '-', '.', '/', ':', '='].contains c

def IsPlain (text : String) : Prop := text.toList.all isPlain = true

instance : DecidablePred IsPlain := fun _ => inferInstanceAs (Decidable (_ = true))

theorem isPlain_of_forall {text : String} (h : ∀ c ∈ text.toList, isPlain c = true) :
    IsPlain text :=
  List.all_eq_true.mpr h

namespace IsPlain

theorem not_mem {c : Char} {text : String} (h : IsPlain text) (hc : isPlain c = false) :
    c ∉ text.toList := by
  intro hmem
  rw [List.all_eq_true.mp h c hmem] at hc
  cases hc

theorem append {s t : String} (hs : IsPlain s) (ht : IsPlain t) : IsPlain (s ++ t) := by
  rw [IsPlain, String.toList_append, List.all_append, Bool.and_eq_true]
  exact ⟨hs, ht⟩

theorem intercalate {sep : String} {texts : List String} (hsep : IsPlain sep)
    (h : ∀ t ∈ texts, IsPlain t) : IsPlain (sep.intercalate texts) := by
  induction texts with
  | nil => simp [IsPlain]
  | cons t rest ih =>
      obtain ⟨ht, hrest⟩ := List.forall_mem_cons.mp h
      cases rest with
      | nil => simpa using ht
      | cons u rest =>
          rw [String.intercalate_cons_cons]
          exact (ht.append hsep).append (ih hrest)

end IsPlain

/-! ## Digits -/

theorem isPlain_of_mem_toDigits {b n : Nat} (hb : 1 < b) (hle : b ≤ 16) {c : Char}
    (hc : c ∈ b.toDigits n) : isPlain c = true := by
  rw [isPlain, isAlphanum_of_mem_toDigits hb hle hc, Bool.true_or]

theorem isPlain_natCast (n : Nat) : IsPlain (toString n) := by
  refine isPlain_of_forall fun c hc => ?_
  rw [Nat.toString_eq_ofList_toDigits, String.toList_ofList] at hc
  exact isPlain_of_mem_toDigits (by decide) (by decide) hc

theorem isPlain_intCast (i : Int) : IsPlain (toString i) := by
  cases i with
  | ofNat n => exact isPlain_natCast n
  | negSucc n => exact IsPlain.append (s := "-") (by decide) (isPlain_natCast n.succ)

theorem Hex.isPlain_upper (octets : Octets) : IsPlain (upper octets) := by
  have hupper : ∀ n < 16, isPlain n.digitChar.toUpper = true := by decide
  refine isPlain_of_forall fun c hc => ?_
  rw [upper, String.toList_ofList] at hc
  obtain ⟨d, hd, rfl⟩ := List.mem_map.mp hc
  obtain ⟨b, -, hb⟩ := List.mem_flatMap.mp hd
  have hlt := b.toNat_lt
  rcases List.mem_cons.mp hb with rfl | hb
  · exact hupper _ (by omega)
  · rw [List.mem_singleton.mp hb]
    exact hupper _ (by omega)

theorem Base64.isPlain_encode (octets : Octets) : IsPlain (encode octets) := by
  refine isPlain_of_forall fun c hc => ?_
  rw [encode, String.toList_ofList] at hc
  exact forall_encodeChars (P := fun c => isPlain c = true) (by decide) rfl octets c hc

theorem Oid.isPlain_dotted (oid : Oid) : IsPlain oid.dotted := by
  refine IsPlain.intercalate (by decide) fun t ht => ?_
  obtain ⟨n, -, rfl⟩ := List.mem_map.mp ht
  exact isPlain_natCast n

/-! ## Addresses -/

namespace IpAddress

theorem isPlain_dottedQuad (octets : List UInt8) : IsPlain (dottedQuad octets) := by
  refine IsPlain.intercalate (by decide) fun t ht => ?_
  obtain ⟨b, -, rfl⟩ := List.mem_map.mp ht
  exact isPlain_natCast b.toNat

theorem isPlain_colonGroups (groups : List UInt16) : IsPlain (colonGroups groups) := by
  refine IsPlain.intercalate (by decide) fun t ht => ?_
  obtain ⟨g, -, rfl⟩ := List.mem_map.mp ht
  refine isPlain_of_forall fun c hc => ?_
  rw [String.toList_ofList] at hc
  exact isPlain_of_mem_toDigits (by decide) (by decide) hc

theorem isPlain_groupsText (groups : List UInt16) : IsPlain (groupsText groups) := by
  unfold groupsText
  split
  · exact IsPlain.append (by decide) (isPlain_dottedQuad _)
  · dsimp only
    split
    · exact ((isPlain_colonGroups _).append (by decide)).append (isPlain_colonGroups _)
    · exact isPlain_colonGroups _

theorem isPlain_text (address : IpAddress) : IsPlain address.text := by
  cases address with
  | v4 octets => exact isPlain_dottedQuad _
  | v6 groups => exact isPlain_groupsText _

end IpAddress

end Pkix
