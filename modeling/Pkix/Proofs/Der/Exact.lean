import Pkix.Der.BitString
import Pkix.Der.Time
import Pkix.Oid.Basic
import Pkix.Proofs.Der.Element
import Pkix.Proofs.Der.Integer

/-!
# Readers that accept only what is written

A reader is *exact* when it gives a value only for the element that this value is written as. A
sequence of exactly read members, and an exactly read element under a tag, are read exactly; then
so is a whole message, which is the only one to hold its value.
-/

namespace Pkix.Der

namespace Element

/-- Whether every value that is read is written as the element it was read from. -/
def Exact {α : Type} (ofElement? : Element → Option α) (toElement : α → Element) : Prop :=
  ∀ e a, ofElement? e = some a → toElement a = e

/-! ## Series and tags -/

theorem ofElements_of_elements? {e : Element} {elements : List Element}
    (h : elements? e.content = some elements) : ofElements e.tag elements = e := by
  rw [ofElements, ← octets_of_elements? h]

theorem sequence_of_sequence? : Exact sequence? sequence := by
  intro e elements h
  rw [sequence?] at h
  split at h
  · rename_i htag
    rw [sequence, ← htag]
    exact ofElements_of_elements? h
  · cases h

theorem explicit_of_explicit? (n : TagNumber) : Exact (explicit? n) (explicit n) := by
  intro e inner h
  rw [explicit?] at h
  split at h
  · rename_i htag
    split at h
    · rename_i hinner
      obtain rfl := Option.some.inj h
      rw [explicit, ← htag]
      exact ofElements_of_elements? hinner
    · cases h
  · cases h

namespace Exact

variable {α : Type} {ofElement? : Element → Option α} {toElement : α → Element}

theorem sequenceOf (h : Exact ofElement? toElement) :
    Exact (sequenceOf? ofElement?) (Element.sequenceOf toElement) := by
  intro e values hread
  obtain ⟨members, hmembers, hvalues⟩ := Option.bind_eq_some_iff.mp hread
  rw [Element.sequenceOf, map_eq_of_mapM_eq_some h hvalues]
  exact sequence_of_sequence? e members hmembers

theorem map_of_mapM_option (h : Exact ofElement? toElement) {field : Option Element}
    {value : Option α} (hread : field.mapM ofElement? = some value) :
    value.map toElement = field := by
  cases field with
  | none =>
      obtain rfl := Option.some.inj hread
      rfl
  | some e =>
      rw [Option.mapM_some, Option.map_eq_map, Option.map_eq_some_iff] at hread
      obtain ⟨a, ha, rfl⟩ := hread
      exact congrArg some (h e a ha)

/-- Reading and writing under an implicit tag, for values that are written as a type of their
own. -/
theorem implicit (h : Exact ofElement? toElement) (n : TagNumber) {type : UniversalType} :
    Exact (fun e => do ofElement? (← e.implicit? n type))
      (fun a => Element.implicit n (toElement a)) := by
  intro e a hread
  obtain ⟨inner, hinner, hone⟩ := Option.bind_eq_some_iff.mp hread
  rw [implicit?] at hinner
  split at hinner
  · rename_i htag
    obtain rfl := Option.some.inj hinner
    have hinner : toElement a = ⟨.universal type, e.content⟩ := h _ a hone
    have htagged : Element.implicit n (toElement a) =
        ⟨.context type.isConstructed n, e.content⟩ := by
      rw [hinner]
      rfl
    rw [← htag] at htagged
    exact htagged
  · cases hinner

end Exact

/-! ## Values of single elements -/

theorem integer_of_integer? : Exact integer? integer := by
  intro e z h
  rw [integer?] at h
  split at h
  · rename_i htag
    rw [Integer.ofContent?] at h
    split at h
    · rename_i hminimal
      obtain rfl := Option.some.inj h
      rw [integer, Integer.content_value hminimal, ← htag]
    · cases h
  · cases h

theorem integer_of_natural? : Exact natural? (fun n => integer n) := by
  intro e n h
  obtain ⟨z, hz, hnat⟩ := Option.bind_eq_some_iff.mp h
  cases z with
  | ofNat m =>
      obtain rfl : m = n := Option.some.inj hnat
      exact integer_of_integer? e (.ofNat m) hz
  | negSucc m => cases hnat

theorem boolean_of_boolean? : Exact boolean? boolean := by
  intro e b h
  rw [boolean?] at h
  split at h
  · rename_i htag
    split at h
    · rename_i hcontent
      obtain rfl := Option.some.inj h
      rw [boolean, ← htag]
      exact congrArg (mk e.tag) hcontent.symm
    · rename_i hcontent
      obtain rfl := Option.some.inj h
      rw [boolean, ← htag]
      exact congrArg (mk e.tag) hcontent.symm
    · cases h
  · cases h

theorem octetString_of_octetString? : Exact octetString? octetString := by
  intro e octets h
  rw [octetString?] at h
  split at h
  · rename_i htag
    obtain rfl := Option.some.inj h
    rw [octetString, ← htag]
  · cases h

theorem bitString_of_bitString? : Exact bitString? bitString := by
  intro e s h
  rw [bitString?] at h
  split at h
  · rename_i htag
    cases hcontent : e.content with
    | nil =>
        rw [hcontent] at h
        cases h
    | cons unused octets =>
        rw [hcontent, BitString.ofContent?] at h
        split at h
        · obtain rfl := Option.some.inj h
          rw [bitString, BitString.content, ← htag, ← hcontent]
        · cases h
  · cases h

end Element

theorem Time.toElement_of_ofElement? : Element.Exact Time.ofElement? Time.toElement := by
  intro e t h
  have hdigits : ∀ form : TimeForm,
      (do
        let date ← dateTime? form e.content
        if date.isValid then some (Time.mk form e.content) else none) = some t →
      t = ⟨form, e.content⟩ := by
    intro form hdate
    obtain ⟨date, -, hdate⟩ := Option.bind_eq_some_iff.mp hdate
    split at hdate
    · exact (Option.some.inj hdate).symm
    · cases hdate
  rw [ofElement?] at h
  split at h
  · rename_i htag
    rw [hdigits .utc h, toElement, TimeForm.universal, ← htag]
  · split at h
    · rename_i htag
      rw [hdigits .generalized h, toElement, TimeForm.universal, ← htag]
    · cases h

end Pkix.Der

namespace Pkix

open Der

/-- The content of an identifier is kept as it is, whatever its arcs are. -/
theorem Oid.toElement_of_ofElement? : Element.Exact Oid.ofElement? Oid.toElement := by
  intro e oid h
  rw [ofElement?] at h
  split at h
  · rename_i htag
    rw [ofContent?] at h
    split at h
    · obtain rfl := Option.some.inj h
      rw [toElement, ← htag]
    · cases h
  · cases h

namespace Message

variable {α : Type} {ofElement? : Element → Option α} {toElement : α → Element}

/-- A message with an exact reader is what its value is written as. -/
theorem write_of_read (h : Element.Exact ofElement? toElement) {octets : Octets} {a : α}
    (hread : read ofElement? octets = .ok a) : write (toElement a) = .ok octets := by
  obtain ⟨e, hwrite, he⟩ := read_eq_ok_iff.mp hread
  rw [h e a he]
  exact hwrite

end Message

end Pkix
