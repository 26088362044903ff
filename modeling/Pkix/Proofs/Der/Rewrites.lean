import Pkix.Proofs.Der.Exact

/-!
# Values that can be written again

A reader that accepts more than what is written, such as a flag that could be left out, a set in any
order or a field that is passed over, still gives values that can be written: in no more octets than
they were read from, and so that they are read as they are. This passes from the members of a
sequence to the sequence, from a field to an optional or tagged one, and to whole messages, where it
means that what was read is never too long to be written.
-/

namespace Pkix.Der.Element

/-! ## Lengths -/

/-- The number of octets of a series of elements. -/
def seriesLength (elements : List Element) : Nat := (elements.flatMap octets).length

@[simp] theorem seriesLength_nil : seriesLength [] = 0 := rfl

@[simp] theorem seriesLength_cons (e : Element) (rest : List Element) :
    seriesLength (e :: rest) = e.octets.length + seriesLength rest := by
  simp [seriesLength]

@[simp] theorem seriesLength_append (elements elements' : List Element) :
    seriesLength (elements ++ elements') = seriesLength elements + seriesLength elements' := by
  simp [seriesLength]

theorem seriesLength_perm {elements elements' : List Element} (h : elements.Perm elements') :
    seriesLength elements = seriesLength elements' :=
  (h.flatMap_right octets).length_eq

theorem length_octets_le {e e' : Element} (h : e.content.length ≤ e'.content.length) :
    e.octets.length ≤ e'.octets.length := by
  have hmono := length_lengthOctets_mono h
  simp only [octets, List.length_cons, List.length_append]
  omega

/-- A sequence of fields is no longer than one that was read if its fields are not. -/
theorem length_sequence_le {e : Element} {fields fields' : List Element}
    (h : e.sequence? = some fields) (hle : seriesLength fields' ≤ seriesLength fields) :
    (sequence fields').octets.length ≤ e.octets.length := by
  rw [← sequence_of_sequence? e fields h]
  exact length_octets_le hle

/-- What is passed over when a field is taken off is lost, so that the parts may be shorter. -/
theorem seriesLength_takeContext {n : TagNumber} {fields rest : List Element}
    {field : Option Element} (h : takeContext n fields = (field, rest)) :
    seriesLength field.toList + seriesLength rest ≤ seriesLength fields := by
  induction fields with
  | nil =>
      obtain ⟨rfl, rfl⟩ := Prod.mk.inj h
      exact Nat.le_refl _
  | cons e fields ih =>
      rw [takeContext] at h
      split at h
      · split at h
        · have hrest := ih h
          rw [seriesLength_cons]
          omega
        · split at h
          · obtain ⟨rfl, rfl⟩ := Prod.mk.inj h
            simp
          · obtain ⟨rfl, rfl⟩ := Prod.mk.inj h
            simp
      · obtain ⟨rfl, rfl⟩ := Prod.mk.inj h
        simp

theorem seriesLength_takeTagged {tags : List Tag} {fields rest : List Element}
    {field : Option Element} (h : takeTagged tags fields = (field, rest)) :
    seriesLength field.toList + seriesLength rest = seriesLength fields := by
  cases fields with
  | nil =>
      obtain ⟨rfl, rfl⟩ := Prod.mk.inj h
      rfl
  | cons e fields =>
      rw [takeTagged] at h
      split at h
      · obtain ⟨rfl, rfl⟩ := Prod.mk.inj h
        simp
      · obtain ⟨rfl, rfl⟩ := Prod.mk.inj h
        simp

/-! ## Writing again -/

/-- Whether every value that is read can be written in no more octets than it was read from, and is
then read as itself. -/
structure Rewrites {α : Type} (ofElement? : Element → Option α) (toElement : α → Element) :
    Prop where
  length_le : ∀ {e a}, ofElement? e = some a → (toElement a).octets.length ≤ e.octets.length
  again : ∀ {e a}, ofElement? e = some a → (toElement a).Fits →
    ofElement? (toElement a) = some a

variable {α : Type} {ofElement? : Element → Option α} {toElement : α → Element}

theorem Exact.rewrites (h : Exact ofElement? toElement) : Rewrites ofElement? toElement where
  length_le hread := Nat.le_of_eq (by rw [h _ _ hread])
  again hread _ := by rw [h _ _ hread, hread]

namespace Rewrites

theorem sequenceOf (h : Rewrites ofElement? toElement) :
    Rewrites (sequenceOf? ofElement?) (Element.sequenceOf toElement) := by
  constructor
  · intro e values hread
    obtain ⟨members, hmembers, hvalues⟩ := Option.bind_eq_some_iff.mp hread
    apply length_sequence_le hmembers
    rw [mapM_eq_some_iff] at hvalues
    clear hmembers hread
    induction hvalues with
    | nil => exact Nat.le_refl _
    | cons hone _ ih =>
        rw [List.map_cons, seriesLength_cons, seriesLength_cons]
        exact Nat.add_le_add (h.length_le hone) ih
  · intro e values hread hfits
    apply sequenceOf?_sequenceOf hfits
    intro a ha hone
    obtain ⟨member, hmember⟩ := exists_of_mem_sequenceOf? hread ha
    exact h.again hmember hone

theorem explicit (h : Rewrites ofElement? toElement) (n : TagNumber) :
    Rewrites (fun e => do ofElement? (← e.explicit? n))
      (fun a => Element.explicit n (toElement a)) := by
  constructor
  · intro e a hread
    obtain ⟨inner, hinner, hone⟩ := Option.bind_eq_some_iff.mp hread
    rw [← explicit_of_explicit? n e inner hinner]
    apply length_octets_le
    show seriesLength [toElement a] ≤ seriesLength [inner]
    simpa using h.length_le hone
  · intro e a hread hfits
    obtain ⟨inner, hinner, hone⟩ := Option.bind_eq_some_iff.mp hread
    show (do ofElement? (← (Element.explicit n (toElement a)).explicit? n)) = some a
    rw [explicit?_explicit hfits]
    exact h.again hone hfits.of_explicit

/-- The members of a sequence may be gathered in a structure of their own: one that is taken off
them, and read as a value whose own fields are no longer and read the same way. -/
theorem of_fields {φ : Type} {elements : φ → List Element} {TakenOff : φ → List Element → Prop}
    {ReadAs : φ → α → Prop} {fields : α → φ}
    (hread : ∀ e a, ofElement? e = some a ↔
      ∃ all f, e.sequence? = some all ∧ TakenOff f all ∧ ReadAs f a)
    (hwrite : ∀ a, toElement a = sequence (elements (fields a)))
    (htaken : ∀ a, TakenOff (fields a) (elements (fields a)))
    (hpassed : ∀ {f all}, TakenOff f all → seriesLength (elements f) ≤ seriesLength all)
    (hle : ∀ {f a}, ReadAs f a → seriesLength (elements (fields a)) ≤ seriesLength (elements f))
    (hagain : ∀ {f a}, ReadAs f a → (∀ e ∈ elements (fields a), e.Fits) → ReadAs (fields a) a) :
    Rewrites ofElement? toElement := by
  constructor
  · intro e a h
    obtain ⟨all, f, hall, htakenOff, hreadAs⟩ := (hread e a).mp h
    rw [hwrite]
    apply length_sequence_le hall
    exact Nat.le_trans (hle hreadAs) (hpassed htakenOff)
  · intro e a h hfits
    obtain ⟨all, f, -, -, hreadAs⟩ := (hread e a).mp h
    rw [hwrite] at hfits ⊢
    apply (hread _ a).mpr
    refine ⟨elements (fields a), fields a, sequence?_sequence hfits, htaken a, ?_⟩
    apply hagain hreadAs
    intro e' he'
    exact hfits.of_mem he'

variable {field : Option Element} {value : Option α}

theorem seriesLength_option (h : Rewrites ofElement? toElement)
    (hread : field.mapM ofElement? = some value) :
    seriesLength (value.map toElement).toList ≤ seriesLength field.toList := by
  cases field with
  | none =>
      obtain rfl := Option.some.inj hread
      exact Nat.le_refl _
  | some e =>
      rw [Option.mapM_some, Option.map_eq_map, Option.map_eq_some_iff] at hread
      obtain ⟨a, ha, rfl⟩ := hread
      simpa using h.length_le ha

theorem mapM_option (h : Rewrites ofElement? toElement)
    (hread : field.mapM ofElement? = some value) (hfits : ∀ a ∈ value, (toElement a).Fits) :
    (value.map toElement).mapM ofElement? = some value := by
  rw [option_mapM_map fun _ _ => rfl]
  apply option_mapM_self
  intro a ha
  obtain ⟨e, he⟩ := exists_of_option_mapM hread ha
  exact h.again he (hfits a ha)

end Rewrites

end Pkix.Der.Element

namespace Pkix.Message

open Der

/-- A message that was read can be written again, as one that is read as the same value. -/
theorem exists_write_of_read {α : Type} {ofElement? : Element → Option α} {toElement : α → Element}
    (h : Element.Rewrites ofElement? toElement) {octets : Octets} {a : α}
    (hread : read ofElement? octets = .ok a) :
    ∃ octets', write (toElement a) = .ok octets' ∧ octets'.length ≤ octets.length ∧
      read ofElement? octets' = .ok a := by
  obtain ⟨e, hwrite, he⟩ := read_eq_ok_iff.mp hread
  obtain ⟨hlength, rfl⟩ := write_eq_ok_iff.mp hwrite
  have hle := h.length_le he
  have hagain : write (toElement a) = .ok (toElement a).octets :=
    write_eq_ok_iff.mpr ⟨Nat.le_trans hle hlength, rfl⟩
  exact ⟨_, hagain, hle, read_of_write hagain (h.again he)⟩

end Pkix.Message
