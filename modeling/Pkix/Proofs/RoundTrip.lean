import Pkix.Proofs.Der.Element

/-!
# Writing and reading back

A value is written in two steps, to its wire form and to an element, and read back in two. What was
written need not be readable, and need not come back as it was. A *round trip* says of one type which
values can be read once they are written, and what they are then read as; lists and messages of such
values have round trips of their own.
-/

namespace Pkix

open Der

variable {α β : Type}

/-- What becomes of the values of a type when they are written and read: exactly those that are
`Readable` can be read, and they are read as `asRead` tells. -/
structure RoundTrip (toWire : α → Except Error β) (toElement : β → Element)
    (ofElement? : Element → Option β) (ofWire : β → Except Error α) (Readable : α → Prop)
    (asRead : α → α) : Prop where
  read : ∀ {a w}, toWire a = .ok w → (toElement w).Fits → Readable a →
    ofElement? (toElement w) = some w
  readable : ∀ {a w w'}, toWire a = .ok w → (toElement w).Fits →
    ofElement? (toElement w) = some w' → Readable a
  back : ∀ {a w}, toWire a = .ok w → (toElement w).Fits → ofWire w = .ok (asRead a)

namespace RoundTrip

variable {toWire : α → Except Error β} {toElement : β → Element}
  {ofElement? : Element → Option β} {ofWire : β → Except Error α} {Readable : α → Prop}
  {asRead : α → α}

/-- A list is read member by member, so that one that cannot be read spoils it. -/
theorem list (h : RoundTrip toWire toElement ofElement? ofWire Readable asRead) :
    RoundTrip (List.mapM toWire) (Element.sequenceOf toElement) (Element.sequenceOf? ofElement?)
      (List.mapM ofWire) (fun as => ∀ a ∈ as, Readable a) (List.map asRead) := by
  constructor
  · intro as ws hws hfits hall
    apply Element.sequenceOf?_sequenceOf hfits
    intro w hw hone
    obtain ⟨a, ha, hwritten⟩ := exists_of_mem_mapM hws hw
    exact h.read hwritten hone (hall a ha)
  · intro as ws ws' hws hfits hread a ha
    obtain ⟨w, hw, hwritten⟩ := exists_of_mem_left (mapM_eq_ok_iff.mp hws) ha
    obtain ⟨w', hw'⟩ := Element.exists_of_sequenceOf?_sequenceOf hfits hread hw
    exact h.readable hwritten (hfits.of_mem (List.mem_map.mpr ⟨w, hw, rfl⟩)) hw'
  · intro as ws hws hfits
    apply mapM_eq_ok_map_of_mapM_eq_ok hws
    intro a _ w hw hwritten
    exact h.back hwritten (hfits.of_mem (List.mem_map.mpr ⟨w, hw, rfl⟩))

/-- A message is refused as one that does not follow the rules if its value cannot be read. -/
theorem message (h : RoundTrip toWire toElement ofElement? ofWire Readable asRead) {a : α}
    [Decidable (Readable a)] {octets : Octets}
    (hwrite : (do Message.write (toElement (← toWire a))) = Except.ok octets) :
    (Message.read ofElement? octets >>= ofWire) =
      if Readable a then .ok (asRead a) else .error .decoding := by
  obtain ⟨w, hw, hwrite⟩ := bind_eq_ok_iff.mp hwrite
  have hfits := Element.fits_of_octets (Message.write_eq_ok_iff.mp hwrite).1
  rw [Message.read_eq_of_write hwrite]
  by_cases hreadable : Readable a
  · rw [if_pos hreadable, h.read hw hfits hreadable]
    exact h.back hw hfits
  · -- Whatever is read as a wire form converts, so only reading the element can fail.
    have hnone : ofElement? (toElement w) = none := by
      rw [Option.eq_none_iff_forall_ne_some]
      intro w' hw'
      exact hreadable (h.readable hw hfits hw')
    rw [if_neg hreadable, hnone]
    rfl

end RoundTrip

/-- What is read from a message that holds a list is read from the members of the list. -/
theorem exists_of_mem_of_read {ofElement? : Element → Option β} {ofWire : β → Except Error α}
    {octets : Octets} {ws : List β} {as : List α}
    (hread : Message.read (Element.sequenceOf? ofElement?) octets = .ok ws)
    (hback : ws.mapM ofWire = .ok as) {a : α} (ha : a ∈ as) :
    ∃ e w, ofElement? e = some w ∧ ofWire w = .ok a := by
  obtain ⟨e, he⟩ := Message.exists_of_read hread
  obtain ⟨w, hw, hone⟩ := exists_of_mem_mapM hback ha
  obtain ⟨member, hmember⟩ := Element.exists_of_mem_sequenceOf? he hw
  exact ⟨member, w, hmember, hone⟩

end Pkix
