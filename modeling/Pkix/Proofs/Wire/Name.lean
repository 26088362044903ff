import Pkix.Proofs.Der.Element
import Pkix.Wire.Name

/-!
# Names on the wire come back

A relative name is the ascending arrangement of its attributes, of which no two are equal. Names are
read as they were written when the types of their attributes are identifiers that can be read.
-/

namespace Pkix

open Der

@[simp] theorem Oid.tag_toElement (oid : Oid) :
    oid.toElement.tag = .universal .objectIdentifier := rfl

theorem Oid.ofElement?_toElement {oid : Oid} (h : isReadable oid.octets = true) :
    ofElement? oid.toElement = some oid := by
  rw [ofElement?, if_pos oid.tag_toElement, toElement, ofContent?, if_pos h]

theorem Oid.isReadable_of_ofElement?_toElement {oid oid' : Oid}
    (h : ofElement? oid.toElement = some oid') : isReadable oid.octets = true := by
  rw [ofElement?, if_pos oid.tag_toElement, ofContent?] at h
  split at h
  · assumption
  · cases h

theorem Oid.fits_toElement {oid : Oid} (h : isReadable oid.octets = true) :
    oid.toElement.Fits := by
  simp only [isReadable, Bool.and_eq_true, decide_eq_true_eq] at h
  exact Nat.le_trans h.1.2 (by decide)

theorem Oid.isReadable_of_ofElement? {e : Element} {oid : Oid} (h : ofElement? e = some oid) :
    isReadable oid.octets = true := by
  rw [ofElement?] at h
  split at h
  · rw [ofContent?] at h
    split at h
    · rename_i hread
      rw [← Option.some.inj h]
      exact hread
    · cases h
  · cases h

namespace Wire

namespace Attribute

/-- Whether the type of an attribute can be read. -/
def Readable (a : Attribute) : Prop := Oid.isReadable a.type.octets = true

theorem ofElement?_toElement {a : Attribute} (h : a.Readable) (hfits : a.toElement.Fits) :
    ofElement? a.toElement = some a := by
  rw [ofElement?, toElement, Element.sequence?_sequence hfits]
  simp [Oid.ofElement?_toElement h]

theorem readable_of_ofElement? {e : Element} {a : Attribute} (h : ofElement? e = some a) :
    a.Readable := by
  obtain ⟨fields, -, h⟩ := Option.bind_eq_some_iff.mp h
  split at h
  · obtain ⟨type, htype, h⟩ := Option.bind_eq_some_iff.mp h
    obtain rfl := Option.some.inj h
    exact Oid.isReadable_of_ofElement? htype
  · cases h

/-- The encoding of an attribute determines it. -/
theorem eq_of_octets_eq {a b : Attribute} (ha : a.Readable) (hb : b.Readable)
    (h : a.octets = b.octets) : a = b := by
  have hcontent := congrArg Element.content (Element.octets_injective h)
  rw [content_toElement, content_toElement] at hcontent
  obtain ⟨htype, hvalue⟩ :=
    Element.octets_append_inj (Oid.fits_toElement ha) (Oid.fits_toElement hb) hcontent
  have hoid : a.type.octets = b.type.octets := congrArg Element.content htype
  have helement := Element.octets_injective hvalue
  obtain ⟨⟨_⟩, _⟩ := a
  obtain ⟨⟨_⟩, _⟩ := b
  simp_all

end Attribute

namespace Rdn

/-! ## Sets of attributes -/

/-- An attribute is put into a list unless its encoding is there. -/
theorem exists_place?_iff {a : Attribute} {attributes : List Attribute}
    (h : attributes.Pairwise (·.octets < ·.octets)) :
    (∃ placed, place? a attributes = some placed) ↔ ∀ b ∈ attributes, b.octets ≠ a.octets := by
  induction attributes with
  | nil => simp [place?]
  | cons b rest ih =>
      obtain ⟨hb, hrest⟩ := List.pairwise_cons.mp h
      rw [place?, Attribute.compare_eq, List.forall_mem_cons]
      cases hcompare : compare a.octets b.octets with
      | lt =>
          have hab := Octets.compare_eq_lt_iff.mp hcompare
          refine iff_of_true ⟨_, rfl⟩ ⟨(Octets.ne_of_lt hab).symm, fun c hc => ?_⟩
          exact (Octets.ne_of_lt (List.lt_trans hab (hb c hc))).symm
      | eq =>
          have hab := Std.compare_eq_iff_eq.mp hcompare
          exact iff_of_false (by simp) fun hne => hne.1 hab.symm
      | gt =>
          have hba := Octets.compare_eq_lt_iff.mp (Std.OrientedCmp.lt_of_gt hcompare)
          have hplaced : (∃ placed, (place? a rest).map (b :: ·) = some placed) ↔
              ∃ placed, place? a rest = some placed := by
            simp [Option.map_eq_some_iff]
          rw [hplaced, ih hrest]
          exact (and_iff_right (Octets.ne_of_lt hba)).symm

/-- The order of a set is known from its members. -/
theorem eq_of_perm {rdn rdn' : Rdn} (h : rdn.attributes.Perm rdn'.attributes) : rdn = rdn' := by
  have hsame : rdn.attributes = rdn'.attributes :=
    h.eq_of_pairwise (fun _ _ _ _ hab hba => absurd (List.lt_trans hab hba) (List.lt_irrefl _))
      rdn.ascending rdn'.ascending
  cases rdn
  cases rdn'
  simp_all

theorem nodup_octets (rdn : Rdn) : (rdn.attributes.map Attribute.octets).Nodup :=
  List.pairwise_map.mpr (rdn.ascending.imp Octets.ne_of_lt)

theorem insert?_eq_some_iff {rdn rdn' : Rdn} {a : Attribute} :
    rdn.insert? a = some rdn' ↔ place? a rdn.attributes = some rdn'.attributes := by
  rw [insert?]
  split
  · rename_i placed hplaced
    cases rdn'
    simp [hplaced]
  · rename_i hnone
    simp [hnone]

theorem exists_insert?_iff {rdn : Rdn} {a : Attribute} :
    (∃ rdn', rdn.insert? a = some rdn') ↔ ∀ b ∈ rdn.attributes, b.octets ≠ a.octets := by
  rw [← exists_place?_iff rdn.ascending]
  simp only [insert?_eq_some_iff]
  constructor
  · rintro ⟨rdn', h⟩
    exact ⟨_, h⟩
  · rintro ⟨placed, h⟩
    exact ⟨⟨placed, ascending_of_place? h rdn.ascending⟩, h⟩

/-- A set takes in an attribute if there is a set with both and whatever more. -/
theorem exists_insert?_of_perm {rdn rdn' : Rdn} {a : Attribute} {rest : List Attribute}
    (h : rdn'.attributes.Perm (a :: (rdn.attributes ++ rest))) :
    ∃ next, rdn.insert? a = some next := by
  have hnodup := (h.map Attribute.octets).nodup_iff.mp rdn'.nodup_octets
  rw [List.map_cons, List.nodup_cons, List.mem_map] at hnodup
  exact exists_insert?_iff.mpr fun b hb heq => hnodup.1 ⟨b, List.mem_append_left rest hb, heq⟩

/-- What one more attribute makes of a set is the set with that member. -/
theorem insert?_eq_some_iff_perm {rdn rdn' : Rdn} {a : Attribute} :
    rdn.insert? a = some rdn' ↔ rdn'.attributes.Perm (a :: rdn.attributes) := by
  constructor
  · intro h
    exact perm_of_place? (insert?_eq_some_iff.mp h)
  · intro hperm
    have hmembers : rdn'.attributes.Perm (a :: (rdn.attributes ++ [])) := by
      rwa [List.append_nil]
    obtain ⟨next, hnext⟩ := exists_insert?_of_perm hmembers
    have hnext' := perm_of_place? (insert?_eq_some_iff.mp hnext)
    rw [hnext, eq_of_perm (hnext'.trans hperm.symm)]

theorem foldlM_insert?_eq_some_iff {attributes : List Attribute} {rdn rdn' : Rdn} :
    attributes.foldlM insert? rdn = some rdn' ↔
      rdn'.attributes.Perm (rdn.attributes ++ attributes) := by
  induction attributes generalizing rdn with
  | nil =>
      rw [List.foldlM_nil, List.append_nil]
      constructor
      · intro h
        rw [Option.some.inj h]
      · intro hperm
        exact congrArg some (eq_of_perm hperm).symm
  | cons a rest ih =>
      rw [List.foldlM_cons, Option.bind_eq_bind, Option.bind_eq_some_iff]
      simp only [ih, insert?_eq_some_iff_perm]
      constructor
      · rintro ⟨next, hnext, hperm⟩
        exact (hperm.trans (hnext.append_right rest)).trans List.perm_middle.symm
      · intro hperm
        have hmiddle := hperm.trans List.perm_middle
        obtain ⟨next, hnext⟩ := exists_insert?_of_perm hmiddle
        have hmembers := insert?_eq_some_iff_perm.mp hnext
        exact ⟨next, hmembers, hmiddle.trans (hmembers.symm.append_right rest)⟩

/-- A set is made of attributes exactly if they are its members, in whatever order. -/
theorem ofList?_eq_some_iff {attributes : List Attribute} {rdn : Rdn} :
    ofList? attributes = some rdn ↔ rdn.attributes.Perm attributes :=
  foldlM_insert?_eq_some_iff

/-- The members of a set make the set again. -/
theorem ofList?_attributes (rdn : Rdn) : ofList? rdn.attributes = some rdn :=
  ofList?_eq_some_iff.mpr (.refl _)

/-- The order that the members of a set stand in. -/
abbrev order (a b : Attribute) : Bool := decide (a.octets ≤ b.octets)

theorem order_trans (a b c : Attribute) (hab : order a b = true) (hbc : order b c = true) :
    order a c = true := by
  simp only [order, decide_eq_true_eq] at *
  exact List.le_trans hab hbc

theorem order_total (a b : Attribute) : (order a b || order b a) = true := by
  simpa [order] using List.le_total a.octets b.octets

theorem ascending_mergeSort {attributes : List Attribute}
    (h : (attributes.map Attribute.octets).Nodup) :
    (attributes.mergeSort order).Pairwise (·.octets < ·.octets) := by
  have hnodup := ((List.mergeSort_perm attributes order).map Attribute.octets).nodup_iff.mpr h
  have hle := List.pairwise_mergeSort order_trans order_total attributes
  refine hle.imp₂ ?_ (List.pairwise_map.mp hnodup)
  intro a b hab hne
  exact (List.le_iff_lt_or_eq.mp (of_decide_eq_true hab)).resolve_right hne

/-- A set can be made of attributes exactly if their encodings differ. -/
theorem exists_ofList?_eq_some_iff {attributes : List Attribute} :
    (∃ rdn, ofList? attributes = some rdn) ↔ (attributes.map Attribute.octets).Nodup := by
  simp only [ofList?_eq_some_iff]
  constructor
  · rintro ⟨rdn, hperm⟩
    exact (hperm.map _).nodup_iff.mp rdn.nodup_octets
  · intro hnodup
    exact ⟨⟨_, ascending_mergeSort hnodup⟩, List.mergeSort_perm _ _⟩

theorem attributes_eq_mergeSort {attributes : List Attribute} {rdn : Rdn}
    (h : ofList? attributes = some rdn) : rdn.attributes = attributes.mergeSort order := by
  have hnodup := exists_ofList?_eq_some_iff.mp ⟨rdn, h⟩
  have hperm := (ofList?_eq_some_iff.mp h).trans (List.mergeSort_perm attributes order).symm
  have hsorted : rdn = ⟨_, ascending_mergeSort hnodup⟩ := eq_of_perm hperm
  exact congrArg Rdn.attributes hsorted

/-! ## Reading -/

/-- Whether the types of all attributes can be read. -/
def Readable (rdn : Rdn) : Prop := ∀ a ∈ rdn.attributes, a.Readable

@[simp] theorem tag_toElement (rdn : Rdn) : rdn.toElement.tag = .universal .set := rfl

theorem ofElement?_toElement {rdn : Rdn} (h : rdn.Readable) (hfits : rdn.toElement.Fits) :
    ofElement? rdn.toElement = some rdn := by
  have hmembers : (rdn.attributes.map Attribute.toElement).mapM Attribute.ofElement? =
      some rdn.attributes :=
    mapM_map_eq_pure fun a ha =>
      Attribute.ofElement?_toElement (h a ha) (hfits.of_mem (List.mem_map.mpr ⟨a, ha, rfl⟩))
  have hseries : Element.elements? rdn.toElement.content =
      some (rdn.attributes.map Attribute.toElement) := Element.elements?_ofElements hfits
  rw [ofElement?, if_pos (tag_toElement rdn), hseries]
  simp [ofElements?, hmembers, ofList?_attributes]

theorem readable_of_ofElement? {e : Element} {rdn : Rdn} (h : ofElement? e = some rdn) :
    rdn.Readable := by
  rw [ofElement?] at h
  split at h
  · obtain ⟨elements, -, h⟩ := Option.bind_eq_some_iff.mp h
    obtain ⟨attributes, hattributes, hset⟩ := Option.bind_eq_some_iff.mp h
    intro a ha
    rw [(ofList?_eq_some_iff.mp hset).mem_iff] at ha
    obtain ⟨member, -, hmember⟩ := exists_of_mem_right (mapM_eq_some_iff.mp hattributes) ha
    exact Attribute.readable_of_ofElement? hmember
  · cases h

end Rdn

namespace Name

/-- Whether the types of all attributes can be read. -/
def Readable (name : Name) : Prop := ∀ rdn ∈ name, rdn.Readable

theorem ofElement?_toElement {name : Name} (h : name.Readable) (hfits : (toElement name).Fits) :
    ofElement? (toElement name) = some name :=
  Element.sequenceOf?_sequenceOf hfits fun rdn hrdn => Rdn.ofElement?_toElement (h rdn hrdn)

theorem readable_of_ofElement? {e : Element} {name : Name} (h : ofElement? e = some name) :
    name.Readable := by
  intro rdn hrdn
  obtain ⟨member, hmember⟩ := Element.exists_of_mem_sequenceOf? h hrdn
  exact Rdn.readable_of_ofElement? hmember

end Name

end Wire

end Pkix
