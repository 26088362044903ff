import Pkix.Der.Order
import Pkix.Oid.Basic

/-!
# Names on the wire

A name is a sequence of relative names, each a set of attributes. The members of a set stand in
ascending order of their encodings and no two are equal, which is part of the type. A set is made of
attributes in any order, by putting one after the other into its place; one that is there already
cannot be put in.
-/

namespace Pkix.Wire

open Der

/-- An attribute type with a value of any type. -/
structure Attribute where
  type : Oid
  value : Element
  deriving DecidableEq

namespace Attribute

def toElement (a : Attribute) : Element :=
  .sequence [a.type.toElement, a.value]

def ofElement? (e : Element) : Option Attribute := do
  match ← e.sequence? with
  | [type, value] => return ⟨← Oid.ofElement? type, value⟩
  | _ => none

def octets (a : Attribute) : Octets :=
  a.toElement.octets

/-- The order that attributes stand in: by the octets of their lengths, then by their types, then by
their values. Attributes that are too long to have a length are ordered octet by octet. -/
def compare (a b : Attribute) : Ordering :=
  if a.toElement.Fits ∧ b.toElement.Fits then
    (Ord.compare (lengthOctets a.toElement.content.length)
        (lengthOctets b.toElement.content.length)).then <|
      (a.type.toElement.compare b.type.toElement).then (a.value.compare b.value)
  else Ord.compare a.octets b.octets

theorem content_toElement (a : Attribute) :
    a.toElement.content = a.type.toElement.octets ++ a.value.octets := by
  simp [toElement, Element.sequence, Element.ofElements]

/-- The order that is decided part by part is the order of the encodings. -/
theorem compare_eq (a b : Attribute) : a.compare b = Ord.compare a.octets b.octets := by
  rw [compare]
  split
  · rename_i hfits
    obtain ⟨ha, hb⟩ := hfits
    have htype : a.type.toElement.Fits := ha.of_mem (by simp)
    have htype' : b.type.toElement.Fits := hb.of_mem (by simp)
    have hvalue : a.value.Fits := ha.of_mem (by simp)
    have hvalue' : b.value.Fits := hb.of_mem (by simp)
    have htypes : ∀ rest rest', a.type.toElement.octets ++ rest =
        b.type.toElement.octets ++ rest' → a.type.toElement.octets = b.type.toElement.octets :=
      fun _ _ heq => congrArg Element.octets (Element.octets_append_inj htype htype' heq).1
    have hcontents : Ord.compare a.toElement.content b.toElement.content =
        (a.type.toElement.compare b.type.toElement).then (a.value.compare b.value) := by
      rw [content_toElement, content_toElement, Octets.compare_append htypes,
        Element.compare_eq htype htype', Element.compare_eq hvalue hvalue']
    have htags : Ord.compare a.toElement.tag.octet b.toElement.tag.octet = .eq :=
      Std.compare_eq_iff_eq.mpr rfl
    rw [← hcontents, octets, octets, ← Element.compare_eq ha hb, Element.compare, htags]
    rfl
  · rfl

end Attribute

/-- A relative name: a set of attributes. -/
structure Rdn where
  attributes : List Attribute
  ascending : attributes.Pairwise (·.octets < ·.octets)
  deriving DecidableEq

namespace Rdn

def singleton (a : Attribute) : Rdn :=
  ⟨[a], List.pairwise_singleton _ _⟩

/-- A list with an attribute before the first one that comes after it; `none` when an equal one is
met first. -/
def place? (a : Attribute) : List Attribute → Option (List Attribute)
  | [] => some [a]
  | b :: rest =>
    match a.compare b with
    | .lt => some (a :: b :: rest)
    | .eq => none
    | .gt => (place? a rest).map (b :: ·)

theorem perm_of_place? {a : Attribute} {attributes placed : List Attribute}
    (h : place? a attributes = some placed) : placed.Perm (a :: attributes) := by
  induction attributes generalizing placed with
  | nil =>
    obtain rfl := Option.some.inj h
    exact .refl _
  | cons b rest ih =>
    rw [place?] at h
    split at h
    · obtain rfl := Option.some.inj h
      exact .refl _
    · cases h
    · obtain ⟨placed, hplaced, rfl⟩ := Option.map_eq_some_iff.mp h
      exact ((ih hplaced).cons b).trans (.swap a b rest)

/-- An attribute that is put into an ascending list leaves it ascending. -/
theorem ascending_of_place? {a : Attribute} {attributes placed : List Attribute}
    (h : place? a attributes = some placed) (hasc : attributes.Pairwise (·.octets < ·.octets)) :
    placed.Pairwise (·.octets < ·.octets) := by
  induction attributes generalizing placed with
  | nil =>
    obtain rfl := Option.some.inj h
    exact List.pairwise_singleton _ _
  | cons b rest ih =>
    obtain ⟨hb, hrest⟩ := List.pairwise_cons.mp hasc
    rw [place?, Attribute.compare_eq] at h
    split at h
    · rename_i hlt
      obtain rfl := Option.some.inj h
      have hab := Octets.compare_eq_lt_iff.mp hlt
      exact .cons (List.forall_mem_cons.mpr ⟨hab, fun c hc => List.lt_trans hab (hb c hc)⟩) hasc
    · cases h
    · rename_i hgt
      obtain ⟨placed, hplaced, rfl⟩ := Option.map_eq_some_iff.mp h
      have hba := Octets.compare_eq_lt_iff.mp (Std.OrientedCmp.lt_of_gt hgt)
      refine .cons (fun c hc => ?_) (ih hplaced hrest)
      rcases List.mem_cons.mp ((perm_of_place? hplaced).mem_iff.mp hc) with rfl | hc
      · exact hba
      · exact hb c hc

def empty : Rdn := ⟨[], .nil⟩

/-- The set with one more attribute; `none` when it is there already. -/
def insert? (rdn : Rdn) (a : Attribute) : Option Rdn :=
  match h : place? a rdn.attributes with
  | some attributes => some ⟨attributes, ascending_of_place? h rdn.ascending⟩
  | none => none

/-- The set of the given attributes; `none` when two are equal. -/
def ofList? (attributes : List Attribute) : Option Rdn :=
  attributes.foldlM insert? empty

def toElement (rdn : Rdn) : Element :=
  .ofElements (.universal .set) (rdn.attributes.map Attribute.toElement)

/-- The relative name whose members are the given elements. -/
def ofElements? (elements : List Element) : Option Rdn := do
  ofList? (← elements.mapM Attribute.ofElement?)

def ofElement? (e : Element) : Option Rdn := do
  if e.tag = .universal .set then ofElements? (← Element.elements? e.content) else none

end Rdn

/-- A name: relative names from the root on. -/
abbrev Name := List Rdn

namespace Name

def toElement (name : Name) : Element :=
  .sequenceOf Rdn.toElement name

def ofElement? (e : Element) : Option Name :=
  e.sequenceOf? Rdn.ofElement?

end Name

end Pkix.Wire
