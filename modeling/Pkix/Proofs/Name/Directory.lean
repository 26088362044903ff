import Mathlib.Data.List.Nodup
import Pkix.Name.DirectoryName
import Pkix.Proofs.Der.Text
import Pkix.Proofs.Wire.Name

/-!
# Directory names come back

An entry can be written exactly if its value fits the string type of its attribute type, and its
encoding determines it. A name written with one attribute to a relative name comes back as it was. A
name written as a single relative name can be written exactly if it fits and repeats no entry; it
comes back with its entries in the order of their encodings.
-/

namespace Pkix

open Der

theorem AttributeType.isReadable_oid (type : AttributeType) :
    Oid.isReadable type.oid.octets = true := by
  cases type <;> decide

theorem AttributeType.oid_injective : Function.Injective oid := fun s t h => by
  simpa [ofOid?_oid] using congrArg ofOid? h

namespace NameEntry

/-- Whether the value of an entry fits its type: printable characters for countries, qualifiers and
serial numbers, ASCII for mail addresses and domain components, any text for all others. -/
def FitsType (e : NameEntry) : Prop :=
  match e.type with
  | .country | .dnQualifier | .serialNumber => ∀ c ∈ e.value.toList, isPrintable c = true
  | .email | .domainComponent => IsAscii e.value
  | _ => True

theorem admits_iff (e : NameEntry) :
    e.type.stringType.admits e.value = true ↔ e.FitsType := by
  obtain ⟨type, value⟩ := e
  cases type <;> simp [AttributeType.stringType, StringType.admits, FitsType, isIa5, IsAscii]

instance : DecidablePred FitsType := fun e => decidable_of_iff _ e.admits_iff

/-- The attribute that an entry is written as. -/
def written (e : NameEntry) : Wire.Attribute :=
  ⟨e.type.oid, .text e.type.stringType e.value⟩

theorem toWire_eq_ok_iff {e : NameEntry} {a : Wire.Attribute} :
    e.toWire = .ok a ↔ e.FitsType ∧ a = e.written := by
  rw [← admits_iff, toWire]
  by_cases h : e.type.stringType.admits e.value = true <;> simp [h, written, eq_comm]

theorem readable_written (e : NameEntry) : e.written.Readable :=
  e.type.isReadable_oid

/-- What an attribute adds to the entries of a name. -/
def ofAttribute? (a : Wire.Attribute) : Except Error (Option NameEntry) :=
  match AttributeType.ofOid? a.type with
  | none => .ok none
  | some type => do return some ⟨type, ← DirectoryText.decode a.value⟩

/-- The entries of the attributes whose types are known. -/
def ofAttributes (attributes : List Wire.Attribute) : Except Error (List NameEntry) :=
  (attributes.filterMap fun a => (AttributeType.ofOid? a.type).map (·, a.value)).mapM
    fun (type, value) => do return ⟨type, ← DirectoryText.decode value⟩

/-- The attributes of a name are read one after the other, and what they add is put together. -/
theorem ofAttributes_cons (a : Wire.Attribute) (rest : List Wire.Attribute) :
    ofAttributes (a :: rest) = do
      let added ← ofAttribute? a
      return added.toList ++ (← ofAttributes rest) := by
  rw [ofAttributes, ofAttributes, List.filterMap_cons, ofAttribute?]
  cases AttributeType.ofOid? a.type with
  | none => exact (id_map (ofAttributes rest)).symm
  | some type =>
      simp only [Option.map_some, List.mapM_cons]
      cases DirectoryText.decode a.value with
      | error err => rfl
      | ok text => rfl

/-- Reading the attributes of entries gives the entries. -/
theorem ofAttributes_map (entries : List NameEntry) :
    ofAttributes (entries.map written) = .ok entries := by
  have hknown : (entries.map written).filterMap
      (fun a => (AttributeType.ofOid? a.type).map (·, a.value)) =
        entries.map fun e => (e.type, Element.text e.type.stringType e.value) := by
    rw [List.filterMap_map, ← List.filterMap_eq_map]
    congr 1
    funext e
    simp [written, AttributeType.ofOid?_oid]
  rw [ofAttributes, hknown]
  refine mapM_map_eq_pure fun e _ => ?_
  simp [DirectoryText.decode_text, bind, Except.bind]

/-- The encoding of an entry determines it. -/
theorem octets_written_injective : Function.Injective fun e : NameEntry => e.written.octets := by
  intro e e' h
  have hwritten := Wire.Attribute.eq_of_octets_eq e.readable_written e'.readable_written h
  simp only [written, Wire.Attribute.mk.injEq] at hwritten
  have htype := AttributeType.oid_injective hwritten.1
  have hvalue := Utf8.encode_injective (congrArg Element.content hwritten.2)
  cases e
  cases e'
  simp_all

end NameEntry

namespace DirectoryName

/-! ## Reading attribute by attribute -/

theorem appendAttribute_eq (name : DirectoryName) (a : Wire.Attribute) :
    name.appendAttribute a = do
      let added ← NameEntry.ofAttribute? a
      return ⟨name.entries ++ added.toList⟩ := by
  rw [appendAttribute, NameEntry.ofAttribute?]
  cases AttributeType.ofOid? a.type with
  | none =>
      change Except.ok name = Except.ok (DirectoryName.mk (name.entries ++ []))
      rw [List.append_nil]
  | some type =>
      cases DirectoryText.decode a.value with
      | error err => rfl
      | ok text => rfl

/-- Going through attributes adds their entries behind those of the name. -/
theorem foldlM_appendAttribute (attributes : List Wire.Attribute) (name : DirectoryName) :
    attributes.foldlM appendAttribute name = do
      return ⟨name.entries ++ (← NameEntry.ofAttributes attributes)⟩ := by
  induction attributes generalizing name with
  | nil =>
      change Except.ok name = Except.ok (DirectoryName.mk (name.entries ++ []))
      rw [List.append_nil]
  | cons a rest ih =>
      rw [List.foldlM_cons, appendAttribute_eq, NameEntry.ofAttributes_cons]
      simp [ih]

theorem ofRdn_eq (rdn : Wire.Rdn) :
    ofRdn rdn = do return ⟨← NameEntry.ofAttributes rdn.attributes⟩ :=
  foldlM_appendAttribute rdn.attributes empty

/-- The relative names of a name are read as if their attributes stood in one list. -/
theorem foldlM_appendRdn (w : Wire.Name) (name : DirectoryName) :
    w.foldlM appendRdn name = (w.flatMap (·.attributes)).foldlM appendAttribute name := by
  induction w generalizing name with
  | nil => rfl
  | cons rdn rest ih => simp [List.foldlM_cons, List.foldlM_append, appendRdn, ih]

theorem ofWire_eq (w : Wire.Name) :
    ofWire w = do return ⟨← NameEntry.ofAttributes (w.flatMap (·.attributes))⟩ := by
  rw [ofWire, foldlM_appendRdn, foldlM_appendAttribute]
  rfl

/-! ## Names with one attribute to a relative name -/

theorem toWire_eq_ok_iff {name : DirectoryName} {w : Wire.Name} :
    name.toWire = .ok w ↔
      (∀ e ∈ name.entries, e.FitsType) ∧
        w = name.entries.map fun e => .singleton e.written := by
  refine mapM_eq_ok_iff_map fun e rdn => ?_
  simp only [bind_eq_ok_iff, pure_eq_ok_iff, NameEntry.toWire_eq_ok_iff]
  constructor
  · rintro ⟨_, ⟨hfits, rfl⟩, rfl⟩
    exact ⟨hfits, rfl⟩
  · rintro ⟨hfits, rfl⟩
    exact ⟨_, ⟨hfits, rfl⟩, rfl⟩

theorem readable_of_toWire {name : DirectoryName} {w : Wire.Name} (h : name.toWire = .ok w) :
    w.Readable := by
  obtain ⟨-, rfl⟩ := toWire_eq_ok_iff.mp h
  intro rdn hrdn a ha
  obtain ⟨e, -, rfl⟩ := List.mem_map.mp hrdn
  obtain rfl : a = e.written := by simpa [Wire.Rdn.singleton] using ha
  exact e.readable_written

/-- A directory name comes back from the name it was written as. -/
theorem ofWire_of_toWire {name : DirectoryName} {w : Wire.Name} (h : name.toWire = .ok w) :
    ofWire w = .ok name := by
  obtain ⟨-, rfl⟩ := toWire_eq_ok_iff.mp h
  have hattributes : (name.entries.map fun e => Wire.Rdn.singleton e.written).flatMap
      (·.attributes) = name.entries.map NameEntry.written := by
    rw [List.flatMap_map, List.map_eq_flatMap]
    rfl
  rw [ofWire_eq, hattributes, NameEntry.ofAttributes_map]
  rfl

/-! ## Names that are one relative name -/

theorem toRdn_eq_ok_iff {name : DirectoryName} {rdn : Wire.Rdn} :
    name.toRdn = .ok rdn ↔
      (∀ e ∈ name.entries, e.FitsType) ∧
        Wire.Rdn.ofList? (name.entries.map NameEntry.written) = some rdn := by
  simp only [toRdn, bind_eq_ok_iff, Error.ifNone_eq_ok_iff,
    mapM_eq_ok_iff_map fun e a => NameEntry.toWire_eq_ok_iff (e := e) (a := a)]
  constructor
  · rintro ⟨_, ⟨hfits, rfl⟩, hset⟩
    exact ⟨hfits, hset⟩
  · rintro ⟨hfits, hset⟩
    exact ⟨_, ⟨hfits, rfl⟩, hset⟩

/-- A directory name can be written as a relative name exactly if every entry fits its type and
none is there twice. -/
theorem exists_toRdn_eq_ok_iff {name : DirectoryName} :
    (∃ rdn, name.toRdn = .ok rdn) ↔
      (∀ e ∈ name.entries, e.FitsType) ∧ name.entries.Nodup := by
  simp only [toRdn_eq_ok_iff, exists_and_left, Wire.Rdn.exists_ofList?_eq_some_iff, List.map_map]
  rw [Function.comp_def, List.nodup_map_iff NameEntry.octets_written_injective]

/-- Two names with the same entries, of which the second has them in the order of their
encodings. -/
structure Arranges (name name' : DirectoryName) : Prop where
  perm : name'.entries.Perm name.entries
  ascending : name'.entries.Pairwise (·.written.octets < ·.written.octets)

/-- The name with its entries in the order of their encodings. -/
def arranged (name : DirectoryName) : DirectoryName :=
  ⟨name.entries.mergeSort fun e e' => Wire.Rdn.order e.written e'.written⟩

theorem attributes_of_toRdn {name : DirectoryName} {rdn : Wire.Rdn} (h : name.toRdn = .ok rdn) :
    rdn.attributes = name.arranged.entries.map NameEntry.written := by
  obtain ⟨-, hset⟩ := toRdn_eq_ok_iff.mp h
  rw [Wire.Rdn.attributes_eq_mergeSort hset]
  exact (List.map_mergeSort (f := NameEntry.written) fun _ _ _ _ => rfl).symm

theorem arranges_arranged {name : DirectoryName} {rdn : Wire.Rdn} (h : name.toRdn = .ok rdn) :
    name.Arranges name.arranged := by
  refine ⟨List.mergeSort_perm _ _, ?_⟩
  have hascending := rdn.ascending
  rwa [attributes_of_toRdn h, List.pairwise_map] at hascending

/-- A directory name comes back from its relative name in the order of the encodings. -/
theorem ofRdn_of_toRdn {name : DirectoryName} {rdn : Wire.Rdn} (h : name.toRdn = .ok rdn) :
    ofRdn rdn = .ok name.arranged := by
  rw [ofRdn_eq, attributes_of_toRdn h, NameEntry.ofAttributes_map]
  rfl

/-- There is only one arrangement. -/
theorem Arranges.eq {name name' name'' : DirectoryName} (h : name.Arranges name')
    (h' : name.Arranges name'') : name' = name'' := by
  have hentries : name'.entries = name''.entries :=
    (h.perm.trans h'.perm.symm).eq_of_pairwise
      (fun _ _ _ _ hlt hgt => absurd (List.lt_trans hlt hgt) (List.lt_irrefl _))
      h.ascending h'.ascending
  cases name'
  cases name''
  exact congrArg DirectoryName.mk hentries

/-- Whether the entries of a name stand in the order of their encodings. -/
def IsArranged (name : DirectoryName) : Prop :=
  name.entries.Pairwise (·.written.octets < ·.written.octets)

instance : DecidablePred IsArranged := fun name =>
  inferInstanceAs (Decidable (name.entries.Pairwise (·.written.octets < ·.written.octets)))

theorem Arranges.arranged_eq_self_iff {name : DirectoryName} (h : name.Arranges name.arranged) :
    name.arranged = name ↔ name.IsArranged := by
  constructor
  · intro hself
    rw [IsArranged, ← hself]
    exact h.ascending
  · intro hascending
    exact h.eq ⟨List.Perm.refl _, hascending⟩

/-- What a name is written as is the set of its arrangement. -/
theorem Arranges.toRdn_eq_ok {name name' : DirectoryName} (h : name.Arranges name')
    (hfits : ∀ e ∈ name.entries, e.FitsType) :
    name.toRdn =
      .ok ⟨name'.entries.map NameEntry.written, List.pairwise_map.mpr h.ascending⟩ :=
  toRdn_eq_ok_iff.mpr ⟨hfits, Wire.Rdn.ofList?_eq_some_iff.mpr (h.perm.map _)⟩

theorem readable_of_toRdn {name : DirectoryName} {rdn : Wire.Rdn} (h : name.toRdn = .ok rdn) :
    rdn.Readable := by
  intro a ha
  rw [attributes_of_toRdn h] at ha
  obtain ⟨e, -, rfl⟩ := List.mem_map.mp ha
  exact e.readable_written

end DirectoryName

end Pkix
