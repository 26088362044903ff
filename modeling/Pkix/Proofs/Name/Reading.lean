import Pkix.Proofs.Name.Directory

/-!
# Names are read attribute by attribute

Each attribute of a supported type adds one entry to the name that is read, in the order in which
the attributes stand, or else keeps the name from being read. Attributes of other types add nothing
and keep nothing from being read, whatever their values are.
-/

namespace Pkix

open Der

theorem AttributeType.ofOid?_eq_some_iff {oid : Oid} {type : AttributeType} :
    ofOid? oid = some type ↔ oid = type.oid := by
  constructor
  · intro h
    simpa [eq_comm] using List.find?_some h
  · rintro rfl
    exact ofOid?_oid type

namespace Wire

/-- Whether an attribute is of a type that names are built from. -/
def Attribute.IsSupported (a : Attribute) : Prop := ∃ type : AttributeType, a.type = type.oid

theorem Attribute.isSupported_iff (a : Attribute) :
    (AttributeType.ofOid? a.type).isSome = true ↔ a.IsSupported := by
  simp only [Option.isSome_iff_exists, AttributeType.ofOid?_eq_some_iff, IsSupported]

instance : DecidablePred Attribute.IsSupported := fun a => decidable_of_iff _ a.isSupported_iff

/-- A relative name without the attributes of other types. -/
def Rdn.supported (rdn : Rdn) : Rdn :=
  ⟨rdn.attributes.filter fun a => a.IsSupported, rdn.ascending.filter _⟩

/-- A name without the attributes of other types. -/
def Name.supported (w : Name) : Name := w.map Rdn.supported

theorem Name.attributes_supported (w : Name) :
    w.supported.flatMap (·.attributes) =
      (w.flatMap (·.attributes)).filter fun a => a.IsSupported := by
  rw [supported, List.flatMap_map, List.filter_flatMap]
  rfl

end Wire

namespace NameEntry

/-- Whether an entry has the type and the text of an attribute. -/
def IsReadFrom (e : NameEntry) (a : Wire.Attribute) : Prop :=
  a.type = e.type.oid ∧ DirectoryText.decode a.value = .ok e.value

section OneAttribute

variable {a : Wire.Attribute}

theorem ofAttribute?_eq_error_iff {err : Error} :
    ofAttribute? a = .error err ↔ a.IsSupported ∧ DirectoryText.decode a.value = .error err := by
  rw [← a.isSupported_iff, ofAttribute?]
  cases AttributeType.ofOid? a.type with
  | none => simp
  | some type => simpa using map_eq_error_iff

theorem ofAttribute?_eq_ok_none_iff : ofAttribute? a = .ok none ↔ ¬a.IsSupported := by
  rw [← a.isSupported_iff, ofAttribute?]
  cases AttributeType.ofOid? a.type with
  | none => simp
  | some type => simp [map_eq_ok_iff]

theorem ofAttribute?_eq_ok_some_iff {e : NameEntry} :
    ofAttribute? a = .ok (some e) ↔ e.IsReadFrom a := by
  rw [IsReadFrom, ← AttributeType.ofOid?_eq_some_iff, ofAttribute?]
  obtain ⟨type, value⟩ := e
  cases AttributeType.ofOid? a.type with
  | none => simp
  | some type' => simp [map_eq_ok_iff, and_comm]

theorem exists_ofAttribute?_iff :
    (∃ o, ofAttribute? a = .ok o) ↔
      (a.IsSupported → ∃ text, DirectoryText.decode a.value = .ok text) := by
  rw [← a.isSupported_iff, ofAttribute?]
  cases AttributeType.ofOid? a.type with
  | none => simp
  | some type => simp [map_eq_ok_iff]

end OneAttribute

theorem ofAttributes_cons_of_not_supported {a : Wire.Attribute} (h : ¬a.IsSupported)
    (rest : List Wire.Attribute) : ofAttributes (a :: rest) = ofAttributes rest := by
  rw [ofAttributes_cons, ofAttribute?_eq_ok_none_iff.mpr h]
  exact id_map (ofAttributes rest)

section Attributes

variable {attributes : List Wire.Attribute}

theorem ofAttributes_filter :
    ofAttributes (attributes.filter fun a => a.IsSupported) = ofAttributes attributes := by
  induction attributes with
  | nil => rfl
  | cons a rest ih =>
      by_cases ha : a.IsSupported
      · rw [List.filter_cons_of_pos (by simpa using ha), ofAttributes_cons, ofAttributes_cons, ih]
      · rw [List.filter_cons_of_neg (by simpa using ha), ofAttributes_cons_of_not_supported ha, ih]

theorem ofAttributes_eq_ok_iff {entries : List NameEntry} :
    ofAttributes attributes = .ok entries ↔
      List.Forall₂ (fun a e => e.IsReadFrom a) (attributes.filter fun a => a.IsSupported)
        entries := by
  induction attributes generalizing entries with
  | nil =>
      rw [List.filter_nil, List.forall₂_nil_left_iff]
      exact pure_eq_ok_iff.trans eq_comm
  | cons a rest ih =>
      by_cases ha : a.IsSupported
      · rw [List.filter_cons_of_pos (by simpa using ha), List.forall₂_cons_left_iff,
          ofAttributes_cons]
        simp only [bind_eq_ok_iff, pure_eq_ok_iff, ih]
        constructor
        · rintro ⟨added, hadded, rest, hrest, rfl⟩
          cases added with
          | none => exact absurd ha (ofAttribute?_eq_ok_none_iff.mp hadded)
          | some e => exact ⟨e, rest, ofAttribute?_eq_ok_some_iff.mp hadded, hrest, rfl⟩
        · rintro ⟨e, rest, he, hrest, rfl⟩
          exact ⟨some e, ofAttribute?_eq_ok_some_iff.mpr he, rest, hrest, rfl⟩
      · rw [List.filter_cons_of_neg (by simpa using ha), ofAttributes_cons_of_not_supported ha]
        exact ih

theorem ofAttributes_eq_map (attributes : List Wire.Attribute) :
    ofAttributes attributes = List.flatMap Option.toList <$> attributes.mapM ofAttribute? := by
  induction attributes with
  | nil => rfl
  | cons a rest ih =>
      rw [ofAttributes_cons, ih, List.mapM_cons]
      simp

theorem exists_ofAttributes_iff :
    (∃ entries, ofAttributes attributes = .ok entries) ↔
      ∀ a ∈ attributes, a.IsSupported → ∃ text, DirectoryText.decode a.value = .ok text := by
  simp only [← exists_ofAttribute?_iff, ← exists_mapM_eq_ok_iff, ofAttributes_eq_map,
    map_eq_ok_iff]
  constructor
  · rintro ⟨entries, added, hadded, -⟩
    exact ⟨added, hadded⟩
  · rintro ⟨added, hadded⟩
    exact ⟨_, added, hadded, rfl⟩

theorem ofAttributes_eq_error_iff {err : Error} :
    ofAttributes attributes = .error err ↔
      ∃ before a after, attributes = before ++ a :: after ∧
        (∀ b ∈ before, b.IsSupported → ∃ text, DirectoryText.decode b.value = .ok text) ∧
        a.IsSupported ∧ DirectoryText.decode a.value = .error err := by
  rw [ofAttributes_eq_map, map_eq_error_iff, mapM_eq_error_iff]
  simp only [exists_ofAttribute?_iff, ofAttribute?_eq_error_iff]

end Attributes

end NameEntry

namespace DirectoryName

variable {w : Wire.Name}

theorem ofWire_eq_ok_iff {name : DirectoryName} :
    ofWire w = .ok name ↔
      NameEntry.ofAttributes (w.flatMap (·.attributes)) = .ok name.entries := by
  rw [ofWire_eq]
  refine map_eq_ok_iff.trans ⟨?_, fun h => ⟨_, h, rfl⟩⟩
  rintro ⟨entries, hentries, rfl⟩
  exact hentries

theorem exists_ofWire_iff :
    (∃ name, ofWire w = .ok name) ↔ ∀ rdn ∈ w, ∀ a ∈ rdn.attributes, a.IsSupported →
      ∃ text, DirectoryText.decode a.value = .ok text := by
  rw [← List.forall_mem_flatMap, ← NameEntry.exists_ofAttributes_iff]
  simp only [ofWire_eq_ok_iff]
  constructor
  · rintro ⟨name, hname⟩
    exact ⟨name.entries, hname⟩
  · rintro ⟨entries, hentries⟩
    exact ⟨⟨entries⟩, hentries⟩

/-- A name is read as it is without the attributes of unsupported types. It is read exactly if the
values of all supported attributes are texts, and then its entries have the types and the texts of
these, one after the other. If not, it is refused for the first value that is none. -/
theorem ofWire_reads_supported (w : Wire.Name) :
    ofWire w.supported = ofWire w ∧
    (∀ name, ofWire w = .ok name ↔
      List.Forall₂ (fun a e => e.IsReadFrom a) (w.supported.flatMap (·.attributes))
        name.entries) ∧
    ((∃ name, ofWire w = .ok name) ↔ ∀ rdn ∈ w, ∀ a ∈ rdn.attributes, a.IsSupported →
      ∃ text, DirectoryText.decode a.value = .ok text) ∧
    ∀ err, ofWire w = .error err ↔
      ∃ before a after, w.flatMap (·.attributes) = before ++ a :: after ∧
        (∀ b ∈ before, b.IsSupported → ∃ text, DirectoryText.decode b.value = .ok text) ∧
        a.IsSupported ∧ DirectoryText.decode a.value = .error err := by
  refine ⟨?_, fun name => ?_, exists_ofWire_iff, fun err => ?_⟩
  · rw [ofWire_eq, ofWire_eq, w.attributes_supported, NameEntry.ofAttributes_filter]
  · rw [ofWire_eq_ok_iff, NameEntry.ofAttributes_eq_ok_iff, w.attributes_supported]
  · rw [ofWire_eq]
    exact map_eq_error_iff.trans NameEntry.ofAttributes_eq_error_iff

/-- A user identifier whose value is no text stands beside a common name, and before attributes that
cannot be read. -/
theorem ofWire_reads_supported_userId :
    let commonName : Wire.Attribute := ⟨Oid.commonName, .text .utf8 "A"⟩
    let userId : Wire.Attribute :=
      ⟨⟨[0x09, 0x92, 0x26, 0x89, 0x93, 0xf2, 0x2c, 0x64, 0x01, 0x01]⟩,
        ⟨.universal .bmpString, [0xd8]⟩⟩
    let rdn : Wire.Rdn := ⟨[commonName, userId], by decide +kernel⟩
    let surname : Wire.Attribute := ⟨Oid.surname, ⟨.universal .bmpString, [0xd8]⟩⟩
    let title : Wire.Attribute := ⟨Oid.title, .integer 5⟩
    ofWire [rdn] = .ok ⟨[⟨.commonName, "A"⟩]⟩ ∧
      ofWire (Wire.Name.supported [rdn]) = .ok ⟨[⟨.commonName, "A"⟩]⟩ ∧
      ofWire [rdn, .singleton surname, .singleton title] = .error .decoding := by
  intro commonName userId rdn surname title
  obtain ⟨hsame, hread, -, -⟩ := ofWire_reads_supported [rdn]
  obtain ⟨-, -, -, hrefused⟩ := ofWire_reads_supported [rdn, .singleton surname, .singleton title]
  have hsupported : (Wire.Name.supported [rdn]).flatMap (·.attributes) = [commonName] := by
    decide +kernel
  have hname : ofWire [rdn] = .ok ⟨[⟨.commonName, "A"⟩]⟩ := by
    rw [hread, hsupported]
    exact .cons ⟨rfl, DirectoryText.decode_text .utf8 "A"⟩ .nil
  refine ⟨hname, hsame.trans hname, ?_⟩
  rw [hrefused]
  refine ⟨[commonName, userId], surname, [title], rfl, ?_, ⟨.surname, rfl⟩, rfl⟩
  intro b hb hb'
  rcases List.mem_pair.mp hb with rfl | rfl
  · exact ⟨"A", DirectoryText.decode_text .utf8 "A"⟩
  · exact absurd hb' (by decide +kernel)

end DirectoryName

end Pkix
