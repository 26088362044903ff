import Mathlib.Data.List.Induction
import Pkix.Proofs.Name.Directory

/-!
# Names written as sets

A name that is written as one relative name is a set of entries. The order of its entries does not
matter to what it is written as, an entry that is there twice keeps it from being written, and what
it is written as stands in the order of the encodings. That order is the one that tags, lengths and
contents decide part by part, since the octets before the content of an element end where they do.
-/

namespace Pkix

open Der

/-! ## The order of octet strings -/

/-- Octet strings are ordered by their beginnings, if these end where they do, and then by what
follows. -/
theorem Octets.append_lt_append_iff {x x' y y' : Octets}
    (h : ∀ rest rest', x ++ rest = x' ++ rest' → x = x') :
    x ++ y < x' ++ y' ↔ x < x' ∨ x = x' ∧ y < y' := by
  rw [← compare_eq_lt_iff, compare_append h, Ordering.then_eq_lt, compare_eq_lt_iff,
    Std.compare_eq_iff_eq, compare_eq_lt_iff]

theorem Octets.toNat_lt_toNat {x y : Octets} (hlength : x.length = y.length) (h : x < y) :
    x.toNat < y.toNat := by
  induction x using List.reverseRecOn generalizing y with
  | nil =>
      obtain rfl := List.length_eq_zero_iff.mp hlength.symm
      exact absurd h (List.lt_irrefl _)
  | append_singleton x b ih =>
      obtain rfl | ⟨y, c, rfl⟩ := List.eq_nil_or_concat' y
      · simp at hlength
      · have hlength' : x.length = y.length := by simpa using hlength
        have hc := c.toNat_lt
        have hb := b.toNat_lt
        rw [toNat_concat, toNat_concat]
        rcases (append_lt_append_iff fun _ _ heq => List.append_inj_left heq hlength').mp h with
          hlt | ⟨rfl, hlt⟩
        · have hfront := ih hlength' hlt
          omega
        · have hlast : b.toNat < c.toNat :=
            UInt8.lt_iff_toNat_lt.mp (by simpa [List.cons_lt_cons_iff] using hlt)
          omega

namespace Der

theorem lengthOctets_inj {m n : Nat} (hm : m ≤ maxLength) (hn : n ≤ maxLength) :
    lengthOctets m = lengthOctets n ↔ m = n :=
  ⟨fun h => lengthOctets_append_inj hm hn (congrArg (· ++ []) h), congrArg lengthOctets⟩

theorem lt_of_lengthOctets_lt {m n : Nat} (hm : m ≤ maxLength) (hn : n ≤ maxLength)
    (h : lengthOctets m < lengthOctets n) : m < n := by
  have hcount : ∀ k ≤ maxLength, (UInt8.ofNat (128 + (Octets.ofNat k).length)).toNat =
      128 + (Octets.ofNat k).length := by
    intro k hk
    have hle : (Octets.ofNat k).length ≤ 4 :=
      Octets.length_ofNat_le (Nat.lt_of_le_of_lt hk (by decide))
    rw [UInt8.toNat_ofNat']
    omega
  unfold lengthOctets at h
  split at h <;> split at h <;>
    simp only [List.cons_lt_cons_iff, UInt8.lt_iff_toNat_lt, ← UInt8.toNat_inj, hcount m hm,
      hcount n hn, UInt8.toNat_ofNat'] at h
  · rcases h with hlt | ⟨-, hlt⟩
    · omega
    · exact absurd hlt (List.lt_irrefl _)
  · omega
  · omega
  · rcases h with hlt | ⟨heq, hlt⟩
    · refine Nat.lt_of_not_le fun hle => ?_
      have hmono := length_ofNat_mono hle
      omega
    · have hvalue := Octets.toNat_lt_toNat (by omega) hlt
      rwa [Octets.toNat_ofNat, Octets.toNat_ofNat] at hvalue

/-- The octets of lengths are ordered as the lengths are. -/
theorem lengthOctets_lt_iff {m n : Nat} (hm : m ≤ maxLength) (hn : n ≤ maxLength) :
    lengthOctets m < lengthOctets n ↔ m < n := by
  refine ⟨lt_of_lengthOctets_lt hm hn, fun h => ?_⟩
  refine List.not_le.mp fun hle => ?_
  rcases List.le_iff_lt_or_eq.mp hle with hlt | heq
  · have hgt := lt_of_lengthOctets_lt hn hm hlt
    omega
  · have hsame := (lengthOctets_inj hn hm).mp heq
    omega

namespace Element

/-- Whether an element stands before another one: by its tag, then by the length of its content,
then by its content. -/
def Precedes (e e' : Element) : Prop :=
  e.tag.octet < e'.tag.octet ∨ e.tag = e'.tag ∧
    (e.content.length < e'.content.length ∨
      e.content.length = e'.content.length ∧ e.content < e'.content)

theorem octets_lt_iff {e e' : Element} (h : e.Fits) (h' : e'.Fits) :
    e.octets < e'.octets ↔ e.Precedes e' := by
  rw [← Octets.compare_eq_lt_iff, ← compare_eq h h', compare, Ordering.then_eq_lt,
    Ordering.then_eq_lt, Std.compare_eq_lt, Std.compare_eq_iff_eq, Octets.compare_eq_lt_iff,
    Std.compare_eq_iff_eq, Octets.compare_eq_lt_iff, lengthOctets_lt_iff h h',
    lengthOctets_inj h h', Tag.octet_injective.eq_iff, Precedes]

end Element

end Der

/-! ## The order of attributes -/

theorem Oid.toElement_injective : Function.Injective toElement := by
  rintro ⟨octets⟩ ⟨octets'⟩ h
  exact congrArg Oid.mk (congrArg Element.content h)

namespace Wire

namespace Attribute

/-- Whether an attribute stands before another one: by the length of its content, then by its type,
then by its value. -/
def Precedes (a b : Attribute) : Prop :=
  a.toElement.content.length < b.toElement.content.length ∨
    a.toElement.content.length = b.toElement.content.length ∧
      (a.type.toElement.Precedes b.type.toElement ∨ a.type = b.type ∧ a.value.Precedes b.value)

/-- The order that the members of a set stand in is decided part by part. -/
theorem octets_lt_iff {a b : Attribute} (ha : a.toElement.Fits) (hb : b.toElement.Fits) :
    a.octets < b.octets ↔ a.Precedes b := by
  have htype : a.type.toElement.Fits := ha.of_mem (by simp)
  have hvalue : a.value.Fits := ha.of_mem (by simp)
  have htype' : b.type.toElement.Fits := hb.of_mem (by simp)
  have hvalue' : b.value.Fits := hb.of_mem (by simp)
  have htypes : a.type.toElement.compare b.type.toElement = .eq ↔ a.type = b.type := by
    rw [Element.compare_eq htype htype', Std.compare_eq_iff_eq, Element.octets_injective.eq_iff,
      Oid.toElement_injective.eq_iff]
  rw [← Octets.compare_eq_lt_iff, ← compare_eq, compare, if_pos ⟨ha, hb⟩, Ordering.then_eq_lt,
    Ordering.then_eq_lt, htypes, Octets.compare_eq_lt_iff, Std.compare_eq_iff_eq,
    lengthOctets_lt_iff ha hb, lengthOctets_inj ha hb, Element.compare_eq htype htype',
    Octets.compare_eq_lt_iff, Element.octets_lt_iff htype htype', Element.compare_eq hvalue hvalue',
    Octets.compare_eq_lt_iff, Element.octets_lt_iff hvalue hvalue', Precedes]

end Attribute

theorem Rdn.pairwise_precedes {rdn : Rdn} (h : rdn.toElement.Fits) :
    rdn.attributes.Pairwise Attribute.Precedes := by
  have hmember : ∀ a ∈ rdn.attributes, a.toElement.Fits :=
    fun a ha => h.of_mem (List.mem_map.mpr ⟨a, ha, rfl⟩)
  exact rdn.ascending.imp_of_mem fun ha hb hlt =>
    (Attribute.octets_lt_iff (hmember _ ha) (hmember _ hb)).mp hlt

end Wire

/-! ## Writing a set of entries -/

namespace NameEntry

theorem toWire_eq_error_iff {e : NameEntry} {err : Error} :
    e.toWire = .error err ↔ ¬e.FitsType ∧ err = .invalidAttributeValue e.type e.value := by
  rw [← admits_iff, toWire]
  by_cases h : e.type.stringType.admits e.value = true <;> simp [h, eq_comm]

end NameEntry

namespace DirectoryName

/-- The first entry of a name whose value does not fit its type. -/
def misfit? (name : DirectoryName) : Option NameEntry :=
  name.entries.find? fun e => ¬e.FitsType

theorem misfit?_eq_none_iff {name : DirectoryName} :
    name.misfit? = none ↔ ∀ e ∈ name.entries, e.FitsType := by
  simp [misfit?]

theorem mapM_toWire_eq_error_iff {name : DirectoryName} {err : Error} :
    name.entries.mapM NameEntry.toWire = .error err ↔
      ∃ e ∈ name.misfit?, err = .invalidAttributeValue e.type e.value := by
  have hfits : ∀ e : NameEntry, (∃ a, e.toWire = .ok a) ↔ e.FitsType :=
    fun e => by simp [NameEntry.toWire_eq_ok_iff]
  simp only [mapM_eq_error_iff, hfits, NameEntry.toWire_eq_error_iff, misfit?, Option.mem_def,
    List.find?_eq_some_iff_append, decide_eq_true_eq, Bool.not_eq_true', decide_eq_false_iff_not,
    not_not]
  constructor
  · rintro ⟨before, e, after, hsplit, hbefore, he, rfl⟩
    exact ⟨e, ⟨he, before, after, hsplit, hbefore⟩, rfl⟩
  · rintro ⟨e, ⟨he, before, after, hsplit, hbefore⟩, rfl⟩
    exact ⟨before, e, after, hsplit, hbefore, he, rfl⟩

theorem mapM_toWire_eq_ok_iff {name : DirectoryName} {attributes : List Wire.Attribute} :
    name.entries.mapM NameEntry.toWire = .ok attributes ↔
      name.misfit? = none ∧ attributes = name.entries.map NameEntry.written := by
  rw [misfit?_eq_none_iff]
  exact mapM_eq_ok_iff_map fun e a => NameEntry.toWire_eq_ok_iff

/-- Writing a name as a relative name fails at the first entry that does not fit its type, or else
because an entry is there twice. -/
theorem toRdn_eq_error_iff {name : DirectoryName} {err : Error} :
    name.toRdn = .error err ↔
      (∃ e ∈ name.misfit?, err = .invalidAttributeValue e.type e.value) ∨
        name.misfit? = none ∧ ¬name.entries.Nodup ∧ err = .encoding := by
  have htwice : Wire.Rdn.ofList? (name.entries.map NameEntry.written) = none ↔
      ¬name.entries.Nodup := by
    rw [← List.nodup_map_iff NameEntry.octets_written_injective, Option.eq_none_iff_forall_ne_some,
      ← not_exists, Wire.Rdn.exists_ofList?_eq_some_iff, List.map_map, Function.comp_def]
  simp only [toRdn, bind_eq_error_iff, mapM_toWire_eq_error_iff, mapM_toWire_eq_ok_iff,
    Error.ifNone_eq_error_iff]
  refine or_congr_right ⟨?_, ?_⟩
  · rintro ⟨_, ⟨hfits, rfl⟩, hnone, rfl⟩
    exact ⟨hfits, htwice.mp hnone, rfl⟩
  · rintro ⟨hfits, hnodup, rfl⟩
    exact ⟨_, ⟨hfits, rfl⟩, htwice.mpr hnodup, rfl⟩

/-- A relative name that a name is written as has the same entries, and there is only one that
does. -/
theorem toRdn_eq_ok_iff_perm {name : DirectoryName} {rdn : Wire.Rdn} :
    name.toRdn = .ok rdn ↔
      name.misfit? = none ∧ rdn.attributes.Perm (name.entries.map NameEntry.written) := by
  rw [toRdn_eq_ok_iff, ← misfit?_eq_none_iff, Wire.Rdn.ofList?_eq_some_iff]

theorem toRdn_of_perm {name name' : DirectoryName} {rdn : Wire.Rdn} (h : name.toRdn = .ok rdn)
    (hperm : name'.entries.Perm name.entries) : name'.toRdn = .ok rdn := by
  rw [toRdn_eq_ok_iff_perm, misfit?_eq_none_iff] at h ⊢
  obtain ⟨hfits, hmembers⟩ := h
  exact ⟨fun e he => hfits e (hperm.mem_iff.mp he), hmembers.trans (hperm.symm.map _)⟩

theorem exists_ofRdn_of_toRdn {name : DirectoryName} {rdn : Wire.Rdn} (h : name.toRdn = .ok rdn) :
    ∃ name', ofRdn rdn = .ok name' ∧ name'.entries.Perm name.entries ∧
      (name' = name ↔ name.IsArranged) :=
  have harranges := arranges_arranged h
  ⟨name.arranged, ofRdn_of_toRdn h, harranges.perm, harranges.arranged_eq_self_iff⟩

/-- A name is written as the set of its entries, in the order of their encodings. It is refused at
the first entry that does not fit its type, or else if an entry is there twice; nothing else keeps
it from being written. It comes back with the same entries, and in the same order exactly if that
was the order of the encodings. The order of the entries does not matter to what is written. -/
theorem toRdn_writes_set (name : DirectoryName) :
    (∀ err, name.toRdn = .error err ↔
      (∃ e ∈ name.misfit?, err = .invalidAttributeValue e.type e.value) ∨
        name.misfit? = none ∧ ¬name.entries.Nodup ∧ err = .encoding) ∧
    (∀ rdn, name.toRdn = .ok rdn ↔
      name.misfit? = none ∧ rdn.attributes.Perm (name.entries.map NameEntry.written)) ∧
    ∀ rdn, name.toRdn = .ok rdn →
      rdn.attributes.Pairwise (·.octets < ·.octets) ∧
      (rdn.toElement.Fits → rdn.attributes.Pairwise Wire.Attribute.Precedes) ∧
      (∃ name', ofRdn rdn = .ok name' ∧ name'.entries.Perm name.entries ∧
        (name' = name ↔ name.IsArranged)) ∧
      ∀ name' : DirectoryName, name'.entries.Perm name.entries → name'.toRdn = .ok rdn := by
  refine ⟨fun _ => toRdn_eq_error_iff, fun _ => toRdn_eq_ok_iff_perm, fun rdn h => ?_⟩
  exact ⟨rdn.ascending, Wire.Rdn.pairwise_precedes, exists_ofRdn_of_toRdn h,
    fun _ => toRdn_of_perm h⟩

/-- A name whose longer entry stands first, so that its entries come back the other way round. -/
theorem toRdn_writes_set_longerFirst :
    let name : DirectoryName :=
      ⟨[⟨.commonName, "Distribution"⟩, ⟨.organizationUnit, "CRL"⟩]⟩
    ∃ rdn name', name.toRdn = .ok rdn ∧ ofRdn rdn = .ok name' ∧
      name'.entries.Perm name.entries ∧ name' ≠ name := by
  intro name
  obtain ⟨-, hok, hwritten⟩ := toRdn_writes_set name
  let members : List NameEntry := [⟨.organizationUnit, "CRL"⟩, ⟨.commonName, "Distribution"⟩]
  let rdn : Wire.Rdn := ⟨members.map NameEntry.written, by decide +kernel⟩
  have hrdn : name.toRdn = .ok rdn := (hok rdn).mpr ⟨by decide +kernel, by decide +kernel⟩
  obtain ⟨-, -, ⟨name', hread, hperm, hself⟩, -⟩ := hwritten rdn hrdn
  have hunordered : ¬name.IsArranged := by decide +kernel
  exact ⟨rdn, name', hrdn, hread, hperm, mt hself.mp hunordered⟩

end DirectoryName

end Pkix
