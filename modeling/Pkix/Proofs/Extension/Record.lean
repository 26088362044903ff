import Pkix.Certificate
import Pkix.Proofs.Fallible
import Pkix.Proofs.Registry.Resolve
import Pkix.RevocationList

/-!
# Extensions keep their records

A record is read as an extension of the kind that has its identifier, or kept as it is when no kind
has. Either way the extension keeps the identifier and the flag of its record, and it gives both
back when it is written. The records of a list are read one by one, in order; the list can be read
exactly if every record of a known kind can, and otherwise fails as the first one that cannot.
-/

namespace Pkix

/-! ## Kinds and their identifiers -/

namespace ExtensionKind

variable {id : Oid} {kind : ExtensionKind}

theorem ofOid?_eq_some_iff : ofOid? id = some kind ↔ id = kind.oid := by
  constructor
  · intro h
    unfold ofOid? at h
    -- Each arm is left behind by an identifier that is not its own.
    iterate 12
      obtain ⟨hid, rfl⟩ | h := of_ite_eq_some h
      · exact hid
    cases h
  · rintro rfl
    exact ofOid?_oid kind

theorem ofOid?_eq_none_iff : ofOid? id = none ↔ ∀ kind : ExtensionKind, id ≠ kind.oid := by
  rw [Option.eq_none_iff_forall_ne_some]
  exact forall_congr' fun kind => not_congr ofOid?_eq_some_iff

theorem oid_inj {kind' : ExtensionKind} : kind.oid = kind'.oid ↔ kind = kind' := by
  refine ⟨fun h => ?_, congrArg oid⟩
  have hsome := congrArg ofOid? h
  rw [ofOid?_oid, ofOid?_oid] at hsome
  exact Option.some.inj hsome

/-- The identifier of every kind is registered from the start. -/
theorem oid?_identifier (kind : ExtensionKind) : kind.identifier.oid? = some kind.oid :=
  Registry.keepsOids_run_builtin [] kind.oid

end ExtensionKind

/-! ## One record -/

/-- What is read as the value of a kind is a value of that kind. -/
theorem ExtensionValue.kind_of_decode {reg : Registry} {kind : ExtensionKind} {octets : Octets}
    {value : ExtensionValue} (h : decode reg kind octets = .ok value) : value.kind = kind := by
  cases kind <;> simp only [decode, bind_eq_ok_iff, pure_eq_ok_iff] at h
  case basicConstraints | keyUsage | extendedKeyUsage | subjectKeyIdentifier =>
    obtain ⟨_, -, rfl⟩ := h
    rfl
  all_goals
    obtain ⟨_, -, _, -, rfl⟩ := h
    rfl

variable {reg : Registry} {r : Wire.Extension} {kind : ExtensionKind}

namespace TypedExtension

theorem ofRecord_eq_ok_iff {e : TypedExtension} :
    ofRecord reg kind r = .ok e ↔
      r.id = kind.oid ∧ e.critical = r.critical ∧
        ExtensionValue.decode reg kind r.value = .ok e.value := by
  rw [ofRecord]
  split
  · rename_i hid
    simp only [bind_eq_ok_iff, pure_eq_ok_iff, hid, true_and]
    constructor
    · rintro ⟨value, hvalue, rfl⟩
      exact ⟨rfl, hvalue⟩
    · rintro ⟨hcritical, hvalue⟩
      exact ⟨e.value, hvalue, by rw [← hcritical]⟩
  · rename_i hid
    simp [hid]

theorem toRecord_eq_ok_iff {e : TypedExtension} :
    e.toRecord = .ok r ↔
      r.id = e.kind.oid ∧ r.critical = e.critical ∧ e.value.encode = .ok r.value := by
  simp only [toRecord, bind_eq_ok_iff, pure_eq_ok_iff]
  constructor
  · rintro ⟨octets, hencode, rfl⟩
    exact ⟨rfl, rfl, hencode⟩
  · rintro ⟨hid, hcritical, hencode⟩
    exact ⟨r.value, hencode, by rw [← hid, ← hcritical]⟩

end TypedExtension

theorem RawExtension.toRecord_ofRecord (hreg : reg.KeepsOids) :
    (ofRecord reg r).toRecord =
      if r.value.length ≤ Der.maxLength then .ok r else .error .encoding := by
  have hid : (reg.resolve r.id).toOid = .ok r.id := by
    rw [Identifier.toOid, hreg r.id]
    rfl
  obtain ⟨id, critical, value⟩ := r
  simp only [toRecord, ofRecord, hid]
  rfl

namespace Extension

/-- Whether a record has no known kind or can be read as one of its kind. -/
def Decodable (reg : Registry) (r : Wire.Extension) : Prop :=
  ∀ kind : ExtensionKind, r.id = kind.oid → ∃ e, TypedExtension.ofRecord reg kind r = .ok e

theorem ofRecord_of_kind (h : r.id = kind.oid) :
    ofRecord reg r = typed <$> TypedExtension.ofRecord reg kind r := by
  rw [ofRecord, ExtensionKind.ofOid?_eq_some_iff.mpr h]
  exact bind_pure_comp _ _

theorem ofRecord_of_forall_ne (h : ∀ kind : ExtensionKind, r.id ≠ kind.oid) :
    ofRecord reg r = .ok (unknown (RawExtension.ofRecord reg r)) := by
  rw [ofRecord, ExtensionKind.ofOid?_eq_none_iff.mpr h]

/-- A record of a known kind is read as one of that kind, any other is kept. -/
theorem ofRecord_eq_ok_iff {e : Extension} :
    ofRecord reg r = .ok e ↔
      (∃ kind t, r.id = kind.oid ∧ TypedExtension.ofRecord reg kind r = .ok t ∧ e = typed t) ∨
        (∀ kind : ExtensionKind, r.id ≠ kind.oid) ∧
          e = unknown (RawExtension.ofRecord reg r) := by
  by_cases hknown : ∃ kind : ExtensionKind, r.id = kind.oid
  · obtain ⟨kind, hid⟩ := hknown
    rw [ofRecord_of_kind hid, map_eq_ok_iff]
    constructor
    · rintro ⟨t, ht, rfl⟩
      exact Or.inl ⟨kind, t, hid, ht, rfl⟩
    · rintro (⟨kind', t, hid', ht, rfl⟩ | ⟨hnone, -⟩)
      · obtain rfl := ExtensionKind.oid_inj.mp (hid.symm.trans hid')
        exact ⟨t, ht, rfl⟩
      · exact absurd hid (hnone kind)
  · have hnone : ∀ kind : ExtensionKind, r.id ≠ kind.oid := not_exists.mp hknown
    rw [ofRecord_of_forall_ne hnone, Except.ok.injEq]
    constructor
    · intro h
      exact Or.inr ⟨hnone, h.symm⟩
    · rintro (⟨kind, -, hid, -, -⟩ | ⟨-, h⟩)
      · exact absurd hid (hnone kind)
      · exact h.symm

/-- Only a record of a known kind can be refused. -/
theorem ofRecord_eq_error_iff {err : Error} :
    ofRecord reg r = .error err ↔
      ∃ kind : ExtensionKind, r.id = kind.oid ∧
        TypedExtension.ofRecord reg kind r = .error err := by
  constructor
  · intro h
    by_cases hknown : ∃ kind : ExtensionKind, r.id = kind.oid
    · obtain ⟨kind, hid⟩ := hknown
      rw [ofRecord_of_kind hid, map_eq_error_iff] at h
      exact ⟨kind, hid, h⟩
    · rw [ofRecord_of_forall_ne (not_exists.mp hknown)] at h
      cases h
  · rintro ⟨kind, hid, h⟩
    rw [ofRecord_of_kind hid, map_eq_error_iff]
    exact h

theorem exists_ofRecord_eq_ok_iff : (∃ e, ofRecord reg r = .ok e) ↔ Decodable reg r := by
  constructor
  · rintro ⟨e, he⟩ kind hid
    rw [ofRecord_of_kind hid, map_eq_ok_iff] at he
    obtain ⟨t, ht, -⟩ := he
    exact ⟨t, ht⟩
  · intro h
    cases he : ofRecord reg r with
    | ok e => exact ⟨e, rfl⟩
    | error err =>
        obtain ⟨kind, hid, herr⟩ := ofRecord_eq_error_iff.mp he
        obtain ⟨t, ht⟩ := h kind hid
        rw [herr] at ht
        cases ht

/-- What an extension keeps of the record that it was read from. An octet string is never longer
than a message, so that a record of no known kind always comes back. -/
structure Keeps (r : Wire.Extension) (e : Extension) : Prop where
  identifier : e.identifier.oid? = some r.id
  critical : e.isCritical = r.critical
  kind : ∀ kind, e.kind? = some kind ↔ r.id = kind.oid
  unknown : e.kind? = none ↔ ∀ kind : ExtensionKind, r.id ≠ kind.oid
  toRecord_unknown : e.kind? = none → r.value.length ≤ Der.maxLength → e.toRecord = .ok r
  toRecord : ∀ r', e.toRecord = .ok r' → r'.id = r.id ∧ r'.critical = r.critical

theorem keeps_typed {t : TypedExtension} (h : TypedExtension.ofRecord reg kind r = .ok t) :
    Keeps r (typed t) := by
  obtain ⟨hid, hcritical, hvalue⟩ := TypedExtension.ofRecord_eq_ok_iff.mp h
  have hkind : t.kind = kind := ExtensionValue.kind_of_decode hvalue
  have hsome : (typed t).kind? = some kind := congrArg some hkind
  refine ⟨?_, hcritical, fun kind' => ?_, ?_, ?_, fun r' hr' => ?_⟩
  · rw [identifier, hkind, ExtensionKind.oid?_identifier, hid]
  · rw [hsome, hid, Option.some.injEq, ExtensionKind.oid_inj, eq_comm]
  · rw [hsome]
    exact ⟨fun hnone => absurd hnone (by simp), fun hall => absurd hid (hall kind)⟩
  · intro hnone
    rw [hsome] at hnone
    cases hnone
  · obtain ⟨hid', hcritical', -⟩ := TypedExtension.toRecord_eq_ok_iff.mp hr'
    exact ⟨by rw [hid', hkind, hid], by rw [hcritical', hcritical]⟩

theorem keeps_unknown (hreg : reg.KeepsOids) (h : ∀ kind : ExtensionKind, r.id ≠ kind.oid) :
    Keeps r (unknown (RawExtension.ofRecord reg r)) := by
  refine ⟨hreg r.id, rfl, fun kind => ?_, ?_, fun _ hlength => ?_, fun r' hr' => ?_⟩
  · constructor
    · intro hsome
      cases hsome
    · intro hid
      exact absurd hid (h kind)
  · exact ⟨fun _ => h, fun _ => rfl⟩
  · rw [toRecord, RawExtension.toRecord_ofRecord hreg, if_pos hlength]
  · rw [toRecord, RawExtension.toRecord_ofRecord hreg] at hr'
    split at hr'
    · obtain rfl := Except.ok.inj hr'
      exact ⟨rfl, rfl⟩
    · cases hr'

theorem keeps_of_ofRecord (hreg : reg.KeepsOids) {e : Extension} (h : ofRecord reg r = .ok e) :
    Keeps r e := by
  rcases ofRecord_eq_ok_iff.mp h with ⟨kind, t, -, ht, rfl⟩ | ⟨hnone, rfl⟩
  · exact keeps_typed ht
  · exact keeps_unknown hreg hnone

/-! ## Lists of records -/

/-- How the extensions of a list of records are read: all of them, with what each keeps of its
record, or the error of the first one that cannot be read. -/
structure Faithful (reg : Registry) (records : List Wire.Extension)
    (result : Except Error (List Extension)) : Prop where
  succeeds : (∃ es, result = .ok es) ↔ ∀ r ∈ records, Decodable reg r
  fails : ∀ err, result = .error err ↔
    ∃ before r after, ∃ kind : ExtensionKind, records = before ++ r :: after ∧
      (∀ r' ∈ before, Decodable reg r') ∧ r.id = kind.oid ∧
        TypedExtension.ofRecord reg kind r = .error err
  keeps : ∀ es, result = .ok es → List.Forall₂ Keeps records es

theorem faithful_ofRecords (hreg : reg.KeepsOids) (records : List Wire.Extension) :
    Faithful reg records (ofRecords reg records) := by
  refine ⟨?_, fun err => ?_, fun es hes => ?_⟩
  · rw [ofRecords, exists_mapM_eq_ok_iff]
    exact forall₂_congr fun r _ => exists_ofRecord_eq_ok_iff
  · rw [ofRecords, mapM_eq_error_iff]
    simp only [exists_ofRecord_eq_ok_iff, ofRecord_eq_error_iff, exists_and_left]
  · exact (mapM_eq_ok_iff.mp hes).imp fun r e he => keeps_of_ofRecord hreg he

/-- Whatever was registered before, reading the extensions of a certificate or of a revocation list
loses, reorders and relabels nothing. -/
theorem faithful_extensions (calls : List Registry.Call) :
    let reg := Registry.builtin.run calls
    (∀ c : Certificate, Faithful reg c.records (c.extensions reg)) ∧
      ∀ l : RevocationList, Faithful reg l.records (l.extensions reg) := by
  have hreg := Registry.keepsOids_run_builtin calls
  exact ⟨fun c => faithful_ofRecords hreg c.records, fun l => faithful_ofRecords hreg l.records⟩

end Extension

end Pkix
