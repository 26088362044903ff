import Pkix.Proofs.Extension.Record

/-!
# Looking up agrees with reading all

An extension of a kind can be asked for by itself, which reads only the first record with the
identifier of the kind, or be picked from all extensions, which reads every record. The two agree on
what is found, and asking for one kind never fails where reading all does not. A revocation list
updates another one exactly if asking for its delta indicator does not find nothing.
-/

namespace Pkix.Extension

variable {reg : Registry} {kind : ExtensionKind}

/-! ## Two ways of reading a list -/

/-- Reading a record gives an extension of a kind exactly if it has the identifier of the kind. -/
theorem kind?_eq_some_iff_of_ofRecord {r : Wire.Extension} {e : Extension}
    (h : ofRecord reg r = .ok e) : e.kind? = some kind ↔ r.id = kind.oid := by
  rcases ofRecord_eq_ok_iff.mp h with ⟨kind', t, hid, ht, rfl⟩ | ⟨hnone, rfl⟩
  · exact (keeps_typed ht).kind kind
  · constructor
    · intro hsome
      cases hsome
    · intro hid
      exact absurd hid (hnone kind)

theorem find_cons_of_eq {r : Wire.Extension} {rest : List Wire.Extension} (h : r.id = kind.oid) :
    find reg kind (r :: rest) = some <$> TypedExtension.ofRecord reg kind r := by
  rw [find, List.find?_cons_of_pos (by simpa using h)]
  rfl

theorem find_cons_of_ne {r : Wire.Extension} {rest : List Wire.Extension} (h : r.id ≠ kind.oid) :
    find reg kind (r :: rest) = find reg kind rest := by
  rw [find, List.find?_cons_of_neg (by simpa using h), find]

/-- Records before the first one of a kind do not matter when it is asked for. -/
theorem find_append_cons {before after : List Wire.Extension} {r : Wire.Extension}
    (hbefore : ∀ r' ∈ before, r'.id ≠ kind.oid) (h : r.id = kind.oid) :
    find reg kind (before ++ r :: after) = some <$> TypedExtension.ofRecord reg kind r := by
  induction before with
  | nil => exact find_cons_of_eq h
  | cons r' before ih =>
      obtain ⟨hne, hrest⟩ := List.forall_mem_cons.mp hbefore
      rw [List.cons_append, find_cons_of_ne hne, ih hrest]

/-- When all records are read, asking for a kind finds the first extension of that kind. -/
theorem exists_find_of_ofRecords {records : List Wire.Extension} {es : List Extension}
    (h : ofRecords reg records = .ok es) (kind : ExtensionKind) :
    ∃ found, find reg kind records = .ok found ∧
      found.map typed = es.find? (·.kind? = some kind) := by
  rw [ofRecords, mapM_eq_ok_iff] at h
  induction h with
  | nil => exact ⟨none, rfl, rfl⟩
  | @cons r e records es he _ ih =>
      have hkind : e.kind? = some kind ↔ r.id = kind.oid := kind?_eq_some_iff_of_ofRecord he
      by_cases hid : r.id = kind.oid
      · rw [ofRecord_of_kind hid, map_eq_ok_iff] at he
        obtain ⟨t, ht, rfl⟩ := he
        refine ⟨some t, ?_, ?_⟩
        · rw [find_cons_of_eq hid, ht]
          rfl
        · rw [List.find?_cons_of_pos (by simpa using hkind.mpr hid)]
          rfl
      · obtain ⟨found, hfound, hmap⟩ := ih
        refine ⟨found, ?_, ?_⟩
        · rw [find_cons_of_ne hid, hfound]
        · rw [hmap, List.find?_cons_of_neg (by simpa using mt hkind.mp hid)]

/-- The error of the first record that cannot be read is also that of asking for its kind, unless
an earlier record has the same identifier. -/
theorem find_eq_error_of_ofRecord {before after : List Wire.Extension} {r : Wire.Extension}
    {err : Error} (hbefore : ∀ r' ∈ before, r'.id ≠ r.id) (hid : r.id = kind.oid)
    (h : TypedExtension.ofRecord reg kind r = .error err) :
    find reg kind (before ++ r :: after) = .error err := by
  rw [find_append_cons (fun r' hr' => hid ▸ hbefore r' hr') hid, map_eq_error_iff]
  exact h

/-- Asking for a kind finds nothing exactly if no record has its identifier. -/
theorem find_eq_ok_none_iff {records : List Wire.Extension} :
    find reg kind records = .ok none ↔ ∀ r ∈ records, r.id ≠ kind.oid := by
  induction records with
  | nil => simp [find, pure, Except.pure]
  | cons r rest ih =>
      rw [List.forall_mem_cons]
      by_cases hid : r.id = kind.oid
      · rw [find_cons_of_eq hid, map_eq_ok_iff]
        constructor
        · rintro ⟨t, -, ht⟩
          cases ht
        · rintro ⟨hne, -⟩
          exact absurd hid hne
      · rw [find_cons_of_ne hid, ih]
        exact ⟨fun hrest => ⟨hid, hrest⟩, And.right⟩

/-! ## Certificates and revocation lists -/

/-- How the extensions of a list of records (`all`) and those asked for by their kinds (`lookup`)
agree. -/
structure LookupAgrees (reg : Registry) (records : List Wire.Extension)
    (all : Except Error (List Extension))
    (lookup : ExtensionKind → Except Error (Option TypedExtension)) : Prop where
  found : ∀ es, all = .ok es → ∀ kind, ∃ found, lookup kind = .ok found ∧
    found.map typed = es.find? (·.kind? = some kind)
  error : ∀ kind err, lookup kind = .error err → ∃ err', all = .error err'
  firstError : ∀ err, all = .error err →
    ∃ before r after, ∃ kind : ExtensionKind, records = before ++ r :: after ∧
      (∀ r' ∈ before, ∃ e, ofRecord reg r' = .ok e) ∧ ofRecord reg r = .error err ∧
        r.id = kind.oid ∧ ((∀ r' ∈ before, r'.id ≠ r.id) → lookup kind = .error err)

theorem lookupAgrees_find (reg : Registry) (records : List Wire.Extension) :
    LookupAgrees reg records (ofRecords reg records) (find reg · records) := by
  refine ⟨fun es hes kind => exists_find_of_ofRecords hes kind, fun kind err herr => ?_,
    fun err herr => ?_⟩
  · cases hall : ofRecords reg records with
    | error err' => exact ⟨err', rfl⟩
    | ok es =>
        obtain ⟨found, hfound, -⟩ := exists_find_of_ofRecords hall kind
        rw [herr] at hfound
        cases hfound
  · obtain ⟨before, r, after, rfl, hbefore, hr⟩ := mapM_eq_error_iff.mp herr
    obtain ⟨kind, hid, hkind⟩ := ofRecord_eq_error_iff.mp hr
    exact ⟨before, r, after, kind, rfl, hbefore, hr, hid,
      fun hfirst => find_eq_error_of_ofRecord hfirst hid hkind⟩

/-- The two ways of reading extensions agree in certificates and in revocation lists, and a list
says that it updates another one exactly if asking for its delta indicator does not find nothing. -/
theorem extension_agrees_extensions (reg : Registry) :
    (∀ c : Certificate, LookupAgrees reg c.records (c.extensions reg) (c.extension reg)) ∧
      ∀ l : RevocationList,
        LookupAgrees reg l.records (l.extensions reg) (l.extension reg) ∧
          (l.isDelta = true ↔ l.extension reg .deltaCrlIndicator ≠ .ok none) := by
  refine ⟨fun c => lookupAgrees_find reg c.records, fun l => ⟨lookupAgrees_find reg l.records, ?_⟩⟩
  rw [RevocationList.extension, ne_eq, find_eq_ok_none_iff, RevocationList.isDelta, List.any_eq_true]
  simp [ExtensionKind.oid]

end Pkix.Extension
