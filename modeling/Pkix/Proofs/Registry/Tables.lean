import Pkix.Registry

/-!
# The tables of a registry

A registry holds its entries and three indexes into them. An index *describes* the entries when
every position it stores is that of an entry with the key and every entry is found under each of
its keys. The invariant `Registry.Consistent` says so of all three, and that the numbers given out
lie below the next one. Adding an entry whose keys are free keeps it, and so the registry is
consistent from the start.
-/

namespace Pkix

/-! ## Entries -/

/-- The names that an entry is found under. -/
def Entry.names (e : Entry) : List String := [e.shortName, e.longName]

/-- Two entries that have no key in common. -/
def Entry.Apart (e e' : Entry) : Prop :=
  e.oid ≠ e'.oid ∧ e.nid ≠ e'.nid ∧ ∀ name ∈ e.names, name ∉ e'.names

instance (e e' : Entry) : Decidable (e.Apart e') := inferInstanceAs (Decidable (_ ∧ _ ∧ _))

/-! ## Indexes -/

namespace Index

variable {κ : Type} [DecidableEq κ]

@[simp] theorem find?_nil (k : κ) : find? ([] : Index κ) k = none := rfl

theorem find?_cons (index : Index κ) (key k : κ) (position : Nat) :
    find? ((key, position) :: index) k = if k = key then some position else find? index k := by
  by_cases h : k = key
  · simp [find?, h]
  · have hne : (k == key) = false := beq_false_of_ne h
    simp [find?, List.lookup_cons, hne, h]

theorem find?_filter_ne (index : Index κ) {key k : κ} (h : k ≠ key) :
    find? (index.filter (·.1 ≠ key)) k = find? index k := by
  induction index with
  | nil => rfl
  | cons p rest ih =>
      obtain ⟨key', position⟩ := p
      by_cases hkey : key' = key
      · simpa [hkey, find?_cons, h] using ih
      · simp only [ne_eq, decide_not] at ih
        simp [hkey, find?_cons, ih]

theorem find?_assign (index : Index κ) (key k : κ) (position : Nat) :
    find? (assign index key position) k = if k = key then some position else find? index k := by
  by_cases h : k = key
  · simp [assign, find?_cons, h]
  · rw [assign, find?_cons, find?_filter_ne index h]

theorem find?_assignNew (index : Index κ) (key k : κ) (position : Nat) :
    find? (assignNew index key position) k =
      (find? index k).or (if k = key then some position else none) := by
  unfold assignNew
  split
  · rename_i hfound
    obtain ⟨i, hi⟩ := Option.isSome_iff_exists.mp hfound
    by_cases h : k = key
    · simp [h, hi]
    · simp [h]
  · rename_i hfree
    have hnone : find? index key = none := by simpa using hfree
    rw [find?_cons]
    by_cases h : k = key
    · simp [h, hnone]
    · simp [h]

theorem mem_of_find? {index : Index κ} {k : κ} {i : Nat} (h : find? index k = some i) :
    (k, i) ∈ index := by
  induction index with
  | nil => simp at h
  | cons p rest ih =>
      obtain ⟨key, position⟩ := p
      rw [find?_cons] at h
      split at h
      · simp_all
      · exact List.mem_cons_of_mem _ (ih h)

theorem mem_assign {index : Index κ} {key k : κ} {position i : Nat}
    (h : (k, i) ∈ assign index key position) : (k = key ∧ i = position) ∨ (k, i) ∈ index := by
  rcases List.mem_cons.mp h with heq | hmem
  · exact Or.inl (by simpa using heq)
  · exact Or.inr ((List.mem_filter.mp hmem).1)

theorem mem_assignNew {index : Index κ} {key k : κ} {position i : Nat}
    (h : (k, i) ∈ assignNew index key position) : (k = key ∧ i = position) ∨ (k, i) ∈ index := by
  unfold assignNew at h
  split at h
  · exact Or.inr h
  · simpa using h

/-- An index stores the positions of entries under their keys, all of them and nothing else. -/
structure Describes (index : Index κ) (keys : Entry → List κ) (entries : List Entry) : Prop where
  /-- A stored position is that of an entry with the key. -/
  sound : ∀ k i, (k, i) ∈ index → ∃ e, entries[i]? = some e ∧ k ∈ keys e
  /-- Every entry is found under each of its keys. -/
  complete : ∀ i e, entries[i]? = some e → ∀ k ∈ keys e, find? index k = some i

theorem describes_nil (keys : Entry → List κ) : Describes [] keys [] where
  sound := by simp
  complete := by simp

/-- Entries at different positions have no key in common, since both would be found under it. -/
theorem Describes.eq_of_mem_keys {index : Index κ} {keys : Entry → List κ} {entries : List Entry}
    (h : Describes index keys entries) {i j : Nat} {e e' : Entry} {k : κ}
    (hi : entries[i]? = some e) (hj : entries[j]? = some e') (hk : k ∈ keys e)
    (hk' : k ∈ keys e') : i = j :=
  Option.some.inj ((h.complete i e hi k hk).symm.trans (h.complete j e' hj k hk'))

/-- A key that no entry has is free. -/
theorem Describes.find?_eq_none {index : Index κ} {keys : Entry → List κ} {entries : List Entry}
    (h : Describes index keys entries) {k : κ} (hk : ∀ e ∈ entries, k ∉ keys e) :
    find? index k = none := by
  cases hi : find? index k with
  | none => rfl
  | some i =>
      obtain ⟨e, he, hke⟩ := h.sound k i (mem_of_find? hi)
      exact absurd hke (hk e (List.mem_of_getElem? he))

/-- An index that describes the entries goes on to do so when a new entry takes over its keys and
these were free. -/
theorem Describes.concat {index index' : Index κ} {keys : Entry → List κ} {entries : List Entry}
    {e : Entry} (h : Describes index keys entries) (hfree : ∀ k ∈ keys e, find? index k = none)
    (hmem : ∀ k i, (k, i) ∈ index' → (k ∈ keys e ∧ i = entries.length) ∨ (k, i) ∈ index)
    (hfind : ∀ k, find? index' k =
      (find? index k).or (if k ∈ keys e then some entries.length else none)) :
    Describes index' keys (entries ++ [e]) where
  sound k i hki := by
    rcases hmem k i hki with ⟨hk, rfl⟩ | hold
    · exact ⟨e, by simp, hk⟩
    · obtain ⟨e', he', hk⟩ := h.sound k i hold
      have hi : i < entries.length := (List.getElem?_eq_some_iff.mp he').1
      exact ⟨e', by rwa [List.getElem?_append_left hi], hk⟩
  complete i e' he' k hk := by
    rw [List.getElem?_append] at he'
    rw [hfind]
    split at he'
    · simp [h.complete i e' he' k hk]
    · rename_i hi
      obtain ⟨hi', rfl⟩ : i - entries.length = 0 ∧ e = e' := by
        simpa [List.getElem?_singleton] using he'
      rw [hfree k hk, if_pos hk, show i = entries.length by omega]
      rfl

/-- An index by one key goes on to describe the entries when a new one is assigned a free key. -/
theorem Describes.assign {index : Index κ} {key : Entry → κ} {entries : List Entry} {e : Entry}
    (h : Describes index (fun e => [key e]) entries) (hfree : find? index (key e) = none) :
    Describes (Index.assign index (key e) entries.length) (fun e => [key e]) (entries ++ [e]) := by
  refine h.concat (by simpa using hfree) (fun k i hki => ?_) (fun k => ?_)
  · simpa using mem_assign hki
  · rw [find?_assign]
    by_cases hk : k = key e
    · simp [hk, hfree]
    · simp [hk]

/-- The index by names goes on to describe the entries when a new one takes over its names and these
were free. -/
theorem Describes.assignNames {index : Index String} {entries : List Entry} {e : Entry}
    (h : index.Describes Entry.names entries)
    (hfree : ∀ name ∈ e.names, index.find? name = none) :
    Describes
      (assignNew (assignNew index e.shortName entries.length) e.longName entries.length)
      Entry.names (entries ++ [e]) := by
  refine h.concat hfree (fun k i hki => ?_) (fun k => ?_)
  · rcases mem_assignNew hki with ⟨rfl, rfl⟩ | hki
    · exact Or.inl ⟨by simp [Entry.names], rfl⟩
    · rcases mem_assignNew hki with ⟨rfl, rfl⟩ | hki
      · exact Or.inl ⟨by simp [Entry.names], rfl⟩
      · exact Or.inr hki
  · rw [find?_assignNew, find?_assignNew, Option.or_assoc]
    congr 1
    by_cases hs : k = e.shortName
    · simp [Entry.names, hs]
    · simp [Entry.names, hs]

end Index

namespace Registry

/-! ## The invariant -/

/-- The indexes of a registry agree with its entries, and its next number is free. -/
structure Consistent (r : Registry) : Prop where
  byOid : r.byOid.Describes (fun e => [e.oid]) r.entries
  byNid : r.byNid.Describes (fun e => [e.nid]) r.entries
  byName : r.byName.Describes Entry.names r.entries
  nid_lt : ∀ e ∈ r.entries, e.nid < r.nextNid

namespace Consistent

variable {r : Registry} {e : Entry}

theorem pairwise_apart (h : r.Consistent) : r.entries.Pairwise Entry.Apart := by
  rw [List.pairwise_iff_getElem]
  intro i j hi hj hij
  have hne : i ≠ j := Nat.ne_of_lt hij
  have hi' := List.getElem?_eq_getElem hi
  have hj' := List.getElem?_eq_getElem hj
  refine ⟨fun hoid => ?_, fun hnid => ?_, fun name hname hname' => ?_⟩
  · exact hne (h.byOid.eq_of_mem_keys hi' hj' (List.mem_singleton_self _) (by simp [hoid]))
  · exact hne (h.byNid.eq_of_mem_keys hi' hj' (List.mem_singleton_self _) (by simp [hnid]))
  · exact hne (h.byName.eq_of_mem_keys hi' hj' hname hname')

/-- Adding an entry whose keys are free keeps the tables in agreement. -/
theorem add (h : r.Consistent) (hoid : r.byOid.find? e.oid = none)
    (hnid : r.byNid.find? e.nid = none) (hname : ∀ name ∈ e.names, r.byName.find? name = none)
    (hlt : e.nid < r.nextNid) : (r.add e).Consistent where
  byOid := h.byOid.assign hoid
  byNid := h.byNid.assign hnid
  byName := h.byName.assignNames hname
  nid_lt := by
    intro e' he'
    rcases List.mem_append.mp he' with hold | hnew
    · exact h.nid_lt e' hold
    · rw [List.mem_singleton.mp hnew]
      exact hlt

/-- A series of entries that are apart from each other and from those that are there can be
added. -/
theorem foldl_add (entries : List Entry) (h : r.Consistent)
    (hapart : (r.entries ++ entries).Pairwise Entry.Apart)
    (hlt : ∀ e ∈ entries, e.nid < r.nextNid) : (entries.foldl Registry.add r).Consistent := by
  induction entries generalizing r with
  | nil => exact h
  | cons e rest ih =>
      have hnew : ∀ e' ∈ r.entries, e'.Apart e := fun e' he' =>
        (List.pairwise_append.mp hapart).2.2 e' he' e List.mem_cons_self
      rw [List.foldl_cons]
      apply ih
      · refine h.add ?_ ?_ (fun name hname => ?_) (hlt e List.mem_cons_self)
        · exact h.byOid.find?_eq_none fun e' he' => by simpa using Ne.symm (hnew e' he').1
        · exact h.byNid.find?_eq_none fun e' he' => by simpa using Ne.symm (hnew e' he').2.1
        · exact h.byName.find?_eq_none fun e' he' hmem => (hnew e' he').2.2 name hmem hname
      · simpa [Registry.add] using hapart
      · exact fun e' he' => hlt e' (List.mem_cons_of_mem _ he')

end Consistent

theorem consistent_empty : empty.Consistent where
  byOid := Index.describes_nil _
  byNid := Index.describes_nil _
  byName := Index.describes_nil _
  nid_lt := by simp [empty]

theorem entries_foldl_add (entries : List Entry) (r : Registry) :
    (entries.foldl add r).entries = r.entries ++ entries := by
  induction entries generalizing r with
  | nil => simp
  | cons e entries ih => simp [ih, add]

theorem entries_builtin : builtin.entries = builtinEntries :=
  entries_foldl_add builtinEntries empty

theorem builtinEntries_apart : builtinEntries.Pairwise Entry.Apart := by
  decide +kernel

/-- The registry is consistent from the start. -/
theorem consistent_builtin : builtin.Consistent :=
  consistent_empty.foldl_add builtinEntries builtinEntries_apart (by decide)

end Registry

end Pkix
