import Pkix.Proofs.Fallible
import Pkix.Proofs.Registry.Resolve

/-!
# Lookups of registered identifiers

Entries are only ever added behind those that are there. In a registry whose tables agree, a lookup
gives an identifier with a number exactly if there is an entry that the identifier stands for and
that has the key. No later call, granted or refused, takes such an answer away or changes it.
-/

namespace Pkix

theorem Index.Describes.entry_eq_some_iff {κ : Type} [DecidableEq κ] {index : Index κ}
    {keys : Entry → List κ} {entries : List Entry} (h : index.Describes keys entries) {k : κ}
    {e : Entry} :
    (index.find? k).bind (entries[·]?) = some e ↔ e ∈ entries ∧ k ∈ keys e := by
  constructor
  · intro hfound
    obtain ⟨i, hi, he⟩ := Option.bind_eq_some_iff.mp hfound
    obtain ⟨e', he', hk⟩ := h.sound k i (mem_of_find? hi)
    obtain rfl := Option.some.inj (he'.symm.trans he)
    exact ⟨List.mem_of_getElem? he, hk⟩
  · rintro ⟨hmem, hk⟩
    obtain ⟨i, hi⟩ := List.mem_iff_getElem?.mp hmem
    rw [h.complete i e hi k hk]
    exact hi

/-- Whether a text stands for an entry. The dotted form of an identifier never stands for an entry
that has it as its name only. -/
def Entry.IsCalled (e : Entry) (text : String) : Prop :=
  match Oid.parse? text with
  | some oid => e.oid = oid
  | none => text ∈ e.names

namespace Registry

variable {r : Registry} {x : Identifier}

/-! ## What is found -/

namespace Consistent

theorem resolve_of_mem (h : r.Consistent) {e : Entry} (he : e ∈ r.entries) :
    r.resolve e.oid = e.identifier := by
  have hentry : r.entry? (r.byOid.find? e.oid) = some e :=
    h.byOid.entry_eq_some_iff.mpr ⟨he, List.mem_singleton_self _⟩
  rw [resolve, hentry]

theorem resolve_eq_iff (h : r.Consistent) (hx : x.nid?.isSome) {oid : Oid} :
    r.resolve oid = x ↔ ∃ e ∈ r.entries, e.oid = oid ∧ e.identifier = x := by
  constructor
  · intro hresolve
    rw [resolve] at hresolve
    split at hresolve
    · rename_i e hentry
      obtain ⟨he, hoid⟩ := h.byOid.entry_eq_some_iff.mp hentry
      exact ⟨e, he, (List.mem_singleton.mp hoid).symm, hresolve⟩
    · subst hresolve
      cases hx
  · rintro ⟨e, he, rfl, rfl⟩
    exact h.resolve_of_mem he

theorem findNid_eq_ok_iff (h : r.Consistent) {nid : Int32} :
    r.findNid nid = .ok x ↔ ∃ e ∈ r.entries, e.nid = nid ∧ e.identifier = x := by
  have hentry : ∀ e, r.entry? (r.byNid.find? nid) = some e ↔ e ∈ r.entries ∧ nid ∈ [e.nid] :=
    fun _ => h.byNid.entry_eq_some_iff
  rw [findNid, Error.ifNone_eq_ok_iff, Option.map_eq_some_iff]
  simp only [hentry, List.mem_singleton, and_assoc, eq_comm]

theorem find_eq_ok_iff (h : r.Consistent) (hx : x.nid?.isSome) {text : String} :
    r.find text = .ok x ↔ ∃ e ∈ r.entries, e.IsCalled text ∧ e.identifier = x := by
  rw [find]
  unfold Entry.IsCalled
  cases Oid.parse? text with
  | some oid => simpa using h.resolve_eq_iff hx
  | none =>
      have hentry : ∀ e, r.entry? (r.byName.find? text) = some e ↔
          e ∈ r.entries ∧ text ∈ e.names := fun _ => h.byName.entry_eq_some_iff
      simp only [Error.ifNone_eq_ok_iff, Option.map_eq_some_iff, hentry, and_assoc]

end Consistent

/-! ## Histories only add -/

theorem entries_prefix_step (r : Registry) (call : Call) :
    r.entries <+: (r.step call).entries := by
  rw [step]
  cases hr : r.register call.1 call.2 with
  | error err => exact List.prefix_rfl
  | ok result =>
      obtain ⟨y, r'⟩ := result
      obtain ⟨oid, -, -, -, -, -, rfl⟩ := register_eq_ok_iff.mp hr
      exact List.prefix_append _ _

theorem entries_prefix_run (r : Registry) (calls : List Call) :
    r.entries <+: (r.run calls).entries := by
  induction calls generalizing r with
  | nil => exact List.prefix_rfl
  | cons call rest ih => exact (r.entries_prefix_step call).trans (ih (r.step call))

theorem run_append (r : Registry) (calls later : List Call) :
    r.run (calls ++ later) = (r.run calls).run later :=
  List.foldl_append

theorem granted_append (r : Registry) (calls later : List Call) :
    r.granted (calls ++ later) = r.granted calls ++ (r.run calls).granted later := by
  induction calls generalizing r with
  | nil => rfl
  | cons call rest ih =>
      rw [List.cons_append, run_cons, granted, granted, step]
      cases hr : r.register call.1 call.2 with
      | error err => exact ih r
      | ok result => exact congrArg (result.1 :: ·) (ih result.2)

theorem consistent_run_builtin {calls : List Call}
    (hmax : (builtin.granted calls).length < 2 ^ 31 - 10000) : (builtin.run calls).Consistent := by
  have hfirst : builtin.nextNid.toInt = 10000 := by decide
  exact (consistent_builtin.run calls (by omega)).1

/-- Whatever is registered or refused later, the answer to a lookup by text, by number or by octets
stays as it is once it is an identifier with a number. -/
theorem lookups_run_append (calls later : List Call)
    (hmax : (builtin.granted (calls ++ later)).length < 2 ^ 31 - 10000) (hx : x.nid?.isSome) :
    (∀ text, (builtin.run calls).find text = .ok x →
        (builtin.run (calls ++ later)).find text = .ok x) ∧
      (∀ nid, (builtin.run calls).findNid nid = .ok x →
          (builtin.run (calls ++ later)).findNid nid = .ok x) ∧
        ∀ oid, (builtin.run calls).resolve oid = x →
          (builtin.run (calls ++ later)).resolve oid = x := by
  have hlength := congrArg List.length (builtin.granted_append calls later)
  rw [List.length_append] at hlength
  have hnow : (builtin.run calls).Consistent := consistent_run_builtin (by omega)
  have hlater : (builtin.run (calls ++ later)).Consistent := consistent_run_builtin hmax
  have hkept : (builtin.run calls).entries ⊆ (builtin.run (calls ++ later)).entries := by
    rw [run_append]
    exact (entries_prefix_run _ later).subset
  refine ⟨?_, ?_, ?_⟩
  · intro text hfind
    obtain ⟨e, he, hcalled, hid⟩ := (hnow.find_eq_ok_iff hx).mp hfind
    exact (hlater.find_eq_ok_iff hx).mpr ⟨e, hkept he, hcalled, hid⟩
  · intro nid hfind
    obtain ⟨e, he, hnid, hid⟩ := hnow.findNid_eq_ok_iff.mp hfind
    exact hlater.findNid_eq_ok_iff.mpr ⟨e, hkept he, hnid, hid⟩
  · intro oid hresolve
    obtain ⟨e, he, hoid, hid⟩ := (hnow.resolve_eq_iff hx).mp hresolve
    exact (hlater.resolve_eq_iff hx).mpr ⟨e, hkept he, hoid, hid⟩

/-- Calls of which the first takes a name and the second an identifier that `mixedCalls` registered,
and the others register identifiers under the dotted texts of other ones. -/
def laterCalls : List Call :=
  [("1.2.3.6", "first"), ("1.2.3.4", "third"), ("1.2.3.6", "1.2.3.4"), ("1.2.3.7", "1.2.3.8")]

theorem lookups_run_append_laterCalls :
    let x : Identifier := .defined ⟨[0x2a, 0x03, 0x04]⟩ (some ⟨10000, "first"⟩)
    (builtin.granted (mixedCalls ++ laterCalls)).length = 4 ∧
      (builtin.run (mixedCalls ++ laterCalls)).find "first" = .ok x ∧
        (builtin.run (mixedCalls ++ laterCalls)).find "1.2.3.4" = .ok x ∧
          (builtin.run (mixedCalls ++ laterCalls)).findNid 10000 = .ok x ∧
            (builtin.run (mixedCalls ++ laterCalls)).resolve ⟨[0x2a, 0x03, 0x04]⟩ = x := by
  intro x
  obtain ⟨hcount, hname, hdotted, hnid, hoid⟩ :
      (builtin.granted (mixedCalls ++ laterCalls)).length = 4 ∧
        (builtin.run mixedCalls).find "first" = .ok x ∧
          (builtin.run mixedCalls).find "1.2.3.4" = .ok x ∧
            (builtin.run mixedCalls).findNid 10000 = .ok x ∧
              (builtin.run mixedCalls).resolve ⟨[0x2a, 0x03, 0x04]⟩ = x := by
    decide +kernel
  obtain ⟨hfind, hfindNid, hresolve⟩ :=
    lookups_run_append (x := x) mixedCalls laterCalls (by rw [hcount]; decide) rfl
  exact ⟨hcount, hfind _ hname, hfind _ hdotted, hfindNid _ hnid, hresolve _ hoid⟩

/-! ## A registered identifier -/

/-- A registered identifier is found by its dotted text, its number and its octets after any later
calls. It is found by its name as well, unless the name is the dotted text of another identifier:
such a text stands for that identifier. -/
theorem find_run_of_register (calls later : List Call) {dotted name : String} {r : Registry}
    (hr : (builtin.run calls).register dotted name = .ok (x, r))
    (hmax : (builtin.granted (calls ++ (dotted, name) :: later)).length < 2 ^ 31 - 10000) :
    ∃ oid nid, x = .defined oid (some ⟨nid, name⟩) ∧
      (r.run later).find dotted = .ok x ∧ (r.run later).findNid nid = .ok x ∧
        (r.run later).resolve oid = x ∧
          ((r.run later).find name = .ok x ↔ ∀ other ∈ Oid.parse? name, other = oid) ∧
            ∀ other ∈ Oid.parse? name,
              (r.run later).find name = .ok ((r.run later).resolve other) := by
  obtain ⟨oid, hparse, -, -, -, hx, hadded⟩ := register_eq_ok_iff.mp hr
  have hstep : (builtin.run calls).step (dotted, name) = r := by simp only [step, hr]
  have hrun : builtin.run (calls ++ (dotted, name) :: later) = r.run later := by
    rw [run_append, run_cons, hstep]
  have hcons : (r.run later).Consistent := hrun ▸ consistent_run_builtin hmax
  have hkeeps : (r.run later).KeepsOids := hrun ▸ keepsOids_run_builtin _
  -- The entry of the call is there from then on, and all lookups lead to it.
  let e : Entry := ⟨oid, (builtin.run calls).nextNid, name, name⟩
  have he : e ∈ (r.run later).entries := by
    apply (r.entries_prefix_run later).subset
    rw [hadded]
    exact List.mem_append_right _ (List.mem_singleton_self e)
  have hid : e.identifier = x := hx.symm
  have hresolve : (r.run later).resolve oid = x := (hcons.resolve_of_mem he).trans hid
  have hother : ∀ other ∈ Oid.parse? name,
      (r.run later).find name = .ok ((r.run later).resolve other) := by
    intro other hname
    rw [find, Option.mem_def.mp hname]
  refine ⟨oid, e.nid, hx, ?_, ?_, hresolve, ?_, hother⟩
  · rw [find, hparse]
    exact congrArg Except.ok hresolve
  · exact hcons.findNid_eq_ok_iff.mpr ⟨e, he, rfl, hid⟩
  · constructor
    · intro hfind other hname
      rw [hother other hname] at hfind
      have hsame := congrArg Identifier.oid? (Except.ok.inj hfind)
      rw [hkeeps other, hx] at hsame
      exact Option.some.inj hsame
    · intro hall
      cases hname : Oid.parse? name with
      | some other => rw [hother other hname, hall other hname, hresolve]
      | none =>
          have hcalled : e.IsCalled name := by simp [Entry.IsCalled, hname, e, Entry.names]
          exact (hcons.find_eq_ok_iff (by rw [hx]; rfl)).mpr ⟨e, he, hcalled, hid⟩

theorem find_run_of_register_laterCalls :
    let x : Identifier := .defined ⟨[0x2a, 0x03, 0x06]⟩ (some ⟨10002, "1.2.3.4"⟩)
    ∃ r, (builtin.run mixedCalls).register "1.2.3.6" "1.2.3.4" = .ok (x, r) ∧
      (r.run laterCalls).find "1.2.3.6" = .ok x ∧ (r.run laterCalls).findNid 10002 = .ok x ∧
        (r.run laterCalls).resolve ⟨[0x2a, 0x03, 0x06]⟩ = x ∧
          (r.run laterCalls).find "1.2.3.4" ≠ .ok x := by
  intro x
  obtain ⟨hgranted, hcount⟩ :
      Prod.fst <$> (builtin.run mixedCalls).register "1.2.3.6" "1.2.3.4" = .ok x ∧
        (builtin.granted (mixedCalls ++ ("1.2.3.6", "1.2.3.4") :: laterCalls)).length = 4 := by
    decide +kernel
  obtain ⟨⟨y, r⟩, hr, rfl⟩ := map_eq_ok_iff.mp hgranted
  obtain ⟨oid, nid, hx, hdotted, hnid, hoid, hname, -⟩ :=
    find_run_of_register mixedCalls laterCalls hr (by rw [hcount]; decide)
  obtain ⟨rfl, rfl⟩ : (⟨[0x2a, 0x03, 0x06]⟩ : Oid) = oid ∧ (10002 : Int32) = nid := by
    simpa [x] using hx
  refine ⟨r, hr, hdotted, hnid, hoid, fun hfound => ?_⟩
  have hparse : Oid.parse? "1.2.3.4" = some ⟨[0x2a, 0x03, 0x04]⟩ := by decide +kernel
  exact absurd (hname.mp hfound _ hparse) (by decide)

/-- An identifier that is registered under the dotted text of another one is not found by it. -/
theorem find_name_of_register_fails :
    let x : Identifier := .defined ⟨[0x2a, 0x03, 0x04]⟩ (some ⟨10000, "1.2.3.5"⟩)
    Prod.fst <$> builtin.register "1.2.3.4" "1.2.3.5" = .ok x ∧
      (builtin.run [("1.2.3.4", "1.2.3.5")]).find "1.2.3.5" =
          .ok (.defined ⟨[0x2a, 0x03, 0x05]⟩ none) ∧
        Identifier.defined ⟨[0x2a, 0x03, 0x05]⟩ none ≠ x := by
  decide +kernel

end Registry

end Pkix
