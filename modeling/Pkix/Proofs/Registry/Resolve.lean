import Pkix.Proofs.Registry.History

/-!
# Resolving keeps octets

What a registry resolves an identifier to has the octets that were resolved, with or without a name.
This holds from the start and along every history, also of calls that are refused, since an entry is
only ever found under its own octets.
-/

namespace Pkix.Registry

/-- Whether resolving an identifier keeps its octets. -/
def KeepsOids (r : Registry) : Prop := ∀ oid, (r.resolve oid).oid? = some oid

/-- Whether the index by octets describes the entries. -/
abbrev IndexesOids (r : Registry) : Prop := r.byOid.Describes (fun e => [e.oid]) r.entries

theorem IndexesOids.keepsOids {r : Registry} (h : r.IndexesOids) : r.KeepsOids := by
  intro oid
  rw [resolve]
  cases hentry : r.entry? (r.byOid.find? oid) with
  | none => rfl
  | some e =>
      obtain ⟨i, hi, he⟩ := Option.bind_eq_some_iff.mp hentry
      obtain ⟨e', he', hoid⟩ := h.sound oid i (Index.mem_of_find? hi)
      obtain rfl : e = e' := Option.some.inj (he.symm.trans he')
      rw [List.mem_singleton.mp hoid]
      rfl

theorem IndexesOids.step {r : Registry} (h : r.IndexesOids) (call : Call) :
    (r.step call).IndexesOids := by
  rw [Registry.step]
  cases hr : r.register call.1 call.2 with
  | error err => exact h
  | ok result =>
      obtain ⟨x, r'⟩ := result
      obtain ⟨oid, -, -, hoid, -, -, rfl⟩ := register_eq_ok_iff.mp hr
      exact Index.Describes.assign (e := ⟨oid, r.nextNid, call.2, call.2⟩) h hoid

theorem IndexesOids.run {r : Registry} (h : r.IndexesOids) (calls : List Call) :
    (r.run calls).IndexesOids := by
  induction calls generalizing r with
  | nil => exact h
  | cons call rest ih => exact ih (h.step call)

/-- Every registry that can be reached keeps the octets of what it resolves. -/
theorem keepsOids_run_builtin (calls : List Call) : (builtin.run calls).KeepsOids :=
  (IndexesOids.run consistent_builtin.byOid calls).keepsOids

end Pkix.Registry
