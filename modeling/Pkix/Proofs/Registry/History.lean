import Mathlib.Algebra.Group.Int.Defs
import Mathlib.Algebra.Group.Nat.Defs
import Pkix.Proofs.Registry.Tables

/-!
# Histories of a registry

A registry changes only by calls that register an identifier, in any number and order, of which
some are refused. The tables stay consistent along every history, and the identifiers given out
are numbered without gaps, as long as the numbers do not run out.
-/

namespace Pkix.Registry

/-! ## One call -/

/-- A call registers the identifier that a dotted text names under a name, in this order. -/
abbrev Call := String × String

/-- A call succeeds exactly if its identifier can be read, its name is not empty, and neither is
registered; the new entry then takes the next number. -/
theorem register_eq_ok_iff {r r' : Registry} {dotted name : String} {x : Identifier} :
    r.register dotted name = .ok (x, r') ↔
      ∃ oid, Oid.parse? dotted = some oid ∧ name ≠ "" ∧ r.byOid.find? oid = none ∧
        r.byName.find? name = none ∧ x = .defined oid (some ⟨r.nextNid, name⟩) ∧
        r' = { r.add ⟨oid, r.nextNid, name, name⟩ with nextNid := r.nextNid + 1 } := by
  cases hoid : Oid.parse? dotted with
  | none => simp [register, hoid, Error.ifNone, bind, Except.bind]
  | some oid =>
      by_cases hname : name = ""
      · simp [register, hoid, Error.ifNone, bind, Except.bind, hname]
      · cases hfound : r.byOid.find? oid with
        | some i => simp [register, hoid, Error.ifNone, bind, Except.bind, hname, hfound]
        | none =>
            cases htaken : r.byName.find? name with
            | some i =>
                simp [register, hoid, Error.ifNone, bind, Except.bind, hname, hfound, htaken]
            | none =>
                simp [register, hoid, Error.ifNone, bind, Except.bind, hname, hfound, htaken,
                  Entry.identifier, eq_comm]

/-- The registry after a call; one that is refused leaves it as it is. -/
def step (r : Registry) (call : Call) : Registry :=
  match r.register call.1 call.2 with
  | .ok (_, r') => r'
  | .error _ => r

theorem toInt_add_one {n : Int32} (h : n.toInt + 1 < 2 ^ 31) : (n + 1).toInt = n.toInt + 1 := by
  have hlow := n.le_toInt
  rw [Int32.toInt_add, show (1 : Int32).toInt = 1 from rfl]
  apply Int.bmod_eq_of_le <;> omega

/-- The next number can be raised. -/
theorem Consistent.raise {r : Registry} (h : r.Consistent) {nid : Int32} (hle : r.nextNid ≤ nid) :
    { r with nextNid := nid }.Consistent :=
  { h with nid_lt := fun e he => Int32.lt_of_lt_of_le (h.nid_lt e he) hle }

/-- A successful call keeps the tables in agreement and takes one number. -/
theorem Consistent.register {r r' : Registry} {dotted name : String} {x : Identifier}
    (h : r.Consistent) (hmax : r.nextNid.toInt + 1 < 2 ^ 31)
    (hr : r.register dotted name = .ok (x, r')) :
    r'.Consistent ∧ r'.nextNid.toInt = r.nextNid.toInt + 1 ∧ x.nid? = some r.nextNid := by
  obtain ⟨oid, -, -, hoid, hname, rfl, rfl⟩ := register_eq_ok_iff.mp hr
  have hnext := toInt_add_one hmax
  have hlt : r.nextNid < r.nextNid + 1 := by
    rw [Int32.lt_iff_toInt_lt, hnext]
    omega
  have hnid : r.byNid.find? r.nextNid = none :=
    h.byNid.find?_eq_none fun e he hmem =>
      absurd (h.nid_lt e he) (by simp [List.mem_singleton.mp hmem])
  have hadd := (h.raise (Int32.le_of_lt hlt)).add (e := ⟨oid, r.nextNid, name, name⟩) hoid hnid
    (by simpa [Entry.names] using hname) hlt
  exact ⟨hadd, hnext, rfl⟩

/-! ## Series of calls -/

/-- The registry after a series of calls. -/
def run (r : Registry) (calls : List Call) : Registry :=
  calls.foldl step r

/-- The identifiers that a series of calls gives out, in order; refused calls give none. -/
def granted (r : Registry) : List Call → List Identifier
  | [] => []
  | call :: rest =>
    match r.register call.1 call.2 with
    | .ok (x, r') => x :: granted r' rest
    | .error _ => granted r rest

theorem run_cons (r : Registry) (call : Call) (rest : List Call) :
    r.run (call :: rest) = (r.step call).run rest := rfl

/-- Along a series of calls the tables stay in agreement and the numbers given out follow each
other, if there are enough of them. -/
theorem Consistent.run {r : Registry} (calls : List Call) (h : r.Consistent)
    (hmax : r.nextNid.toInt + (r.granted calls).length < 2 ^ 31) :
    (r.run calls).Consistent ∧
      (r.run calls).nextNid.toInt = r.nextNid.toInt + (r.granted calls).length ∧
        ∀ (k : Nat) (x : Identifier), (r.granted calls)[k]? = some x →
          x.nid?.map Int32.toInt = some (r.nextNid.toInt + k) := by
  induction calls generalizing r with
  | nil => simp [Registry.run, granted, h]
  | cons call rest ih =>
      rw [run_cons]
      cases hr : r.register call.1 call.2 with
      | error err =>
          simp only [granted, step, hr] at hmax ⊢
          exact ih h hmax
      | ok result =>
          obtain ⟨x, r'⟩ := result
          simp only [granted, step, hr, List.length_cons] at hmax ⊢
          obtain ⟨hcons, hnext, hnid⟩ := h.register (by omega) hr
          obtain ⟨hrun, hcount, hnids⟩ := ih hcons (by omega)
          refine ⟨hrun, by omega, fun k y hk => ?_⟩
          cases k with
          | zero =>
              obtain rfl : x = y := by simpa using hk
              simp [hnid]
          | succ k =>
              rw [hnids k y (by simpa using hk), hnext]
              simp only [Option.some.injEq]
              omega

/-- After any series of fewer than `2 ^ 31 - 10000` successful calls, in whatever order and mixed
with whatever refused ones, the three indexes store the positions of the entries under their keys,
all of them and nothing else, no two entries share a key, and the successful calls got the numbers
from 10000 on. -/
theorem run_builtin_tables (calls : List Call)
    (hmax : (builtin.granted calls).length < 2 ^ 31 - 10000) :
    (builtin.run calls).Consistent ∧
      (builtin.run calls).entries.Pairwise Entry.Apart ∧
        (∀ (k : Nat) (x : Identifier), (builtin.granted calls)[k]? = some x →
          x.nid?.map Int32.toInt = some (10000 + k)) ∧
          (builtin.run calls).nextNid.toInt = 10000 + (builtin.granted calls).length := by
  have hfirst : builtin.nextNid.toInt = 10000 := by decide
  obtain ⟨hcons, hnext, hnids⟩ := consistent_builtin.run calls (by omega)
  rw [hfirst] at hnext hnids
  exact ⟨hcons, hcons.pairwise_apart, hnids, hnext⟩

/-- Calls of which the second repeats an identifier, the third takes the name of an entry that is
there from the start, and the fourth has no name. -/
def mixedCalls : List Call :=
  [("1.2.3.4", "first"), ("1.2.3.4", "again"), ("1.2.3.5", "CN"), ("1.2.3.5", ""),
   ("1.2.3.5", "second")]

theorem run_builtin_tables_mixedCalls :
    (builtin.granted mixedCalls).map Identifier.name = ["first", "second"] ∧
      (builtin.run mixedCalls).Consistent ∧
        (builtin.run mixedCalls).entries.Pairwise Entry.Apart ∧
          (∀ (k : Nat) (x : Identifier), (builtin.granted mixedCalls)[k]? = some x →
            x.nid?.map Int32.toInt = some (10000 + k)) ∧
            (builtin.run mixedCalls).nextNid.toInt =
              10000 + (builtin.granted mixedCalls).length := by
  have hnames : (builtin.granted mixedCalls).map Identifier.name = ["first", "second"] := by
    decide +kernel
  have hlen : (builtin.granted mixedCalls).length = 2 := by
    simpa using congrArg List.length hnames
  exact ⟨hnames, run_builtin_tables mixedCalls (by rw [hlen]; decide)⟩

end Pkix.Registry
