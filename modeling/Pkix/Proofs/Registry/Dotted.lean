import Pkix.Proofs.Oid.Dotted
import Pkix.Proofs.Registry.Resolve

/-!
# Dotted forms identify identifiers

A registry compares identifiers by their octets, while users and markup show the dotted form. The
two agree: a dotted form comes back from the identifier it is looked up as, and an identifier is
found under the dotted form that it prints, up to arcs that are written apart and up to the number
of octets that are written at most. An identifier can then also be registered by the text that it
prints.
-/

namespace Pkix.Registry

/-! ## What can be found -/

/-- What identifiers are found by: the index by octets leads to the entries, and these have no more
octets than are written from arcs. -/
structure HoldsWritten (r : Registry) : Prop where
  indexes : r.IndexesOids
  length_le : ∀ e ∈ r.entries, e.oid.octets.length ≤ 38

theorem holdsWritten_builtin : builtin.HoldsWritten where
  indexes := consistent_builtin.byOid
  length_le := by
    rw [entries_builtin]
    decide

namespace HoldsWritten

variable {r : Registry}

theorem step (h : r.HoldsWritten) (call : Call) : (r.step call).HoldsWritten where
  indexes := h.indexes.step call
  length_le := by
    rw [Registry.step]
    cases hr : r.register call.1 call.2 with
    | error err => exact h.length_le
    | ok result =>
        obtain ⟨x, r'⟩ := result
        obtain ⟨oid, hoid, -, -, -, -, rfl⟩ := register_eq_ok_iff.mp hr
        obtain ⟨arcs, -, harcs⟩ := Option.bind_eq_some_iff.mp hoid
        obtain ⟨_, _, _, _, -, -, -, -, -, -, hlength⟩ := Oid.ofArcs?_eq_some_iff.mp harcs
        intro e he
        rcases List.mem_append.mp he with he | he
        · exact h.length_le e he
        · rw [List.mem_singleton.mp he]
          exact hlength

theorem run (h : r.HoldsWritten) (calls : List Call) : (r.run calls).HoldsWritten := by
  induction calls generalizing r with
  | nil => exact h
  | cons call calls ih => exact ih (h.step call)

/-- A text under which an identifier is found is its dotted form, or else a name of an entry, which
has few enough octets. -/
theorem of_find (h : r.HoldsWritten) {text : String} {oid : Oid}
    (hfind : r.find text = .ok (r.resolve oid)) :
    Oid.parse? text = some oid ∨ Oid.parse? text = none ∧ oid.octets.length ≤ 38 := by
  have hkeeps := h.indexes.keepsOids
  rw [find] at hfind
  cases hparse : Oid.parse? text with
  | some oid' =>
      rw [hparse] at hfind
      have hoids : some oid' = some oid := by
        rw [← hkeeps oid', ← hkeeps oid, Except.ok.inj hfind]
      exact .inl hoids
  | none =>
      rw [hparse] at hfind
      obtain ⟨e, hentry, he⟩ := Option.map_eq_some_iff.mp (Error.ifNone_eq_ok_iff.mp hfind)
      obtain ⟨i, -, hi⟩ := Option.bind_eq_some_iff.mp hentry
      have hoid : e.identifier.oid? = some oid := by rw [he, hkeeps]
      obtain rfl : e.oid = oid := Option.some.inj hoid
      exact .inr ⟨rfl, h.length_le e (List.mem_of_getElem? hi)⟩

end HoldsWritten

theorem find_of_parse? {r : Registry} {text : String} {oid : Oid}
    (h : Oid.parse? text = some oid) : r.find text = .ok (r.resolve oid) := by
  rw [find, h]

theorem dotted_resolve {r : Registry} (hr : r.KeepsOids) (oid : Oid) :
    (r.resolve oid).dotted = .ok oid.dotted := by
  rw [Identifier.dotted, Identifier.toOid, hr oid]
  rfl

/-- What neither the octets nor the names of the entries use can be registered from the start. -/
theorem exists_register_builtin {text name : String} {oid : Oid} (h : Oid.parse? text = some oid)
    (hname : name ≠ "") (hfree : ∀ e ∈ builtinEntries, e.oid ≠ oid ∧ name ∉ e.names) :
    ∃ y r', builtin.register text name = .ok (y, r') := by
  rw [← entries_builtin] at hfree
  have hoid : builtin.byOid.find? oid = none :=
    consistent_builtin.byOid.find?_eq_none fun e he => by simpa using Ne.symm (hfree e he).1
  have hfree' : builtin.byName.find? name = none :=
    consistent_builtin.byName.find?_eq_none fun e he => (hfree e he).2
  exact ⟨_, _, register_eq_ok_iff.mpr ⟨oid, h, hname, hoid, hfree', rfl, rfl⟩⟩

/-- An identifier resolves to what was just registered exactly if it is the one that was named. -/
theorem resolve_eq_iff_of_register {r r' : Registry} (hr : r.IndexesOids) {text name : String}
    {y : Identifier} (h : r.register text name = .ok (y, r')) {oid : Oid} :
    r'.resolve oid = y ↔ Oid.parse? text = some oid := by
  have hkeeps : (r.step (text, name)).KeepsOids := (hr.step (text, name)).keepsOids
  have hstep : r.step (text, name) = r' := by rw [step, h]
  rw [hstep] at hkeeps
  obtain ⟨oid', hparse, -, -, -, rfl, hr'⟩ := register_eq_ok_iff.mp h
  rw [hparse, Option.some.injEq]
  constructor
  · intro hresolve
    have hoids := hkeeps oid
    rw [hresolve] at hoids
    exact Option.some.inj hoids
  · rintro rfl
    subst hr'
    simp [resolve, add, Index.find?_assign, entry?, Entry.identifier]

namespace HoldsWritten

variable {r : Registry}

/-- What a minimally encoded identifier prints is looked up as that identifier exactly if it can be
written again, and as the octets that were read. -/
theorem find_eq_resolve_iff (h : r.HoldsWritten) {oid : Oid} {first : UInt8} {later : List Nat}
    (hminimal : oid.IsMinimal first later) :
    r.find oid.dotted = .ok (r.resolve oid) ↔
      oid.octets.length ≤ 38 ∧ ∀ arc ∈ later, ¬ Oid.IsSplit arc := by
  constructor
  · intro hfind
    rcases h.of_find hfind with hparse | ⟨hnone, hlength⟩
    · rw [hminimal.parse?_dotted] at hparse
      exact ⟨hminimal.exists_ofArcs?_iff.mp ⟨_, hparse⟩,
        (hminimal.eq_iff_of_ofArcs? hparse).mp rfl⟩
    · -- Not the name of an entry: the entries are short, so what they print is a dotted form.
      obtain ⟨oid', hoid'⟩ := hminimal.exists_ofArcs?_iff.mpr hlength
      rw [hminimal.parse?_dotted, hoid'] at hnone
      cases hnone
  · rintro ⟨hlength, hsplit⟩
    obtain ⟨oid', hoid'⟩ := hminimal.exists_ofArcs?_iff.mpr hlength
    obtain rfl := (hminimal.eq_iff_of_ofArcs? hoid').mpr hsplit
    exact find_of_parse? (hminimal.parse?_dotted.trans hoid')

/-- A minimally encoded identifier resolves to what the text that it prints was registered as
exactly if the arcs in that text are written as the octets that were read. -/
theorem resolve_registered_iff (h : r.HoldsWritten) {oid : Oid} {first : UInt8} {later : List Nat}
    (hminimal : oid.IsMinimal first later) {r' : Registry} {name : String} {y : Identifier}
    (hregister : r.register oid.dotted name = .ok (y, r')) :
    r'.resolve oid = y ↔ ∀ arc ∈ later, ¬ Oid.IsSplit arc := by
  obtain ⟨oid', hparse, -⟩ := register_eq_ok_iff.mp hregister
  rw [resolve_eq_iff_of_register h.indexes hregister, hparse, Option.some.injEq]
  rw [hminimal.parse?_dotted] at hparse
  exact hminimal.eq_iff_of_ofArcs? hparse

end HoldsWritten

end Pkix.Registry

namespace Pkix

open Oid

/-- In every registry that can be reached, a canonical dotted form that is accepted is printed again
by the identifier that it is looked up as, exactly if none of its arcs is split. An identifier that
was read from minimal encodings of arcs below `2 ^ 28` is found under the text that it prints
exactly if it has at most 38 octets and none of its arcs is split; and it resolves to what that text
is registered as, where that succeeds, exactly if none of its arcs is split. -/
theorem Registry.find_dotted_iff (calls : List Registry.Call) :
    let r := Registry.builtin.run calls
    (∀ text arcs oid, IsCanonical text → arcsOfText? text = some arcs → ofArcs? arcs = some oid →
        ∃ x, r.find text = .ok x ∧ (x.dotted = .ok text ↔ ∀ arc ∈ arcs, ¬ IsSplit arc)) ∧
      ∀ oid first later, oid.IsMinimal first later →
        ∃ text, (r.resolve oid).dotted = .ok text ∧
          (r.find text = .ok (r.resolve oid) ↔
            oid.octets.length ≤ 38 ∧ ∀ arc ∈ later, ¬ IsSplit arc) ∧
          ∀ name y r', r.register text name = .ok (y, r') →
            (r'.resolve oid = y ↔ ∀ arc ∈ later, ¬ IsSplit arc) := by
  intro r
  have hr : r.HoldsWritten := holdsWritten_builtin.run calls
  have hkeeps : r.KeepsOids := hr.indexes.keepsOids
  refine ⟨fun text arcs oid hcanonical harcs hoid => ?_, fun oid first later hminimal => ?_⟩
  · have hparse : parse? text = some oid := by
      rw [parse?, harcs]
      exact hoid
    refine ⟨_, find_of_parse? hparse, ?_⟩
    rw [dotted_resolve hkeeps, Except.ok.injEq]
    exact hcanonical.dotted_eq_iff harcs hoid
  · exact ⟨oid.dotted, dotted_resolve hkeeps oid, hr.find_eq_resolve_iff hminimal,
      fun name y r' hregister => hr.resolve_registered_iff hminimal hregister⟩

theorem Registry.find_dotted_iff_builtin :
    let text := "1.2.840.113549.9.99"
    let arcs := [840, 113549, 9, 99]
    let oid : Oid := ⟨[0x2a, 0x86, 0x48, 0x86, 0xf7, 0x0d, 0x09, 0x63]⟩
    let r := Registry.builtin.run []
    (IsCanonical text ∧ arcsOfText? text = some (1 :: 2 :: arcs) ∧
        ofArcs? (1 :: 2 :: arcs) = some oid ∧ oid.IsMinimal 0x2a arcs) ∧
      (∃ x, r.find text = .ok x ∧ x.dotted = .ok text) ∧
        ∃ printed, (r.resolve oid).dotted = .ok printed ∧
          r.find printed = .ok (r.resolve oid) ∧
            ∃ y r', r.register printed "mine" = .ok (y, r') ∧ r'.resolve oid = y := by
  intro text arcs oid r
  have hne : 1 :: 2 :: arcs ≠ [] := by simp
  have htext : ".".intercalate ((1 :: 2 :: arcs).map toString) = text := by decide_cbv
  have hcanonical : IsCanonical text := htext ▸ isCanonical_intercalate hne (by decide)
  have harcs : arcsOfText? text = some (1 :: 2 :: arcs) := htext ▸ arcsOfText?_intercalate hne
  have hoid : ofArcs? (1 :: 2 :: arcs) = some oid := by decide_cbv
  have hminimal : oid.IsMinimal 0x2a arcs := ⟨by decide_cbv, by decide, by decide⟩
  have hsplit : ∀ arc ∈ 1 :: 2 :: arcs, ¬ IsSplit arc := by decide_cbv
  have hlater : ∀ arc ∈ arcs, ¬ IsSplit arc := fun arc harc => hsplit arc (by simp [harc])
  have hparse : parse? text = some oid := by rw [parse?, harcs]; exact hoid
  obtain ⟨htexts, hoids⟩ := find_dotted_iff []
  obtain ⟨x, hx, hdotted⟩ := htexts text _ oid hcanonical harcs hoid
  obtain ⟨printed, hprints, hfind, hregister⟩ := hoids oid 0x2a arcs hminimal
  have hprinted : oid.dotted = text := (hcanonical.dotted_eq_iff harcs hoid).mpr hsplit
  obtain rfl : text = printed := by
    rw [← hprinted]
    exact Except.ok.inj ((dotted_resolve (keepsOids_run_builtin []) oid).symm.trans hprints)
  obtain ⟨y, r', hr'⟩ := exists_register_builtin hparse (by decide : "mine" ≠ "")
    (by decide_cbv)
  exact ⟨⟨hcanonical, harcs, hoid, hminimal⟩, ⟨x, hx, hdotted.mpr hsplit⟩, text, hprints,
    hfind.mpr ⟨by decide, hlater⟩, y, r', hr', (hregister _ _ _ hr').mpr hlater⟩

/-- The arc 128 is split: `1.2.128` is printed as another dotted form, and the identifier that
prints `1.2.128` is not found under it and is not what is registered by it. Neither is an identifier
of 39 octets found under what it prints. -/
theorem Registry.find_dotted_fails :
    let oid : Oid := ⟨[0x2a, 0x81, 0x00]⟩
    let long : Oid := ⟨0x2a :: List.replicate 38 1⟩
    let r := Registry.builtin
    (IsCanonical "1.2.128" ∧ (r.find "1.2.128" >>= Identifier.dotted) = .ok "1.2.0") ∧
      (oid.IsMinimal 0x2a [128] ∧ (r.resolve oid).dotted = .ok "1.2.128" ∧
        r.find "1.2.128" ≠ .ok (r.resolve oid) ∧
          ∃ y r', r.register "1.2.128" "mine" = .ok (y, r') ∧ r'.resolve oid ≠ y) ∧
        long.IsMinimal 0x2a (List.replicate 38 1) ∧
          (r.resolve long).dotted = .ok long.dotted ∧
            r.find long.dotted ≠ .ok (r.resolve long) := by
  intro oid long r
  have hr : r.HoldsWritten := holdsWritten_builtin
  have hkeeps : r.KeepsOids := hr.indexes.keepsOids
  have hne : [1, 2, 128] ≠ [] := by simp
  have htext : ".".intercalate ([1, 2, 128].map toString) = "1.2.128" := by decide_cbv
  have hparse : parse? "1.2.128" = some ⟨[0x2a, 0x80, 0x00]⟩ := by
    rw [← htext, parse?_intercalate hne]
    decide_cbv
  have hother : parse? "1.2.128" ≠ some oid := by
    rw [hparse]
    decide
  have hprinted : (Oid.mk [0x2a, 0x80, 0x00]).dotted = "1.2.0" := by decide_cbv
  have hdotted : oid.dotted = "1.2.128" := by decide_cbv
  have hlong : long.IsMinimal 0x2a (List.replicate 38 1) := ⟨by decide_cbv, by decide, by decide⟩
  have hnone : parse? long.dotted = none := by
    rw [hlong.parse?_dotted]
    decide_cbv
  refine ⟨⟨htext ▸ isCanonical_intercalate hne (by decide), ?_⟩,
    ⟨⟨by decide_cbv, by decide, by decide⟩, ?_, ?_, ?_⟩, hlong, dotted_resolve hkeeps long, ?_⟩
  · rw [find_of_parse? hparse]
    exact (dotted_resolve hkeeps _).trans (congrArg Except.ok hprinted)
  · rw [dotted_resolve hkeeps, hdotted]
  · intro hfind
    rcases hr.of_find hfind with hsame | ⟨hfails, -⟩
    · exact hother hsame
    · rw [hparse] at hfails
      cases hfails
  · obtain ⟨y, r', hr'⟩ := exists_register_builtin hparse (by decide : "mine" ≠ "")
      (by decide_cbv)
    exact ⟨y, r', hr', fun hsame => hother ((resolve_eq_iff_of_register hr.indexes hr').mp hsame)⟩
  · intro hfind
    rcases hr.of_find hfind with hsame | ⟨-, hlength⟩
    · rw [hnone] at hsame
      cases hsame
    · exact absurd hlength (by decide)

end Pkix
