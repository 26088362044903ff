import Pkix.Proofs.Registry.Lookup

/-!
# One registration

A registration is refused for the first of four reasons that applies, and for no other. What was
refused shows in no later answer. What was granted is one entry more: lookups by other octets, by
another number and by a text that is neither the name nor a dotted form of the identifier are
answered as before. These rest on what the indexes keep along every history, also along those that
run out of numbers.
-/

namespace Pkix

namespace Index.Describes

variable {κ : Type} [DecidableEq κ] {index : Index κ} {keys : Entry → List κ}
  {entries : List Entry} {k : κ}

theorem isSome_find?_iff (h : index.Describes keys entries) :
    (index.find? k).isSome ↔ ∃ e ∈ entries, k ∈ keys e := by
  constructor
  · intro hfound
    obtain ⟨i, hi⟩ := Option.isSome_iff_exists.mp hfound
    obtain ⟨e, he, hk⟩ := h.sound k i (mem_of_find? hi)
    exact ⟨e, List.mem_of_getElem? he, hk⟩
  · rintro ⟨e, he, hk⟩
    obtain ⟨i, hi⟩ := List.mem_iff_getElem?.mp he
    rw [h.complete i e hi k hk]
    rfl

theorem lt_of_find? (h : index.Describes keys entries) {i : Nat} (hi : index.find? k = some i) :
    i < entries.length := by
  obtain ⟨e, he, -⟩ := h.sound k i (mem_of_find? hi)
  exact (List.getElem?_eq_some_iff.mp he).1

end Index.Describes

namespace Registry

variable {r r' : Registry} {dotted name : String} {x : Identifier}

/-! ## The indexes of a registry -/

/-- What the indexes of a registry keep even where a number is given out twice: octets and names
lead to the entries that have them, and numbers to entries. -/
structure Indexed (r : Registry) : Prop where
  byOid : r.IndexesOids
  byName : r.byName.Describes Entry.names r.entries
  byNid : ∀ nid i, r.byNid.find? nid = some i → i < r.entries.length

theorem Consistent.indexed (h : r.Consistent) : r.Indexed :=
  ⟨h.byOid, h.byName, fun _ _ => h.byNid.lt_of_find?⟩

namespace Indexed

/-- The call of a new entry keeps the indexes, whatever its number. -/
theorem register (h : r.Indexed) (hr : r.register dotted name = .ok (x, r')) : r'.Indexed := by
  obtain ⟨oid, -, -, hoid, hname, -, rfl⟩ := register_eq_ok_iff.mp hr
  let e : Entry := ⟨oid, r.nextNid, name, name⟩
  refine ⟨h.byOid.assign (e := e) hoid, h.byName.assignNames (e := e) ?_, fun nid i hi => ?_⟩
  · simpa [Entry.names, e] using hname
  · simp only [add, Index.find?_assign, List.length_append, List.length_singleton] at hi ⊢
    split at hi
    · obtain rfl := Option.some.inj hi
      exact Nat.lt_succ_self _
    · exact Nat.lt_succ_of_lt (h.byNid nid i hi)

theorem step (h : r.Indexed) (call : Call) : (r.step call).Indexed := by
  rw [Registry.step]
  cases hr : r.register call.1 call.2 with
  | error err => exact h
  | ok result => exact h.register hr

theorem run (h : r.Indexed) (calls : List Call) : (r.run calls).Indexed := by
  induction calls generalizing r with
  | nil => exact h
  | cons call rest ih => exact ih (h.step call)

end Indexed

theorem indexed_run_builtin (calls : List Call) : (builtin.run calls).Indexed :=
  consistent_builtin.indexed.run calls

/-! ## Refusals -/

/-- The reasons to refuse a registration, each of them where none before it applies. -/
inductive Refuses (r : Registry) (dotted name : String) : Error → Prop
  /-- The text is no dotted identifier. -/
  | notDotted (hdotted : Oid.parse? dotted = none) :
    r.Refuses dotted name (.unknownIdentifier dotted)
  /-- The name is empty. -/
  | unnamed {oid : Oid} (hdotted : Oid.parse? dotted = some oid) (hname : name = "") :
    r.Refuses dotted name (.emptyIdentifierName dotted)
  /-- There is an entry with the octets of the identifier. -/
  | oidTaken {oid : Oid} (hdotted : Oid.parse? dotted = some oid) (hname : name ≠ "")
    (htaken : ∃ e ∈ r.entries, e.oid = oid) : r.Refuses dotted name (.alreadyRegistered dotted)
  /-- There is an entry whose short or long name this is. -/
  | nameTaken {oid : Oid} (hdotted : Oid.parse? dotted = some oid) (hname : name ≠ "")
    (hfree : ∀ e ∈ r.entries, e.oid ≠ oid) (htaken : ∃ e ∈ r.entries, name ∈ e.names) :
    r.Refuses dotted name (.alreadyRegistered name)

namespace Indexed

theorem isSome_find?_oid_iff (h : r.Indexed) {oid : Oid} :
    (r.byOid.find? oid).isSome ↔ ∃ e ∈ r.entries, e.oid = oid := by
  simp only [h.byOid.isSome_find?_iff, List.mem_singleton, eq_comm]

/-- A registration is refused exactly for these reasons. -/
theorem register_eq_error_iff (h : r.Indexed) {err : Error} :
    r.register dotted name = .error err ↔ r.Refuses dotted name err := by
  constructor
  · intro hr
    cases hdotted : Oid.parse? dotted with
    | none =>
        obtain rfl : err = .unknownIdentifier dotted := by
          simpa [Registry.register, hdotted, Error.ifNone, bind, Except.bind, eq_comm] using hr
        exact .notDotted hdotted
    | some oid =>
        simp only [Registry.register, hdotted, Error.ifNone, bind, Except.bind] at hr
        split at hr
        · rename_i hname
          obtain rfl := Except.error.inj hr
          exact .unnamed hdotted hname
        · rename_i hname
          split at hr
          · rename_i hoid
            obtain rfl := Except.error.inj hr
            exact .oidTaken hdotted hname (h.isSome_find?_oid_iff.mp hoid)
          · rename_i hoid
            rw [h.isSome_find?_oid_iff] at hoid
            split at hr
            · rename_i htaken
              obtain rfl := Except.error.inj hr
              exact .nameTaken hdotted hname (fun e he hsame => hoid ⟨e, he, hsame⟩)
                (h.byName.isSome_find?_iff.mp htaken)
            · cases hr
  · intro hrefuses
    cases hrefuses with
    | notDotted hdotted => simp [Registry.register, hdotted, Error.ifNone, bind, Except.bind]
    | unnamed hdotted hname =>
        simp [Registry.register, hdotted, hname, Error.ifNone, bind, Except.bind]
    | oidTaken hdotted hname htaken =>
        simp [Registry.register, hdotted, hname, h.isSome_find?_oid_iff.mpr htaken, Error.ifNone,
          bind, Except.bind]
    | @nameTaken oid hdotted hname hfree htaken =>
        have hoid : ¬ (r.byOid.find? oid).isSome := by
          rw [h.isSome_find?_oid_iff]
          rintro ⟨e, he, hsame⟩
          exact hfree e he hsame
        simp [Registry.register, hdotted, hname, hoid, h.byName.isSome_find?_iff.mpr htaken,
          Error.ifNone, bind, Except.bind]

/-- A registration that there is no reason to refuse is granted. -/
theorem exists_register_eq_ok (h : r.Indexed) (hfree : ∀ err, ¬ r.Refuses dotted name err) :
    ∃ x r', r.register dotted name = .ok (x, r') := by
  cases hr : r.register dotted name with
  | error err => exact absurd (h.register_eq_error_iff.mp hr) (hfree err)
  | ok result => exact ⟨result.1, result.2, rfl⟩

end Indexed

/-! ## What is answered after a refusal -/

/-- What a registry can be asked. -/
inductive Request where
  | register (dotted name : String)
  | find (text : String)
  | findNid (nid : Int32)
  | resolve (oid : Oid)

def answer (r : Registry) : Request → Except Error Identifier
  | .register dotted name => Prod.fst <$> r.register dotted name
  | .find text => r.find text
  | .findNid nid => r.findNid nid
  | .resolve oid => .ok (r.resolve oid)

/-- The registry after a request; only registrations change it. -/
def after (r : Registry) : Request → Registry
  | .register dotted name => r.step (dotted, name)
  | .find _ | .findNid _ | .resolve _ => r

/-- The answers to a series of requests, each given after those before it. -/
def answers (r : Registry) : List Request → List (Except Error Identifier)
  | [] => []
  | request :: rest => r.answer request :: answers (r.after request) rest

theorem answers_register_of_eq_error {err : Error} (hr : r.register dotted name = .error err)
    (later : List Request) :
    r.answers (.register dotted name :: later) = .error err :: r.answers later := by
  have hanswer : r.answer (.register dotted name) = .error err := map_eq_error_iff.mpr hr
  have hafter : r.after (.register dotted name) = r := by simp only [after, step, hr]
  rw [answers, hanswer, hafter]

/-! ## What is answered after a grant -/

/-- Positions in the table lead to the entries that they led to before an entry was added. -/
theorem entry?_add (e : Entry) {position : Option Nat}
    (hposition : ∀ i ∈ position, i < r.entries.length) :
    entry? (r.add e) position = r.entry? position := by
  cases position with
  | none => rfl
  | some i => exact List.getElem?_append_left (hposition i rfl)

namespace Indexed

variable {e : Entry}

theorem resolve_add (h : r.Indexed) {oid : Oid} (hoid : oid ≠ e.oid) :
    (r.add e).resolve oid = r.resolve oid := by
  have hfind : (r.add e).byOid.find? oid = r.byOid.find? oid := by
    simp [add, Index.find?_assign, hoid]
  rw [resolve, hfind, entry?_add e fun _ => h.byOid.lt_of_find?, resolve]

theorem findNid_add (h : r.Indexed) {nid : Int32} (hnid : nid ≠ e.nid) :
    (r.add e).findNid nid = r.findNid nid := by
  have hfind : (r.add e).byNid.find? nid = r.byNid.find? nid := by
    simp [add, Index.find?_assign, hnid]
  rw [findNid, hfind, entry?_add e (h.byNid nid), findNid]

theorem find_add (h : r.Indexed) {text : String} (hname : text ∉ e.names)
    (hdotted : Oid.parse? text ≠ some e.oid) : (r.add e).find text = r.find text := by
  rw [find, find]
  cases hparse : Oid.parse? text with
  | some oid =>
      have hoid : oid ≠ e.oid := by
        rintro rfl
        exact hdotted hparse
      exact congrArg Except.ok (h.resolve_add hoid)
  | none =>
      have hnames : text ≠ e.shortName ∧ text ≠ e.longName := by
        simpa [Entry.names] using hname
      have hfind : (r.add e).byName.find? text = r.byName.find? text := by
        simp [add, Index.find?_assignNew, hnames]
      dsimp only
      rw [hfind, entry?_add e fun _ => h.byName.lt_of_find?]

end Indexed

/-- A registration is refused exactly for the reasons listed, and granted where none applies, under
the number that comes after all that were given out. A refusal shows in no later answer. After a
grant the lookups of all other octets, of all other numbers, and of all texts but the name and the
dotted forms of the identifier are answered as before. -/
theorem register_run (calls : List Call) (dotted name : String) :
    let r := builtin.run calls
    (∀ err, r.register dotted name = .error err ↔ r.Refuses dotted name err) ∧
    ((builtin.granted calls).length < 2 ^ 31 - 10001 → (∀ err, ¬ r.Refuses dotted name err) →
      ∃ oid nid r', r.register dotted name = .ok (.defined oid (some ⟨nid, name⟩), r') ∧
        nid.toInt = 10000 + (builtin.granted calls).length) ∧
    (∀ err, r.register dotted name = .error err →
      ∀ later, r.answers (.register dotted name :: later) = .error err :: r.answers later) ∧
    ∀ x r', r.register dotted name = .ok (x, r') →
      ∃ oid nid, Oid.parse? dotted = some oid ∧ x = .defined oid (some ⟨nid, name⟩) ∧
        (∀ other ≠ oid, r'.resolve other = r.resolve other) ∧
        (∀ other ≠ nid, r'.findNid other = r.findNid other) ∧
        ∀ text ≠ name, Oid.parse? text ≠ some oid → r'.find text = r.find text := by
  intro r
  have hr : r.Indexed := indexed_run_builtin calls
  refine ⟨fun _ => hr.register_eq_error_iff, fun hmax hfree => ?_,
    fun err hrefused => answers_register_of_eq_error hrefused, fun x r' hgranted => ?_⟩
  · obtain ⟨x, r', hgranted⟩ := hr.exists_register_eq_ok hfree
    obtain ⟨oid, -, -, -, -, rfl, -⟩ := register_eq_ok_iff.mp hgranted
    have hfirst : builtin.nextNid.toInt = 10000 := by decide
    obtain ⟨-, hnext, -⟩ := consistent_builtin.run calls (by omega)
    exact ⟨oid, r.nextNid, r', hgranted, by rw [hnext, hfirst]⟩
  · obtain ⟨oid, hdotted, -, -, -, rfl, rfl⟩ := register_eq_ok_iff.mp hgranted
    let e : Entry := ⟨oid, r.nextNid, name, name⟩
    refine ⟨oid, r.nextNid, hdotted, rfl, fun other hother => ?_, fun other hother => ?_,
      fun text hname hother => ?_⟩
    · exact hr.resolve_add (e := e) hother
    · exact hr.findNid_add (e := e) hother
    · exact hr.find_add (e := e) (by simpa [Entry.names, e] using hname) hother

theorem register_run_mixedCalls :
    let r := builtin.run mixedCalls
    r.register "1.2" "third" = .error (.unknownIdentifier "1.2") ∧
      r.register "1.2.3.4" "" = .error (.emptyIdentifierName "1.2.3.4") ∧
      r.register "1.2.3.6" "X509v3 Key Usage" = .error (.alreadyRegistered "X509v3 Key Usage") ∧
      r.answers [.register "1.2.3.4" "CN", .find "first"] =
        .error (.alreadyRegistered "1.2.3.4") :: r.answers [.find "first"] ∧
      ∃ oid nid r', r.register "1.2.3.6" "third" = .ok (.defined oid (some ⟨nid, "third"⟩), r') ∧
        nid.toInt = 10002 ∧ r'.find "second" = r.find "second" := by
  intro r
  obtain ⟨hnone, hparse, hparse', hname⟩ :
      Oid.parse? "1.2" = none ∧ Oid.parse? "1.2.3.4" = some ⟨[0x2a, 0x03, 0x04]⟩ ∧
        Oid.parse? "1.2.3.6" = some ⟨[0x2a, 0x03, 0x06]⟩ ∧ Oid.parse? "second" = none := by
    decide +kernel
  obtain ⟨hcount, hfree, hunnamed, htaken, hnamed⟩ :
      (builtin.granted mixedCalls).length = 2 ∧
        (∀ e ∈ r.entries, e.oid ≠ ⟨[0x2a, 0x03, 0x06]⟩) ∧ (∀ e ∈ r.entries, "third" ∉ e.names) ∧
          (∃ e ∈ r.entries, e.oid = ⟨[0x2a, 0x03, 0x04]⟩) ∧
            ∃ e ∈ r.entries, "X509v3 Key Usage" ∈ e.names := by
    decide +kernel
  have hrefused (dotted name : String) (err : Error) (h : r.Refuses dotted name err) :
      r.register dotted name = .error err :=
    ((register_run mixedCalls dotted name).1 err).mpr h
  have hgrantable : ∀ err, ¬ r.Refuses "1.2.3.6" "third" err := by
    intro err hrefuses
    cases hrefuses with
    | notDotted hdotted => cases hparse'.symm.trans hdotted
    | unnamed _ hempty => exact absurd hempty (by decide)
    | oidTaken hdotted _ htaken =>
        obtain rfl := Option.some.inj (hparse'.symm.trans hdotted)
        obtain ⟨e, he, hoid⟩ := htaken
        exact hfree e he hoid
    | nameTaken _ _ _ hnamed =>
        obtain ⟨e, he, hmem⟩ := hnamed
        exact hunnamed e he hmem
  obtain ⟨-, hgrants, -, hframe⟩ := register_run mixedCalls "1.2.3.6" "third"
  obtain ⟨oid, nid, r', hgranted, hnid⟩ := hgrants (by rw [hcount]; decide) hgrantable
  obtain ⟨_, _, -, -, -, -, hfind⟩ := hframe _ _ hgranted
  refine ⟨hrefused _ _ _ (.notDotted hnone), hrefused _ _ _ (.unnamed hparse rfl),
    hrefused _ _ _ (.nameTaken hparse' (by decide) hfree hnamed), ?_, oid, nid, r', hgranted,
    ?_, ?_⟩
  · exact (register_run mixedCalls _ _).2.2.1 _
      (hrefused _ _ _ (.oidTaken hparse (by decide) htaken)) _
  · rw [hnid, hcount]
    rfl
  · exact hfind _ (by decide) (by rw [hname]; simp)

end Registry

end Pkix
