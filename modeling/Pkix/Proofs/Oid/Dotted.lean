import Pkix.Oid.Basic
import Pkix.Proofs.Fallible
import Pkix.Proofs.Text.Digits

/-!
# Dotted forms and octets

Between an identifier and its dotted form stand its arcs. Octets that encode arcs minimally are read
as these arcs, and the decimal numbers of a dotted form as theirs. So a dotted form comes back from
the identifier that it names, and an identifier from its dotted form, except where an arc is written
in octets that are no encoding of it: those are the arcs whose two leading digits are 1 and 0.
-/

namespace Pkix.Oid

/-! ## Digits of arcs -/

theorem lt_of_mem_base128 {n d : Nat} (h : d ∈ base128 n) : d < 128 := by
  induction n using Nat.strongRecOn with
  | ind n ih =>
      rw [base128] at h
      split at h
      · cases h
      · rcases List.mem_append.mp h with h | h
        · exact ih (n / 128) (by omega) h
        · rw [List.mem_singleton.mp h]
          exact Nat.mod_lt n (by decide)

theorem base128_ne_nil {n : Nat} (h : n ≠ 0) : base128 n ≠ [] := by
  rw [base128, if_neg h]
  simp

theorem foldl_base128 (n : Nat) : (base128 n).foldl (fun m d => 128 * m + d) 0 = n := by
  induction n using Nat.strongRecOn with
  | ind n ih =>
      rw [base128]
      split
      · rename_i hzero
        exact hzero.symm
      · rw [List.foldl_append, ih (n / 128) (by omega)]
        simp
        omega

theorem foldl_mod (digits : List Nat) (m k : Nat) :
    digits.foldl (fun m d => 128 * m + d) (m % k) % k =
      digits.foldl (fun m d => 128 * m + d) m % k := by
  induction digits generalizing m with
  | nil => simp
  | cons d digits ih =>
      have hnext : (128 * (m % k) + d) % k = (128 * m + d) % k := by simp [Nat.add_mod, Nat.mul_mod]
      rw [List.foldl_cons, List.foldl_cons, ← ih, hnext, ih]

/-- Marked digits are read as one arc, which is their value behind what was read of it before. -/
theorem arcsFrom_markDigits {digits : List Nat} (hne : digits ≠ []) (hlt : ∀ d ∈ digits, d < 128)
    (arc : Nat) (rest : Octets) :
    arcsFrom arc (markDigits digits ++ rest) =
      digits.foldl (fun m d => 128 * m + d) arc % 0x100000000 :: arcsFrom 0 rest := by
  induction digits generalizing arc with
  | nil => exact absurd rfl hne
  | cons d digits ih =>
      obtain ⟨hd, hdigits⟩ := List.forall_mem_cons.mp hlt
      cases digits with
      | nil =>
          have hvalue : (UInt8.ofNat d).toNat = d :=
            UInt8.toNat_ofNat_of_lt (show d < 256 by omega)
          have hend : UInt8.ofNat d < 0x80 := by
            rw [UInt8.lt_iff_toNat_lt, hvalue]
            exact hd
          simp [markDigits, arcsFrom, hvalue, hend, Nat.mod_eq_of_lt hd]
      | cons e digits =>
          have hvalue : (UInt8.ofNat (128 + d)).toNat = 128 + d :=
            UInt8.toNat_ofNat_of_lt (show 128 + d < 256 by omega)
          have hmark : ¬ UInt8.ofNat (128 + d) < 0x80 := by
            rw [UInt8.lt_iff_toNat_lt, hvalue]
            exact Nat.not_lt.mpr (Nat.le_add_right 128 d)
          have hdigit : (128 + d) % 128 = d := by omega
          have hnext := ih (by simp) hdigits ((128 * arc + d) % 0x100000000)
          rw [foldl_mod] at hnext
          simp only [markDigits, List.cons_append, arcsFrom, hvalue, hdigit, if_neg hmark]
          exact hnext

/-! ## Octets of arcs -/

/-- The octets that encode an arc minimally. -/
def arcContent (arc : Nat) : Octets :=
  if arc = 0 then [0] else markDigits (base128 arc)

/-- Whether an arc has the leading digits 1 and 0, which are written apart from the others. -/
def IsSplit (arc : Nat) : Prop := (base128 arc).take 2 = [1, 0]

instance : DecidablePred IsSplit := fun arc =>
  inferInstanceAs (Decidable ((base128 arc).take 2 = [1, 0]))

theorem not_isSplit_of_lt {arc : Nat} (h : arc < 128) : ¬ IsSplit arc := by
  have hhigh : base128 (arc / 128) = [] := by
    rw [Nat.div_eq_of_lt h, base128, if_pos rfl]
  intro hsplit
  rw [IsSplit, base128] at hsplit
  split at hsplit
  · cases hsplit
  · simp [hhigh] at hsplit

theorem arcsFrom_arcContent {arc : Nat} (h : arc < 0x100000000) (rest : Octets) :
    arcsFrom 0 (arcContent arc ++ rest) = arc :: arcsFrom 0 rest := by
  rw [arcContent]
  split
  · rename_i hzero
    subst hzero
    rfl
  · rename_i hne
    rw [arcsFrom_markDigits (base128_ne_nil hne) fun _ => lt_of_mem_base128, foldl_base128,
      Nat.mod_eq_of_lt h]

theorem arcsFrom_flatMap_arcContent {arcs : List Nat} (h : ∀ arc ∈ arcs, arc < 0x100000000) :
    arcsFrom 0 (arcs.flatMap arcContent) = arcs := by
  induction arcs with
  | nil => rfl
  | cons arc arcs ih =>
      obtain ⟨harc, harcs⟩ := List.forall_mem_cons.mp h
      rw [List.flatMap_cons, arcsFrom_arcContent harc, ih harcs]

theorem arcOctets?_of_not_isSplit {arc : Nat} (hlt : arc < 0x10000000) (h : ¬ IsSplit arc) :
    arcOctets? arc = some (arcContent arc) := by
  by_cases hzero : arc = 0
  · rw [arcOctets?, arcContent, if_pos hzero, if_pos hzero]
  · rw [arcOctets?, arcContent, if_neg hzero, if_neg hzero, if_pos hlt]
    split
    · rename_i rest hdigits
      exact absurd (by simp [IsSplit, hdigits]) h
    · rfl

/-- The octets of a split arc begin with those of an arc zero. -/
theorem arcOctets?_of_isSplit {arc : Nat} (hlt : arc < 0x10000000) (h : IsSplit arc) :
    arc ≠ 0 ∧ ∃ rest, base128 arc = 1 :: 0 :: rest ∧
      arcOctets? arc = some (0x80 :: 0x00 :: markDigits rest) := by
  have hzero : arc ≠ 0 := by
    rintro rfl
    exact not_isSplit_of_lt (by decide) h
  have hdigits : base128 arc = 1 :: 0 :: (base128 arc).drop 2 := by
    have htake := List.take_append_drop 2 (base128 arc)
    rw [h] at htake
    exact htake.symm
  refine ⟨hzero, _, hdigits, ?_⟩
  rw [arcOctets?, if_neg hzero, if_pos hlt, hdigits]
  rfl

/-- The octets that arcs are written in are read as these arcs exactly if no arc is split. -/
theorem arcsFrom_eq_iff {arcs : List Nat} {written : List Octets}
    (h : arcs.mapM arcOctets? = some written) (hlt : ∀ arc ∈ arcs, arc < 0x10000000) :
    arcsFrom 0 written.flatten = arcs ↔ ∀ arc ∈ arcs, ¬ IsSplit arc := by
  rw [mapM_eq_some_iff] at h
  induction h with
  | nil => simp [arcsFrom]
  | @cons arc octets arcs written hone _ ih =>
      obtain ⟨harc, harcs⟩ := List.forall_mem_cons.mp hlt
      rw [List.flatten_cons, List.forall_mem_cons]
      by_cases hsplit : IsSplit arc
      · obtain ⟨hzero, rest, -, hoctets⟩ := arcOctets?_of_isSplit harc hsplit
        obtain rfl : octets = 0x80 :: 0x00 :: markDigits rest := by simpa [hone] using hoctets
        simp [arcsFrom, hsplit, Ne.symm hzero]
      · rw [arcOctets?_of_not_isSplit harc hsplit] at hone
        obtain rfl := Option.some.inj hone
        rw [arcsFrom_arcContent (by omega), List.cons.injEq]
        simp [ih harcs, hsplit]

/-- Arcs are written in their minimal encodings exactly if no arc is split. -/
theorem flatten_eq_iff {arcs : List Nat} {written : List Octets}
    (h : arcs.mapM arcOctets? = some written) (hlt : ∀ arc ∈ arcs, arc < 0x10000000) :
    written.flatten = arcs.flatMap arcContent ↔ ∀ arc ∈ arcs, ¬ IsSplit arc := by
  constructor
  · intro heq
    rw [← arcsFrom_eq_iff h hlt, heq]
    exact arcsFrom_flatMap_arcContent fun arc harc => Nat.lt_trans (hlt arc harc) (by decide)
  · intro hsplit
    have hpure : arcs.mapM arcOctets? = pure (arcs.map arcContent) :=
      mapM_eq_pure fun arc harc => arcOctets?_of_not_isSplit (hlt arc harc) (hsplit arc harc)
    rw [h] at hpure
    rw [Option.some.inj hpure, List.flatMap_def]

theorem length_markDigits (digits : List Nat) : (markDigits digits).length = digits.length := by
  induction digits with
  | nil => rfl
  | cons d digits ih =>
      cases digits with
      | nil => rfl
      | cons e digits => simp [markDigits, ih]

/-- Every arc below `2 ^ 28` is written, in as many octets as its minimal encoding has. -/
theorem exists_arcOctets? {arc : Nat} (hlt : arc < 0x10000000) :
    ∃ octets, arcOctets? arc = some octets ∧ octets.length = (arcContent arc).length := by
  by_cases hsplit : IsSplit arc
  · obtain ⟨hzero, rest, hdigits, hoctets⟩ := arcOctets?_of_isSplit hlt hsplit
    refine ⟨_, hoctets, ?_⟩
    rw [arcContent, if_neg hzero, length_markDigits, hdigits]
    simp [length_markDigits]
  · exact ⟨_, arcOctets?_of_not_isSplit hlt hsplit, rfl⟩

theorem exists_written {arcs : List Nat} (hlt : ∀ arc ∈ arcs, arc < 0x10000000) :
    ∃ written, arcs.mapM arcOctets? = some written ∧
      written.flatten.length = (arcs.flatMap arcContent).length := by
  induction arcs with
  | nil => exact ⟨[], rfl, rfl⟩
  | cons arc arcs ih =>
      obtain ⟨harc, harcs⟩ := List.forall_mem_cons.mp hlt
      obtain ⟨octets, hone, hlength⟩ := exists_arcOctets? harc
      obtain ⟨written, hrest, hlengths⟩ := ih harcs
      refine ⟨octets :: written, by simp [hone, hrest], ?_⟩
      rw [List.flatten_cons, List.flatMap_cons, List.length_append, List.length_append, hlength,
        hlengths]

/-! ## Arcs of identifiers -/

theorem ofArcs?_eq_some_iff {arcs : List Nat} {oid : Oid} :
    ofArcs? arcs = some oid ↔
      ∃ first second later written, arcs = first :: second :: later ∧ later ≠ [] ∧
        later.mapM arcOctets? = some written ∧ first ≤ 2 ∧ second ≤ 39 ∧
          oid.octets = UInt8.ofNat (40 * first + second) :: written.flatten ∧
            oid.octets.length ≤ 38 := by
  constructor
  · intro h
    rw [ofArcs?.eq_def] at h
    split at h
    · rename_i first second third rest
      obtain ⟨written, hwritten, h⟩ := Option.bind_eq_some_iff.mp h
      dsimp only at h
      split at h
      · rename_i hbounds
        obtain rfl := Option.some.inj h
        exact ⟨first, second, third :: rest, written, rfl, by simp, hwritten, hbounds.1,
          hbounds.2.1, rfl, hbounds.2.2⟩
      · cases h
    · cases h
  · rintro ⟨first, second, later, written, rfl, hne, hwritten, hfirst, hsecond, hoctets, hlength⟩
    obtain ⟨third, rest, rfl⟩ := List.exists_cons_of_ne_nil hne
    rw [ofArcs?, hwritten, Option.bind_eq_bind, Option.bind_some]
    dsimp only
    rw [← hoctets, if_pos ⟨hfirst, hsecond, hlength⟩]

/-- The arcs of an identifier are those that it was made of exactly if none of them is split. -/
theorem arcs_eq_iff {arcs : List Nat} {oid : Oid} (h : ofArcs? arcs = some oid)
    (hlt : ∀ arc ∈ arcs, arc < 0x10000000) : oid.arcs = arcs ↔ ∀ arc ∈ arcs, ¬ IsSplit arc := by
  obtain ⟨first, second, later, written, rfl, -, hwritten, hfirst, hsecond, hoctets, -⟩ :=
    ofArcs?_eq_some_iff.mp h
  have hvalue : (UInt8.ofNat (40 * first + second)).toNat = 40 * first + second :=
    UInt8.toNat_ofNat_of_lt (show 40 * first + second < 256 by omega)
  have harcs : oid.arcs = first :: second :: arcsFrom 0 written.flatten := by
    rw [arcs, hoctets]
    dsimp only
    rw [hvalue]
    congr 2 <;> omega
  have hlater : ∀ arc ∈ later, arc < 0x10000000 := fun arc harc => hlt arc (by simp [harc])
  have hfirst' : ¬ IsSplit first := not_isSplit_of_lt (by omega)
  have hsecond' : ¬ IsSplit second := not_isSplit_of_lt (by omega)
  rw [harcs]
  simp [arcsFrom_eq_iff hwritten hlater, hfirst', hsecond']

theorem arcs_ne_nil_of_ofArcs? {arcs : List Nat} {oid : Oid} (h : ofArcs? arcs = some oid) :
    arcs ≠ [] ∧ oid.arcs ≠ [] := by
  obtain ⟨first, second, later, written, rfl, -, -, -, -, hoctets, -⟩ := ofArcs?_eq_some_iff.mp h
  exact ⟨by simp, by simp [arcs, hoctets]⟩

/-- Content octets that encode arcs minimally, all below `2 ^ 28`. -/
structure IsMinimal (oid : Oid) (first : UInt8) (later : List Nat) : Prop where
  octets_eq : oid.octets = first :: later.flatMap arcContent
  lt : ∀ arc ∈ later, arc < 0x10000000
  readable : isReadable oid.octets = true

namespace IsMinimal

variable {oid : Oid} {b : UInt8} {later : List Nat}

theorem arcs_eq (h : oid.IsMinimal b later) :
    oid.arcs = b.toNat / 40 :: b.toNat % 40 :: later := by
  have hlater : arcsFrom 0 (later.flatMap arcContent) = later :=
    arcsFrom_flatMap_arcContent fun arc harc => Nat.lt_trans (h.lt arc harc) (by decide)
  rw [Oid.arcs, h.octets_eq]
  dsimp only
  rw [hlater]

theorem first_le (h : oid.IsMinimal b later) : b.toNat ≤ 119 := by
  have hreadable := h.readable
  rw [h.octets_eq, isReadable] at hreadable
  simp only [Bool.and_eq_true, decide_eq_true_eq] at hreadable
  exact hreadable.2.1

theorem later_ne_nil (h : oid.IsMinimal b later) : later ≠ [] := by
  rintro rfl
  have hreadable := h.readable
  simp [h.octets_eq, isReadable] at hreadable

/-- The arcs of an identifier can be written again exactly if that takes at most 38 octets. -/
theorem exists_ofArcs?_iff (h : oid.IsMinimal b later) :
    (∃ oid', ofArcs? oid.arcs = some oid') ↔ oid.octets.length ≤ 38 := by
  have hfirst := h.first_le
  obtain ⟨written, hwritten, hlength⟩ := exists_written h.lt
  have hlengths : oid.octets.length = written.flatten.length + 1 := by
    rw [h.octets_eq, List.length_cons, hlength]
  rw [h.arcs_eq]
  constructor
  · rintro ⟨oid', hoid'⟩
    obtain ⟨first, second, later', written', harcs, -, hwritten', -, -, hoctets, hle⟩ :=
      ofArcs?_eq_some_iff.mp hoid'
    obtain ⟨-, -, rfl⟩ : b.toNat / 40 = first ∧ b.toNat % 40 = second ∧ later = later' := by
      simpa using harcs
    obtain rfl : written = written' := Option.some.inj (hwritten.symm.trans hwritten')
    rw [hoctets, List.length_cons] at hle
    omega
  · intro hle
    refine ⟨⟨_⟩, ofArcs?_eq_some_iff.mpr ⟨_, _, later, written, rfl, h.later_ne_nil, hwritten,
      by omega, by omega, rfl, ?_⟩⟩
    rw [List.length_cons]
    omega

/-- Where the arcs of an identifier are written again, the same identifier results exactly if no arc
is split. -/
theorem eq_iff_of_ofArcs? (h : oid.IsMinimal b later) {oid' : Oid}
    (hoid' : ofArcs? oid.arcs = some oid') : oid' = oid ↔ ∀ arc ∈ later, ¬ IsSplit arc := by
  rw [h.arcs_eq] at hoid'
  obtain ⟨first, second, later', written, harcs, -, hwritten, -, -, hoctets, -⟩ :=
    ofArcs?_eq_some_iff.mp hoid'
  obtain ⟨rfl, rfl, rfl⟩ : b.toNat / 40 = first ∧ b.toNat % 40 = second ∧ later = later' := by
    simpa using harcs
  rw [Nat.div_add_mod, UInt8.ofNat_toNat] at hoctets
  have heq : oid' = oid ↔ oid'.octets = oid.octets := by
    cases oid
    cases oid'
    simp
  rw [← flatten_eq_iff hwritten h.lt, heq, hoctets, h.octets_eq, List.cons.injEq]
  simp

end IsMinimal

/-! ## Dotted texts -/

/-- Whether a text is a canonical dotted form: no arc is empty, none has leading zeros, and all are
below `2 ^ 28`. -/
def IsCanonical (text : String) : Prop :=
  (∀ digits ∈ text.toList.splitOn '.',
      digits ≠ [] ∧ (digits.head? = some '0' → digits = ['0'])) ∧
    ∀ arcs ∈ arcsOfText? text, ∀ arc ∈ arcs, arc < 0x10000000

instance : DecidablePred IsCanonical := fun _ =>
  inferInstanceAs (Decidable (_ ∧ _))

theorem arcOfDigits?_toDigits (n : Nat) : arcOfDigits? (Nat.toDigits 10 n) = some n :=
  foldlM_toDigits (by decide) readDecimal?_digitChar n

theorem arcsOfText?_intercalate {arcs : List Nat} (hne : arcs ≠ []) :
    arcsOfText? (".".intercalate (arcs.map toString)) = some arcs := by
  have hends : ¬ ((arcs.map (Nat.toDigits 10)).head? = some [] ∨
      (arcs.map (Nat.toDigits 10)).getLast? = some []) := by
    simp [Nat.toDigits_ne_nil]
  rw [arcsOfText?, splitOn_intercalate_toString hne, if_neg hends]
  exact mapM_map_eq_pure fun n _ => arcOfDigits?_toDigits n

theorem intercalate_toString_inj {as bs : List Nat} (has : as ≠ []) (hbs : bs ≠ []) :
    ".".intercalate (as.map toString) = ".".intercalate (bs.map toString) ↔ as = bs := by
  refine ⟨fun h => ?_, fun h => by rw [h]⟩
  have harcs := arcsOfText?_intercalate has
  rw [h, arcsOfText?_intercalate hbs] at harcs
  exact (Option.some.inj harcs).symm

theorem map_toDigits_of_mapM {parts : List (List Char)} {arcs : List Nat}
    (hcanonical : ∀ digits ∈ parts, digits ≠ [] ∧ (digits.head? = some '0' → digits = ['0']))
    (h : parts.mapM arcOfDigits? = some arcs) : arcs.map (Nat.toDigits 10) = parts := by
  rw [mapM_eq_some_iff] at h
  induction h with
  | nil => rfl
  | cons hone _ ih =>
      obtain ⟨⟨hne, hzero⟩, hrest⟩ := List.forall_mem_cons.mp hcanonical
      rw [List.map_cons, ih hrest, toDigits_of_foldlM hne hzero hone]

/-- A canonical dotted form is the one of its arcs. -/
theorem IsCanonical.eq_intercalate {text : String} (h : IsCanonical text) {arcs : List Nat}
    (harcs : arcsOfText? text = some arcs) : ".".intercalate (arcs.map toString) = text := by
  rw [arcsOfText?] at harcs
  split at harcs
  · cases harcs
  · apply String.toList_inj.mp
    rw [toList_intercalate_toString, map_toDigits_of_mapM h.1 harcs, List.intercalate_splitOn]

theorem isCanonical_intercalate {arcs : List Nat} (hne : arcs ≠ [])
    (hlt : ∀ arc ∈ arcs, arc < 0x10000000) : IsCanonical (".".intercalate (arcs.map toString)) := by
  refine ⟨?_, fun arcs' harcs' => ?_⟩
  · rw [splitOn_intercalate_toString hne]
    exact List.forall_mem_map.mpr fun n _ => ⟨Nat.toDigits_ne_nil, toDigits_eq_of_head?⟩
  · rw [arcsOfText?_intercalate hne] at harcs'
    obtain rfl := Option.some.inj harcs'
    exact hlt

theorem parse?_intercalate {arcs : List Nat} (hne : arcs ≠ []) :
    parse? (".".intercalate (arcs.map toString)) = ofArcs? arcs := by
  rw [parse?, arcsOfText?_intercalate hne]
  rfl

/-- A canonical dotted form is printed again exactly if no arc is split. -/
theorem IsCanonical.dotted_eq_iff {text : String} (h : IsCanonical text) {arcs : List Nat}
    {oid : Oid} (harcs : arcsOfText? text = some arcs) (hoid : ofArcs? arcs = some oid) :
    oid.dotted = text ↔ ∀ arc ∈ arcs, ¬ IsSplit arc := by
  obtain ⟨hne, hne'⟩ := arcs_ne_nil_of_ofArcs? hoid
  rw [← h.eq_intercalate harcs, dotted, intercalate_toString_inj hne' hne]
  exact arcs_eq_iff hoid (h.2 arcs harcs)

theorem IsMinimal.parse?_dotted {oid : Oid} {b : UInt8} {later : List Nat}
    (h : oid.IsMinimal b later) : parse? oid.dotted = ofArcs? oid.arcs :=
  parse?_intercalate (by simp [h.arcs_eq])

end Pkix.Oid
