import Pkix.DistributionPoint
import Pkix.Proofs.Name.General
import Pkix.Proofs.Wire.DistributionPoint

/-!
# Distribution points come back

A point whose general names are canonical can be written exactly if all texts in it fit and its
relative name repeats no entry. What was written is read as the same point but for the order of the
entries of a relative name, which is that of their encodings. Fields are left out when they are
empty, so that each way of being empty is read as it was.
-/

namespace Pkix

open Der

namespace PointName

/-- Whether the general names of a full name hold their identifiers as reading them gives them. -/
def Canonical (reg : Registry) : PointName → Prop
  | full names => ∀ n ∈ names, n.Canonical reg
  | _ => True

/-- Whether the texts of a point name fit and, in a relative name, no entry is there twice. -/
def Writable : PointName → Prop
  | undefined => True
  | full names => ∀ n ∈ names, n.FitsType
  | relative name => (∀ e ∈ name.entries, e.FitsType) ∧ name.entries.Nodup

instance (reg : Registry) : DecidablePred (Canonical reg)
  | full names => inferInstanceAs (Decidable (∀ n ∈ names, n.Canonical reg))
  | undefined | relative _ => inferInstanceAs (Decidable True)

instance : DecidablePred Writable
  | undefined => inferInstanceAs (Decidable True)
  | full names => inferInstanceAs (Decidable (∀ n ∈ names, n.FitsType))
  | relative name => inferInstanceAs (Decidable ((∀ e ∈ name.entries, e.FitsType) ∧ _))

/-- What a point name is read as: itself, but for the order of a relative name. -/
def ReadBackAs : PointName → PointName → Prop
  | relative name, relative name' => name.Arranges name'
  | name, name' => name' = name

variable {reg : Registry} {name : PointName}

theorem exists_toWire_eq_ok_iff (h : name.Canonical reg) (hname : name ≠ .undefined) :
    (∃ w, name.toWire = .ok w) ↔ name.Writable := by
  cases name with
  | undefined => exact absurd rfl hname
  | full names =>
      rw [Writable, ← GeneralNames.exists_toWire_eq_ok_iff h]
      simp [toWire, map_eq_ok_iff]
  | relative name =>
      rw [Writable, ← DirectoryName.exists_toRdn_eq_ok_iff]
      simp [toWire, map_eq_ok_iff]

def Readable : PointName → Prop
  | full names => ∀ n ∈ names, n.Readable
  | _ => True

instance : DecidablePred Readable
  | full names => inferInstanceAs (Decidable (∀ n ∈ names, n.Readable))
  | undefined | relative _ => inferInstanceAs (Decidable True)

def asRead (reg : Registry) : PointName → PointName
  | full names => full (names.map (GeneralName.asRead reg))
  | relative name => relative name.arranged
  | undefined => undefined

/-- The point name with a relative name in the order of the encodings. -/
def arranged : PointName → PointName
  | relative name => relative name.arranged
  | name => name

variable {w : Wire.PointName}

theorem Readable.of_toWire (h : name.Readable) (hw : name.toWire = .ok w) : w.Readable := by
  cases name with
  | undefined => simp [toWire] at hw
  | full names =>
      obtain ⟨ws, hws, rfl⟩ := map_eq_ok_iff.mp hw
      exact GeneralNames.readable_toWire h hws
  | relative name =>
      obtain ⟨rdn, hrdn, rfl⟩ := map_eq_ok_iff.mp hw
      exact DirectoryName.readable_of_toRdn hrdn

theorem readable_of_ofElement? {w' : Wire.PointName} (hw : name.toWire = .ok w)
    (hfits : w.toElement.Fits) (h : Wire.PointName.ofElement? w.toElement = some w') :
    name.Readable := by
  cases name with
  | undefined => trivial
  | full names =>
      obtain ⟨ws, hws, rfl⟩ := map_eq_ok_iff.mp hw
      obtain ⟨ws', hread⟩ := Wire.PointName.exists_of_ofElement?_full h
      exact (GeneralNames.roundTrip Registry.builtin).readable hws hfits hread
  | relative name => trivial

theorem ofWire_of_toWire (hw : name.toWire = .ok w) : ofWire reg w = .ok (name.asRead reg) := by
  cases name with
  | undefined => simp [toWire] at hw
  | full names =>
      obtain ⟨ws, hws, rfl⟩ := map_eq_ok_iff.mp hw
      rw [ofWire, GeneralNames.ofWire_toWire hws]
      rfl
  | relative name =>
      obtain ⟨rdn, hrdn, rfl⟩ := map_eq_ok_iff.mp hw
      rw [ofWire, DirectoryName.ofRdn_of_toRdn hrdn]
      rfl

theorem Canonical.readable (h : name.Canonical reg) : name.Readable := by
  cases name with
  | full names => exact fun n hn => (h n hn).readable
  | undefined | relative _ => trivial

theorem Canonical.asRead_eq (h : name.Canonical reg) : name.asRead reg = name.arranged := by
  cases name with
  | full names => exact congrArg full (GeneralNames.map_asRead_eq h)
  | undefined | relative _ => rfl

def relativeNames : PointName → List DirectoryName
  | relative name => [name]
  | _ => []

def generalNames : PointName → GeneralNames
  | full names => names
  | _ => []

theorem canonical_of_ofWire (hreg : reg.KeepsOids) (hw : w.Readable)
    (h : ofWire reg w = .ok name) (hstable : ∀ n ∈ name.generalNames, n.Stable) :
    name.Canonical reg := by
  cases w with
  | full ws =>
      obtain ⟨names, hnames, rfl⟩ := map_eq_ok_iff.mp h
      exact GeneralNames.canonical_of_ofWire hreg hw hnames hstable
  | relative rdn =>
      obtain ⟨directory, -, rfl⟩ := map_eq_ok_iff.mp h
      trivial

theorem arranges_of_toWire (hw : name.toWire = .ok w) :
    ∀ n ∈ name.relativeNames, n.Arranges n.arranged := by
  cases name with
  | undefined | full _ => simp [relativeNames]
  | relative name =>
      obtain ⟨rdn, hrdn, -⟩ := map_eq_ok_iff.mp hw
      simpa [relativeNames] using DirectoryName.arranges_arranged hrdn

theorem readBackAs_arranged (h : ∀ n ∈ name.relativeNames, n.Arranges n.arranged) :
    name.ReadBackAs name.arranged := by
  cases name with
  | undefined | full _ => rfl
  | relative name => exact h name List.mem_cons_self

theorem arranged_eq_self_iff (h : ∀ n ∈ name.relativeNames, n.Arranges n.arranged) :
    name.arranged = name ↔ ∀ n ∈ name.relativeNames, n.IsArranged := by
  cases name with
  | undefined | full _ => simp [relativeNames, arranged]
  | relative name =>
      have hname := (h name List.mem_cons_self).arranged_eq_self_iff
      simpa [relativeNames, arranged] using hname

end PointName

namespace DistributionPoint

/-- Whether the general names of a point hold their identifiers as reading them gives them. -/
structure Canonical (reg : Registry) (p : DistributionPoint) : Prop where
  name : p.name.Canonical reg
  crlIssuer : ∀ n ∈ p.crlIssuer, n.Canonical reg

/-- Whether the texts of a point fit and, in a relative name, no entry is there twice. -/
structure Writable (p : DistributionPoint) : Prop where
  name : p.name.Writable
  crlIssuer : ∀ n ∈ p.crlIssuer, n.FitsType

instance (reg : Registry) : DecidablePred (Canonical reg) := fun p =>
  decidable_of_iff (p.name.Canonical reg ∧ ∀ n ∈ p.crlIssuer, n.Canonical reg)
    ⟨fun h => ⟨h.1, h.2⟩, fun h => ⟨h.name, h.crlIssuer⟩⟩

instance : DecidablePred Writable := fun p =>
  decidable_of_iff (p.name.Writable ∧ ∀ n ∈ p.crlIssuer, n.FitsType)
    ⟨fun h => ⟨h.1, h.2⟩, fun h => ⟨h.name, h.crlIssuer⟩⟩

/-- What a point is read as: itself, but for the order of a relative name. -/
structure ReadBackAs (p p' : DistributionPoint) : Prop where
  name : p.name.ReadBackAs p'.name
  reasons : p'.reasons = p.reasons
  crlIssuer : p'.crlIssuer = p.crlIssuer

variable {reg : Registry} {p : DistributionPoint} {w : Wire.DistributionPoint}

theorem toWire_eq_ok_iff :
    p.toWire = .ok w ↔
      ∃ name crlIssuer,
        (if p.name = .undefined then pure none else some <$> p.name.toWire) = .ok name ∧
          (if p.crlIssuer.isEmpty then pure none else some <$> GeneralNames.toWire p.crlIssuer) =
              .ok crlIssuer ∧
            w = ⟨name, if p.reasons = 0 then none else some p.reasons, crlIssuer⟩ := by
  have hstages : p.toWire =
      (if p.name = .undefined then pure none else some <$> p.name.toWire) >>= fun name =>
        (if p.crlIssuer.isEmpty then pure none else some <$> GeneralNames.toWire p.crlIssuer) >>=
          fun crlIssuer =>
            pure ⟨name, if p.reasons = 0 then none else some p.reasons, crlIssuer⟩ := by
    by_cases hname : p.name = .undefined <;> by_cases hissuer : p.crlIssuer.isEmpty = true <;>
      simp [toWire, hname, hissuer]
  rw [hstages]
  simp only [bind_eq_ok_iff, pure_eq_ok_iff, eq_comm (b := w), exists_and_left]

theorem exists_toWire_eq_ok_iff (h : p.Canonical reg) :
    (∃ w, p.toWire = .ok w) ↔ p.Writable := by
  have hname : (p.name ≠ .undefined → ∃ n, p.name.toWire = .ok n) ↔ p.name.Writable := by
    by_cases hundefined : p.name = .undefined
    · simp [hundefined, PointName.Writable]
    · simpa [hundefined] using PointName.exists_toWire_eq_ok_iff h.name hundefined
  have hissuer : (¬p.crlIssuer.isEmpty = true → ∃ ns, GeneralNames.toWire p.crlIssuer = .ok ns) ↔
      ∀ n ∈ p.crlIssuer, n.FitsType := by
    rw [← GeneralNames.exists_toWire_eq_ok_iff h.crlIssuer]
    by_cases hempty : p.crlIssuer.isEmpty = true
    · simp [List.isEmpty_iff.mp hempty, GeneralNames.toWire, pure, Except.pure]
    · simp [hempty]
  rw [← exists_ite_none_eq_ok_iff] at hname hissuer
  simp only [toWire_eq_ok_iff]
  constructor
  · rintro ⟨w, name, crlIssuer, hn, hi, -⟩
    exact ⟨hname.mp ⟨name, hn⟩, hissuer.mp ⟨crlIssuer, hi⟩⟩
  · intro hwritable
    obtain ⟨name, hn⟩ := hname.mpr hwritable.name
    obtain ⟨crlIssuer, hi⟩ := hissuer.mpr hwritable.crlIssuer
    exact ⟨_, name, crlIssuer, hn, hi, rfl⟩

structure Readable (p : DistributionPoint) : Prop where
  name : p.name.Readable
  crlIssuer : ∀ n ∈ p.crlIssuer, n.Readable

instance : DecidablePred Readable := fun p =>
  decidable_of_iff (p.name.Readable ∧ ∀ n ∈ p.crlIssuer, n.Readable)
    ⟨fun h => ⟨h.1, h.2⟩, fun h => ⟨h.name, h.crlIssuer⟩⟩

def asRead (reg : Registry) (p : DistributionPoint) : DistributionPoint :=
  ⟨p.name.asRead reg, p.reasons, p.crlIssuer.map (GeneralName.asRead reg)⟩

def arranged (p : DistributionPoint) : DistributionPoint :=
  { p with name := p.name.arranged }

theorem Readable.of_toWire (h : p.Readable) (hw : p.toWire = .ok w) : w.Readable := by
  obtain ⟨name, crlIssuer, hname, hissuer, rfl⟩ := toWire_eq_ok_iff.mp hw
  constructor
  · rcases ite_none_eq_ok_iff.mp hname with ⟨-, rfl⟩ | ⟨-, n, hn, rfl⟩
    · simp
    · simpa using h.name.of_toWire hn
  · exact GeneralNames.readable_optional hissuer h.crlIssuer

theorem readable_of_ofElement? {w' : Wire.DistributionPoint} (hw : p.toWire = .ok w)
    (hfits : w.toElement.Fits) (h : Wire.DistributionPoint.ofElement? w.toElement = some w') :
    p.Readable := by
  obtain ⟨name, crlIssuer, hname, hissuer, rfl⟩ := toWire_eq_ok_iff.mp hw
  obtain ⟨hreadName, hreadIssuer⟩ := Wire.DistributionPoint.exists_of_ofElement?_toElement hfits h
  constructor
  · rcases ite_none_eq_ok_iff.mp hname with ⟨hundefined, rfl⟩ | ⟨-, n, hn, rfl⟩
    · rw [hundefined]
      trivial
    · obtain ⟨n', hn'⟩ := hreadName n rfl
      have hone := (Wire.DistributionPoint.fits_name hfits n rfl).of_explicit
      exact PointName.readable_of_ofElement? hn hone hn'
  · have hall := Wire.DistributionPoint.fits_crlIssuer hfits
    exact GeneralNames.readable_of_optional hissuer hall hreadIssuer

/-- A point comes back: each of its fields is left out only if it is empty. -/
theorem ofWire_of_toWire (hw : p.toWire = .ok w) : ofWire reg w = .ok (p.asRead reg) := by
  obtain ⟨name, crlIssuer, hname, hissuer, rfl⟩ := toWire_eq_ok_iff.mp hw
  obtain ⟨name', hname', hnameBack⟩ : ∃ name', name.mapM (PointName.ofWire reg) = .ok name' ∧
      name'.getD .undefined = p.name.asRead reg := by
    rcases ite_none_eq_ok_iff.mp hname with ⟨hundefined, rfl⟩ | ⟨-, n, hn, rfl⟩
    · exact ⟨none, rfl, by rw [hundefined]; rfl⟩
    · exact ⟨some (p.name.asRead reg), by simp [PointName.ofWire_of_toWire hn], rfl⟩
  obtain ⟨issuer', hissuer', hissuerBack⟩ := GeneralNames.ofWire_optional reg hissuer
  have hreasons : (if p.reasons = 0 then none else some p.reasons).getD 0 = p.reasons := by
    split <;> simp_all
  rw [asRead, ← hnameBack, ← hissuerBack]
  simp only [ofWire, hname', hissuer', hreasons]
  rfl

theorem roundTrip (reg : Registry) :
    RoundTrip toWire Wire.DistributionPoint.toElement Wire.DistributionPoint.ofElement?
      (ofWire reg) Readable (asRead reg) where
  read hw hfits hreadable :=
    Wire.DistributionPoint.ofElement?_toElement (hreadable.of_toWire hw) hfits
  readable := readable_of_ofElement?
  back hw _ := ofWire_of_toWire hw

theorem Canonical.readable (h : p.Canonical reg) : p.Readable :=
  ⟨h.name.readable, fun n hn => (h.crlIssuer n hn).readable⟩

theorem Canonical.asRead_eq (h : p.Canonical reg) : p.asRead reg = p.arranged := by
  rw [asRead, h.name.asRead_eq, GeneralNames.map_asRead_eq h.crlIssuer, arranged]

def generalNames (p : DistributionPoint) : GeneralNames := p.name.generalNames ++ p.crlIssuer

theorem canonical_of_ofWire (hreg : reg.KeepsOids) (hw : w.Readable) (h : ofWire reg w = .ok p)
    (hstable : ∀ n ∈ p.generalNames, n.Stable) : p.Canonical reg := by
  obtain ⟨name, hname, h⟩ := bind_eq_ok_iff.mp h
  obtain ⟨crlIssuer, hissuer, h⟩ := bind_eq_ok_iff.mp h
  obtain rfl := pure_eq_ok_iff.mp h
  obtain ⟨hstableName, hstableIssuer⟩ := List.forall_mem_append.mp hstable
  refine ⟨?_, GeneralNames.canonical_optional hreg hw.crlIssuer hissuer hstableIssuer⟩
  rcases option_mapM_eq_ok_iff.mp hname with ⟨-, rfl⟩ | ⟨n, n', hn, hn', rfl⟩
  · trivial
  · exact PointName.canonical_of_ofWire hreg (hw.name n hn) hn' hstableName

theorem arranges_of_toWire (hw : p.toWire = .ok w) :
    ∀ n ∈ p.name.relativeNames, n.Arranges n.arranged := by
  obtain ⟨name, crlIssuer, hname, -, -⟩ := toWire_eq_ok_iff.mp hw
  rcases ite_none_eq_ok_iff.mp hname with ⟨hundefined, -⟩ | ⟨-, n, hn, -⟩
  · rw [hundefined]
    simp [PointName.relativeNames]
  · exact PointName.arranges_of_toWire hn

theorem arranged_eq_self_iff (hw : p.toWire = .ok w) :
    p.arranged = p ↔ ∀ n ∈ p.name.relativeNames, n.IsArranged := by
  rw [← PointName.arranged_eq_self_iff (arranges_of_toWire hw)]
  obtain ⟨name, reasons, crlIssuer⟩ := p
  simp [arranged]

theorem readable_of_toWire (h : p.Canonical reg) (hw : p.toWire = .ok w) : w.Readable :=
  h.readable.of_toWire hw

theorem exists_ofWire_of_toWire (h : p.Canonical reg) (hw : p.toWire = .ok w) :
    ∃ p', ofWire reg w = .ok p' ∧ p.ReadBackAs p' :=
  ⟨p.arranged, by rw [ofWire_of_toWire hw, h.asRead_eq],
    PointName.readBackAs_arranged (arranges_of_toWire hw), rfl, rfl⟩

end DistributionPoint

end Pkix
