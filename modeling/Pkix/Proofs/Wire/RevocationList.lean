import Pkix.Proofs.Wire.Certificate
import Pkix.Wire.RevocationList

/-!
# Revocation lists on the wire come back

The optional parts of a list are told apart by their tags. Only the order of the sets in its names
and the flags of its extensions are read more leniently than they are written.
-/

namespace Pkix.Wire

open Der

/-! ## Revoked certificates -/

namespace RevokedCertificate

theorem ofElement?_eq_some_iff {e : Element} {r : RevokedCertificate} :
    ofElement? e = some r ↔ ∃ serial date extensions,
      e.sequence? = some (serial :: date :: Option.toList extensions) ∧
        SerialNumber.ofElement? serial = some r.serial ∧ Time.ofElement? date = some r.date ∧
          extensions.mapM (Element.sequenceOf? Extension.ofElement?) = some r.extensions := by
  constructor
  · intro h
    obtain ⟨fields, hfields, h⟩ := Option.bind_eq_some_iff.mp h
    split at h
    · obtain ⟨s, hserial, h⟩ := Option.bind_eq_some_iff.mp h
      obtain ⟨t, hdate, h⟩ := Option.bind_eq_some_iff.mp h
      obtain rfl := Option.some.inj h
      exact ⟨_, _, none, hfields, hserial, hdate, rfl⟩
    · rename_i extensions
      obtain ⟨s, hserial, h⟩ := Option.bind_eq_some_iff.mp h
      obtain ⟨t, hdate, h⟩ := Option.bind_eq_some_iff.mp h
      obtain ⟨records, hrecords, h⟩ := Option.bind_eq_some_iff.mp h
      obtain rfl := Option.some.inj h
      refine ⟨_, _, some extensions, hfields, hserial, hdate, ?_⟩
      rw [Option.mapM_some, hrecords]
      rfl
    · cases h
  · rintro ⟨serial, date, extensions, hfields, hserial, hdate, hextensions⟩
    obtain ⟨s, t, records⟩ := r
    cases extensions with
    | none =>
        obtain rfl := Option.some.inj hextensions
        simp_all [ofElement?]
    | some e' =>
        rw [Option.mapM_some, Option.map_eq_map, Option.map_eq_some_iff] at hextensions
        obtain ⟨read, hread, rfl⟩ := hextensions
        simp_all [ofElement?]

theorem rewrites : Element.Rewrites ofElement? toElement := by
  constructor
  · intro e r h
    obtain ⟨serial, date, extensions, hfields, hserial, hdate, hextensions⟩ :=
      ofElement?_eq_some_iff.mp h
    have hle := Extension.rewrites_list.seriesLength_option hextensions
    apply Element.length_sequence_le hfields
    rw [SerialNumber.toElement_of_ofElement? _ _ hserial, Time.toElement_of_ofElement? _ _ hdate]
    simpa using hle
  · intro e r h hfits
    obtain ⟨serial, date, extensions, -, hserial, hdate, hextensions⟩ :=
      ofElement?_eq_some_iff.mp h
    apply ofElement?_eq_some_iff.mpr
    refine ⟨_, _, _, Element.sequence?_sequence hfits, ?_, ?_, ?_⟩
    · rw [SerialNumber.toElement_of_ofElement? _ _ hserial, hserial]
    · rw [Time.toElement_of_ofElement? _ _ hdate, hdate]
    · apply Extension.rewrites_list.mapM_option hextensions
      intro records hrecords
      apply hfits.of_mem
      simp [Option.mem_def.mp hrecords]

end RevokedCertificate

/-! ## The signed part -/

namespace TbsCertList

/-- The elements that the parts of a revocation list are read from and written as. -/
structure Fields where
  version : Element
  signature : Element
  issuer : Element
  thisUpdate : Element
  nextUpdate : Option Element
  revoked : Option Element
  extensions : Option Element

namespace Fields

def elements (f : Fields) : List Element :=
  [f.version, f.signature, f.issuer, f.thisUpdate] ++
    (f.nextUpdate.toList ++ (f.revoked.toList ++ f.extensions.toList))

/-- Whether the fields are taken off a list of elements that then is used up. -/
def TakenOff (f : Fields) (all : List Element) : Prop :=
  ∃ rest rest' rest'',
    all = f.version :: f.signature :: f.issuer :: f.thisUpdate :: rest ∧
    Element.takeTagged [.universal .utcTime, .universal .generalizedTime] rest =
      (f.nextUpdate, rest') ∧
    Element.takeTagged [.universal .sequence] rest' = (f.revoked, rest'') ∧
    Element.takeContext 0 rest'' = (f.extensions, [])

/-- Whether every field is read as the part of a revocation list that it stands for. -/
structure ReadAs (f : Fields) (t : TbsCertList) : Prop where
  version : Version.ofElement? f.version = some t.version
  signature : Algorithm.ofElement? f.signature = some t.signature
  issuer : Name.ofElement? f.issuer = some t.issuer
  thisUpdate : Time.ofElement? f.thisUpdate = some t.thisUpdate
  nextUpdate : f.nextUpdate.mapM Time.ofElement? = some t.nextUpdate
  revoked : f.revoked.mapM (Element.sequenceOf? RevokedCertificate.ofElement?) = some t.revoked
  extensions : (f.extensions.mapM fun e => do
    (← e.explicit? 0).sequenceOf? Extension.ofElement?) = some t.extensions

theorem TakenOff.seriesLength_le {f : Fields} {all : List Element} (h : f.TakenOff all) :
    Element.seriesLength f.elements ≤ Element.seriesLength all := by
  obtain ⟨rest, rest', rest'', rfl, h1, h2, h3⟩ := h
  have hnext := Element.seriesLength_takeTagged h1
  have hrevoked := Element.seriesLength_takeTagged h2
  have hextensions := Element.seriesLength_takeContext h3
  simp only [elements, Element.seriesLength_append, Element.seriesLength_cons,
    Element.seriesLength_nil] at *
  omega

end Fields

theorem ofElement?_eq_some_iff (e : Element) (t : TbsCertList) :
    ofElement? e = some t ↔
      ∃ all f, e.sequence? = some all ∧ Fields.TakenOff f all ∧ f.ReadAs t := by
  constructor
  · intro h
    obtain ⟨all, hall, h⟩ := Option.bind_eq_some_iff.mp h
    split at h
    · rename_i version signature issuer thisUpdate rest
      dsimp only at h
      split at h
      · rename_i hrest
        obtain ⟨v, hversion, h⟩ := Option.bind_eq_some_iff.mp h
        obtain ⟨a, hsignature, h⟩ := Option.bind_eq_some_iff.mp h
        obtain ⟨i, hissuer, h⟩ := Option.bind_eq_some_iff.mp h
        obtain ⟨u, hthis, h⟩ := Option.bind_eq_some_iff.mp h
        obtain ⟨u', hnext, h⟩ := Option.bind_eq_some_iff.mp h
        obtain ⟨r, hrevoked, h⟩ := Option.bind_eq_some_iff.mp h
        obtain ⟨x, hextensions, h⟩ := Option.bind_eq_some_iff.mp h
        obtain rfl := Option.some.inj h
        refine ⟨_, ⟨version, signature, issuer, thisUpdate, _, _, _⟩, hall,
          ⟨rest, _, _, rfl, rfl, rfl, Prod.ext rfl (List.isEmpty_iff.mp hrest)⟩, ?_⟩
        exact ⟨hversion, hsignature, hissuer, hthis, hnext, hrevoked, hextensions⟩
      · cases h
    · cases h
  · rintro ⟨all, f, hall, ⟨rest, rest', rest'', rfl, h1, h2, h3⟩, hread⟩
    have hextensions := hread.extensions
    simp only [Option.bind_eq_bind] at hextensions
    simp [ofElement?, hall, h1, h2, h3, hread.version, hread.signature, hread.issuer,
      hread.thisUpdate, hread.nextUpdate, hread.revoked, hextensions]

/-- The fields that a revocation list is written as. -/
def fields (t : TbsCertList) : Fields where
  version := t.version.toElement
  signature := t.signature.toElement
  issuer := Name.toElement t.issuer
  thisUpdate := t.thisUpdate.toElement
  nextUpdate := t.nextUpdate.map Time.toElement
  revoked := t.revoked.map (Element.sequenceOf RevokedCertificate.toElement)
  extensions := t.extensions.map fun records =>
    .explicit 0 (.sequenceOf Extension.toElement records)

theorem toElement_eq (t : TbsCertList) : t.toElement = .sequence t.fields.elements := by
  simp [toElement, Fields.elements, fields]

theorem takenOff_fields (t : TbsCertList) : t.fields.TakenOff t.fields.elements := by
  have hrevoked : ∀ e ∈ t.fields.revoked.toList, e.tag = .universal .sequence := by
    intro e he
    obtain ⟨list, -, rfl⟩ : ∃ list, t.revoked = some list ∧
        Element.sequenceOf RevokedCertificate.toElement list = e := by simpa [fields] using he
    rfl
  have hextensions : ∀ e ∈ t.fields.extensions.toList, e.tag = .context true 0 := by
    intro e he
    obtain ⟨records, -, rfl⟩ : ∃ records, t.extensions = some records ∧
        Element.explicit 0 (.sequenceOf Extension.toElement records) = e := by
      simpa [fields] using he
    rfl
  refine ⟨_, _, _, rfl, Element.takeTagged_option ?_ ?_, Element.takeTagged_option ?_ ?_, ?_⟩
  · intro u
    cases hform : u.form <;> simp [Time.toElement, TimeForm.universal, hform]
  · intro e he
    rcases List.mem_append.mp he with he | he
    · rw [hrevoked e he]
      decide
    · rw [hextensions e he]
      decide
  · intro list
    exact List.mem_cons_self
  · intro e he
    rw [hextensions e he]
    decide
  · rw [← List.append_nil (Option.toList _)]
    exact Element.takeContext_option (fun records => ⟨true, rfl⟩) (by simp)

namespace Fields

variable {f : Fields} {t : TbsCertList}

/-- All fields but the names, the revoked certificates and the extensions are read exactly. -/
theorem ReadAs.exact (h : f.ReadAs t) :
    t.fields = ⟨f.version, f.signature, t.fields.issuer, f.thisUpdate, f.nextUpdate,
      t.fields.revoked, t.fields.extensions⟩ := by
  have hversion := Version.toElement_of_ofElement? _ _ h.version
  have hsignature := Algorithm.toElement_of_ofElement? _ _ h.signature
  have hthis := Time.toElement_of_ofElement? _ _ h.thisUpdate
  have hnext := Time.toElement_of_ofElement?.map_of_mapM_option h.nextUpdate
  simp only [fields, hversion, hsignature, hthis, hnext]

theorem ReadAs.seriesLength_le (h : f.ReadAs t) :
    Element.seriesLength t.fields.elements ≤ Element.seriesLength f.elements := by
  have hissuer : t.fields.issuer.octets.length ≤ f.issuer.octets.length :=
    Name.rewrites.length_le h.issuer
  have hrevoked : Element.seriesLength t.fields.revoked.toList ≤
      Element.seriesLength f.revoked.toList :=
    RevokedCertificate.rewrites.sequenceOf.seriesLength_option h.revoked
  have hextensions : Element.seriesLength t.fields.extensions.toList ≤
      Element.seriesLength f.extensions.toList :=
    (Extension.rewrites_list.explicit 0).seriesLength_option h.extensions
  rw [h.exact]
  simp only [elements, Element.seriesLength_append, Element.seriesLength_cons,
    Element.seriesLength_nil]
  omega

theorem ReadAs.again (h : f.ReadAs t) (hfits : ∀ e ∈ t.fields.elements, e.Fits) :
    t.fields.ReadAs t := by
  have hrevokedFits : ∀ e ∈ t.fields.revoked, e.Fits := by
    intro e he
    apply hfits
    simp [elements, Option.mem_def.mp he]
  have hextensionsFits : ∀ e ∈ t.fields.extensions, e.Fits := by
    intro e he
    apply hfits
    simp [elements, Option.mem_def.mp he]
  have hissuer := Name.rewrites.again h.issuer (hfits t.fields.issuer (by simp [elements]))
  have hrevoked := RevokedCertificate.rewrites.sequenceOf.mapM_option h.revoked
    fun list hlist => hrevokedFits _ (Option.mem_map_of_mem _ hlist)
  have hextensions := (Extension.rewrites_list.explicit 0).mapM_option h.extensions
    fun records hrecords => hextensionsFits _ (Option.mem_map_of_mem _ hrecords)
  rw [h.exact]
  exact ⟨h.version, h.signature, hissuer, h.thisUpdate, h.nextUpdate, hrevoked, hextensions⟩

end Fields

theorem rewrites : Element.Rewrites ofElement? toElement :=
  .of_fields ofElement?_eq_some_iff toElement_eq takenOff_fields Fields.TakenOff.seriesLength_le
    Fields.ReadAs.seriesLength_le Fields.ReadAs.again

end TbsCertList

/-! ## Revocation lists -/

theorem RevocationList.rewrites :
    Element.Rewrites RevocationList.ofElement? RevocationList.toElement :=
  rewrites_signed TbsCertList.rewrites (fun _ => rfl) fun _ _ _ => rfl

end Pkix.Wire
