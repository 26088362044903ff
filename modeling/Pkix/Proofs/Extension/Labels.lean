import Pkix.Proofs.Extension.Record

/-!
# Registries only name

What a registry was told shows in the labels of the identifiers that were resolved with it, and in
nothing else. Values that were read with two registries that keep octets are the same without their
labels, and a value is written as it is without them. So neither whether a record can be read nor
what becomes of it when it is written again depends on what was registered before.
-/

namespace Pkix

/-! ## Values without labels -/

/-- The identifier without its number and name. -/
def Identifier.unlabelled : Identifier → Identifier
  | undefined => undefined
  | defined oid _ => defined oid none

def GeneralName.unlabelled : GeneralName → GeneralName
  | registeredId oid => registeredId oid.unlabelled
  | name => name

def GeneralNames.unlabelled (names : GeneralNames) : GeneralNames :=
  names.map GeneralName.unlabelled

def PolicyInformation.unlabelled (p : PolicyInformation) : PolicyInformation :=
  { p with identifier := p.identifier.unlabelled }

def AccessDescription.unlabelled (d : AccessDescription) : AccessDescription :=
  ⟨d.method.unlabelled, d.location.unlabelled⟩

def PointName.unlabelled : PointName → PointName
  | full names => full (GeneralNames.unlabelled names)
  | name => name

def DistributionPoint.unlabelled (p : DistributionPoint) : DistributionPoint :=
  { p with name := p.name.unlabelled, crlIssuer := GeneralNames.unlabelled p.crlIssuer }

def AuthorityKeyIdentifier.unlabelled (a : AuthorityKeyIdentifier) : AuthorityKeyIdentifier :=
  { a with issuer := GeneralNames.unlabelled a.issuer }

def ExtensionValue.unlabelled : ExtensionValue → ExtensionValue
  | extendedKeyUsage purposes => extendedKeyUsage (purposes.map Identifier.unlabelled)
  | authorityKeyIdentifier key => authorityKeyIdentifier key.unlabelled
  | subjectAlternativeName names => subjectAlternativeName (GeneralNames.unlabelled names)
  | issuerAlternativeName names => issuerAlternativeName (GeneralNames.unlabelled names)
  | crlDistributionPoints points =>
    crlDistributionPoints (points.map DistributionPoint.unlabelled)
  | certificatePolicies policies =>
    certificatePolicies (policies.map PolicyInformation.unlabelled)
  | authorityInformationAccess descriptions =>
    authorityInformationAccess (descriptions.map AccessDescription.unlabelled)
  | value => value

def TypedExtension.unlabelled (e : TypedExtension) : TypedExtension :=
  { e with value := e.value.unlabelled }

def RawExtension.unlabelled (e : RawExtension) : RawExtension :=
  { e with id := e.id.unlabelled }

def Extension.unlabelled : Extension → Extension
  | typed e => typed e.unlabelled
  | unknown e => unknown e.unlabelled

/-! ## Writing -/

theorem mapM_map_eq_mapM {ε α β : Type} {g : α → α} {f : α → Except ε β} (h : ∀ a, f (g a) = f a)
    (as : List α) : (as.map g).mapM f = as.mapM f := by
  rw [List.mapM_map]
  exact congrArg as.mapM (funext h)

theorem Identifier.toOid_unlabelled (x : Identifier) : x.unlabelled.toOid = x.toOid := by
  cases x <;> rfl

theorem GeneralName.toWire_unlabelled (name : GeneralName) :
    name.unlabelled.toWire = name.toWire := by
  cases name with
  | registeredId oid => simp only [unlabelled, toWire, oid.toOid_unlabelled]
  | _ => rfl

theorem GeneralNames.toWire_unlabelled (names : GeneralNames) :
    toWire (unlabelled names) = toWire names :=
  mapM_map_eq_mapM GeneralName.toWire_unlabelled names

theorem PolicyInformation.toWire_unlabelled (p : PolicyInformation) :
    p.unlabelled.toWire = p.toWire := by
  simp only [unlabelled, toWire, p.identifier.toOid_unlabelled]

theorem AccessDescription.toWire_unlabelled (d : AccessDescription) :
    d.unlabelled.toWire = d.toWire := by
  simp only [unlabelled, toWire, d.method.toOid_unlabelled, d.location.toWire_unlabelled]

theorem PointName.toWire_unlabelled (name : PointName) : name.unlabelled.toWire = name.toWire := by
  cases name with
  | full names => simp only [unlabelled, toWire, GeneralNames.toWire_unlabelled]
  | _ => rfl

theorem GeneralNames.isEmpty_unlabelled (names : GeneralNames) :
    (unlabelled names).isEmpty = names.isEmpty := by
  simp [unlabelled]

theorem DistributionPoint.toWire_unlabelled (p : DistributionPoint) :
    p.unlabelled.toWire = p.toWire := by
  have hname : p.unlabelled.name = p.name.unlabelled := rfl
  have hreasons : p.unlabelled.reasons = p.reasons := rfl
  have hissuer : p.unlabelled.crlIssuer = GeneralNames.unlabelled p.crlIssuer := rfl
  rw [toWire, toWire, hname, hreasons, hissuer, GeneralNames.isEmpty_unlabelled,
    GeneralNames.toWire_unlabelled, p.name.toWire_unlabelled]
  cases p.name <;> rfl

theorem AuthorityKeyIdentifier.toWire_unlabelled (a : AuthorityKeyIdentifier) :
    a.unlabelled.toWire = a.toWire := by
  simp only [unlabelled, toWire, GeneralNames.toWire_unlabelled, GeneralNames.isEmpty_unlabelled]

theorem ExtensionValue.kind_unlabelled (value : ExtensionValue) :
    value.unlabelled.kind = value.kind := by
  cases value <;> rfl

theorem ExtensionValue.toElement_unlabelled (value : ExtensionValue) :
    value.unlabelled.toElement = value.toElement := by
  cases value with
  | extendedKeyUsage purposes =>
      simp only [unlabelled, toElement, mapM_map_eq_mapM Identifier.toOid_unlabelled]
  | authorityKeyIdentifier key => simp only [unlabelled, toElement, key.toWire_unlabelled]
  | subjectAlternativeName names | issuerAlternativeName names =>
      simp only [unlabelled, toElement, GeneralNames.toWire_unlabelled]
  | crlDistributionPoints points =>
      simp only [unlabelled, toElement, mapM_map_eq_mapM DistributionPoint.toWire_unlabelled]
  | certificatePolicies policies =>
      simp only [unlabelled, toElement, mapM_map_eq_mapM PolicyInformation.toWire_unlabelled]
  | authorityInformationAccess descriptions =>
      simp only [unlabelled, toElement, mapM_map_eq_mapM AccessDescription.toWire_unlabelled]
  | _ => rfl

theorem TypedExtension.toRecord_unlabelled (e : TypedExtension) :
    e.unlabelled.toRecord = e.toRecord := by
  simp only [unlabelled, toRecord, kind, ExtensionValue.encode, e.value.kind_unlabelled,
    e.value.toElement_unlabelled]

theorem RawExtension.toRecord_unlabelled (e : RawExtension) :
    e.unlabelled.toRecord = e.toRecord := by
  rw [toRecord, toRecord, unlabelled, e.id.toOid_unlabelled]

/-- An extension is written as it is without its labels. -/
theorem Extension.toRecord_unlabelled (e : Extension) : e.unlabelled.toRecord = e.toRecord := by
  cases e with
  | typed e => exact e.toRecord_unlabelled
  | unknown e => exact e.toRecord_unlabelled

/-! ## Reading -/

theorem map_getD_congr {α : Type} {u : α → α} {o o' : Option α} {d : α}
    (h : o.map u = o'.map u) : u (o.getD d) = u (o'.getD d) := by
  rw [← Option.getD_map u, h, Option.getD_map]

section

variable {reg reg' : Registry} (hreg : reg.KeepsOids) (hreg' : reg'.KeepsOids)

include hreg hreg'

theorem Registry.KeepsOids.unlabelled_resolve (oid : Oid) :
    (reg.resolve oid).unlabelled = (reg'.resolve oid).unlabelled := by
  have hlabels : ∀ x : Identifier, x.oid? = some oid → x.unlabelled = .defined oid none := by
    rintro (_ | ⟨oid', label⟩) h
    · cases h
    · cases h
      rfl
  rw [hlabels _ (hreg oid), hlabels _ (hreg' oid)]

theorem GeneralName.agree_ofWire (w : Wire.GeneralName) :
    AgreeUpTo unlabelled (ofWire reg w) (ofWire reg' w) := by
  cases w with
  | registeredId oid =>
      exact .ok (congrArg registeredId (hreg.unlabelled_resolve hreg' oid))
  | _ => exact .refl _

theorem GeneralNames.agree_ofWire (ws : Wire.GeneralNames) :
    AgreeUpTo unlabelled (ofWire reg ws) (ofWire reg' ws) :=
  .mapM (GeneralName.agree_ofWire hreg hreg')

theorem PolicyInformation.agree_ofWire (w : Wire.PolicyInformation) :
    AgreeUpTo unlabelled (ofWire reg w) (ofWire reg' w) := by
  refine .bind_left _ fun qualifiers => .ok ?_
  simp only [unlabelled, hreg.unlabelled_resolve hreg' w.id]

theorem AccessDescription.agree_ofWire (w : Wire.AccessDescription) :
    AgreeUpTo unlabelled (ofWire reg w) (ofWire reg' w) := by
  refine (GeneralName.agree_ofWire hreg hreg' w.location).bind fun location location' h => .ok ?_
  simp only [unlabelled, hreg.unlabelled_resolve hreg' w.method, h]

theorem PointName.agree_ofWire (w : Wire.PointName) :
    AgreeUpTo unlabelled (ofWire reg w) (ofWire reg' w) := by
  cases w with
  | full ws =>
      exact (GeneralNames.agree_ofWire hreg hreg' ws).bind_pure fun names names' h =>
        congrArg full h
  | relative rdn => exact .refl _

theorem DistributionPoint.agree_ofWire (w : Wire.DistributionPoint) :
    AgreeUpTo unlabelled (ofWire reg w) (ofWire reg' w) := by
  refine (AgreeUpTo.option_mapM (PointName.agree_ofWire hreg hreg')).bind fun name name' hname => ?_
  refine (AgreeUpTo.option_mapM (GeneralNames.agree_ofWire hreg hreg')).bind
    fun issuer issuer' hissuer => .ok ?_
  simp only [unlabelled, map_getD_congr hname, map_getD_congr hissuer]

theorem AuthorityKeyIdentifier.agree_ofWire (w : Wire.AuthorityKeyIdentifier) :
    AgreeUpTo unlabelled (ofWire reg w) (ofWire reg' w) := by
  refine (AgreeUpTo.option_mapM (GeneralNames.agree_ofWire hreg hreg')).bind_pure
    fun issuer issuer' hissuer => ?_
  simp only [unlabelled, map_getD_congr hissuer]

theorem ExtensionValue.agree_decode (kind : ExtensionKind) (octets : Octets) :
    AgreeUpTo unlabelled (decode reg kind octets) (decode reg' kind octets) := by
  cases kind with
  | basicConstraints | keyUsage | subjectKeyIdentifier | deltaCrlIndicator | crlNumber =>
      exact .refl _
  | extendedKeyUsage =>
      refine .bind_left _ fun oids => .ok ?_
      simp only [unlabelled, List.map_map]
      congr 1
      exact List.map_congr_left fun oid _ => hreg.unlabelled_resolve hreg' oid
  | authorityKeyIdentifier =>
      refine .bind_left _ fun w => ?_
      exact (AuthorityKeyIdentifier.agree_ofWire hreg hreg' w).bind_pure fun _ _ h =>
        congrArg authorityKeyIdentifier h
  | subjectAlternativeName =>
      refine .bind_left _ fun ws => ?_
      exact (GeneralNames.agree_ofWire hreg hreg' ws).bind_pure fun _ _ h =>
        congrArg subjectAlternativeName h
  | issuerAlternativeName =>
      refine .bind_left _ fun ws => ?_
      exact (GeneralNames.agree_ofWire hreg hreg' ws).bind_pure fun _ _ h =>
        congrArg issuerAlternativeName h
  | crlDistributionPoints =>
      refine .bind_left _ fun ws => ?_
      exact (AgreeUpTo.mapM (DistributionPoint.agree_ofWire hreg hreg')).bind_pure fun _ _ h =>
        congrArg crlDistributionPoints h
  | certificatePolicies =>
      refine .bind_left _ fun ws => ?_
      exact (AgreeUpTo.mapM (PolicyInformation.agree_ofWire hreg hreg')).bind_pure fun _ _ h =>
        congrArg certificatePolicies h
  | authorityInformationAccess =>
      refine .bind_left _ fun ws => ?_
      exact (AgreeUpTo.mapM (AccessDescription.agree_ofWire hreg hreg')).bind_pure fun _ _ h =>
        congrArg authorityInformationAccess h

theorem TypedExtension.agree_ofRecord (kind : ExtensionKind) (r : Wire.Extension) :
    AgreeUpTo unlabelled (ofRecord reg kind r) (ofRecord reg' kind r) := by
  rw [ofRecord, ofRecord]
  split
  · refine (ExtensionValue.agree_decode hreg hreg' kind r.value).bind_pure fun _ _ h => ?_
    simp only [unlabelled, h]
  · exact .refl _

theorem RawExtension.unlabelled_ofRecord (r : Wire.Extension) :
    (ofRecord reg r).unlabelled = (ofRecord reg' r).unlabelled := by
  simp only [unlabelled, ofRecord, hreg.unlabelled_resolve hreg' r.id]

theorem Extension.agree_ofRecord (r : Wire.Extension) :
    AgreeUpTo unlabelled (ofRecord reg r) (ofRecord reg' r) := by
  rw [ofRecord, ofRecord]
  split
  · rename_i kind _
    exact (TypedExtension.agree_ofRecord hreg hreg' kind r).bind_pure fun _ _ h =>
      congrArg typed h
  · exact .ok (congrArg unknown (RawExtension.unlabelled_ofRecord hreg hreg' r))

end

/-- Whatever was registered before, a record can be read or fails with the same error. The values
that it is read as differ at most in the labels of their identifiers, and they are written as the
same record or fail with the same error. -/
theorem Extension.ofRecord_run_agree (calls calls' : List Registry.Call) (r : Wire.Extension) :
    let reg := Registry.builtin.run calls
    let reg' := Registry.builtin.run calls'
    (∀ err, ofRecord reg r = .error err ↔ ofRecord reg' r = .error err) ∧
    ((∃ e, ofRecord reg r = .ok e) ↔ ∃ e', ofRecord reg' r = .ok e') ∧
    ∀ e e', ofRecord reg r = .ok e → ofRecord reg' r = .ok e' →
      e.unlabelled = e'.unlabelled ∧ e.toRecord = e'.toRecord := by
  intro reg reg'
  have hagree : AgreeUpTo unlabelled (ofRecord reg r) (ofRecord reg' r) :=
    agree_ofRecord (Registry.keepsOids_run_builtin calls) (Registry.keepsOids_run_builtin calls') r
  refine ⟨fun err => hagree.eq_error_iff, hagree.exists_eq_ok_iff, fun e e' h h' => ?_⟩
  rw [h, h'] at hagree
  have heq := hagree.of_ok
  exact ⟨heq, by rw [← e.toRecord_unlabelled, heq, e'.toRecord_unlabelled]⟩

/-- A purpose that one registry has a name for and the other one has not. -/
theorem Extension.ofRecord_run_agree_namedPurpose :
    let r : Wire.Extension :=
      ⟨Oid.extKeyUsage, false, [0x30, 0x05, 0x06, 0x03, 0x2a, 0x03, 0x04]⟩
    ∃ e e', ofRecord (Registry.builtin.run []) r = .ok e ∧
      ofRecord (Registry.builtin.run Registry.mixedCalls) r = .ok e' ∧
        e ≠ e' ∧ e.unlabelled = e'.unlabelled ∧ e.toRecord = e'.toRecord := by
  intro r
  let oid : Oid := ⟨[0x2a, 0x03, 0x04]⟩
  let purpose (label : Option Label) : Extension :=
    .typed ⟨false, .extendedKeyUsage [.defined oid label]⟩
  have h : ofRecord (Registry.builtin.run []) r = .ok (purpose none) := by decide +kernel
  have h' : ofRecord (Registry.builtin.run Registry.mixedCalls) r =
      .ok (purpose (some ⟨10000, "first"⟩)) := by decide +kernel
  obtain ⟨-, -, hsame⟩ := ofRecord_run_agree [] Registry.mixedCalls r
  exact ⟨_, _, h, h', by decide, hsame _ _ h h'⟩

end Pkix
