import Pkix.Proofs.Der.Element
import Pkix.Proofs.Extension.Record
import Pkix.Proofs.IpAddress
import Pkix.Proofs.Name.Directory

/-!
# Errors tell the direction

What cannot be written is undefined, is no identifier, does not fit the form that it has to take, or
is too long. What cannot be read does not follow the rules or is not supported; the only octets that
follow the rules and are invalid all the same are those of an address that has a wrong length. A
record is read by the decoder of another kind only where a caller asks for that kind.
-/

namespace Pkix

open Der

namespace Error

def writingKinds : List ErrorKind :=
  [.undefinedValue, .undefinedObjectIdentifier, .invalidObjectIdentifier, .invalidInput,
   .encodingError]

def readingKinds : List ErrorKind :=
  [.decodingError, .unsupportedValue, .invalidInput, .extensionMismatch]

/-- Whether an error is of a kind that writing may end with. -/
def OfWriting (err : Error) : Prop := err.kind ∈ writingKinds

instance : DecidablePred OfWriting := fun err =>
  inferInstanceAs (Decidable (err.kind ∈ writingKinds))

/-- The errors that reading may end with where the given general names are read. -/
inductive OfReading (names : Wire.GeneralNames) : Error → Prop
  | malformed : OfReading names .decoding
  | unsupported {err : Error} (h : err.kind = .unsupportedValue) : OfReading names err
  | address {octets : Octets} (h : .ipAddress octets ∈ names)
      (hlength : octets.length ≠ 4 ∧ octets.length ≠ 16) :
      OfReading names (.invalidIpLength octets.length)

end Error

open Error

/-! ## Writing -/

theorem Message.failsAs_write (e : Element) : FailsAs OfWriting (Message.write e) :=
  .ifNone (by decide) _

theorem Identifier.failsAs_toOid (x : Identifier) : FailsAs OfWriting x.toOid :=
  .ifNone (by decide) _

theorem NameEntry.failsAs_toWire (e : NameEntry) : FailsAs OfWriting e.toWire :=
  .ite_error (by simp [OfWriting, writingKinds, kind]) _

namespace DirectoryName

theorem failsAs_toWire (name : DirectoryName) : FailsAs OfWriting name.toWire :=
  .mapM fun e _ => e.failsAs_toWire.bind_pure _

theorem failsAs_toRdn (name : DirectoryName) : FailsAs OfWriting name.toRdn :=
  .bind (.mapM fun e _ => e.failsAs_toWire) fun _ _ => .ifNone (by decide) _

end DirectoryName

theorem GeneralName.failsAs_ia5 (text : String) : FailsAs OfWriting (ia5 text) :=
  .ite_error (by simp [OfWriting, writingKinds, kind]) _

theorem GeneralName.failsAs_toWire (name : GeneralName) : FailsAs OfWriting name.toWire := by
  cases name with
  | undefined => exact .error (by decide)
  | otherName oid data => exact .bind_pure (.ifNone (by simp [OfWriting, writingKinds, kind]) _) _
  | rfc822Name text | dnsName text | uri text => exact (failsAs_ia5 text).bind_pure _
  | directoryName name => exact name.failsAs_toWire.bind_pure _
  | ipAddress address => exact .ok _
  | registeredId oid => exact oid.failsAs_toOid.bind_pure _

theorem GeneralNames.failsAs_toWire (names : GeneralNames) :
    FailsAs OfWriting (GeneralNames.toWire names) :=
  .mapM fun name _ => name.failsAs_toWire

theorem PolicyQualifier.failsAs_toWire (q : PolicyQualifier) : FailsAs OfWriting q.toWire := by
  cases q with
  | undefined => exact .error (by decide)
  | cpsUri uri => exact .ite_error (by simp [OfWriting, writingKinds, kind]) _
  | userNotice notice => exact .ok _

theorem PolicyInformation.failsAs_toWire (p : PolicyInformation) : FailsAs OfWriting p.toWire :=
  .bind (.mapM fun q _ => q.failsAs_toWire) fun _ _ => p.identifier.failsAs_toOid.bind_pure _

theorem AccessDescription.failsAs_toWire (d : AccessDescription) : FailsAs OfWriting d.toWire :=
  d.method.failsAs_toOid.bind fun _ _ => d.location.failsAs_toWire.bind_pure _

theorem PointName.failsAs_toWire (name : PointName) : FailsAs OfWriting name.toWire := by
  cases name with
  | undefined => exact .error (by decide)
  | full names => exact (GeneralNames.failsAs_toWire names).bind_pure _
  | relative name => exact name.failsAs_toRdn.bind_pure _

theorem DistributionPoint.failsAs_toWire (p : DistributionPoint) :
    FailsAs OfWriting p.toWire := by
  refine .optional_bind p.name.failsAs_toWire fun _ => ?_
  exact .optional_bind (GeneralNames.failsAs_toWire p.crlIssuer) fun _ => .ok _

theorem AuthorityKeyIdentifier.failsAs_toWire (a : AuthorityKeyIdentifier) :
    FailsAs OfWriting a.toWire := by
  refine .optional_bind (GeneralNames.failsAs_toWire a.issuer) fun _ => ?_
  exact .bind_pure (.option_mapM fun _ _ => .ifNone (by decide) _) _

theorem BasicConstraints.failsAs_toElement (c : BasicConstraints) :
    FailsAs OfWriting c.toElement :=
  .bind_pure (.option_mapM fun _ _ => .ite_error (by simp [OfWriting, writingKinds, kind]) _) _

namespace ExtensionValue

theorem failsAs_toElement (value : ExtensionValue) : FailsAs OfWriting value.toElement := by
  cases value with
  | basicConstraints constraints => exact constraints.failsAs_toElement
  | keyUsage | subjectKeyIdentifier | deltaCrlIndicator | crlNumber => exact .ok _
  | extendedKeyUsage purposes =>
      exact .bind_pure (.mapM fun purpose _ => purpose.failsAs_toOid) _
  | authorityKeyIdentifier key => exact key.failsAs_toWire.bind_pure _
  | subjectAlternativeName names | issuerAlternativeName names =>
      exact (GeneralNames.failsAs_toWire names).bind_pure _
  | crlDistributionPoints points => exact .bind_pure (.mapM fun p _ => p.failsAs_toWire) _
  | certificatePolicies policies => exact .bind_pure (.mapM fun p _ => p.failsAs_toWire) _
  | authorityInformationAccess descriptions =>
      exact .bind_pure (.mapM fun d _ => d.failsAs_toWire) _

theorem failsAs_encode (value : ExtensionValue) : FailsAs OfWriting value.encode :=
  value.failsAs_toElement.bind fun _ _ => Message.failsAs_write _

end ExtensionValue

theorem TypedExtension.failsAs_toRecord (e : TypedExtension) : FailsAs OfWriting e.toRecord :=
  e.value.failsAs_encode.bind_pure _

theorem RawExtension.failsAs_toRecord (e : RawExtension) : FailsAs OfWriting e.toRecord :=
  e.id.failsAs_toOid.bind fun _ _ => .ite_error (by decide) _

theorem Extension.failsAs_toRecord (e : Extension) : FailsAs OfWriting e.toRecord := by
  cases e with
  | typed e => exact e.failsAs_toRecord
  | unknown e => exact e.failsAs_toRecord

/-! ## General names in what is read -/

/-- The general names in the name of a distribution point. -/
def Wire.PointName.names : Wire.PointName → Wire.GeneralNames
  | full names => names
  | relative _ => []

/-- The general names in a distribution point. -/
def Wire.DistributionPoint.names (p : Wire.DistributionPoint) : Wire.GeneralNames :=
  (p.name.map PointName.names).getD [] ++ p.crlIssuer.getD []

/-- The general names in a value of a kind that the octets hold; none if they hold no such value. -/
def ExtensionKind.names (kind : ExtensionKind) (octets : Octets) : Wire.GeneralNames :=
  match kind with
  | .authorityKeyIdentifier =>
    ((decode? Wire.AuthorityKeyIdentifier.ofElement? octets).bind (·.issuer)).getD []
  | .subjectAlternativeName | .issuerAlternativeName =>
    (decode? Wire.GeneralNames.ofElement? octets).getD []
  | .crlDistributionPoints =>
    ((decode? (Element.sequenceOf? Wire.DistributionPoint.ofElement?) octets).getD []).flatMap
      Wire.DistributionPoint.names
  | .authorityInformationAccess =>
    ((decode? (Element.sequenceOf? Wire.AccessDescription.ofElement?) octets).getD []).map
      (·.location)
  | _ => []

/-- The general names in the value of a record of a known kind. -/
def Wire.Extension.names (r : Wire.Extension) : Wire.GeneralNames :=
  ((ExtensionKind.ofOid? r.id).map (·.names r.value)).getD []

/-! ## Reading -/

section

variable (reg : Registry) {names : Wire.GeneralNames}

theorem Message.failsAs_read {α : Type} (ofElement? : Element → Option α) (octets : Octets) :
    FailsAs (OfReading names) (Message.read ofElement? octets) :=
  .ifNone .malformed _

theorem DirectoryText.failsAs_decode (e : Element) :
    FailsAs (OfReading names) (DirectoryText.decode e) := by
  unfold decode
  split
  any_goals exact .ifNone .malformed _
  exact .error (.unsupported rfl)

theorem NameEntry.failsAs_ofAttributes (attributes : List Wire.Attribute) :
    FailsAs (OfReading names) (ofAttributes attributes) :=
  .mapM fun _ _ => (DirectoryText.failsAs_decode _).bind_pure _

namespace DirectoryName

theorem failsAs_ofWire (w : Wire.Name) : FailsAs (OfReading names) (ofWire w) := by
  rw [ofWire_eq]
  exact (NameEntry.failsAs_ofAttributes _).bind_pure _

theorem failsAs_ofRdn (rdn : Wire.Rdn) : FailsAs (OfReading names) (ofRdn rdn) := by
  rw [ofRdn_eq]
  exact (NameEntry.failsAs_ofAttributes _).bind_pure _

end DirectoryName

theorem IpAddress.failsAs_ofOctets {octets : Octets} (h : .ipAddress octets ∈ names) :
    FailsAs (OfReading names) (ofOctets octets) := by
  intro err herr
  obtain ⟨hnone, rfl⟩ := ifNone_eq_error_iff.mp herr
  exact .address h (length_ne_of_ofOctets?_eq_none hnone)

theorem GeneralName.failsAs_ofWire {w : Wire.GeneralName} (h : w ∈ names) :
    FailsAs (OfReading names) (ofWire reg w) := by
  cases w with
  | otherName | rfc822Name | dnsName | uri | registeredId => exact .ok _
  | directoryName name => exact (DirectoryName.failsAs_ofWire name).bind_pure _
  | ediPartyName => exact .error (.unsupported rfl)
  | ipAddress octets => exact (IpAddress.failsAs_ofOctets h).bind_pure _

theorem GeneralNames.failsAs_ofWire {ws : Wire.GeneralNames} (h : ws ⊆ names) :
    FailsAs (OfReading names) (GeneralNames.ofWire reg ws) :=
  .mapM fun _ hw => GeneralName.failsAs_ofWire reg (h hw)

theorem GeneralNames.failsAs_optional {field : Option Wire.GeneralNames}
    (h : field.getD [] ⊆ names) :
    FailsAs (OfReading names) (field.mapM (GeneralNames.ofWire reg)) := by
  refine .option_mapM fun ws hmem => ?_
  rw [Option.mem_def.mp hmem] at h
  exact failsAs_ofWire reg h

namespace UserNotice

theorem failsAs_ofWire (w : Wire.UserNotice) : FailsAs (OfReading names) (ofWire w) :=
  .bind (.option_mapM fun _ _ => (DirectoryText.failsAs_decode _).bind_pure _) fun _ _ =>
    .bind_pure (.option_mapM fun _ _ => DirectoryText.failsAs_decode _) _

theorem failsAs_ofQualifierValue (value : Option Element) :
    FailsAs (OfReading names) (ofQualifierValue value) := by
  cases value with
  | none => exact .ok _
  | some value => exact .bind (.ifNone .malformed _) fun w _ => failsAs_ofWire w

end UserNotice

namespace PolicyQualifier

theorem failsAs_ofWire (w : Wire.PolicyQualifier) : FailsAs (OfReading names) (ofWire w) := by
  unfold ofWire
  split
  · split
    · exact .ok _
    · exact (DirectoryText.failsAs_decode _).bind_pure _
  · split
    · exact (UserNotice.failsAs_ofQualifierValue _).bind_pure _
    · exact .error (.unsupported rfl)

theorem failsAs_ofWire? (w : Option Wire.PolicyQualifier) :
    FailsAs (OfReading names) (ofWire? w) := by
  cases w with
  | none => exact .ok _
  | some w => exact failsAs_ofWire w

end PolicyQualifier

theorem PolicyInformation.failsAs_ofWire (w : Wire.PolicyInformation) :
    FailsAs (OfReading names) (ofWire reg w) :=
  .bind_pure (.mapM fun q _ => PolicyQualifier.failsAs_ofWire q) _

theorem AccessDescription.failsAs_ofWire {w : Wire.AccessDescription} (h : w.location ∈ names) :
    FailsAs (OfReading names) (ofWire reg w) :=
  (GeneralName.failsAs_ofWire reg h).bind_pure _

theorem PointName.failsAs_ofWire {w : Wire.PointName} (h : w.names ⊆ names) :
    FailsAs (OfReading names) (ofWire reg w) := by
  cases w with
  | full ws => exact (GeneralNames.failsAs_ofWire reg h).bind_pure _
  | relative rdn => exact (DirectoryName.failsAs_ofRdn rdn).bind_pure _

theorem DistributionPoint.failsAs_ofWire {w : Wire.DistributionPoint} (h : w.names ⊆ names) :
    FailsAs (OfReading names) (ofWire reg w) := by
  obtain ⟨hname, hissuer⟩ := List.append_subset.mp h
  refine .bind (.option_mapM fun name hmem => ?_) fun _ _ => ?_
  · rw [Option.mem_def.mp hmem] at hname
    exact PointName.failsAs_ofWire reg hname
  · exact (GeneralNames.failsAs_optional reg hissuer).bind_pure _

theorem AuthorityKeyIdentifier.failsAs_ofWire {w : Wire.AuthorityKeyIdentifier}
    (h : w.issuer.getD [] ⊆ names) : FailsAs (OfReading names) (ofWire reg w) :=
  (GeneralNames.failsAs_optional reg h).bind_pure _

theorem CrlNumber.failsAs_ofNat (n : Nat) : FailsAs (OfReading names) (CrlNumber.ofNat n) :=
  .ite_error (.unsupported rfl) _

theorem ExtensionValue.failsAs_decode (kind : ExtensionKind) (octets : Octets) :
    FailsAs (OfReading (kind.names octets)) (decode reg kind octets) := by
  cases kind with
  | basicConstraints | keyUsage | extendedKeyUsage | subjectKeyIdentifier =>
      exact (Message.failsAs_read _ octets).bind_pure _
  | authorityKeyIdentifier =>
      refine (Message.failsAs_read _ octets).bind fun key hkey => .bind_pure ?_ _
      apply AuthorityKeyIdentifier.failsAs_ofWire
      simp [ExtensionKind.names, ifNone_eq_ok_iff.mp hkey]
  | subjectAlternativeName | issuerAlternativeName =>
      refine (Message.failsAs_read _ octets).bind fun ws hws => .bind_pure ?_ _
      apply GeneralNames.failsAs_ofWire
      simp [ExtensionKind.names, ifNone_eq_ok_iff.mp hws]
  | crlDistributionPoints =>
      refine (Message.failsAs_read _ octets).bind fun ws hws => .bind_pure (.mapM fun w hw => ?_) _
      apply DistributionPoint.failsAs_ofWire
      rw [ExtensionKind.names, ifNone_eq_ok_iff.mp hws]
      exact fun name hname => List.mem_flatMap.mpr ⟨w, hw, hname⟩
  | certificatePolicies =>
      exact (Message.failsAs_read _ octets).bind fun ws _ =>
        .bind_pure (.mapM fun w _ => PolicyInformation.failsAs_ofWire reg w) _
  | deltaCrlIndicator | crlNumber =>
      exact (Message.failsAs_read _ octets).bind fun n _ => (CrlNumber.failsAs_ofNat n).bind_pure _
  | authorityInformationAccess =>
      refine (Message.failsAs_read _ octets).bind fun ws hws => .bind_pure (.mapM fun w hw => ?_) _
      apply AccessDescription.failsAs_ofWire
      rw [ExtensionKind.names, ifNone_eq_ok_iff.mp hws]
      exact List.mem_map.mpr ⟨w, hw, rfl⟩

theorem TypedExtension.failsAs_ofRecord {kind : ExtensionKind} {r : Wire.Extension}
    (h : r.id = kind.oid) :
    FailsAs (OfReading (kind.names r.value)) (ofRecord reg kind r) := by
  rw [ofRecord, if_pos h]
  exact (ExtensionValue.failsAs_decode reg kind r.value).bind_pure _

theorem Extension.failsAs_ofRecord (r : Wire.Extension) :
    FailsAs (OfReading r.names) (ofRecord reg r) := by
  rw [ofRecord, Wire.Extension.names]
  cases hkind : ExtensionKind.ofOid? r.id with
  | none => exact .ok _
  | some kind =>
      have hid := ExtensionKind.ofOid?_eq_some_iff.mp hkind
      exact (TypedExtension.failsAs_ofRecord reg hid).bind_pure _

end

/-! ## Both directions -/

/-- Something that is to be written. -/
inductive Writing where
  | generalName (name : GeneralName)
  | generalNames (names : GeneralNames)
  | directoryName (name : DirectoryName)
  | relativeName (name : DirectoryName)
  | userNotice (notice : UserNotice)
  | policyQualifier (qualifier : PolicyQualifier)
  | policyInformation (policy : PolicyInformation)
  | accessDescription (description : AccessDescription)
  | pointName (name : PointName)
  | distributionPoint (point : DistributionPoint)
  | extensionValue (value : ExtensionValue)
  | typedExtension (e : TypedExtension)
  | rawExtension (e : RawExtension)
  | extension (e : Extension)

namespace Writing

/-- Whether writing something ends with an error. -/
def FailsWith (err : Error) : Writing → Prop
  | generalName name => name.toWire = .error err
  | generalNames names => GeneralNames.toWire names = .error err
  | directoryName name => name.toWire = .error err
  | relativeName name => name.toRdn = .error err
  | userNotice notice => Message.write notice.toWire.toElement = .error err
  | policyQualifier qualifier => qualifier.toWire = .error err
  | policyInformation policy => policy.toWire = .error err
  | accessDescription description => description.toWire = .error err
  | pointName name => name.toWire = .error err
  | distributionPoint point => point.toWire = .error err
  | extensionValue value => value.encode = .error err
  | typedExtension e => e.toRecord = .error err
  | rawExtension e => e.toRecord = .error err
  | extension e => e.toRecord = .error err

theorem ofWriting_of_failsWith {w : Writing} {err : Error} (h : w.FailsWith err) :
    err.OfWriting := by
  cases w with
  | generalName name => exact name.failsAs_toWire err h
  | generalNames names => exact GeneralNames.failsAs_toWire names err h
  | directoryName name => exact name.failsAs_toWire err h
  | relativeName name => exact name.failsAs_toRdn err h
  | userNotice notice => exact Message.failsAs_write _ err h
  | policyQualifier qualifier => exact qualifier.failsAs_toWire err h
  | policyInformation policy => exact policy.failsAs_toWire err h
  | accessDescription description => exact description.failsAs_toWire err h
  | pointName name => exact name.failsAs_toWire err h
  | distributionPoint point => exact point.failsAs_toWire err h
  | extensionValue value => exact value.failsAs_encode err h
  | typedExtension e => exact e.failsAs_toRecord err h
  | rawExtension e => exact e.failsAs_toRecord err h
  | extension e => exact e.failsAs_toRecord err h

theorem exists_failsWith {k : ErrorKind} (hk : k ∈ writingKinds) :
    ∃ (w : Writing) (err : Error), w.FailsWith err ∧ err.kind = k := by
  have hundefined : (generalName .undefined).FailsWith .undefinedGeneralName := rfl
  have hidentifier : (generalName (.registeredId .undefined)).FailsWith .undefinedIdentifier := rfl
  have hdotted : (generalName (.otherName "name" "")).FailsWith (.unknownIdentifier "name") := by
    unfold FailsWith
    decide +kernel
  have htext : (generalName (.dnsName "é")).FailsWith (.invalidGeneralName "é") := by
    unfold FailsWith
    decide +kernel
  -- One octet more than the number of a certificate may have.
  have hlong : (extensionValue (.authorityKeyIdentifier
      ⟨none, [], some (List.replicate 21 1)⟩)).FailsWith .encoding := by
    unfold FailsWith
    decide +kernel
  simp only [writingKinds, List.mem_cons, List.not_mem_nil, or_false] at hk
  rcases hk with rfl | rfl | rfl | rfl | rfl
  · exact ⟨_, _, hundefined, rfl⟩
  · exact ⟨_, _, hidentifier, rfl⟩
  · exact ⟨_, _, hdotted, rfl⟩
  · exact ⟨_, _, htext, rfl⟩
  · exact ⟨_, _, hlong, rfl⟩

end Writing

/-- Something that is to be read. -/
inductive Reading where
  | generalName (w : Wire.GeneralName)
  | generalNames (ws : Wire.GeneralNames)
  | directoryName (w : Wire.Name)
  | relativeName (rdn : Wire.Rdn)
  | userNotice (value : Option Element)
  | policyQualifier (w : Option Wire.PolicyQualifier)
  | policyInformation (w : Wire.PolicyInformation)
  | accessDescription (w : Wire.AccessDescription)
  | pointName (w : Wire.PointName)
  | distributionPoint (w : Wire.DistributionPoint)
  | extensionValue (kind : ExtensionKind) (octets : Octets)
  | typedExtension (kind : ExtensionKind) (r : Wire.Extension)
  | extension (r : Wire.Extension)

namespace Reading

/-- Whether reading something ends with an error. -/
def FailsWith (reg : Registry) (err : Error) : Reading → Prop
  | generalName w => GeneralName.ofWire reg w = .error err
  | generalNames ws => GeneralNames.ofWire reg ws = .error err
  | directoryName w => DirectoryName.ofWire w = .error err
  | relativeName rdn => DirectoryName.ofRdn rdn = .error err
  | userNotice value => UserNotice.ofQualifierValue value = .error err
  | policyQualifier w => PolicyQualifier.ofWire? w = .error err
  | policyInformation w => PolicyInformation.ofWire reg w = .error err
  | accessDescription w => AccessDescription.ofWire reg w = .error err
  | pointName w => PointName.ofWire reg w = .error err
  | distributionPoint w => DistributionPoint.ofWire reg w = .error err
  | extensionValue kind octets => ExtensionValue.decode reg kind octets = .error err
  | typedExtension kind r => TypedExtension.ofRecord reg kind r = .error err
  | extension r => Extension.ofRecord reg r = .error err

/-- The general names in what is read. -/
def names : Reading → Wire.GeneralNames
  | generalName w => [w]
  | generalNames ws => ws
  | directoryName _ | relativeName _ | userNotice _ | policyQualifier _ | policyInformation _ => []
  | accessDescription w => [w.location]
  | pointName w => w.names
  | distributionPoint w => w.names
  | extensionValue kind octets => kind.names octets
  | typedExtension kind r => kind.names r.value
  | extension r => r.names

/-- Whether a record is read by the decoder of a kind whose identifier it does not carry. -/
def IsMismatch (x : Reading) : Prop := ∃ kind r, x = typedExtension kind r ∧ r.id ≠ kind.oid

variable {reg : Registry} {x : Reading} {err : Error}

theorem kind_of_isMismatch (h : x.FailsWith reg err) (hx : x.IsMismatch) :
    err.kind = .extensionMismatch := by
  obtain ⟨kind, r, rfl, hid⟩ := hx
  rw [FailsWith, TypedExtension.ofRecord, if_neg hid] at h
  rw [← Except.error.inj h]
  rfl

theorem ofReading_of_failsWith (h : x.FailsWith reg err) (hx : ¬x.IsMismatch) :
    err.OfReading x.names := by
  cases x with
  | generalName w => exact GeneralName.failsAs_ofWire reg (by simp [names]) err h
  | generalNames ws => exact GeneralNames.failsAs_ofWire reg (List.Subset.refl _) err h
  | directoryName w => exact DirectoryName.failsAs_ofWire w err h
  | relativeName rdn => exact DirectoryName.failsAs_ofRdn rdn err h
  | userNotice value => exact UserNotice.failsAs_ofQualifierValue value err h
  | policyQualifier w => exact PolicyQualifier.failsAs_ofWire? w err h
  | policyInformation w => exact PolicyInformation.failsAs_ofWire reg w err h
  | accessDescription w => exact AccessDescription.failsAs_ofWire reg (by simp [names]) err h
  | pointName w => exact PointName.failsAs_ofWire reg (List.Subset.refl _) err h
  | distributionPoint w => exact DistributionPoint.failsAs_ofWire reg (List.Subset.refl _) err h
  | extensionValue kind octets => exact ExtensionValue.failsAs_decode reg kind octets err h
  | typedExtension kind r =>
      have hid : r.id = kind.oid := Decidable.not_not.mp fun hne => hx ⟨kind, r, rfl, hne⟩
      exact TypedExtension.failsAs_ofRecord reg hid err h
  | extension r => exact Extension.failsAs_ofRecord reg r err h

theorem exists_failsWith (reg : Registry) {k : ErrorKind} (hk : k ∈ readingKinds) :
    ∃ (x : Reading) (err : Error), x.FailsWith reg err ∧ err.kind = k := by
  have hempty : (extensionValue .keyUsage []).FailsWith reg .decoding := rfl
  have hparty : (generalName (.ediPartyName none ⟨.utf8, ""⟩)).FailsWith reg
      .unsupportedEdiPartyName := rfl
  have haddress : (generalName (.ipAddress [])).FailsWith reg (.invalidIpLength 0) := rfl
  have hmismatch : (typedExtension .keyUsage ⟨Oid.basicConstraints, false, []⟩).FailsWith reg
      (.extensionMismatch Oid.keyUsage Oid.basicConstraints) := rfl
  simp only [readingKinds, List.mem_cons, List.not_mem_nil, or_false] at hk
  rcases hk with rfl | rfl | rfl | rfl
  · exact ⟨_, _, hempty, rfl⟩
  · exact ⟨_, _, hparty, rfl⟩
  · exact ⟨_, _, haddress, rfl⟩
  · exact ⟨_, _, hmismatch, rfl⟩

end Reading

/-- An error tells whether something was written or read, except for invalid input. Reading ends
with that only for an address of a wrong length, and with a mismatch exactly if a record was read as
of a kind whose identifier it does not carry. Each kind of error does occur. -/
theorem Error.kind_of_failsWith :
    (∀ (w : Writing) (err : Error), w.FailsWith err → err.kind ∈ writingKinds) ∧
    (∀ k ∈ writingKinds, ∃ (w : Writing) (err : Error), w.FailsWith err ∧ err.kind = k) ∧
    ∀ reg : Registry,
      (∀ (x : Reading) (err : Error), x.FailsWith reg err →
        err.kind ∈ readingKinds ∧
        (err.kind = .invalidInput → ∃ octets, .ipAddress octets ∈ x.names ∧
          octets.length ≠ 4 ∧ octets.length ≠ 16 ∧ err = .invalidIpLength octets.length) ∧
        (err.kind = .extensionMismatch ↔
          ∃ kind r, x = .typedExtension kind r ∧ r.id ≠ kind.oid)) ∧
      ∀ k ∈ readingKinds, ∃ (x : Reading) (err : Error), x.FailsWith reg err ∧ err.kind = k := by
  refine ⟨fun w err h => Writing.ofWriting_of_failsWith h, fun k => Writing.exists_failsWith,
    fun reg => ⟨fun x err h => ?_, fun k => Reading.exists_failsWith reg⟩⟩
  by_cases hx : x.IsMismatch
  · have hkind := Reading.kind_of_isMismatch h hx
    exact ⟨by simp [hkind, readingKinds], by simp [hkind], fun _ => hx, fun _ => hkind⟩
  · cases Reading.ofReading_of_failsWith h hx with
    | malformed => exact ⟨by decide, nofun, nofun, fun hmismatch => absurd hmismatch hx⟩
    | unsupported hkind =>
        rw [hkind]
        exact ⟨by decide, nofun, nofun, fun hmismatch => absurd hmismatch hx⟩
    | address hmem hlength =>
        exact ⟨by simp [kind, readingKinds], fun _ => ⟨_, hmem, hlength.1, hlength.2, rfl⟩, nofun,
          fun hmismatch => absurd hmismatch hx⟩

/-- A distribution point that is named by an address of three octets: the record is invalid as what
it is, and mistaken for another kind it is a mismatch. -/
theorem Error.kind_of_failsWith_shortAddress :
    let r : Wire.Extension := ⟨Oid.crlDistributionPoints, false,
      [0x30, 0x0b, 0x30, 0x09, 0xa0, 0x07, 0xa0, 0x05, 0x87, 0x03, 0x0a, 0x00, 0x01]⟩
    (Reading.extension r).FailsWith Registry.builtin (.invalidIpLength 3) ∧
    (∃ octets, .ipAddress octets ∈ (Reading.extension r).names ∧ octets.length ≠ 4 ∧
      octets.length ≠ 16 ∧ Error.invalidIpLength 3 = .invalidIpLength octets.length) ∧
    ∀ err, (Reading.typedExtension .keyUsage r).FailsWith Registry.builtin err →
      err.kind = .extensionMismatch := by
  intro r
  obtain ⟨-, -, hregistry⟩ := kind_of_failsWith
  obtain ⟨hreading, -⟩ := hregistry Registry.builtin
  have hfails : (Reading.extension r).FailsWith Registry.builtin (.invalidIpLength 3) := by
    rw [Reading.FailsWith]
    decide +kernel
  refine ⟨hfails, (hreading _ _ hfails).2.1 rfl, fun err h => ?_⟩
  exact (hreading _ _ h).2.2.mpr ⟨.keyUsage, r, rfl, by decide⟩

end Pkix
