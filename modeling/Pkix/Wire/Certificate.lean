import Pkix.Der.Time
import Pkix.Wire.Extension
import Pkix.Wire.Name
import Pkix.Wire.PublicKeyInfo
import Pkix.Wire.SerialNumber

/-!
# Certificates on the wire

A certificate is a signed statement. Optional parts that are there and empty are told apart from
parts that are not there, so that a certificate is written with the parts it was read with.
-/

namespace Pkix.Wire

open Der

inductive Version where
  | v1
  | v2
  | v3
  deriving DecidableEq

namespace Version

/-- The number that stands for a version. -/
def number : Version → Nat
  | v1 => 0
  | v2 => 1
  | v3 => 2

def toElement (v : Version) : Element :=
  .integer v.number

def ofElement? (e : Element) : Option Version := do
  let n ← e.natural?
  [v1, v2, v3].find? (·.number = n)

end Version

/-- The part of a certificate that is signed. -/
structure TbsCertificate where
  version : Version
  serial : SerialNumber
  signature : Algorithm
  issuer : Name
  notBefore : Time
  notAfter : Time
  subject : Name
  publicKey : PublicKeyInfo
  issuerUniqueId : Option BitString
  subjectUniqueId : Option BitString
  extensions : Option (List Extension)
  deriving DecidableEq

namespace TbsCertificate

def optionalElements (t : TbsCertificate) : List Element :=
  (t.issuerUniqueId.map fun s => Element.implicit 1 (.bitString s)).toList ++
    (t.subjectUniqueId.map fun s => Element.implicit 2 (.bitString s)).toList ++
    (t.extensions.map fun records =>
      Element.explicit 3 (.sequenceOf Extension.toElement records)).toList

/-- The element of the signed part. The first version is left out. -/
def toElement (t : TbsCertificate) : Element :=
  .sequence
    ((if t.version = .v1 then [] else [.explicit 0 t.version.toElement]) ++
      [SerialNumber.toElement t.serial, t.signature.toElement, Name.toElement t.issuer,
        .sequence [t.notBefore.toElement, t.notAfter.toElement], Name.toElement t.subject,
        t.publicKey.toElement] ++
      t.optionalElements)

/-- The two ends of a validity period. -/
def validity? (e : Element) : Option (Time × Time) := do
  match ← e.sequence? with
  | [notBefore, notAfter] => return (← Time.ofElement? notBefore, ← Time.ofElement? notAfter)
  | _ => none

def ofElement? (e : Element) : Option TbsCertificate := do
  let (version, fields) := Element.takeContext 0 (← e.sequence?)
  let version ← version.mapM fun e => do Version.ofElement? (← e.explicit? 0)
  match fields with
  | serial :: signature :: issuer :: validity :: subject :: publicKey :: fields =>
    let (issuerUniqueId, fields) := Element.takeContext 1 fields
    let (subjectUniqueId, fields) := Element.takeContext 2 fields
    let (extensions, fields) := Element.takeContext 3 fields
    if fields.isEmpty then
      let (notBefore, notAfter) ← validity? validity
      let uniqueId (n : TagNumber) (e : Element) := do (← e.implicit? n .bitString).bitString?
      return {
        version := version.getD .v1
        serial := ← SerialNumber.ofElement? serial
        signature := ← Algorithm.ofElement? signature
        issuer := ← Name.ofElement? issuer
        notBefore, notAfter
        subject := ← Name.ofElement? subject
        publicKey := ← PublicKeyInfo.ofElement? publicKey
        issuerUniqueId := ← issuerUniqueId.mapM (uniqueId 1)
        subjectUniqueId := ← subjectUniqueId.mapM (uniqueId 2)
        extensions := ← extensions.mapM fun e => do
          (← e.explicit? 3).sequenceOf? Extension.ofElement? }
    else none
  | _ => none

end TbsCertificate

structure Certificate where
  tbs : TbsCertificate
  algorithm : Algorithm
  signature : BitString
  deriving DecidableEq

namespace Certificate

def toElement (c : Certificate) : Element :=
  .sequence [c.tbs.toElement, c.algorithm.toElement, .bitString c.signature]

def ofElement? (e : Element) : Option Certificate := do
  match ← e.sequence? with
  | [tbs, algorithm, signature] =>
    return ⟨← TbsCertificate.ofElement? tbs, ← Algorithm.ofElement? algorithm,
      ← signature.bitString?⟩
  | _ => none

end Certificate

end Pkix.Wire
