import Pkix.Wire.Certificate

/-!
# Revocation lists on the wire

A revocation list is a signed list of serial numbers. Like a certificate it tells parts that are
empty from parts that are not there.
-/

namespace Pkix.Wire

open Der

structure RevokedCertificate where
  serial : SerialNumber
  date : Time
  extensions : Option (List Extension)
  deriving DecidableEq

namespace RevokedCertificate

def toElement (r : RevokedCertificate) : Element :=
  .sequence
    ([SerialNumber.toElement r.serial, r.date.toElement] ++
      (r.extensions.map (Element.sequenceOf Extension.toElement)).toList)

def ofElement? (e : Element) : Option RevokedCertificate := do
  match ← e.sequence? with
  | [serial, date] => return ⟨← SerialNumber.ofElement? serial, ← Time.ofElement? date, none⟩
  | [serial, date, extensions] =>
    return ⟨← SerialNumber.ofElement? serial, ← Time.ofElement? date,
      some (← extensions.sequenceOf? Extension.ofElement?)⟩
  | _ => none

end RevokedCertificate

/-- The part of a revocation list that is signed. -/
structure TbsCertList where
  version : Version
  signature : Algorithm
  issuer : Name
  thisUpdate : Time
  nextUpdate : Option Time
  revoked : Option (List RevokedCertificate)
  extensions : Option (List Extension)
  deriving DecidableEq

namespace TbsCertList

def toElement (t : TbsCertList) : Element :=
  .sequence
    ([t.version.toElement, t.signature.toElement, Name.toElement t.issuer,
        t.thisUpdate.toElement] ++
      (t.nextUpdate.map Time.toElement).toList ++
      (t.revoked.map (Element.sequenceOf RevokedCertificate.toElement)).toList ++
      (t.extensions.map fun records =>
        Element.explicit 0 (.sequenceOf Extension.toElement records)).toList)

def ofElement? (e : Element) : Option TbsCertList := do
  match ← e.sequence? with
  | version :: signature :: issuer :: thisUpdate :: fields =>
    let (nextUpdate, fields) :=
      Element.takeTagged [.universal .utcTime, .universal .generalizedTime] fields
    let (revoked, fields) := Element.takeTagged [.universal .sequence] fields
    let (extensions, fields) := Element.takeContext 0 fields
    if fields.isEmpty then
      return {
        version := ← Version.ofElement? version
        signature := ← Algorithm.ofElement? signature
        issuer := ← Name.ofElement? issuer
        thisUpdate := ← Time.ofElement? thisUpdate
        nextUpdate := ← nextUpdate.mapM Time.ofElement?
        revoked := ← revoked.mapM (Element.sequenceOf? RevokedCertificate.ofElement?)
        extensions := ← extensions.mapM fun e => do
          (← e.explicit? 0).sequenceOf? Extension.ofElement? }
    else none
  | _ => none

end TbsCertList

structure RevocationList where
  tbs : TbsCertList
  algorithm : Algorithm
  signature : BitString
  deriving DecidableEq

namespace RevocationList

def toElement (l : RevocationList) : Element :=
  .sequence [l.tbs.toElement, l.algorithm.toElement, .bitString l.signature]

def ofElement? (e : Element) : Option RevocationList := do
  match ← e.sequence? with
  | [tbs, algorithm, signature] =>
    return ⟨← TbsCertList.ofElement? tbs, ← Algorithm.ofElement? algorithm,
      ← signature.bitString?⟩
  | _ => none

end RevocationList

end Pkix.Wire
