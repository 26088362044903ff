import Pkix.Certificate
import Pkix.Proofs.Pem
import Pkix.Proofs.Wire.RevocationList
import Pkix.RevocationList

/-!
# Documents that were read can be written

A certificate or a revocation list that was read, from whatever octets, is written without fail, as
a message and as armour, and comes back from both.
-/

namespace Pkix

open Der

theorem Message.exists_armour_of_read {α : Type} {ofElement? : Element → Option α}
    {toElement : α → Element} (h : Element.Rewrites ofElement? toElement) {label : String}
    (hne : label ≠ "") (hlabel : '-' ∉ label.toList) {octets : Octets} {a : α}
    (hread : read ofElement? octets = .ok a) :
    (∃ octets', write (toElement a) = .ok octets' ∧ read ofElement? octets' = .ok a) ∧
      ∃ text, (do return Pem.encode label (← write (toElement a))) = Except.ok text ∧
        (do read ofElement? (← Pem.decode label text)) = .ok a := by
  obtain ⟨octets', hwrite, -, hagain⟩ := exists_write_of_read h hread
  refine ⟨⟨octets', hwrite, hagain⟩, Pem.encode label octets', ?_, ?_⟩
  · rw [hwrite]
    rfl
  · rw [Pem.decode_encode hne hlabel]
    exact hagain

theorem exists_toDer_toPem_of_ofDer (octets : Octets) :
    (∀ c : Certificate, Certificate.ofDer octets = .ok c →
      (∃ octets', c.toDer = .ok octets' ∧ Certificate.ofDer octets' = .ok c) ∧
        ∃ text, c.toPem = .ok text ∧ Certificate.ofPem text = .ok c) ∧
    ∀ l : RevocationList, RevocationList.ofDer octets = .ok l →
      (∃ octets', l.toDer = .ok octets' ∧ RevocationList.ofDer octets' = .ok l) ∧
        ∃ text, l.toPem = .ok text ∧ RevocationList.ofPem text = .ok l := by
  constructor
  · intro c h
    have hne : Pem.certificateLabel ≠ "" := by decide
    have hlabel : '-' ∉ Pem.certificateLabel.toList := by decide
    exact Message.exists_armour_of_read Wire.Certificate.rewrites hne hlabel h
  · intro l h
    have hne : Pem.crlLabel ≠ "" := by decide
    have hlabel : '-' ∉ Pem.crlLabel.toList := by decide
    exact Message.exists_armour_of_read Wire.RevocationList.rewrites hne hlabel h

namespace Document

def commonName : Oid := ⟨[0x55, 0x04, 0x03]⟩

/-- Midnight before a day of January, given by the last digit of its date. -/
def january (digit : UInt8) : Time :=
  ⟨.utc, [0x32, 0x30, 0x30, 0x31, 0x30, digit, 0x30, 0x30, 0x30, 0x30, 0x30, 0x30, 0x5a]⟩

/-- An extension with a flag that is there but not set. -/
def flaggedRecord : Element :=
  .sequence [commonName.toElement, .boolean false, .octetString []]

/-- A certificate that names its first version, with a field before the extensions that is passed
over. -/
def lenientCertificate : Element :=
  .sequence [
    .sequence [.explicit 0 (.integer 0), .integer 5, .sequence [commonName.toElement],
      .sequence [], .sequence [(january 0x31).toElement, (january 0x32).toElement], .sequence [],
      .sequence [.sequence [commonName.toElement], .bitString ⟨0, [0xff]⟩],
      .implicit 0 (.octetString []), .explicit 3 (.sequence [flaggedRecord])],
    .sequence [commonName.toElement], .bitString ⟨0, [0xff]⟩]

def lenientRevocationList : Element :=
  .sequence [
    .sequence [.integer 1, .sequence [commonName.toElement], .sequence [],
      (january 0x31).toElement,
      .sequence [.sequence [.integer 5, (january 0x31).toElement, .sequence []]],
      .explicit 0 (.sequence [flaggedRecord])],
    .sequence [commonName.toElement], .bitString ⟨0, [0xff]⟩]

/-- What the lenient certificate is read as. -/
def plainCertificate : Certificate where
  tbs :=
    { version := .v1
      serial := [0x05]
      signature := ⟨commonName, none⟩
      issuer := []
      notBefore := january 0x31
      notAfter := january 0x32
      subject := []
      publicKey := ⟨⟨commonName, none⟩, ⟨0, [0xff]⟩⟩
      issuerUniqueId := none
      subjectUniqueId := none
      extensions := some [⟨commonName, false, []⟩] }
  algorithm := ⟨commonName, none⟩
  signature := ⟨0, [0xff]⟩

def plainRevocationList : RevocationList where
  tbs :=
    { version := .v2
      signature := ⟨commonName, none⟩
      issuer := []
      thisUpdate := january 0x31
      nextUpdate := none
      revoked := some [⟨[0x05], january 0x31, some []⟩]
      extensions := some [⟨commonName, false, []⟩] }
  algorithm := ⟨commonName, none⟩
  signature := ⟨0, [0xff]⟩

theorem exists_toDer_toPem_of_ofDer_lenient :
    let octets := lenientCertificate.octets
    let octets' := lenientRevocationList.octets
    (Certificate.ofDer octets = .ok plainCertificate ∧
      plainCertificate.toDer ≠ .ok octets ∧
      (∃ written, plainCertificate.toDer = .ok written ∧
        Certificate.ofDer written = .ok plainCertificate) ∧
      ∃ text, plainCertificate.toPem = .ok text ∧
        Certificate.ofPem text = .ok plainCertificate) ∧
    RevocationList.ofDer octets' = .ok plainRevocationList ∧
      plainRevocationList.toDer ≠ .ok octets' ∧
      (∃ written, plainRevocationList.toDer = .ok written ∧
        RevocationList.ofDer written = .ok plainRevocationList) ∧
      ∃ text, plainRevocationList.toPem = .ok text ∧
        RevocationList.ofPem text = .ok plainRevocationList := by
  intro octets octets'
  have hcertificate : Certificate.ofDer octets = .ok plainCertificate := by decide +kernel
  have hlist : RevocationList.ofDer octets' = .ok plainRevocationList := by decide +kernel
  refine ⟨⟨hcertificate, by decide +kernel, ?_⟩, hlist, by decide +kernel, ?_⟩
  · exact (exists_toDer_toPem_of_ofDer octets).1 plainCertificate hcertificate
  · exact (exists_toDer_toPem_of_ofDer octets').2 plainRevocationList hlist

end Document

end Pkix
