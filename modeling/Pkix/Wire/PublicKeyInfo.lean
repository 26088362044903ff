import Pkix.Der.BitString
import Pkix.Oid.Basic

/-!
# Algorithms and public keys on the wire
-/

namespace Pkix.Wire

open Der

/-- An algorithm with parameters of any type. -/
structure Algorithm where
  id : Oid
  parameters : Option Element
  deriving DecidableEq

namespace Algorithm

def toElement (a : Algorithm) : Element :=
  .sequence (a.id.toElement :: a.parameters.toList)

def ofElement? (e : Element) : Option Algorithm := do
  match ← e.sequence? with
  | [id] => return ⟨← Oid.ofElement? id, none⟩
  | [id, parameters] => return ⟨← Oid.ofElement? id, some parameters⟩
  | _ => none

end Algorithm

structure PublicKeyInfo where
  algorithm : Algorithm
  key : BitString
  deriving DecidableEq

namespace PublicKeyInfo

def toElement (k : PublicKeyInfo) : Element :=
  .sequence [k.algorithm.toElement, .bitString k.key]

def ofElement? (e : Element) : Option PublicKeyInfo := do
  match ← e.sequence? with
  | [algorithm, key] => return ⟨← Algorithm.ofElement? algorithm, ← key.bitString?⟩
  | _ => none

end PublicKeyInfo

end Pkix.Wire
