import Pkix.Der.Element

/-!
# Bit strings

A bit string is a series of octets together with the number of bits at its end that do not count.
A set of named bits is written as the bit string that ends with its last bit; it is read from any
bit string of at most sixteen bits, where bits without a name are ignored.
-/

namespace Pkix.Der

/-- A string of bits, the first bit the highest one of the first octet. -/
structure BitString where
  unusedBits : UInt8
  octets : Octets
  deriving DecidableEq

namespace BitString

/-- The content octets of a bit string. -/
def content (s : BitString) : Octets :=
  s.unusedBits :: s.octets

/-- The bit string with the given content. At most seven bits are unused, and an empty string has
none. -/
def ofContent? : Octets → Option BitString
  | [] => none
  | unused :: octets =>
    if unused ≤ 7 ∧ (octets = [] → unused = 0) then some ⟨unused, octets⟩ else none

/-- The eight bits of an octet, highest first. -/
def octetBits (b : UInt8) : List Bool :=
  (List.range 8).map fun i => b.toNat.testBit (7 - i)

/-- The octet whose highest bits are the given ones and whose other bits are zero. -/
def octetOfBits (bits : List Bool) : UInt8 :=
  UInt8.ofNat ((List.range 8).foldl (fun n i => 2 * n + (bits.getD i false).toNat) 0)

def bits (s : BitString) : List Bool :=
  (s.octets.flatMap octetBits).take (8 * s.octets.length - s.unusedBits.toNat)

/-- Octets that hold the given bits, filled up with zeros. -/
def pack (bits : List Bool) : Octets :=
  match bits with
  | [] => []
  | b :: rest => octetOfBits (b :: rest.take 7) :: pack (rest.drop 7)
termination_by bits.length
decreasing_by simp only [List.length_drop, List.length_cons]; omega

/-- The bit string with the given bits. -/
def ofBits (bits : List Bool) : BitString :=
  ⟨UInt8.ofNat ((8 - bits.length % 8) % 8), pack bits⟩

end BitString

/-- A set of up to nine named bits; the bit of name `i` is the one of weight `2 ^ i`. -/
abbrev NamedBits := BitVec 9

namespace NamedBits

/-- Whether the bit of the given name is set. -/
def contains (set : NamedBits) (name : Nat) : Bool :=
  set.getLsbD name

/-- The set with one bit set or cleared. -/
def assign (set : NamedBits) (name : Nat) (present : Bool) : NamedBits :=
  if present then set ||| BitVec.twoPow 9 name else set &&& ~~~BitVec.twoPow 9 name

/-- The bits in the order of their names, up to the last one that is set. -/
def toBits (set : NamedBits) : List Bool :=
  (((List.range 9).map set.getLsbD).reverse.dropWhile (!·)).reverse

/-- The set of the named bits that are set in a list of bits. -/
def ofBits (bits : List Bool) : NamedBits :=
  (List.range 9).foldl (fun set i => if bits.getD i false then set.assign i true else set) 0

end NamedBits

namespace Element

def bitString (s : BitString) : Element :=
  ⟨.universal .bitString, s.content⟩

def bitString? (e : Element) : Option BitString :=
  if e.tag = .universal .bitString then BitString.ofContent? e.content else none

def namedBits (set : NamedBits) : Element :=
  bitString (BitString.ofBits set.toBits)

/-- The value of a set of named bits. -/
def namedBits? (e : Element) : Option NamedBits := do
  let s ← e.bitString?
  if s.bits.length ≤ 16 then some (NamedBits.ofBits s.bits) else none

end Element

end Pkix.Der
