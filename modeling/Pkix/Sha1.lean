import Pkix.Octets

/-!
# SHA-1

The hash of an octet string: twenty octets. The message is padded to blocks of sixteen words, and
each block is mixed into five words of state in eighty rounds.
-/

namespace Pkix.Sha1

/-- The five words that a message is hashed into. -/
structure State where
  a : UInt32
  b : UInt32
  c : UInt32
  d : UInt32
  e : UInt32

def initial : State := ⟨0x67452301, 0xefcdab89, 0x98badcfe, 0x10325476, 0xc3d2e1f0⟩

/-- A word with its bits moved to the left in a circle. -/
def rotate (w : UInt32) (n : UInt32) : UInt32 :=
  (w <<< n) ||| (w >>> (32 - n))

/-- The octets of a number, filled up to eight with zeros. -/
def lengthOctets (n : Nat) : Octets :=
  [56, 48, 40, 32, 24, 16, 8, 0].map fun shift => UInt8.ofNat (n >>> shift)

/-- The message with a one bit, zeros and its length in bits, up to the next multiple of 64
octets. -/
def pad (message : Octets) : Octets :=
  message ++ [0x80] ++ List.replicate ((119 - message.length % 64) % 64) 0 ++
    lengthOctets (8 * message.length)

/-- The words that the octets make four by four. -/
def words : Octets → List UInt32
  | a :: b :: c :: d :: rest =>
    UInt32.ofNat (Octets.toNat [a, b, c, d]) :: words rest
  | _ => []

/-- The eighty words of a block, the latest first, from its sixteen words in the same order. -/
def extend (count : Nat) (latest : List UInt32) : List UInt32 :=
  match count with
  | 0 => latest
  | count + 1 =>
    let word i := latest.getD i 0
    extend count (rotate (word 2 ^^^ word 7 ^^^ word 13 ^^^ word 15) 1 :: latest)

/-- The function and the constant of a round. -/
def roundTerm (round : Nat) (s : State) : UInt32 :=
  if round < 20 then ((s.b &&& s.c) ||| (~~~s.b &&& s.d)) + 0x5a827999
  else if round < 40 then (s.b ^^^ s.c ^^^ s.d) + 0x6ed9eba1
  else if round < 60 then ((s.b &&& s.c) ||| (s.b &&& s.d) ||| (s.c &&& s.d)) + 0x8f1bbcdc
  else (s.b ^^^ s.c ^^^ s.d) + 0xca62c1d6

/-- The state after the rounds of the given words. -/
def rounds (round : Nat) (s : State) : List UInt32 → State
  | [] => s
  | w :: rest =>
    rounds (round + 1)
      ⟨rotate s.a 5 + roundTerm round s + s.e + w, s.a, rotate s.b 30, s.c, s.d⟩ rest

/-- The state after one more block of sixteen words. -/
def block (s : State) (words : List UInt32) : State :=
  let t := rounds 0 s (extend 64 words.reverse).reverse
  ⟨s.a + t.a, s.b + t.b, s.c + t.c, s.d + t.d, s.e + t.e⟩

/-- The state after all blocks of the given words. -/
def blocks (s : State) (words : List UInt32) : State :=
  match words with
  | [] => s
  | w :: rest => blocks (block s (w :: rest.take 15)) (rest.drop 15)
termination_by words.length
decreasing_by simp only [List.length_drop, List.length_cons]; omega

def wordOctets (w : UInt32) : Octets :=
  [w >>> 24, w >>> 16, w >>> 8, w].map UInt32.toUInt8

def hash (message : Octets) : Octets :=
  let s := blocks initial (words (pad message))
  [s.a, s.b, s.c, s.d, s.e].flatMap wordOctets

end Pkix.Sha1
