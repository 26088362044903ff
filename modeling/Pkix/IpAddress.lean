import Pkix.Error

/-!
# IP addresses

An address is four octets or eight 16-bit groups. The text of a version 4 address has four decimal
numbers. The text of a version 6 address has hexadecimal groups, of which the first longest run of
two or more zero groups is left out; an address that maps one of version 4 shows that one at its
end. `parse?` accepts any text form of an address: `::` for one or more zero groups in any place,
and a version 4 address for the last two groups.
-/

namespace Pkix

inductive IpAddress where
  | v4 (octets : Vector UInt8 4)
  | v6 (groups : Vector UInt16 8)
  deriving DecidableEq

namespace IpAddress

/-! ## Octets -/

def groupOctets (g : UInt16) : Octets :=
  [UInt8.ofNat (g.toNat / 256), UInt8.ofNat (g.toNat % 256)]

def groupOf (high low : UInt8) : UInt16 :=
  UInt16.ofNat (256 * high.toNat + low.toNat)

/-- The octets of an address, first group first. -/
def octets : IpAddress → Octets
  | v4 octets => octets.toList
  | v6 groups => groups.toList.flatMap groupOctets

def ofOctets? : Octets → Option IpAddress
  | [a, b, c, d] => some (v4 #v[a, b, c, d])
  | [a, b, c, d, e, f, g, h, i, j, k, l, m, n, o, p] =>
    some (v6 #v[groupOf a b, groupOf c d, groupOf e f, groupOf g h, groupOf i j, groupOf k l,
      groupOf m n, groupOf o p])
  | _ => none

/-- The address with the given octets, or the error that their number makes. -/
def ofOctets (octets : Octets) : Except Error IpAddress :=
  (Error.invalidIpLength octets.length).ifNone (ofOctets? octets)

/-! ## Printing -/

/-- Four decimal numbers with points between them. -/
def dottedQuad (octets : List UInt8) : String :=
  ".".intercalate (octets.map fun b => toString b.toNat)

def colonGroups (groups : List UInt16) : String :=
  ":".intercalate (groups.map fun g => String.ofList (Nat.toDigits 16 g.toNat))

structure ZeroRun where
  start : Nat
  length : Nat

/-- A run with the zero group at `position` added; an empty run begins there. -/
def ZeroRun.extend (run : ZeroRun) (position : Nat) : ZeroRun :=
  if run.length = 0 then ⟨position, 1⟩ else ⟨run.start, run.length + 1⟩

/-- The first longest run of zero groups, where `current` ends before the groups at `position` and
`best` is the longest run so far. -/
def longestRunFrom (position : Nat) (current best : ZeroRun) : List UInt16 → ZeroRun
  | [] => best
  | g :: rest =>
    if g = 0 then
      let current := current.extend position
      let best := if best.length < current.length then current else best
      longestRunFrom (position + 1) current best rest
    else longestRunFrom (position + 1) ⟨0, 0⟩ best rest

/-- The first longest run of zero groups. -/
def longestRun (groups : List UInt16) : ZeroRun :=
  longestRunFrom 0 ⟨0, 0⟩ ⟨0, 0⟩ groups

def groupsText : List UInt16 → String
  | [0, 0, 0, 0, 0, 0xffff, g, h] => "::ffff:" ++ dottedQuad (groupOctets g ++ groupOctets h)
  | groups =>
    let run := longestRun groups
    if 1 < run.length then
      colonGroups (groups.take run.start) ++ "::" ++
        colonGroups (groups.drop (run.start + run.length))
    else colonGroups groups

def text : IpAddress → String
  | v4 octets => dottedQuad octets.toList
  | v6 groups => groupsText groups.toList

/-- The text of the address with the given octets. -/
def textOfOctets (octets : Octets) : Except Error String := do
  return (← ofOctets octets).text

/-! ## Parsing -/

/-- The octet that a decimal number of at most three digits without leading zeros denotes. -/
def parseDecimal? (digits : List Char) : Option UInt8 :=
  if digits.length = 0 ∨ 3 < digits.length ∨ (digits.head? = some '0' ∧ 1 < digits.length) then none
  else if digits.all Char.isDigit then
    let n := digits.foldl (fun n c => 10 * n + (c.toNat - 48)) 0
    if n < 256 then some (UInt8.ofNat n) else none
  else none

/-- The four octets of a dotted quad. -/
def parseQuad? (text : List Char) : Option (Vector UInt8 4) := do
  match ← (text.splitOn '.').mapM parseDecimal? with
  | [a, b, c, d] => some #v[a, b, c, d]
  | _ => none

/-- The value of a hexadecimal digit in either case. -/
def hexValue? (c : Char) : Option Nat :=
  if c.isDigit then some (c.toNat - 48)
  else if 'a' ≤ c ∧ c ≤ 'f' then some (c.toNat - 87)
  else if 'A' ≤ c ∧ c ≤ 'F' then some (c.toNat - 55)
  else none

/-- The group of one to four hexadecimal digits. -/
def parseGroup? (digits : List Char) : Option UInt16 :=
  if digits.length = 0 ∨ 4 < digits.length then none
  else do
    let n ← digits.foldlM (fun n c => do return 16 * n + (← hexValue? c)) 0
    return UInt16.ofNat n

/-- The groups of texts that stood between colons. The last one may be a dotted quad. -/
def parseGroups? : List (List Char) → Option (List UInt16)
  | [] => some []
  | [last] =>
    match parseQuad? last with
    | some quad => some [groupOf quad[0] quad[1], groupOf quad[2] quad[3]]
    | none => do return [← parseGroup? last]
  | first :: rest => do return (← parseGroup? first) :: (← parseGroups? rest)

/-- The texts between the colons of a text; none for the empty text. -/
def colonParts (text : List Char) : List (List Char) :=
  if text.isEmpty then [] else text.splitOn ':'

/-- What stands before and after the first `::` of a text. -/
def splitGap? : List Char → Option (List Char × List Char)
  | [] => none
  | c :: rest =>
    match c, rest with
    | ':', ':' :: after => some ([], after)
    | _, _ => (splitGap? rest).map fun (before, after) => (c :: before, after)

/-- The eight groups of a text. Before a gap every part is a group of its own, and a gap stands for
at least one group. -/
def parseV6? (text : List Char) : Option (List UInt16) := do
  match splitGap? text with
  | none =>
    let groups ← parseGroups? (colonParts text)
    if groups.length = 8 then some groups else none
  | some (before, after) =>
    let front ← (colonParts before).mapM parseGroup?
    let back ← parseGroups? (colonParts after)
    if front.length + back.length ≤ 7 then
      some (front ++ List.replicate (8 - front.length - back.length) 0 ++ back)
    else none

def parse? (text : String) : Option IpAddress :=
  match parseQuad? text.toList with
  | some quad => some (v4 quad)
  | none => do
    let groups ← parseV6? text.toList
    if h : groups.length = 8 then some (v6 ⟨groups.toArray, by simpa using h⟩) else none

/-- The address that a text denotes, or the error that shows the text. -/
def parse (text : String) : Except Error IpAddress :=
  (Error.invalidIpText text).ifNone (parse? text)

end IpAddress

end Pkix
