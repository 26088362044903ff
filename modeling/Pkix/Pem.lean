import Pkix.Error
import Pkix.Text.Base64

/-!
# Armour

Octets as text between two marked lines that carry a label. Writing wraps the text at 64 columns and
ends lines with carriage return and line feed. Reading takes the first block of a text, passes over
the headers that a gap sets off from the data, and ignores blank characters in the data.
-/

namespace Pkix.Pem

def certificateLabel : String := "CERTIFICATE"

def crlLabel : String := "X509 CRL"

/-! ## Writing -/

/-- The lines of at most 64 characters that a text is broken into, with their ends. -/
def wrap (text : List Char) : List Char :=
  match text with
  | [] => []
  | c :: rest => c :: rest.take 63 ++ '\r' :: '\n' :: wrap (rest.drop 63)
termination_by text.length
decreasing_by simp only [List.length_drop, List.length_cons]; omega

/-- The armoured text of an octet string. -/
def encode (label : String) (octets : Octets) : String :=
  "-----BEGIN " ++ label ++ "-----\r\n" ++ String.ofList (wrap (Base64.encodeChars octets)) ++
    "-----END " ++ label ++ "-----\r\n"

/-! ## Reading -/

/-- What stands before and after the first mark in a text, where `pending` is the part of the mark
that is still to come and `seen` the part that came last, in reverse. A character that breaks the
mark off is not looked at again, so a mark may not begin with it. -/
def splitAtFrom (mark pending seen : List Char) : List Char → Option (List Char × List Char)
  | [] => none
  | c :: rest =>
    match pending with
    | [] => none
    | [p] =>
      if c = p then some ([], rest)
      else (splitAtFrom mark mark [] rest).map fun (before, after) =>
        (seen.reverse ++ c :: before, after)
    | p :: pending =>
      if c = p then splitAtFrom mark pending (c :: seen) rest
      else (splitAtFrom mark mark [] rest).map fun (before, after) =>
        (seen.reverse ++ c :: before, after)

/-- What stands before and after the first mark in a text. -/
def splitAt (mark : String) (text : List Char) : Option (List Char × List Char) :=
  splitAtFrom mark.toList mark.toList [] text

/-- Whether a character may stand between the first line and the data. -/
def isGap (c : Char) : Bool :=
  c = ' ' || c = '\t' || c = '\n' || c = '\r'

def isBlank (c : Char) : Bool :=
  let n := c.toNat
  (9 ≤ n && n ≤ 13) || n == 0x20 || n == 0x85 || n == 0xa0 || n == 0x1680 ||
    (0x2000 ≤ n && n ≤ 0x200a) || n == 0x2028 || n == 0x2029 || n == 0x202f || n == 0x205f ||
    n == 0x3000

/-- The headers and the data of a block. -/
def splitHeaders (body : List Char) : List Char × List Char :=
  match splitAt "\n\n" body with
  | some parts => parts
  | none => (splitAt "\r\n\r\n" body).getD ([], body)

/-- The lines of a text; what follows the last line feed counts unless it is empty. -/
def lines (text : List Char) : List (List Char) :=
  let parts := text.splitOn '\n'
  if parts.getLast? = some [] then parts.dropLast else parts

/-- A block of armour: its label and its octets. -/
structure Block where
  label : String
  octets : Octets
  deriving DecidableEq

def read? (text : String) : Option Block := do
  let (_, rest) ← splitAt "-----BEGIN " text.toList
  let (label, rest) ← splitAt "-----" rest
  let (body, rest) ← splitAt "-----END " (rest.dropWhile isGap)
  let (endLabel, _) ← splitAt "-----" rest
  let (headers, data) := splitHeaders body
  if label ≠ [] ∧ endLabel = label ∧ (lines headers).all (·.contains ':') then
    return ⟨String.ofList label, ← Base64.decodeChars? (data.filter (!isBlank ·))⟩
  else none

/-- The octets of the first block of a text, which has to carry the given label. -/
def decode (label text : String) : Except Error Octets := do
  let block ← Error.decoding.ifNone (read? text)
  if block.label = label then .ok block.octets
  else .error (.unexpectedLabel label block.label)

end Pkix.Pem
