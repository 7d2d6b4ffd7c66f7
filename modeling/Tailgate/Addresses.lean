import Tailgate.NetworkConfig

/-!
# Addresses in texts

The maps of the control server carry addresses, prefixes, ranges and endpoints
as texts. The functions here are the program's own readers of them. Texts are
searched for a character and cut there, and the pieces are read as decimal
numbers that must be all there is.

An IPv6 address is read by a library, `aton`, after its characters have been
checked.
-/

namespace Tailgate

/-! ## Texts -/

variable (c : Char) (text : String)

def textBefore : String :=
  .ofList (text.toList.takeWhile (· ≠ c))

def textAfter : String :=
  .ofList ((text.toList.dropWhile (· ≠ c)).drop 1)

def textBeforeLast : String :=
  .ofList ((text.toList.reverse.dropWhile (· ≠ c)).drop 1).reverse

def textAfterLast : String :=
  .ofList (text.toList.reverse.takeWhile (· ≠ c)).reverse

def textHas : Bool := text.toList.contains c

def digitsValue (digits : List Char) : ℕ :=
  digits.foldl (fun n c => 10 * n + (c.toNat - 48)) 0

def fromChars : Option ℕ :=
  if text.toList ≠ [] ∧ text.toList.all Char.isDigit ∧ digitsValue text.toList < 2 ^ 32 then
    some (digitsValue text.toList)
  else
    none

def isSpace : Bool := c == ' ' || 9 ≤ c.toNat && c.toNat ≤ 13

def leadingInteger : Option ℤ :=
  let signed := text.toList.dropWhile isSpace
  let unsigned := match signed with
    | '-' :: rest => rest
    | '+' :: rest => rest
    | rest => rest
  let digits := unsigned.takeWhile Char.isDigit
  if digits = [] then
    none
  else if signed.head? = some '-' then
    some (-(digitsValue digits : ℤ))
  else
    some (digitsValue digits)

/-! ## IPv4 -/

namespace Ipv4Address

def ofOctets (octets : List ℕ) : ℕ :=
  octets.foldl (fun value octet => 256 * value + octet) 0

def octets (value : ℕ) : List ℕ :=
  [value / 2 ^ 24 % 256, value / 2 ^ 16 % 256, value / 2 ^ 8 % 256, value % 256]

def octet (component : List Char) : Option ℕ :=
  (fromChars (.ofList component)).filter (· ≤ 255)

def tryParse (text : String) : Option ℕ :=
  let components := text.toList.splitOn '.'
  if components.length = 4 then
    (components.mapM octet).map ofOctets
  else
    none

def isPrivate (value : ℕ) : Bool :=
  value &&& ofOctets [255, 0, 0, 0] == ofOctets [10, 0, 0, 0]
    || value &&& ofOctets [255, 240, 0, 0] == ofOctets [172, 16, 0, 0]
    || value &&& ofOctets [255, 255, 0, 0] == ofOctets [192, 168, 0, 0]

end Ipv4Address

def prefixMask (prefixLength : ℕ) : ℕ :=
  if prefixLength = 0 then 0 else (2 ^ 32 - 1) * 2 ^ (32 - prefixLength) % 2 ^ 32

namespace Ipv4Prefix

def parse (text : String) : Option Ipv4Prefix := do
  let address ← Ipv4Address.tryParse (textBefore '/' text)
  let length ← if textHas '/' text then fromChars (textAfter '/' text) else some 32
  if length > 32 then
    none
  else
    some { network := address &&& prefixMask length, prefixLength := length }

def contains (p : Ipv4Prefix) (address : ℕ) : Bool :=
  address &&& prefixMask p.prefixLength == p.network

end Ipv4Prefix

/-- An address and a port. -/
structure Endpoint where
  address : ℕ := 0
  port : ℕ := 0
  deriving DecidableEq

def Endpoint.tryParse : Option Endpoint :=
  if textHas ':' text then do
    let address ← Ipv4Address.tryParse (textBeforeLast ':' text)
    let port ← fromChars (textAfterLast ':' text)
    if port > 2 ^ 16 - 1 then none else some { address, port }
  else
    none

/-! ## Either family -/

/-- How a library reads the text of an IPv6 address. -/
abbrev Aton := String → Option (List ℕ)

variable (aton : Aton)

namespace IpAddress

def ofIpv4 (value : ℕ) : IpAddress := { family := .ipv4, bytes := Ipv4Address.octets value }

def tryParse (text : String) : Option IpAddress :=
  match Ipv4Address.tryParse text with
  | some address => some (ofIpv4 address)
  | none =>
    if textHas ':' text ∧
        text.toList.all (fun c => "0123456789abcdefABCDEF:.".toList.contains c) then
      (aton text).map fun bytes => { family := .ipv6, bytes }
    else
      none

def less (a b : IpAddress) : Bool := decide (a.bytes < b.bytes)

end IpAddress

namespace IpRange

def bitMask (bit : ℕ) : ℕ := 2 ^ (7 - bit % 8)

def lowest (bytes : List ℕ) (bits : List ℕ) : List ℕ :=
  bits.foldl (fun bytes bit => bytes.modify (bit / 8) fun b => b &&& (255 - bitMask bit)) bytes

def highest (bytes : List ℕ) (bits : List ℕ) : List ℕ :=
  bits.foldl (fun bytes bit => bytes.modify (bit / 8) fun b => b ||| bitMask bit) bytes

def ofNetwork (address : IpAddress) (prefixLength : ℕ) : IpRange :=
  let width := address.bytes.length * 8
  let bits := .range' prefixLength (width - prefixLength)
  { first := { address with bytes := lowest address.bytes bits }
    last := { address with bytes := highest address.bytes bits } }

def tryParse (text : String) : Option IpRange :=
  if textHas '-' text then do
    let first ← IpAddress.tryParse aton (textBefore '-' text)
    let last ← IpAddress.tryParse aton (textAfter '-' text)
    if first.family ≠ last.family ∨ last.less first then none else some { first, last }
  else do
    let address ← IpAddress.tryParse aton (textBefore '/' text)
    if textHas '/' text then do
      let prefixLength ← fromChars (textAfter '/' text)
      if prefixLength > address.bytes.length * 8 then none
      else some (ofNetwork address prefixLength)
    else
      some { first := address, last := address }

def contains (r : IpRange) (address : IpAddress) : Bool :=
  address.family == r.first.family && !address.less r.first && !r.last.less address

end IpRange

end Tailgate
