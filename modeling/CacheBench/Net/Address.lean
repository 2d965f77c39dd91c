import CacheBench.Number.Numeral
import CacheBench.Text.Blank
import CacheBench.Text.Quoted

/-!
# Internet addresses

Addresses of both versions, their text, and the text forms that are read: strict literals, socket
addresses with a port, and what looking up a host without a name service accepts, which adds the
old forms of version 4 with fewer than four parts or with parts in octal or hexadecimal.
-/

namespace CacheBench

structure Ipv4 where
  a : UInt8
  b : UInt8
  c : UInt8
  d : UInt8
deriving DecidableEq

structure Ipv6 where
  groups : List UInt16
  length_groups : groups.length = 8
deriving DecidableEq

inductive Ip
  | v4 (address : Ipv4)
  | v6 (address : Ipv6)
deriving DecidableEq

structure SocketAddress where
  ip : Ip
  port : UInt16
  /-- The zone of a version 6 address, zero for none. -/
  scope : UInt32 := 0
deriving DecidableEq

/-! ## Text of an address -/

def Ipv4.text (x : Ipv4) : String := s!"{x.a}.{x.b}.{x.c}.{x.d}"

namespace Ipv6

def groupText (g : UInt16) : String := Text.hexDigits g.toNat

def groupsText (gs : List UInt16) : String := ":".intercalate (gs.map groupText)

def zeros (gs : List UInt16) : Nat := (gs.takeWhile (· = 0)).length

/-- Start and length of the first longest run of zeros. -/
def longestZeros (gs : List UInt16) : Nat × Nat :=
  (List.range gs.length).foldl (fun best i =>
    let n := zeros (gs.drop i)
    if best.2 < n then (i, n) else best) (0, 0)

/-- A run of two or more zero groups is left out. -/
def text (x : Ipv6) : String :=
  match x.groups with
  | [0, 0, 0, 0, 0, 0xffff, g, h] =>
    s!"::ffff:{g.toNat / 256}.{g.toNat % 256}.{h.toNat / 256}.{h.toNat % 256}"
  | gs =>
    let (start, n) := longestZeros gs
    if 1 < n then groupsText (gs.take start) ++ "::" ++ groupsText (gs.drop (start + n))
    else groupsText gs

end Ipv6

def Ip.text : Ip → String
  | .v4 x => x.text
  | .v6 x => x.text

namespace SocketAddress

def text (x : SocketAddress) : String :=
  match x.ip with
  | .v4 ip => s!"{ip.text}:{x.port}"
  | .v6 ip =>
    if x.scope = 0 then s!"[{ip.text}]:{x.port}" else s!"[{ip.text}%{x.scope}]:{x.port}"

instance : ToString SocketAddress := ⟨text⟩

end SocketAddress

/-! ## Reading literals -/

/-- Digits only, with a value below `bound`. -/
def boundedDigits? (bound : Nat) (cs : List Char) : Option Nat :=
  if cs.isEmpty || !cs.all Char.isDigit then none
  else if digitsValue cs < bound then some (digitsValue cs) else none

def octet? (cs : List Char) : Option UInt8 :=
  if cs.head? = some '0' && cs.length ≠ 1 then none
  else (boundedDigits? 256 cs).map UInt8.ofNat

def Ipv4.ofChars? (cs : List Char) : Option Ipv4 :=
  match Text.splitChars '.' cs with
  | [a, b, c, d] => do return ⟨← octet? a, ← octet? b, ← octet? c, ← octet? d⟩
  | _ => none

def hexValue? (c : Char) : Option Nat :=
  if c.isDigit then some (c.toNat - 48)
  else if 'a' ≤ c && c ≤ 'f' then some (c.toNat - 87)
  else if 'A' ≤ c && c ≤ 'F' then some (c.toNat - 55)
  else none

/-- The value of digits in a base up to sixteen. -/
def valueInBase? (base : Nat) (cs : List Char) : Option Nat :=
  cs.foldlM (fun n c => do
    let d ← hexValue? c
    if d < base then some (base * n + d) else none) 0

namespace Ipv6

def group? (cs : List Char) : Option UInt16 :=
  if cs.isEmpty || 4 < cs.length then none else (valueInBase? 16 cs).map UInt16.ofNat

/-- The groups of a list of parts, the last of which may be a version 4 address. -/
def groups? : List (List Char) → Option (List UInt16)
  | [] => some []
  | [last] =>
    match Ipv4.ofChars? last with
    | some x => some [.ofNat (256 * x.a.toNat + x.b.toNat), .ofNat (256 * x.c.toNat + x.d.toNat)]
    | none => (group? last).map ([·])
  | p :: ps => do return (← group? p) :: (← groups? ps)

def side (cs : List Char) : List (List Char) := if cs.isEmpty then [] else Text.splitChars ':' cs

/-- What stands before and after the first double colon. -/
def splitGap : List Char → Option (List Char × List Char)
  | ':' :: ':' :: r => some ([], r)
  | c :: r => (splitGap r).map fun (before, after) => (c :: before, after)
  | [] => none

/-- Eight groups, or fewer with a gap that stands for at least one. -/
def ofChars? (cs : List Char) : Option Ipv6 := do
  let gs ← match splitGap cs with
    | none => groups? (Text.splitChars ':' cs)
    | some (before, after) => do
      let head ← (side before).mapM group?
      let tail ← groups? (side after)
      if head.length + tail.length ≤ 7 then
        some (head ++ List.replicate (8 - head.length - tail.length) 0 ++ tail)
      else none
  if h : gs.length = 8 then some ⟨gs, h⟩ else none

end Ipv6

def Ip.ofChars? (cs : List Char) : Option Ip :=
  match Ipv4.ofChars? cs with
  | some x => some (.v4 x)
  | none => (Ipv6.ofChars? cs).map .v6

/-- What stands before and after the last `mark`. -/
def splitLast (mark : Char) (cs : List Char) : Option (List Char × List Char) :=
  let after := cs.reverse.takeWhile (· ≠ mark)
  match cs.reverse.dropWhile (· ≠ mark) with
  | _ :: before => some (before.reverse, after.reverse)
  | [] => none

/-- A version 6 address, perhaps with the number of its zone. -/
def Ipv6.zoned? (cs : List Char) : Option (Ipv6 × UInt32) :=
  match splitLast '%' cs with
  | none => do return (← ofChars? cs, 0)
  | some (address, zone) => do
    return (← ofChars? address, .ofNat (← boundedDigits? (2 ^ 32) zone))

namespace Ipv6

/-- Addresses of one link, which need a zone. -/
def isLinkLocal (x : Ipv6) : Bool := 0xfe80 ≤ x.groups.headD 0 && x.groups.headD 0 < 0xfec0

/-- Multicast addresses of one node or link. -/
def isLocalMulticast (x : Ipv6) : Bool :=
  x.groups.headD 0 &&& 0xff0f = 0xff01 || x.groups.headD 0 &&& 0xff0f = 0xff02

/-- A local address whose zone is given by the name of the loopback device, the first one. -/
def onLoopback? (cs : List Char) : Option (Ipv6 × UInt32) := do
  let (address, device) ← splitLast '%' cs
  let x ← ofChars? address
  if device = ['l', 'o'] && (x.isLinkLocal || x.isLocalMulticast) then some (x, 1) else none

end Ipv6

namespace SocketAddress

/-- An address with its port, in brackets if it is of version 6. -/
def ofChars? (cs : List Char) : Option SocketAddress := do
  let (host, port) ← splitLast ':' cs
  let port ← (boundedDigits? (2 ^ 16) port).map UInt16.ofNat
  match host with
  | '[' :: r =>
    if r.getLast? = some ']' then do
      let (address, scope) ← Ipv6.zoned? r.dropLast
      return { ip := .v6 address, port, scope }
    else none
  | _ => return { ip := .v4 (← Ipv4.ofChars? host), port }

end SocketAddress

/-! ## Looking up hosts -/

/-- A part of an old version 4 form: hexadecimal after `0x`, octal after `0`, or decimal. -/
def loosePart? (cs : List Char) : Option Nat :=
  match cs with
  | [] => none
  | '0' :: x :: r =>
    if x = 'x' || x = 'X' then if r.isEmpty then none else valueInBase? 16 r
    else valueInBase? 8 (x :: r)
  | _ => valueInBase? 10 cs

/-- One to four parts, the last of which fills the bytes that are left. -/
def Ipv4.ofLoose? (cs : List Char) : Option Ipv4 := do
  let parts ← (Text.splitChars '.' cs).mapM loosePart?
  let n := parts.length
  let first := parts.dropLast
  let last ← parts.getLast?
  if 4 < n || first.any (255 < ·) || 256 ^ (5 - n) ≤ last then none
  else
    let v := first.foldl (fun v p => 256 * v + p) 0 * 256 ^ (5 - n) + last
    return ⟨.ofNat (v / 2 ^ 24), .ofNat (v / 2 ^ 16), .ofNat (v / 2 ^ 8), .ofNat v⟩

inductive LookupFault
  | invalidPort
  /-- The text cannot be the name of a host. -/
  | unknownName
  /-- The text may be the name of a host, but no name service answers. -/
  | unanswered
deriving DecidableEq

def LookupFault.message : LookupFault → String
  | .invalidPort => "invalid port value"
  | .unknownName => "failed to lookup address information: Name or service not known"
  | .unanswered => "failed to lookup address information: Temporary failure in name resolution"

/-- Names consist of labels of at most 63 letters, digits, dashes and underscores, the first of
which is no dash. They may end in a dot. -/
def isHostName (cs : List Char) : Bool :=
  let isLabel (l : List Char) : Bool :=
    !l.isEmpty && l.length ≤ 63 && l.all fun c => c.isAlphanum || c = '-' || c = '_'
  let name := if cs.getLast? = some '.' then cs.dropLast else cs
  cs = ['.'] || (cs.head? ≠ some '-' && name.length ≤ 253 && (Text.splitChars '.' name).all isLabel)

/-- The address of a host that needs no name service, and its zone. -/
def Ip.lookup (cs : List Char) : Except LookupFault (Ip × UInt32) :=
  match Ip.ofChars? cs with
  | some ip => .ok (ip, 0)
  | none =>
    match Ipv4.ofLoose? cs with
    | some x => .ok (.v4 x, 0)
    | none =>
      match Ipv6.zoned? cs <|> Ipv6.onLoopback? cs with
      | some (x, zone) => .ok (.v6 x, zone)
      | none => .error (if isHostName cs then .unanswered else .unknownName)

def port? (cs : List Char) : Option UInt16 :=
  (wholeNumber? (String.ofList cs)).bind fun n => if n < 2 ^ 16 then some (.ofNat n) else none

/-! ## Server lists -/

structure AddressError where
  text : String
  fault : LookupFault
deriving DecidableEq

def AddressError.message (e : AddressError) : String :=
  "invalid server address " ++ Text.quoted e.text

/-- One server: a socket address, or a host with a port after its last colon, or a host without
colons at the default port. -/
def server (defaultPort : UInt16) (cs : List Char) : Except LookupFault SocketAddress :=
  match SocketAddress.ofChars? cs with
  | some x => .ok x
  | none =>
    match splitLast ':' cs with
    | some (host, digits) =>
      match port? digits with
      | some port => (Ip.lookup host).map fun (ip, scope) => { ip, port, scope }
      | none => .error .invalidPort
    | none => (Ip.lookup cs).map fun (ip, scope) => { ip, port := defaultPort, scope }

def parseServers (defaultPort : UInt16) (input : String) :
    Except AddressError (List SocketAddress) :=
  (Text.commaList input).mapM fun word => (server defaultPort word.toList).mapError (⟨word, ·⟩)

end CacheBench
