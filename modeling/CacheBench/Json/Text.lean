import CacheBench.Json.Tree

/-!
# JSON strings

`quote` writes text as a JSON string, escaping the quote, the backslash and control characters and
nothing else. `unquote?` reads the bytes between the quotes of a string: escapes are replaced,
surrogate escapes have to come in pairs, and the result has to be valid UTF-8.
-/

namespace CacheBench.Json

def lowerHex (n : Nat) : Char := Nat.digitChar (n % 16)

def escape (c : Char) : List Char :=
  if c = '"' then ['\\', '"']
  else if c = '\\' then ['\\', '\\']
  else if c = '\x08' then ['\\', 'b']
  else if c = '\x0c' then ['\\', 'f']
  else if c = '\n' then ['\\', 'n']
  else if c = '\r' then ['\\', 'r']
  else if c = '\t' then ['\\', 't']
  else if c.toNat < 0x20 then ['\\', 'u', '0', '0', lowerHex (c.toNat / 16), lowerHex c.toNat]
  else [c]

def quote (s : String) : String := "\"" ++ String.ofList (s.toList.flatMap escape) ++ "\""

/-- The character of a pair of surrogates. -/
def pairedChar (lead trail : Nat) : Char :=
  Char.ofNat (0x10000 + (lead - 0xd800) * 0x400 + (trail - 0xdc00))

/-- The bytes that the inside of a string stands for. -/
def unescape? : Bytes → Option Bytes
  | [] => some []
  | c :: r =>
    if c = ascii '\\' then
      match r with
      | [] => none
      | e :: r =>
        if e = ascii 'u' then
          match r with
          | a :: b :: c' :: d :: r => do
            let n ← hexQuad? a b c' d
            if n < 0xd800 || 0xe000 ≤ n then
              return String.utf8EncodeChar (Char.ofNat n) ++ (← unescape? r)
            else if 0xdc00 ≤ n then none
            else
              match r with
              | s :: u :: a :: b :: c' :: d :: r =>
                if s = ascii '\\' && u = ascii 'u' then
                  let m ← hexQuad? a b c' d
                  if 0xdc00 ≤ m && m < 0xe000 then
                    return String.utf8EncodeChar (pairedChar n m) ++ (← unescape? r)
                  else none
                else none
              | _ => none
          | _ => none
        else do
          let x ← shortEscape? e
          return x :: (← unescape? r)
    else (unescape? r).map (c :: ·)

def unquote? (raw : Bytes) : Option String := (unescape? raw).bind text?

end CacheBench.Json
