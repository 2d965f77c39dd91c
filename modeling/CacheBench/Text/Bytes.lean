/-!
# Bytes and text

Bytes are lists of `UInt8`. `utf8` writes text as bytes and `text?` reads bytes that are valid
UTF-8.
-/

namespace CacheBench

abbrev Bytes := List UInt8

abbrev ascii (c : Char) : UInt8 := c.toUInt8

def utf8 (s : String) : Bytes := s.toUTF8.data.toList

def text? (b : Bytes) : Option String := String.fromUTF8? ⟨b.toArray⟩

end CacheBench
