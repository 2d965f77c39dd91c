import CacheBench.Text.Bytes
import CacheBench.Number.Numeral

/-!
# Frames

Requests and replies are frames of the second version of the RESP protocol. `Frame.encode` writes a
frame as bytes and `Frame.decode` takes the first frame off a stream of bytes, if it is complete.
Text in a simple string or an error ends at the first line break, whatever was meant.
-/

namespace CacheBench

inductive Frame
  | simple (text : Bytes)
  | error (text : String)
  | integer (n : Int64)
  | bulk (bytes : Bytes)
  | array (items : List Frame)
  | null
deriving Inhabited

namespace Frame

/-- The text of a frame, if it holds any. -/
def text? : Frame → Option String
  | .simple b | .bulk b => CacheBench.text? b
  | .error text => some text
  | .integer _ | .array _ | .null => none

def ofText (s : String) : Frame := .bulk (utf8 s)

/-! ## Writing -/

def lineBreak : Bytes := [13, 10]

def line (mark : Char) (b : Bytes) : Bytes := ascii mark :: b ++ lineBreak

mutual

def encode : Frame → Bytes
  | .simple b => line '+' b
  | .error text => line '-' (utf8 text)
  | .integer n => line ':' (utf8 (toString n))
  | .bulk b => line '$' (utf8 (toString b.length)) ++ b ++ lineBreak
  | .array items => line '*' (utf8 (toString items.length)) ++ encodeAll items
  | .null => line '$' (utf8 "-1")

def encodeAll : List Frame → Bytes
  | [] => []
  | f :: fs => encode f ++ encodeAll fs

end

/-! ## Reading -/

inductive Decoded (α : Type)
  | incomplete
  | malformed
  | complete (a : α) (rest : Bytes)

namespace Decoded

def bind {α β : Type} : Decoded α → (α → Bytes → Decoded β) → Decoded β
  | .incomplete, _ => .incomplete
  | .malformed, _ => .malformed
  | .complete a rest, f => f a rest

end Decoded

def takeLine : Bytes → Decoded Bytes
  | 13 :: 10 :: r => .complete [] r
  | c :: r => (takeLine r).bind fun b rest => .complete (c :: b) rest
  | [] => .incomplete

def number? (b : Bytes) : Option Int := do
  let s ← CacheBench.text? b
  let n ← match s.toList with
    | '-' :: r =>
      if r.head? = some '+' then none else (wholeNumber? (String.ofList r)).map fun n => -(n : Int)
    | _ => (wholeNumber? s).map Int.ofNat
  if -2 ^ 63 ≤ n ∧ n < 2 ^ 63 then some n else none

/-- A length, or minus one for a null frame. -/
def takeLength (s : Bytes) : Decoded (Option Nat) :=
  (takeLine s).bind fun b rest =>
    match number? b with
    | some n => if n = -1 then .complete none rest else if n < 0 then .malformed
        else .complete (some n.toNat) rest
    | none => .malformed

mutual

/-- The first frame. Each byte costs at most two units of fuel. -/
def decodeWith : Nat → Bytes → Decoded Frame
  | 0, _ => .incomplete
  | _ + 1, [] => .incomplete
  | fuel + 1, c :: s =>
    if c = ascii '+' then (takeLine s).bind fun b rest => .complete (.simple b) rest
    else if c = ascii '-' then
      (takeLine s).bind fun b rest =>
        match CacheBench.text? b with
        | some text => .complete (.error text) rest
        | none => .malformed
    else if c = ascii ':' then
      (takeLine s).bind fun b rest =>
        match number? b with
        | some n => .complete (.integer (.ofInt n)) rest
        | none => .malformed
    else if c = ascii '$' then
      (takeLength s).bind fun n rest =>
        match n with
        | none => .complete .null rest
        | some n =>
          if n + 2 ≤ rest.length then .complete (.bulk (rest.take n)) (rest.drop (n + 2))
          else .incomplete
    else if c = ascii '*' then
      (takeLength s).bind fun n rest =>
        match n with
        | none => .complete .null rest
        | some n => (decodeItems fuel n rest).bind fun items rest => .complete (.array items) rest
    else .malformed

def decodeItems : Nat → Nat → Bytes → Decoded (List Frame)
  | _, 0, s => .complete [] s
  | 0, _ + 1, _ => .incomplete
  | fuel + 1, n + 1, s =>
    (decodeWith fuel s).bind fun f rest =>
      (decodeItems fuel n rest).bind fun fs rest => .complete (f :: fs) rest

end

def decode (s : Bytes) : Decoded Frame := decodeWith (2 * s.length + 2) s

/-- The complete frames of a stream in order, with what is left and whether it is malformed. -/
def decodeAllWith : Nat → Bytes → List Frame × Bytes × Bool
  | 0, s => ([], s, false)
  | fuel + 1, s =>
    match decode s with
    | .incomplete => ([], s, false)
    | .malformed => ([], s, true)
    | .complete f rest =>
      let (fs, left, bad) := decodeAllWith fuel rest
      (f :: fs, left, bad)

def decodeAll (s : Bytes) : List Frame × Bytes × Bool := decodeAllWith s.length s

end Frame

end CacheBench
