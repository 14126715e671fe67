/-! # Hash keys

    Keys are built by Szudzik's pairing, taken modulo `2 ^ 64`.  On arguments
    below `2 ^ 32` nothing wraps, and the pairing numbers the square shell by
    shell: the pairs whose larger part is `m` get the numbers from `m ^ 2` up to
    `m ^ 2 + 2 m`.

    Names are hashed by SipHash-1-3 with a zero key: one round for each message
    word and three rounds at the end.  The message is the name's UTF-8 bytes
    followed by the byte `0xff`, which no UTF-8 text contains, so that no name is
    the beginning of another. -/

namespace SatMemo

/-! ## Pairing of words -/

/-- A key of 64 bits for the values of a hashed store. -/
class Keyed (α : Type) where
  key : α → UInt64

/-- Szudzik's pairing of two words. -/
def pair (a b : UInt64) : UInt64 :=
  if a < b then b * b + a else a * a + a + b

/-- Pairing of three words, the first two first. -/
def pair3 (a b c : UInt64) : UInt64 :=
  pair (pair a b) c

/-- Pairing of `seed` with every word of a list in turn. -/
def pairAll (seed : UInt64) (words : List UInt64) : UInt64 :=
  words.foldl pair seed

instance : Keyed UInt64 where
  key w := w

instance : Keyed (UInt64 × UInt64) where
  key p := pair p.1 p.2

instance : Keyed (UInt64 × UInt64 × UInt64) where
  key t := pair3 t.1 t.2.1 t.2.2

@[simp] theorem pairAll_nil (seed : UInt64) : pairAll seed [] = seed := rfl

@[simp] theorem pairAll_cons (seed w : UInt64) (ws : List UInt64) :
    pairAll seed (w :: ws) = pairAll (pair seed w) ws := rfl

/-! ## Hashes of names -/

/-- Rotation of a 64-bit word to the left. -/
def rotateLeft (w : UInt64) (count : UInt64) : UInt64 :=
  (w <<< count) ||| (w >>> (64 - count))

namespace SipHash

/-- The four words of the hash's state. -/
structure State where
  v0 : UInt64
  v1 : UInt64
  v2 : UInt64
  v3 : UInt64

/-- State before the first word, for the key `(0, 0)`. -/
def start : State where
  v0 := 0x736f6d6570736575
  v1 := 0x646f72616e646f6d
  v2 := 0x6c7967656e657261
  v3 := 0x7465646279746573

/-- One round: additions, rotations and exclusive ors. -/
def round (s : State) : State :=
  let v0 := s.v0 + s.v1
  let v1 := rotateLeft s.v1 13 ^^^ v0
  let v0 := rotateLeft v0 32
  let v2 := s.v2 + s.v3
  let v3 := rotateLeft s.v3 16 ^^^ v2
  let v0 := v0 + v3
  let v3 := rotateLeft v3 21 ^^^ v0
  let v2 := v2 + v1
  let v1 := rotateLeft v1 17 ^^^ v2
  let v2 := rotateLeft v2 32
  { v0, v1, v2, v3 }

/-- Take in one message word. -/
def absorb (s : State) (m : UInt64) : State :=
  let s := round { s with v3 := s.v3 ^^^ m }
  { s with v0 := s.v0 ^^^ m }

/-- The word whose lowest byte comes first. -/
def littleEndian (bytes : List UInt8) : UInt64 :=
  bytes.foldr (fun b w => (w <<< 8) ||| b.toUInt64) 0

/-- The message words of a byte string of length `length`: its blocks of eight, then
    the bytes left over with the length, modulo 256, in the top byte. -/
def messageWords (length : Nat) : List UInt8 → List UInt64
  | b0 :: b1 :: b2 :: b3 :: b4 :: b5 :: b6 :: b7 :: rest =>
      littleEndian [b0, b1, b2, b3, b4, b5, b6, b7] :: messageWords length rest
  | left => [littleEndian left ||| (UInt64.ofNat length <<< 56)]

/-- Three closing rounds and the exclusive or of the state. -/
def finish (s : State) : UInt64 :=
  let s := round (round (round { s with v2 := s.v2 ^^^ 0xff }))
  s.v0 ^^^ s.v1 ^^^ s.v2 ^^^ s.v3

def hash (bytes : List UInt8) : UInt64 :=
  finish ((messageWords bytes.length bytes).foldl absorb start)

end SipHash

/-- Hash of a name. -/
def nameHash (name : String) : UInt64 :=
  SipHash.hash (name.toUTF8.toList ++ [0xff])

end SatMemo
