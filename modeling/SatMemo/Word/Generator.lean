import SatMemo.Word.Hash

/-! # Generators of random words

    A reproducible source of random numbers.  Nothing but `ofSeed` and the
    numbers drawn since is known of the state, so which generator it is stays
    open: it is a parameter of whatever draws.

    `Generator.xoshiro` is one that runs, xoshiro256++.  The seed of one word is
    stretched to its four by a permuted congruential generator. -/

namespace SatMemo

/-- A generator: the state for a seed, and what is drawn from a state. -/
structure Generator where
  State  : Type
  ofSeed : UInt64 → State
  /-- The next word of 64 bits. -/
  next   : State → UInt64 × State
  /-- A number below another one, which must not be 0. -/
  below  : Nat → State → Nat × State
  coin   : State → Bool × State

/-! ## xoshiro256++ -/

/-- State of the generator: 256 bits. -/
structure Xoshiro where
  s0 : UInt64
  s1 : UInt64
  s2 : UInt64
  s3 : UInt64
deriving Repr, DecidableEq, Inhabited

namespace Xoshiro

/-- One step of the 64-bit congruential generator behind the seeding. -/
def stretchStep (w : UInt64) : UInt64 :=
  w * 6364136223846793005 + 11634580027462260723

/-- The 32 bits given out at a state of the seeding generator: the upper bits, folded
    over themselves and rotated to the right by the topmost five. -/
def stretchOutput (w : UInt64) : UInt64 :=
  let x := (((w >>> 18) ^^^ w) >>> 27) &&& 0xffffffff
  let r := w >>> 59
  ((x >>> r) ||| (x <<< ((32 - r) &&& 31))) &&& 0xffffffff

/-- Two outputs, the lower half first, and the state behind them. -/
def stretchWord (w : UInt64) : UInt64 × UInt64 :=
  let w₁ := stretchStep w
  let w₂ := stretchStep w₁
  (stretchOutput w₁ ||| (stretchOutput w₂ <<< 32), w₂)

def ofSeed (seed : UInt64) : Xoshiro :=
  let (s0, w) := stretchWord seed
  let (s1, w) := stretchWord w
  let (s2, w) := stretchWord w
  let (s3, _) := stretchWord w
  { s0, s1, s2, s3 }

/-- The next word of the stream. -/
def next (g : Xoshiro) : UInt64 × Xoshiro :=
  let word := rotateLeft (g.s0 + g.s3) 23 + g.s0
  let t  := g.s1 <<< 17
  let s2 := g.s2 ^^^ g.s0
  let s3 := g.s3 ^^^ g.s1
  let s1 := g.s1 ^^^ s2
  let s0 := g.s0 ^^^ s3
  let s2 := s2 ^^^ t
  let s3 := rotateLeft s3 45
  (word, { s0, s1, s2, s3 })

/-- The words accepted when drawing below `n` have a low half of the product with `n`
    at or under this bound, which makes every result equally likely: the greatest multiple
    of `n` by a power of two that fits into 64 bits, less one. -/
def acceptance (n : Nat) : Nat :=
  (n <<< (63 - Nat.log2 n)) - 1

/-- A number below `n`, for `0 < n < 2 ^ 64`: the high half of a word times `n`.  Words
    outside the acceptance zone are thrown away, at most `attempts` of them; a word is
    thrown away with chance at most one half. -/
def drawBelow (n : Nat) : (attempts : Nat) → Xoshiro → Nat × Xoshiro
  | 0, g => (0, g)
  | attempts + 1, g =>
      let (word, g) := g.next
      let product := word.toNat * n
      if product % 0x10000000000000000 ≤ acceptance n then
        (product / 0x10000000000000000, g)
      else
        drawBelow n attempts g

/-- A uniform number below `n`. -/
def below (n : Nat) (g : Xoshiro) : Nat × Xoshiro :=
  drawBelow n 4096 g

/-- A fair coin: is the next word in the lower half? -/
def coin (g : Xoshiro) : Bool × Xoshiro :=
  let (word, g) := g.next
  (word < 0x8000000000000000, g)

end Xoshiro

def Generator.xoshiro : Generator where
  State  := Xoshiro
  ofSeed := Xoshiro.ofSeed
  next   := Xoshiro.next
  below  := Xoshiro.below
  coin   := Xoshiro.coin

end SatMemo
