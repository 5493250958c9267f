/-!
# Random bytes

The random instruction draws from a key stream: a 256-bit key and a block
counter are mixed by twelve rounds into blocks of sixteen 32-bit words, and
each draw takes the next word of the stream.  A seed is stretched to a key by a
64-bit linear congruence, so that equal seeds give equal bytes.

* `KeyStream.word` — the word number `j` of the stream of a key;
* `Generator.next` — the next random byte.
-/

namespace Chip8

namespace KeyStream

/-- Sixteen words under mixing. -/
abbrev Block := Vector UInt32 16

/-- Rotate left by fewer than 32 places. -/
def rotateLeft (x : UInt32) (k : UInt32) : UInt32 :=
  (x <<< k) ||| (x >>> (32 - k))

/-- Mix four words of a block. -/
def quarterRound (s : Block) (a b c d : Fin 16) : Block :=
  let va := s[a] + s[b]
  let vd := rotateLeft (s[d] ^^^ va) 16
  let vc := s[c] + vd
  let vb := rotateLeft (s[b] ^^^ vc) 12
  let va := va + vb
  let vd := rotateLeft (vd ^^^ va) 8
  let vc := vc + vd
  let vb := rotateLeft (vb ^^^ vc) 7
  (((s.set a va).set b vb).set c vc).set d vd

/-- Mix the four columns of a block and then its four diagonals. -/
def doubleRound (s : Block) : Block :=
  let s := quarterRound s 0 4 8 12
  let s := quarterRound s 1 5 9 13
  let s := quarterRound s 2 6 10 14
  let s := quarterRound s 3 7 11 15
  let s := quarterRound s 0 5 10 15
  let s := quarterRound s 1 6 11 12
  let s := quarterRound s 2 7 8 13
  quarterRound s 3 4 9 14

/-- The block before mixing: four constants, the key, the counter with its low
word first, and two zeros. -/
def initialBlock (key : Vector UInt32 8) (counter : UInt64) : Block :=
  #v[0x61707865, 0x3320646e, 0x79622d32, 0x6b206574,
     key[0], key[1], key[2], key[3], key[4], key[5], key[6], key[7],
     counter.toUInt32, (counter >>> 32).toUInt32, 0, 0]

/-- The block number `counter` of the stream: six double rounds, and the block
before mixing added to the result. -/
def block (key : Vector UInt32 8) (counter : UInt64) : Block :=
  let start := initialBlock key counter
  Vector.zipWith (· + ·) (Nat.repeat doubleRound 6 start) start

/-- The word number `j` of the stream. -/
def word (key : Vector UInt32 8) (j : Nat) : UInt32 :=
  (block key (j / 16).toUInt64)[j % 16]

/-- The next state of the congruence that stretches a seed. -/
def stretch (state : UInt64) : UInt64 :=
  state * 6364136223846793005 + 11634580027462260723

/-- One key word from a state of the congruence: the state is folded onto its
middle bits and rotated right by its highest five. -/
def keyWord (state : UInt64) : UInt32 :=
  let x := (((state >>> 18) ^^^ state) >>> 27).toUInt32
  let k := (state >>> 59).toUInt32
  (x >>> k) ||| (x <<< ((32 - k) % 32))

/-- The key for a seed: one word from each of the first eight states after the
seed. -/
def keyOfSeed (seed : UInt64) : Vector UInt32 8 :=
  Vector.ofFn fun i => keyWord (Nat.repeat stretch (i.val + 1) seed)

end KeyStream

/-- A source of random bytes: a key, and how many words of its stream have been
taken. -/
structure Generator where
  key : Vector UInt32 8
  taken : Nat := 0
  deriving DecidableEq, Repr

namespace Generator

/-- The source for a seed. -/
def ofSeed (seed : UInt64) : Generator where
  key := KeyStream.keyOfSeed seed

/-- The next random byte, the low byte of the next word, and the source behind
it. -/
def next (g : Generator) : UInt8 × Generator :=
  ((KeyStream.word g.key g.taken).toUInt8, { g with taken := g.taken + 1 })

end Generator

end Chip8
