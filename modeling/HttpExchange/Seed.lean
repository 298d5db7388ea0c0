import HttpExchange.Bytes

/-!
# The chain of seeds

Every handshake takes one step along a chain of seeds. The step keys the ChaCha20 stream
with the seed, at block counter and nonce zero; the first eight bytes of the stream are
the next seed and the thirty-two after them are the entropy of the handshake.

The key stream is the one that OpenSSL 3.0.18 gives for ChaCha20: twenty rounds, a key of 256 bits,
and an initial vector that holds the block counter and the nonce.
-/

namespace HttpExchange

namespace ChaCha20

abbrev Block := Vector UInt32 16

def rotate (x : UInt32) (n : UInt32) : UInt32 := (x <<< n) ||| (x >>> (32 - n))

def quarterRound (s : Block) (a b c d : Fin 16) : Block :=
  let s := s.set a (s[a] + s[b])
  let s := s.set d (rotate (s[d] ^^^ s[a]) 16)
  let s := s.set c (s[c] + s[d])
  let s := s.set b (rotate (s[b] ^^^ s[c]) 12)
  let s := s.set a (s[a] + s[b])
  let s := s.set d (rotate (s[d] ^^^ s[a]) 8)
  let s := s.set c (s[c] + s[d])
  s.set b (rotate (s[b] ^^^ s[c]) 7)

/-- Four rounds on the columns and four on the diagonals. -/
def doubleRound (s : Block) : Block :=
  let s := quarterRound s 0 4 8 12
  let s := quarterRound s 1 5 9 13
  let s := quarterRound s 2 6 10 14
  let s := quarterRound s 3 7 11 15
  let s := quarterRound s 0 5 10 15
  let s := quarterRound s 1 6 11 12
  let s := quarterRound s 2 7 8 13
  quarterRound s 3 4 9 14

/-- The bytes of a word, the lowest first. -/
def wordBytes (w : UInt32) : Bytes :=
  [w.toUInt8, (w >>> 8).toUInt8, (w >>> 16).toUInt8, (w >>> 24).toUInt8]

/-- One block of the key stream. -/
def keyStream (initial : Block) : Bytes :=
  let mixed := Nat.repeat doubleRound 10 initial
  (mixed.zipWith (· + ·) initial).toList.flatMap wordBytes

end ChaCha20

namespace Seed

structure Step where
  next : UInt64
  entropy : Bytes
deriving DecidableEq, Repr

/-- The constants of the cipher, then the seed as a key with zeros behind it; counter and
nonce are zero. -/
def block (seed : UInt64) : ChaCha20.Block :=
  #v[0x61707865, 0x3320646e, 0x79622d32, 0x6b206574,
    seed.toUInt32, (seed >>> 32).toUInt32, 0, 0,
    0, 0, 0, 0,
    0, 0, 0, 0]

/-- The number whose lowest byte stands first. -/
def littleEndian (s : Bytes) : UInt64 := s.foldr (fun b n => n * 256 + b.toUInt64) 0

def step (seed : UInt64) : Step :=
  let stream := ChaCha20.keyStream (block seed)
  ⟨littleEndian (stream.take 8), (stream.drop 8).take 32⟩

/-- The steps that follow a seed. -/
def chain (seed : UInt64) : Nat → List Step
  | 0 => []
  | n + 1 => step seed :: chain (step seed).next n

end Seed

end HttpExchange
