/-! # Random words

A stream of 32-bit words fixed by a 64-bit seed: the keystream of the ChaCha stream cipher with
twelve rounds, a zero nonce and a block counter from zero, under a key expanded from the seed by a
linear congruential generator with permuted output. -/
namespace Chip8

def rotateLeft (w n : UInt32) : UInt32 := w <<< n ||| w >>> (32 - n)

def rotateRight (w n : UInt32) : UInt32 := w >>> n ||| w <<< ((32 - n) % 32)

namespace ChaCha

abbrev Block := Vector UInt32 16

abbrev CipherKey := Vector UInt32 8

instance : OfNat CipherKey 0 := ⟨.replicate 8 0⟩

def quarterRound (s : Block) (a b c d : Fin 16) : Block :=
  let s := s.set a (s[a] + s[b])
  let s := s.set d (rotateLeft (s[d] ^^^ s[a]) 16)
  let s := s.set c (s[c] + s[d])
  let s := s.set b (rotateLeft (s[b] ^^^ s[c]) 12)
  let s := s.set a (s[a] + s[b])
  let s := s.set d (rotateLeft (s[d] ^^^ s[a]) 8)
  let s := s.set c (s[c] + s[d])
  s.set b (rotateLeft (s[b] ^^^ s[c]) 7)

/-- The columns, then the diagonals. -/
def doubleRound (s : Block) : Block :=
  let s := quarterRound s 0 4 8 12
  let s := quarterRound s 1 5 9 13
  let s := quarterRound s 2 6 10 14
  let s := quarterRound s 3 7 11 15
  let s := quarterRound s 0 5 10 15
  let s := quarterRound s 1 6 11 12
  let s := quarterRound s 2 7 8 13
  quarterRound s 3 4 9 14

def rounds : Nat → Block → Block
  | 0, s => s
  | n + 1, s => rounds n (doubleRound s)

def start (key : CipherKey) (counter : UInt64) : Block :=
  #v[0x61707865, 0x3320646e, 0x79622d32, 0x6b206574,
    key[0], key[1], key[2], key[3], key[4], key[5], key[6], key[7],
    counter.toUInt32, (counter >>> 32).toUInt32, 0, 0]

def block (key : CipherKey) (counter : UInt64) : Block :=
  let s := start key counter
  (rounds 6 s).zipWith (· + ·) s

end ChaCha

structure Generator where
  key : ChaCha.CipherKey
  /-- How many words have been taken from the stream. -/
  drawn : Nat
  deriving DecidableEq

namespace Generator

def advanceSeed (s : UInt64) : UInt64 := s * 6364136223846793005 + 11634580027462260723

def permuteSeed (s : UInt64) : UInt32 :=
  rotateRight (((s >>> 18) ^^^ s) >>> 27).toUInt32 (s >>> 59).toUInt32

def seedWord (seed : UInt64) : Nat → UInt32
  | n => permuteSeed (Nat.repeat advanceSeed (n + 1) seed)

def ofSeed (seed : UInt64) : Generator := ⟨Vector.ofFn fun i => seedWord seed i.val, 0⟩

/-- A generator without a seed takes a whole key, of 256 bits. -/
def new (seed : Option UInt64) (key : ChaCha.CipherKey) : Generator :=
  match seed with
  | some seed => ofSeed seed
  | none => ⟨key, 0⟩

instance : Inhabited Generator := ⟨ofSeed 0⟩

/-- The words of the stream, numbered from zero. -/
def word (key : ChaCha.CipherKey) (n : Nat) : UInt32 :=
  (ChaCha.block key (UInt64.ofNat (n / 16)))[n % 16]

def next (g : Generator) : UInt32 × Generator :=
  (word g.key g.drawn, { g with drawn := g.drawn + 1 })

end Generator
end Chip8
