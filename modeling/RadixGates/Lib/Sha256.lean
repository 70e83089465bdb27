import Mathlib.Init

/-!
# SHA-256

FIPS 180-4, section 6.2: a message is padded to blocks of sixteen words, and each
block is mixed into eight words of state.
-/

set_option autoImplicit false

namespace RadixGates.Sha256

def rotr (k : UInt32) (x : UInt32) : UInt32 := (x >>> k) ||| (x <<< (32 - k))

def ch (x y z : UInt32) : UInt32 := (x &&& y) ^^^ (~~~x &&& z)

def maj (x y z : UInt32) : UInt32 := (x &&& y) ^^^ (x &&& z) ^^^ (y &&& z)

def bigSigma0 (x : UInt32) : UInt32 := rotr 2 x ^^^ rotr 13 x ^^^ rotr 22 x

def bigSigma1 (x : UInt32) : UInt32 := rotr 6 x ^^^ rotr 11 x ^^^ rotr 25 x

def sigma0 (x : UInt32) : UInt32 := rotr 7 x ^^^ rotr 18 x ^^^ (x >>> 3)

def sigma1 (x : UInt32) : UInt32 := rotr 17 x ^^^ rotr 19 x ^^^ (x >>> 10)

/-- The first bits of the fractional parts of the cube roots of the first
sixty-four primes. -/
def roundConstants : List UInt32 :=
  [0x428a2f98, 0x71374491, 0xb5c0fbcf, 0xe9b5dba5, 0x3956c25b, 0x59f111f1, 0x923f82a4, 0xab1c5ed5,
    0xd807aa98, 0x12835b01, 0x243185be, 0x550c7dc3, 0x72be5d74, 0x80deb1fe, 0x9bdc06a7, 0xc19bf174,
    0xe49b69c1, 0xefbe4786, 0x0fc19dc6, 0x240ca1cc, 0x2de92c6f, 0x4a7484aa, 0x5cb0a9dc, 0x76f988da,
    0x983e5152, 0xa831c66d, 0xb00327c8, 0xbf597fc7, 0xc6e00bf3, 0xd5a79147, 0x06ca6351, 0x14292967,
    0x27b70a85, 0x2e1b2138, 0x4d2c6dfc, 0x53380d13, 0x650a7354, 0x766a0abb, 0x81c2c92e, 0x92722c85,
    0xa2bfe8a1, 0xa81a664b, 0xc24b8b70, 0xc76c51a3, 0xd192e819, 0xd6990624, 0xf40e3585, 0x106aa070,
    0x19a4c116, 0x1e376c08, 0x2748774c, 0x34b0bcb5, 0x391c0cb3, 0x4ed8aa4a, 0x5b9cca4f, 0x682e6ff3,
    0x748f82ee, 0x78a5636f, 0x84c87814, 0x8cc70208, 0x90befffa, 0xa4506ceb, 0xbef9a3f7, 0xc67178f2]

structure State where
  a : UInt32
  b : UInt32
  c : UInt32
  d : UInt32
  e : UInt32
  f : UInt32
  g : UInt32
  h : UInt32
  deriving DecidableEq, Repr

def State.initial : State :=
  ⟨0x6a09e667, 0xbb67ae85, 0x3c6ef372, 0xa54ff53a, 0x510e527f, 0x9b05688c, 0x1f83d9ab, 0x5be0cd19⟩

def State.add (s t : State) : State :=
  ⟨s.a + t.a, s.b + t.b, s.c + t.c, s.d + t.d, s.e + t.e, s.f + t.f, s.g + t.g, s.h + t.h⟩

def State.round (s : State) (constant word : UInt32) : State :=
  let t1 := s.h + bigSigma1 s.e + ch s.e s.f s.g + constant + word
  let t2 := bigSigma0 s.a + maj s.a s.b s.c
  ⟨t1 + t2, s.a, s.b, s.c, s.d + t1, s.e, s.f, s.g⟩

/-- The next word of the schedule, from the last sixteen. -/
def nextWord (words : List UInt32) : UInt32 :=
  sigma1 (words.getD 14 0) + words.getD 9 0 + sigma0 (words.getD 1 0) + words.getD 0 0

/-- The rounds of a block; the window holds the words of this and the next
fifteen rounds. -/
def rounds : List UInt32 → List UInt32 → State → State
  | [], _, s => s
  | constant :: rest, words, s =>
      rounds rest (words.drop 1 ++ [nextWord words]) (s.round constant (words.getD 0 0))

def State.block (s : State) (words : List UInt32) : State := s.add (rounds roundConstants words s)

def wordOf (bytes : List UInt8) : UInt32 :=
  bytes.foldl (fun word b => word <<< 8 ||| b.toUInt32) 0

def bytesOfWord (word : UInt32) : List UInt8 :=
  [(word >>> 24).toUInt8, (word >>> 16).toUInt8, (word >>> 8).toUInt8, word.toUInt8]

/-- The length of the message in bits, as the last eight bytes. -/
def lengthBytes (length : Nat) : List UInt8 :=
  (List.range 8).map fun k => UInt8.ofNat ((8 * length) >>> (8 * (7 - k)))

def padded (message : List UInt8) : List UInt8 :=
  message ++ 0x80 :: List.replicate ((119 - message.length % 64) % 64) 0 ++
    lengthBytes message.length

/-- The first pieces of this length. -/
def pieces (length : Nat) : (count : Nat) → List UInt8 → List (List UInt8)
  | 0, _ => []
  | count + 1, bytes => bytes.take length :: pieces length count (bytes.drop length)

def digest (message : List UInt8) : State :=
  let bytes := padded message
  (pieces 64 (bytes.length / 64) bytes).foldl
    (fun s block => s.block ((pieces 4 16 block).map wordOf)) State.initial

def sum256 (message : List UInt8) : List UInt8 :=
  let s := digest message
  [s.a, s.b, s.c, s.d, s.e, s.f, s.g, s.h].flatMap bytesOfWord

/-- Two lower-case digits a byte. -/
def hex (bytes : List UInt8) : String :=
  String.ofList (bytes.flatMap fun b => [Nat.digitChar (b.toNat / 16), Nat.digitChar (b.toNat % 16)])

example : hex (sum256 [97, 98, 99]) =
    "ba7816bf8f01cfea414140de5dae2223b00361a396177a9cb410ff61f20015ad" := by
  decide +kernel

end RadixGates.Sha256
