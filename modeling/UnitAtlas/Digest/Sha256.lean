-- The SHA-256 digest of a byte string, as FIPS 180-4 defines it.

namespace UnitAtlas.Sha256

/-! ## Words -/

abbrev Word := UInt32

/-- The word turned right by `n` bits, 0 < `n` < 32. -/
def rotateRight (x : Word) (n : Word) : Word := (x >>> n) ||| (x <<< (32 - n))

def choose (x y z : Word) : Word := (x &&& y) ^^^ (~~~x &&& z)
def majority (x y z : Word) : Word := (x &&& y) ^^^ (x &&& z) ^^^ (y &&& z)
def bigSigma0 (x : Word) : Word := rotateRight x 2 ^^^ rotateRight x 13 ^^^ rotateRight x 22
def bigSigma1 (x : Word) : Word := rotateRight x 6 ^^^ rotateRight x 11 ^^^ rotateRight x 25
def smallSigma0 (x : Word) : Word := rotateRight x 7 ^^^ rotateRight x 18 ^^^ (x >>> 3)
def smallSigma1 (x : Word) : Word := rotateRight x 17 ^^^ rotateRight x 19 ^^^ (x >>> 10)

/-- The round constants: 32 bits of the fractions of the cube roots of the first 64 primes. -/
def roundConstants : List Word := [
  0x428a2f98, 0x71374491, 0xb5c0fbcf, 0xe9b5dba5, 0x3956c25b, 0x59f111f1, 0x923f82a4, 0xab1c5ed5,
  0xd807aa98, 0x12835b01, 0x243185be, 0x550c7dc3, 0x72be5d74, 0x80deb1fe, 0x9bdc06a7, 0xc19bf174,
  0xe49b69c1, 0xefbe4786, 0x0fc19dc6, 0x240ca1cc, 0x2de92c6f, 0x4a7484aa, 0x5cb0a9dc, 0x76f988da,
  0x983e5152, 0xa831c66d, 0xb00327c8, 0xbf597fc7, 0xc6e00bf3, 0xd5a79147, 0x06ca6351, 0x14292967,
  0x27b70a85, 0x2e1b2138, 0x4d2c6dfc, 0x53380d13, 0x650a7354, 0x766a0abb, 0x81c2c92e, 0x92722c85,
  0xa2bfe8a1, 0xa81a664b, 0xc24b8b70, 0xc76c51a3, 0xd192e819, 0xd6990624, 0xf40e3585, 0x106aa070,
  0x19a4c116, 0x1e376c08, 0x2748774c, 0x34b0bcb5, 0x391c0cb3, 0x4ed8aa4a, 0x5b9cca4f, 0x682e6ff3,
  0x748f82ee, 0x78a5636f, 0x84c87814, 0x8cc70208, 0x90befffa, 0xa4506ceb, 0xbef9a3f7, 0xc67178f2]

/-- The running state: eight words. -/
structure State where
  a : Word
  b : Word
  c : Word
  d : Word
  e : Word
  f : Word
  g : Word
  h : Word

/-- Where every digest starts: the fractions of the square roots of the first eight primes. -/
def State.initial : State :=
  ⟨0x6a09e667, 0xbb67ae85, 0x3c6ef372, 0xa54ff53a, 0x510e527f, 0x9b05688c, 0x1f83d9ab, 0x5be0cd19⟩

def State.add (s t : State) : State :=
  ⟨s.a + t.a, s.b + t.b, s.c + t.c, s.d + t.d, s.e + t.e, s.f + t.f, s.g + t.g, s.h + t.h⟩

/-! ## One block -/

/-- The four bytes of a word, the high one first. -/
def wordBytes (w : Word) : List UInt8 :=
  [(w >>> 24).toUInt8, (w >>> 16).toUInt8, (w >>> 8).toUInt8, w.toUInt8]

/-- Bytes taken four by four as words. -/
def words : List UInt8 → List Word
  | a :: b :: c :: d :: rest =>
    ((a.toUInt32 <<< 24) ||| (b.toUInt32 <<< 16) ||| (c.toUInt32 <<< 8) ||| d.toUInt32)
      :: words rest
  | _ => []

/-- The schedule's next word, from the words so far. -/
def nextWord (w : Array Word) : Word :=
  let back (n : Nat) : Word := w.getD (w.size - n) 0
  smallSigma1 (back 2) + back 7 + smallSigma0 (back 15) + back 16

/-- The 64 words of a block of 16. -/
def schedule (block : List Word) : List Word :=
  ((List.range 48).foldl (fun w _ => w.push (nextWord w)) block.toArray).toList

/-- One round: `k` is the round constant and `w` the scheduled word. -/
def round (s : State) (k w : Word) : State :=
  let t1 := s.h + bigSigma1 s.e + choose s.e s.f s.g + k + w
  let t2 := bigSigma0 s.a + majority s.a s.b s.c
  ⟨t1 + t2, s.a, s.b, s.c, s.d + t1, s.e, s.f, s.g⟩

/-- The state after a block of 16 words. -/
def compress (s : State) (block : List Word) : State :=
  s.add ((roundConstants.zip (schedule block)).foldl (fun s kw => round s kw.1 kw.2) s)

/-! ## The whole message -/

/-- The eight bytes of a length in bits, the high one first. -/
def lengthBytes (bits : Nat) : List UInt8 :=
  (List.range 8).map fun i => (bits >>> (8 * (7 - i))).toUInt8

/-- The message with a single one bit, zeros and its length behind it: whole blocks. -/
def padded (message : List UInt8) : List UInt8 :=
  let zeros := (119 - message.length % 64) % 64
  message ++ 0x80 :: (List.replicate zeros 0 ++ lengthBytes (8 * message.length))

/-- The blocks of a word list, 16 words each; `fuel` bounds their number. -/
def blocks : Nat → List Word → List (List Word)
  | 0, _ => []
  | _, [] => []
  | fuel + 1, w :: ws => (w :: ws).take 16 :: blocks fuel ((w :: ws).drop 16)

/-- The 32 bytes of the digest. -/
def digest (message : List UInt8) : List UInt8 :=
  let ws := words (padded message)
  let s := (blocks ws.length ws).foldl compress State.initial
  [s.a, s.b, s.c, s.d, s.e, s.f, s.g, s.h].flatMap wordBytes

end UnitAtlas.Sha256
