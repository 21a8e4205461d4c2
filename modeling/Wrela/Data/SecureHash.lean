import Mathlib.Algebra.Group.Nat.Defs
import Mathlib.Data.Nat.NthRoot.Defs

/-!
# The secure hash standard

SHA-256 of a byte string as FIPS 180-4 defines it: constants taken from the roots of the first
primes, padding to whole blocks, the message schedule by its recurrence, sixty-four rounds and the
chain of hash values.
-/

namespace Wrela.SecureHash

/-- The first 64 primes, up to 311: below 19 ^ 2 a composite number has a factor of at most 17. -/
def primes : List ℕ :=
  (List.range' 2 310).filter fun value ↦
    [2, 3, 5, 7, 11, 13, 17].all fun factor ↦ value == factor || value % factor != 0

/-- The first 32 bits of the fractional part of a root of a number. -/
def rootFraction (degree value : ℕ) : UInt32 :=
  UInt32.ofNat (Nat.nthRoot degree (value * 2 ^ (32 * degree)))

def roundConstant (t : ℕ) : UInt32 := rootFraction 3 (primes.getD t 0)

theorem length_primes : primes.length = 64 := by decide +kernel

def rotateRight (count word : UInt32) : UInt32 := (word >>> count) ||| (word <<< (32 - count))

def choice (x y z : UInt32) : UInt32 := (x &&& y) ^^^ (~~~x &&& z)

def majority (x y z : UInt32) : UInt32 := (x &&& y) ^^^ (x &&& z) ^^^ (y &&& z)

def bigSigma0 (x : UInt32) : UInt32 := rotateRight 2 x ^^^ rotateRight 13 x ^^^ rotateRight 22 x

def bigSigma1 (x : UInt32) : UInt32 := rotateRight 6 x ^^^ rotateRight 11 x ^^^ rotateRight 25 x

def smallSigma0 (x : UInt32) : UInt32 := rotateRight 7 x ^^^ rotateRight 18 x ^^^ (x >>> 3)

def smallSigma1 (x : UInt32) : UInt32 := rotateRight 17 x ^^^ rotateRight 19 x ^^^ (x >>> 10)

/-- The value of bytes whose most significant comes first. -/
def ofBytes (bytes : List UInt8) : ℕ := bytes.foldl (fun value byte ↦ 256 * value + byte.toNat) 0

/-- The bytes of a value of a width, most significant first. -/
def toBytes : ℕ → ℕ → List UInt8
  | 0, _ => []
  | width + 1, value => toBytes width (value / 256) ++ [UInt8.ofNat value]

@[simp]
theorem length_toBytes (width value : ℕ) : (toBytes width value).length = width := by
  induction width generalizing value with
  | zero => rfl
  | succ width ih => simp [toBytes, ih]

structure HashValue where
  a : UInt32
  b : UInt32
  c : UInt32
  d : UInt32
  e : UInt32
  f : UInt32
  g : UInt32
  h : UInt32

def HashValue.words (value : HashValue) : List UInt32 :=
  [value.a, value.b, value.c, value.d, value.e, value.f, value.g, value.h]

/-- Sixteen words of the block, and each further word from the sixteen before it. -/
def schedule (block : List UInt8) (t : ℕ) : UInt32 :=
  if t < 16 then UInt32.ofNat (ofBytes ((block.drop (4 * t)).take 4))
  else smallSigma1 (schedule block (t - 2)) + schedule block (t - 7) +
    smallSigma0 (schedule block (t - 15)) + schedule block (t - 16)

def round (working : HashValue) (constant word : UInt32) : HashValue :=
  let ⟨a, b, c, d, e, f, g, h⟩ := working
  let temporary1 := h + bigSigma1 e + choice e f g + constant + word
  let temporary2 := bigSigma0 a + majority a b c
  ⟨temporary1 + temporary2, a, b, c, d + temporary1, e, f, g⟩

def addWords (first second : HashValue) : HashValue :=
  ⟨first.a + second.a, first.b + second.b, first.c + second.c, first.d + second.d,
    first.e + second.e, first.f + second.f, first.g + second.g, first.h + second.h⟩

def compress (value : HashValue) (block : List UInt8) : HashValue :=
  let rounds := (List.range 64).foldl (fun working t ↦
    round working (roundConstant t) (schedule block t)) value
  addWords value rounds

/-- The hash value that stands before the first block. -/
def initial : HashValue :=
  let word (t : ℕ) : UInt32 := rootFraction 2 (primes.getD t 0)
  ⟨word 0, word 1, word 2, word 3, word 4, word 5, word 6, word 7⟩

/-- A marker bit, the fewest zeros that leave eight bytes of a block, and the length in bits. -/
def padding (length : ℕ) : List UInt8 :=
  0x80 :: (List.replicate ((119 - length % 64) % 64) 0 ++ toBytes 8 (8 * length))

theorem length_padding (length : ℕ) :
    length + (padding length).length = 64 * ((length + 72) / 64) := by
  simp only [padding, List.length_cons, List.length_append, List.length_replicate, length_toBytes]
  omega

def pad (message : List UInt8) : List UInt8 := message ++ padding message.length

/-- So many blocks from the front of the bytes. -/
def blocks : ℕ → List UInt8 → List (List UInt8)
  | 0, _ => []
  | count + 1, bytes => bytes.take 64 :: blocks count (bytes.drop 64)

/-- The digest of a message; the standard asks for fewer than 2 ^ 61 bytes. -/
def sha256 (message : List UInt8) : List UInt8 :=
  let padded := pad message
  let value := (blocks (padded.length / 64) padded).foldl compress initial
  value.words.flatMap fun word ↦ toBytes 4 word.toNat

end Wrela.SecureHash
