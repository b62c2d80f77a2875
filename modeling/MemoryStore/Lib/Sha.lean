/-
SHA-256 over the bytes of a text, in lower-case hex (FIPS 180-4). Words are
natural numbers below 2 ^ 32, so that the kernel computes a digest with its own
arithmetic: the runs on fixed inputs in this development use real digests.
-/
import Mathlib

namespace Sha256

/-- The eight working variables. -/
structure Words where
  a : ℕ
  b : ℕ
  c : ℕ
  d : ℕ
  e : ℕ
  f : ℕ
  g : ℕ
  h : ℕ

/-- The initial hash value. -/
def initial : Words :=
  ⟨0x6a09e667, 0xbb67ae85, 0x3c6ef372, 0xa54ff53a, 0x510e527f, 0x9b05688c, 0x1f83d9ab, 0x5be0cd19⟩

def roundConstants : List ℕ :=
  [0x428a2f98, 0x71374491, 0xb5c0fbcf, 0xe9b5dba5, 0x3956c25b, 0x59f111f1, 0x923f82a4, 0xab1c5ed5,
   0xd807aa98, 0x12835b01, 0x243185be, 0x550c7dc3, 0x72be5d74, 0x80deb1fe, 0x9bdc06a7, 0xc19bf174,
   0xe49b69c1, 0xefbe4786, 0x0fc19dc6, 0x240ca1cc, 0x2de92c6f, 0x4a7484aa, 0x5cb0a9dc, 0x76f988da,
   0x983e5152, 0xa831c66d, 0xb00327c8, 0xbf597fc7, 0xc6e00bf3, 0xd5a79147, 0x06ca6351, 0x14292967,
   0x27b70a85, 0x2e1b2138, 0x4d2c6dfc, 0x53380d13, 0x650a7354, 0x766a0abb, 0x81c2c92e, 0x92722c85,
   0xa2bfe8a1, 0xa81a664b, 0xc24b8b70, 0xc76c51a3, 0xd192e819, 0xd6990624, 0xf40e3585, 0x106aa070,
   0x19a4c116, 0x1e376c08, 0x2748774c, 0x34b0bcb5, 0x391c0cb3, 0x4ed8aa4a, 0x5b9cca4f, 0x682e6ff3,
   0x748f82ee, 0x78a5636f, 0x84c87814, 0x8cc70208, 0x90befffa, 0xa4506ceb, 0xbef9a3f7, 0xc67178f2]

def rotr (n x : ℕ) : ℕ := x >>> n ||| (x <<< (32 - n)) % 2 ^ 32

/-- The next word of the message schedule, from the words so far, newest first. -/
def nextWord (words : List ℕ) : ℕ :=
  let w2 := words.getD 1 0
  let w15 := words.getD 14 0
  let s0 := rotr 7 w15 ^^^ rotr 18 w15 ^^^ w15 >>> 3
  let s1 := rotr 17 w2 ^^^ rotr 19 w2 ^^^ w2 >>> 10
  (words.getD 15 0 + s0 + words.getD 6 0 + s1) % 2 ^ 32

def schedule : ℕ → List ℕ → List ℕ
  | 0, words => words
  | n + 1, words => schedule n (nextWord words :: words)

/-- One round, with its constant and its word of the schedule. -/
def round (v : Words) (kw : ℕ × ℕ) : Words :=
  let s1 := rotr 6 v.e ^^^ rotr 11 v.e ^^^ rotr 25 v.e
  let ch := (v.e &&& v.f) ^^^ ((2 ^ 32 - 1 - v.e) &&& v.g)
  let t1 := v.h + s1 + ch + kw.1 + kw.2
  let s0 := rotr 2 v.a ^^^ rotr 13 v.a ^^^ rotr 22 v.a
  let maj := (v.a &&& v.b) ^^^ (v.a &&& v.c) ^^^ (v.b &&& v.c)
  ⟨(t1 + s0 + maj) % 2 ^ 32, v.a, v.b, v.c, (v.d + t1) % 2 ^ 32, v.e, v.f, v.g⟩

/-- The compression of one block of sixteen words. -/
def compress (v : Words) (block : List ℕ) : Words :=
  let t := (roundConstants.zip (schedule 48 block.reverse).reverse).foldl round v
  let add (x y : ℕ) : ℕ := (x + y) % 2 ^ 32
  ⟨add v.a t.a, add v.b t.b, add v.c t.c, add v.d t.d, add v.e t.e, add v.f t.f, add v.g t.g, add v.h t.h⟩

/-- The first `n` blocks of a message. -/
def compressBlocks : ℕ → List ℕ → Words → Words
  | 0, _, v => v
  | n + 1, words, v => compressBlocks n (words.drop 16) (compress v (words.take 16))

/-- The last `k` digits of a number in base 256, most significant first. -/
def bigEndian : ℕ → ℕ → List ℕ
  | 0, _ => []
  | k + 1, n => n / 256 ^ k % 256 :: bigEndian k n

/-- A one bit, zeros to 56 bytes modulo 64, and the length in bits. -/
def pad (bytes : List ℕ) : List ℕ :=
  bytes ++ 0x80 :: (List.replicate ((119 - bytes.length % 64) % 64) 0 ++ bigEndian 8 (8 * bytes.length))

def toWords : List ℕ → List ℕ
  | a :: b :: c :: d :: rest => (((a * 256 + b) * 256 + c) * 256 + d) :: toWords rest
  | _ => []

def hexDigit (n : ℕ) : Char := if n < 10 then Char.ofNat (48 + n) else Char.ofNat (87 + n)

def hexWord (word : ℕ) : List Char :=
  (bigEndian 4 word).flatMap fun byte => [hexDigit (byte / 16), hexDigit (byte % 16)]

/-- The digest of the UTF-8 bytes of a text. -/
def sha256Hex (text : String) : String :=
  let words := toWords (pad (text.toUTF8.data.toList.map UInt8.toNat))
  let v := compressBlocks (words.length / 16) words initial
  String.ofList ([v.a, v.b, v.c, v.d, v.e, v.f, v.g, v.h].flatMap hexWord)

/-- The digest of some bytes. -/
def digestHex (bytes : List ℕ) : List Char :=
  let words := toWords (pad bytes)
  let v := compressBlocks (words.length / 16) words initial
  [v.a, v.b, v.c, v.d, v.e, v.f, v.g, v.h].flatMap hexWord

set_option maxRecDepth 20000 in
example : sha256Hex "abc" = "ba7816bf8f01cfea414140de5dae2223b00361a396177a9cb410ff61f20015ad" := by decide +kernel

end Sha256

/-!
SHA-1 over some bytes, in lower-case hex (FIPS 180-4). Words and padding are
those of SHA-256.
-/

namespace Sha1

/-- The five working variables. -/
structure Words where
  a : ℕ
  b : ℕ
  c : ℕ
  d : ℕ
  e : ℕ

/-- The initial hash value. -/
def initial : Words := ⟨0x67452301, 0xefcdab89, 0x98badcfe, 0x10325476, 0xc3d2e1f0⟩

def rotl (n x : ℕ) : ℕ := Sha256.rotr (32 - n) x

/-- The message schedule, newest word first. -/
def schedule : ℕ → List ℕ → List ℕ
  | 0, words => words
  | n + 1, words =>
    schedule n (rotl 1 (words.getD 2 0 ^^^ words.getD 7 0 ^^^ words.getD 13 0 ^^^ words.getD 15 0) :: words)

/-- The function and the constant of a round. -/
def choice (t : ℕ) (v : Words) : ℕ × ℕ :=
  if t < 20 then ((v.b &&& v.c) ^^^ ((2 ^ 32 - 1 - v.b) &&& v.d), 0x5a827999)
  else if t < 40 then (v.b ^^^ v.c ^^^ v.d, 0x6ed9eba1)
  else if t < 60 then ((v.b &&& v.c) ^^^ (v.b &&& v.d) ^^^ (v.c &&& v.d), 0x8f1bbcdc)
  else (v.b ^^^ v.c ^^^ v.d, 0xca62c1d6)

/-- One round, with its word of the schedule and its number. -/
def round (v : Words) (wt : ℕ × ℕ) : Words :=
  let (f, k) := choice wt.2 v
  ⟨(rotl 5 v.a + f + v.e + k + wt.1) % 2 ^ 32, v.a, rotl 30 v.b, v.c, v.d⟩

/-- The compression of one block of sixteen words. -/
def compress (v : Words) (block : List ℕ) : Words :=
  let t := ((schedule 64 block.reverse).reverse.zip (List.range 80)).foldl round v
  let add (x y : ℕ) : ℕ := (x + y) % 2 ^ 32
  ⟨add v.a t.a, add v.b t.b, add v.c t.c, add v.d t.d, add v.e t.e⟩

/-- The first `n` blocks of a message. -/
def compressBlocks : ℕ → List ℕ → Words → Words
  | 0, _, v => v
  | n + 1, words, v => compressBlocks n (words.drop 16) (compress v (words.take 16))

/-- The digest of some bytes. -/
def digestHex (bytes : List ℕ) : List Char :=
  let words := Sha256.toWords (Sha256.pad bytes)
  let v := compressBlocks (words.length / 16) words initial
  [v.a, v.b, v.c, v.d, v.e].flatMap Sha256.hexWord

set_option maxRecDepth 20000 in
example : digestHex [97, 98, 99] = "a9993e364706816aba3e25717850c26c9cd0d89d".toList := by decide +kernel

end Sha1
