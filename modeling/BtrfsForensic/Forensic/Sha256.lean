import BtrfsForensic.Core.Bytes

namespace BtrfsForensic

/-! The auditor's own SHA-256, rendered as lower-case hexadecimal. -/

namespace Sha256

def k : Vector UInt32 64 := #v[
  0x428a2f98, 0x71374491, 0xb5c0fbcf, 0xe9b5dba5,
  0x3956c25b, 0x59f111f1, 0x923f82a4, 0xab1c5ed5,
  0xd807aa98, 0x12835b01, 0x243185be, 0x550c7dc3,
  0x72be5d74, 0x80deb1fe, 0x9bdc06a7, 0xc19bf174,
  0xe49b69c1, 0xefbe4786, 0x0fc19dc6, 0x240ca1cc,
  0x2de92c6f, 0x4a7484aa, 0x5cb0a9dc, 0x76f988da,
  0x983e5152, 0xa831c66d, 0xb00327c8, 0xbf597fc7,
  0xc6e00bf3, 0xd5a79147, 0x06ca6351, 0x14292967,
  0x27b70a85, 0x2e1b2138, 0x4d2c6dfc, 0x53380d13,
  0x650a7354, 0x766a0abb, 0x81c2c92e, 0x92722c85,
  0xa2bfe8a1, 0xa81a664b, 0xc24b8b70, 0xc76c51a3,
  0xd192e819, 0xd6990624, 0xf40e3585, 0x106aa070,
  0x19a4c116, 0x1e376c08, 0x2748774c, 0x34b0bcb5,
  0x391c0cb3, 0x4ed8aa4a, 0x5b9cca4f, 0x682e6ff3,
  0x748f82ee, 0x78a5636f, 0x84c87814, 0x8cc70208,
  0x90befffa, 0xa4506ceb, 0xbef9a3f7, 0xc67178f2]

def initial : Vector UInt32 8 := #v[
  0x6a09e667, 0xbb67ae85, 0x3c6ef372, 0xa54ff53a,
  0x510e527f, 0x9b05688c, 0x1f83d9ab, 0x5be0cd19]

def rotateRight (word : UInt32) (count : UInt32) : UInt32 :=
  (word >>> count) ||| (word <<< (32 - count))

/-- `while msg.len() % 64 != 56`: at most 63 zeros are pushed. -/
def padZeros : (fuel : Nat) → Bytes → Bytes
  | 0, msg => msg
  | fuel + 1, msg =>
      if msg.length % 64 ≠ 56 then padZeros fuel (msg ++ [0]) else msg

def pad (data : Bytes) : Bytes :=
  let bitLen := (data.length * 8) % 2 ^ 64
  padZeros 64 (data ++ [0x80]) ++ (encodeLE 8 bitLen).reverse

theorem padZeros_eq {fuel : Nat} {msg : Bytes}
    (enough : (120 - msg.length % 64) % 64 ≤ fuel) :
    padZeros fuel msg = msg ++ List.replicate ((120 - msg.length % 64) % 64) 0 := by
  induction fuel generalizing msg with
  | zero =>
      rw [Nat.le_zero.mp enough, List.replicate_zero, List.append_nil]
      rfl
  | succ fuel induction =>
      rw [padZeros]
      split
      case isTrue short =>
        have rest : (120 - msg.length % 64) % 64 =
            (120 - (msg ++ [0]).length % 64) % 64 + 1 := by
          rw [List.length_append, List.length_singleton]
          omega
        rw [induction (by omega), rest, List.replicate_succ, List.append_assoc]
        rfl
      case isFalse done =>
        rw [not_not.mp done, List.replicate_zero, List.append_nil]

theorem length_pad_mod (data : Bytes) : (pad data).length % 64 = 0 := by
  rw [pad, padZeros_eq (by omega)]
  simp only [List.length_append, List.length_replicate, List.length_reverse, length_encodeLE]
  omega

def word (chunk : Bytes) (index : Nat) : UInt32 :=
  UInt32.ofNat (decodeLE ((chunk.drop (index * 4)).take 4).reverse)

def schedule (chunk : Bytes) : Vector UInt32 64 :=
  (List.range 48).foldl (fun w step =>
      let i := step + 16
      let w15 := w[i - 15]!
      let w2 := w[i - 2]!
      let s0 := rotateRight w15 7 ^^^ rotateRight w15 18 ^^^ (w15 >>> 3)
      let s1 := rotateRight w2 17 ^^^ rotateRight w2 19 ^^^ (w2 >>> 10)
      w.set! i (w[i - 16]! + s0 + w[i - 7]! + s1))
    (Vector.ofFn fun index =>
      if index.val < 16 then word chunk index.val else 0)

/-- One round; the working words are moved in place, the last one first. -/
def round (w : Vector UInt32 64) (v : Vector UInt32 8) (i : Nat) :
    Vector UInt32 8 :=
  let s1 := rotateRight v[4] 6 ^^^ rotateRight v[4] 11 ^^^ rotateRight v[4] 25
  let ch := (v[4] &&& v[5]) ^^^ (~~~v[4] &&& v[6])
  let t1 := v[7] + s1 + ch + k[i]! + w[i]!
  let s0 := rotateRight v[0] 2 ^^^ rotateRight v[0] 13 ^^^ rotateRight v[0] 22
  let maj := (v[0] &&& v[1]) ^^^ (v[0] &&& v[2]) ^^^ (v[1] &&& v[2])
  let t2 := s0 + maj
  let v := v.set 7 v[6]
  let v := v.set 6 v[5]
  let v := v.set 5 v[4]
  let v := v.set 4 (v[3] + t1)
  let v := v.set 3 v[2]
  let v := v.set 2 v[1]
  let v := v.set 1 v[0]
  v.set 0 (t1 + t2)

def compress (h : Vector UInt32 8) (chunk : Bytes) : Vector UInt32 8 :=
  let w := schedule chunk
  let v := (List.range 64).foldl (round w) h
  Vector.zipWith (· + ·) h v

/-- `msg.chunks_exact(64)`. -/
def chunks (msg : Bytes) : List Bytes :=
  (List.range (msg.length / 64)).map fun index =>
    (msg.drop (index * 64)).take 64

def hexDigit (value : Nat) : Char :=
  if value < 10 then Char.ofNat (48 + value) else Char.ofNat (87 + value)

/-- `{x:08x}`. -/
def hexWord (word : UInt32) : List Char :=
  (List.range 8).map fun index =>
    hexDigit (word.toNat / 16 ^ (7 - index) % 16)

end Sha256

def sha256Hex (data : Bytes) : String :=
  let h := (Sha256.chunks (Sha256.pad data)).foldl Sha256.compress Sha256.initial
  String.ofList (h.toList.flatMap Sha256.hexWord)

end BtrfsForensic
