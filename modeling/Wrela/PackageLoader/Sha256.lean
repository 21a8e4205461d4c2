import Wrela.BuildModel.Profile
import Wrela.Wire.Number

/-!
# Software SHA-256

The hash of declared inputs, and its incremental state.  A state never holds a whole block: whatever
fills the buffer is compressed at once.
-/

namespace Wrela.PackageLoader

open List Wrela.BuildModel Wrela.Wire

def initialState : List UInt32 := [
  0x6a09e667, 0xbb67ae85, 0x3c6ef372, 0xa54ff53a, 0x510e527f, 0x9b05688c, 0x1f83d9ab, 0x5be0cd19]

theorem length_initialState : initialState.length = 8 := rfl

def roundConstants : List UInt32 := [
  0x428a2f98, 0x71374491, 0xb5c0fbcf, 0xe9b5dba5, 0x3956c25b, 0x59f111f1, 0x923f82a4, 0xab1c5ed5,
  0xd807aa98, 0x12835b01, 0x243185be, 0x550c7dc3, 0x72be5d74, 0x80deb1fe, 0x9bdc06a7, 0xc19bf174,
  0xe49b69c1, 0xefbe4786, 0x0fc19dc6, 0x240ca1cc, 0x2de92c6f, 0x4a7484aa, 0x5cb0a9dc, 0x76f988da,
  0x983e5152, 0xa831c66d, 0xb00327c8, 0xbf597fc7, 0xc6e00bf3, 0xd5a79147, 0x06ca6351, 0x14292967,
  0x27b70a85, 0x2e1b2138, 0x4d2c6dfc, 0x53380d13, 0x650a7354, 0x766a0abb, 0x81c2c92e, 0x92722c85,
  0xa2bfe8a1, 0xa81a664b, 0xc24b8b70, 0xc76c51a3, 0xd192e819, 0xd6990624, 0xf40e3585, 0x106aa070,
  0x19a4c116, 0x1e376c08, 0x2748774c, 0x34b0bcb5, 0x391c0cb3, 0x4ed8aa4a, 0x5b9cca4f, 0x682e6ff3,
  0x748f82ee, 0x78a5636f, 0x84c87814, 0x8cc70208, 0x90befffa, 0xa4506ceb, 0xbef9a3f7, 0xc67178f2]

def rotateRight (word count : UInt32) : UInt32 := (word >>> count) ||| (word <<< (32 - count))

def wordOfBytes (bytes : List UInt8) : UInt32 := UInt32.ofNat (leValue bytes.reverse)

/-- The first sixteen words of the schedule are the block itself, big-endian. -/
def blockWords : ℕ → List UInt8 → List UInt32
  | 0, _ => []
  | count + 1, block => wordOfBytes (block.take 4) :: blockWords count (block.drop 4)

/-- Each further word is made from the sixteen before it. -/
def extendSchedule : ℕ → List UInt32 → List UInt32
  | 0, schedule => schedule
  | count + 1, schedule =>
    let word (back : ℕ) := schedule.getD (schedule.length - back) 0
    let s0 := rotateRight (word 15) 7 ^^^ rotateRight (word 15) 18 ^^^ (word 15 >>> 3)
    let s1 := rotateRight (word 2) 17 ^^^ rotateRight (word 2) 19 ^^^ (word 2 >>> 10)
    extendSchedule count (schedule ++ [word 16 + s0 + word 7 + s1])

def compressRound (working : List UInt32) : UInt32 × UInt32 → List UInt32
  | (constant, word) =>
    match working with
    | [a, b, c, d, e, f, g, h] =>
      let sum1 := rotateRight e 6 ^^^ rotateRight e 11 ^^^ rotateRight e 25
      let choice := (e &&& f) ^^^ (~~~e &&& g)
      let temporary1 := h + sum1 + choice + constant + word
      let sum0 := rotateRight a 2 ^^^ rotateRight a 13 ^^^ rotateRight a 22
      let majority := (a &&& b) ^^^ (a &&& c) ^^^ (b &&& c)
      let temporary2 := sum0 + majority
      [temporary1 + temporary2, a, b, c, d + temporary1, e, f, g]
    | _ => working

def compress (state : List UInt32) (block : List UInt8) : List UInt32 :=
  let schedule := extendSchedule 48 (blockWords 16 block)
  List.zipWith (· + ·) state ((roundConstants.zip schedule).foldl compressRound state)

theorem length_compressRound (working : List UInt32) (round : UInt32 × UInt32) :
    (compressRound working round).length = working.length := by
  unfold compressRound
  split
  split <;> simp

theorem length_compress (state : List UInt32) (block : List UInt8) :
    (compress state block).length = state.length := by
  have hrounds (rounds : List (UInt32 × UInt32)) (working : List UInt32) :
      (rounds.foldl compressRound working).length = working.length := by
    induction rounds generalizing working with
    | nil => rfl
    | cons round rounds ih => rw [foldl_cons, ih, length_compressRound]
  simp [compress, hrounds]

/-- Compress so many blocks from the front of the input. -/
def compressBlocks : ℕ → List UInt32 → List UInt8 → List UInt32
  | 0, state, _ => state
  | count + 1, state, bytes => compressBlocks count (compress state (bytes.take 64)) (bytes.drop 64)

theorem length_compressBlocks (count : ℕ) (state : List UInt32) (bytes : List UInt8) :
    (compressBlocks count state bytes).length = state.length := by
  induction count generalizing state bytes with
  | zero => rfl
  | succ count ih => rw [compressBlocks, ih, length_compress]

theorem compressBlocks_add (first second : ℕ) (state : List UInt32) (bytes : List UInt8) :
    compressBlocks (first + second) state bytes =
      compressBlocks second (compressBlocks first state bytes) (bytes.drop (64 * first)) := by
  induction first generalizing state bytes with
  | zero => simp [compressBlocks]
  | succ first ih =>
    have hdrop : (bytes.drop 64).drop (64 * first) = bytes.drop (64 * (first + 1)) := by
      rw [drop_drop]
      congr 1
      omega
    rw [Nat.succ_add, compressBlocks, ih, hdrop]
    rfl

theorem compressBlocks_append {count : ℕ} {front : List UInt8} (h : 64 * count ≤ front.length)
    (state : List UInt32) (back : List UInt8) :
    compressBlocks count state (front ++ back) = compressBlocks count state front := by
  induction count generalizing state front with
  | zero => rfl
  | succ count ih =>
    have hblock : 64 ≤ front.length := by omega
    rw [compressBlocks, take_append_of_le_length hblock, drop_append_of_le_length hblock,
      ih (by rw [length_drop]; omega)]
    rfl

@[ext]
structure SoftwareSha256State where
  state : List UInt32
  buffer : List UInt8
  totalBytes : ℕ
  state_length : state.length = 8
  buffer_length : buffer.length < 64

namespace SoftwareSha256State

def new : SoftwareSha256State := ⟨initialState, [], 0, length_initialState, by decide⟩

/-- The blocks of the bytes after the buffer, and the remainder into the buffer. -/
def updateBlocks (totalBytes : ℕ) (state : List UInt32) (state_length : state.length = 8)
    (bytes : List UInt8) : SoftwareSha256State where
  state := compressBlocks (bytes.length / 64) state bytes
  buffer := bytes.drop (64 * (bytes.length / 64))
  totalBytes := totalBytes
  state_length := by rw [length_compressBlocks, state_length]
  buffer_length := by
    rw [length_drop]
    omega

/-- A buffer that stays short of a block takes the bytes; one that fills is compressed first. -/
def updateBytes (digest : SoftwareSha256State) (bytes : List UInt8) : SoftwareSha256State :=
  let totalBytes := digest.totalBytes + bytes.length
  if digest.buffer.isEmpty then
    updateBlocks totalBytes digest.state digest.state_length bytes
  else
    let take := min (64 - digest.buffer.length) bytes.length
    let buffer := digest.buffer ++ bytes.take take
    if h : buffer.length < 64 then
      ⟨digest.state, buffer, totalBytes, digest.state_length, h⟩
    else
      updateBlocks totalBytes (compress digest.state buffer)
        ((length_compress _ _).trans digest.state_length) (bytes.drop take)

/-- The closing padding: a marker bit, zeros, and the length in bits. -/
def finalize (digest : SoftwareSha256State) : Sha256Digest :=
  let bitLength := (leBytes 8 (digest.totalBytes * 8)).reverse
  let buffer := digest.buffer ++ [0x80]
  let closed :=
    if 56 < buffer.length then
      compress (compress digest.state (buffer ++ List.replicate (64 - buffer.length) 0))
        (List.replicate 56 0 ++ bitLength)
    else compress digest.state (buffer ++ List.replicate (56 - buffer.length) 0 ++ bitLength)
  ⟨closed.flatMap fun word ↦ (leBytes 4 word.toNat).reverse, by
    have hclosed : closed.length = 8 := by
      unfold closed
      split <;> simp [length_compress, digest.state_length]
    simp [length_flatMap, hclosed]⟩

end SoftwareSha256State

/-- The hash of a whole input in one update. -/
def softwareSha256 (bytes : List UInt8) : Sha256Digest :=
  (SoftwareSha256State.new.updateBytes bytes).finalize

namespace SoftwareSha256State

/-- Feed so many chunks of a size from the front of the input. -/
def updateChunks (size : ℕ) : ℕ → SoftwareSha256State → List UInt8 → SoftwareSha256State
  | 0, digest, _ => digest
  | count + 1, digest, bytes =>
    updateChunks size count (digest.updateBytes (bytes.take size)) (bytes.drop size)

end SoftwareSha256State

/-- The hash of an input that is fed in chunks of at most one mebibyte. -/
def sha256Cancellable (bytes : List UInt8) : Sha256Digest :=
  let size := 1024 * 1024
  (SoftwareSha256State.new.updateChunks size ((bytes.length + (size - 1)) / size) bytes).finalize

namespace SoftwareSha256State

theorem updateBlocks_of_length_lt (h : bytes.length < 64) (totalBytes : ℕ) (state : List UInt32)
    (hstate : state.length = 8) :
    updateBlocks totalBytes state hstate bytes = ⟨state, bytes, totalBytes, hstate, h⟩ := by
  have hcount : bytes.length / 64 = 0 := Nat.div_eq_of_lt h
  ext1
  · simp only [updateBlocks, hcount]
    rfl
  · simp only [updateBlocks, hcount]
    rfl
  · rfl

theorem updateBlocks_block (h : block.length = 64) (totalBytes : ℕ) (state : List UInt32)
    (hstate : state.length = 8) (rest : List UInt8) :
    updateBlocks totalBytes state hstate (block ++ rest) =
      updateBlocks totalBytes (compress state block) ((length_compress _ _).trans hstate) rest := by
  have hcount : (block ++ rest).length / 64 = rest.length / 64 + 1 := by
    rw [length_append, h]
    omega
  ext1
  · simp only [updateBlocks]
    rw [hcount, compressBlocks, take_left' h, drop_left' h]
  · simp only [updateBlocks]
    rw [hcount, Nat.mul_succ, Nat.add_comm, ← drop_drop, drop_left' h]
  · rfl

/-- However an update is carried out, it compresses the blocks of buffer and input together. -/
theorem updateBytes_eq_updateBlocks (digest : SoftwareSha256State) (bytes : List UInt8) :
    digest.updateBytes bytes =
      updateBlocks (digest.totalBytes + bytes.length) digest.state digest.state_length
        (digest.buffer ++ bytes) := by
  have hbuffer := digest.buffer_length
  unfold updateBytes
  split
  · rename_i hempty
    rw [List.isEmpty_iff] at hempty
    simp only [hempty, nil_append]
  · dsimp only
    have hsplit (taken : ℕ) : digest.buffer ++ bytes =
        (digest.buffer ++ bytes.take taken) ++ bytes.drop taken := by
      rw [append_assoc, take_append_drop]
    split
    · rename_i hshort
      have htake : bytes.take (min (64 - digest.buffer.length) bytes.length) = bytes := by
        rw [length_append, List.length_take] at hshort
        rw [take_eq_self_iff]
        omega
      have hheld : (digest.buffer ++ bytes).length < 64 := by rwa [htake] at hshort
      rw [updateBlocks_of_length_lt hheld]
      simp only [htake]
    · rename_i hfull
      have hblock : (digest.buffer ++
          bytes.take (min (64 - digest.buffer.length) bytes.length)).length = 64 := by
        rw [length_append, List.length_take] at hfull ⊢
        omega
      simp only [hsplit (min (64 - digest.buffer.length) bytes.length)]
      rw [updateBlocks_block hblock]

theorem updateBytes_append (digest : SoftwareSha256State) (front back : List UInt8) :
    (digest.updateBytes front).updateBytes back = digest.updateBytes (front ++ back) := by
  simp only [updateBytes_eq_updateBlocks]
  set held := digest.buffer ++ front with hheld
  have hfront : 64 * (held.length / 64) ≤ held.length := Nat.mul_div_le _ _
  have hassoc : digest.buffer ++ (front ++ back) = held ++ back := by
    rw [hheld, append_assoc]
  have hcount : (held ++ back).length / 64 =
      held.length / 64 + (held.drop (64 * (held.length / 64)) ++ back).length / 64 := by
    simp only [length_append, length_drop]
    omega
  ext1
  · simp only [updateBlocks, hassoc]
    rw [hcount, compressBlocks_add, compressBlocks_append hfront, drop_append_of_le_length hfront]
  · simp only [updateBlocks, hassoc]
    rw [hcount, Nat.mul_add, ← drop_drop, drop_append_of_le_length hfront]
  · simp only [updateBlocks, length_append]
    omega

theorem updateChunks_eq_updateBytes {size count : ℕ} {bytes : List UInt8}
    (h : bytes.length ≤ size * count) (digest : SoftwareSha256State) :
    digest.updateChunks size count bytes = digest.updateBytes bytes := by
  induction count generalizing digest bytes with
  | zero =>
    have hempty : bytes = [] := eq_nil_of_length_eq_zero (by omega)
    have hnone : digest.buffer.length / 64 = 0 := by
      have hbuffer := digest.buffer_length
      omega
    rw [hempty, updateBytes_eq_updateBlocks]
    ext1 <;> simp [updateChunks, updateBlocks, hnone, compressBlocks]
  | succ count ih =>
    have hrest : (bytes.drop size).length ≤ size * count := by
      rw [length_drop]
      rw [Nat.mul_succ] at h
      omega
    rw [updateChunks, ih hrest, updateBytes_append, take_append_drop]

end SoftwareSha256State

/-- The chunks an input is fed in leave no trace in its hash. -/
theorem sha256Cancellable_eq (bytes : List UInt8) :
    sha256Cancellable bytes = softwareSha256 bytes := by
  rw [sha256Cancellable, softwareSha256, SoftwareSha256State.updateChunks_eq_updateBytes]
  omega

example : (softwareSha256 (utf8Bytes "abc")).bytes = [
    0xba, 0x78, 0x16, 0xbf, 0x8f, 0x01, 0xcf, 0xea, 0x41, 0x41, 0x40, 0xde, 0x5d, 0xae, 0x22, 0x23,
    0xb0, 0x03, 0x61, 0xa3, 0x96, 0x17, 0x7a, 0x9c, 0xb4, 0x10, 0xff, 0x61, 0xf2, 0x00, 0x15,
    0xad] := by
  decide +kernel

end Wrela.PackageLoader
