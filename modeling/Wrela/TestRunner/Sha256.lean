import Wrela.Data.SecureHash
import Wrela.PackageLoader.Sha256

/-!
# The runner's hash of staged inputs

The test runner measures what it stages with a hash of its own, whose buffer is a whole block with
a count of the bytes in use.  It follows the loader's hash step by step, and both are the
standard's.
-/

namespace Wrela.TestRunner

open List Wrela.BuildModel Wrela.PackageLoader Wrela.Wire

/-- `buffer[start..][..bytes.len()].copy_from_slice(bytes)` -/
def copyInto (buffer : List UInt8) (start : ℕ) (bytes : List UInt8) : List UInt8 :=
  buffer.take start ++ bytes ++ buffer.drop (start + bytes.length)

/-- The compression function and its constants are the loader's, word for word. -/
structure Sha256 where
  state : List UInt32
  buffer : List UInt8
  bufferLen : ℕ
  totalBytes : ℕ
  state_length : state.length = 8

namespace Sha256

def new : Sha256 := ⟨initialState, List.replicate 64 0, 0, 0, length_initialState⟩

/-- The whole blocks of the bytes, and what is left of them into the front of the buffer. -/
def updateBlocks (digest : Sha256) (bytes : List UInt8) : Sha256 :=
  let count := bytes.length / 64
  let rest := bytes.drop (64 * count)
  { digest with
    state := compressBlocks count digest.state bytes
    buffer := if rest.isEmpty then digest.buffer else copyInto digest.buffer 0 rest
    bufferLen := if rest.isEmpty then digest.bufferLen else rest.length
    state_length := by rw [length_compressBlocks, digest.state_length] }

def update (digest : Sha256) (bytes : List UInt8) : Sha256 :=
  let totalBytes := digest.totalBytes + bytes.length
  if digest.bufferLen = 0 then
    updateBlocks { digest with totalBytes } bytes
  else
    let take := min (64 - digest.bufferLen) bytes.length
    let finish := digest.bufferLen + take
    let buffer := copyInto digest.buffer digest.bufferLen (bytes.take take)
    if finish = 64 then
      updateBlocks ⟨compress digest.state buffer, buffer, 0, totalBytes,
        (length_compress _ _).trans digest.state_length⟩ (bytes.drop take)
    else updateBlocks ⟨digest.state, buffer, finish, totalBytes, digest.state_length⟩
      (bytes.drop take)

/-- A buffer filled with zeros from one position to another. -/
def fill (buffer : List UInt8) (start stop : ℕ) : List UInt8 :=
  copyInto buffer start (List.replicate (stop - start) 0)

def finish (digest : Sha256) : Sha256Digest :=
  let bitLength := (leBytes 8 (digest.totalBytes * 8)).reverse
  let buffer := copyInto digest.buffer digest.bufferLen [0x80]
  let bufferLen := digest.bufferLen + 1
  let closed :=
    if 56 < bufferLen then
      compress (compress digest.state (fill buffer bufferLen 64))
        (copyInto (fill (List.replicate 64 0) 0 56) 56 bitLength)
    else compress digest.state (copyInto (fill buffer bufferLen 56) 56 bitLength)
  ⟨closed.flatMap fun word ↦ (leBytes 4 word.toNat).reverse, by
    have hclosed : closed.length = 8 := by
      unfold closed
      split <;> simp [length_compress, digest.state_length]
    simp [length_flatMap, hclosed]⟩

end Sha256

inductive CopyError
  | lengthOverflowed
  | exceedsSealedLength

/-- The reads of a staged file, up to the empty one that ends it, each counted and then hashed. -/
def copyAndMeasure (expectedBytes : UInt64) : List (List UInt8) → ℕ → Sha256 →
    Except CopyError (ℕ × Sha256Digest)
  | [], total, digest => .ok (total, digest.finish)
  | read :: reads, total, digest =>
    if read.isEmpty then .ok (total, digest.finish)
    else if 2 ^ 64 ≤ total + read.length then .error .lengthOverflowed
    else if expectedBytes.toNat < total + read.length then .error .exceedsSealedLength
    else copyAndMeasure expectedBytes reads (total + read.length) (digest.update read)

theorem copyInto_append (front stale bytes : List UInt8) :
    copyInto (front ++ stale) front.length bytes = front ++ bytes ++ stale.drop bytes.length := by
  rw [copyInto, take_left' rfl, ← drop_drop, drop_left' rfl]

namespace Sha256

/-- The bytes in use are the loader's buffer, whatever is left over behind them. -/
structure Follows (digest : Sha256) (loader : SoftwareSha256State) : Prop where
  state : digest.state = loader.state
  buffer : ∃ stale, digest.buffer = loader.buffer ++ stale
  block : digest.buffer.length = 64
  bufferLen : digest.bufferLen = loader.buffer.length
  totalBytes : digest.totalBytes = loader.totalBytes

theorem new_follows : new.Follows .new :=
  ⟨rfl, ⟨List.replicate 64 0, rfl⟩, length_replicate, rfl, rfl⟩

variable {digest : Sha256} {loader : SoftwareSha256State}

theorem updateBlocks_follows {totalBytes : ℕ} {state : List UInt32}
    (htotal : digest.totalBytes = totalBytes) (hdigest : digest.state = state)
    (hempty : digest.bufferLen = 0) (hblock : digest.buffer.length = 64) (hstate : state.length = 8)
    (bytes : List UInt8) : (digest.updateBlocks bytes).Follows
      (SoftwareSha256State.updateBlocks totalBytes state hstate bytes) := by
  subst htotal hdigest
  have hrest : (bytes.drop (64 * (bytes.length / 64))).length < 64 := by
    rw [length_drop]
    omega
  by_cases h : bytes.drop (64 * (bytes.length / 64)) = []
  · constructor <;> simp [updateBlocks, SoftwareSha256State.updateBlocks, h, hempty, hblock]
  · have hcopy := copyInto_append [] digest.buffer (bytes.drop (64 * (bytes.length / 64)))
    simp only [nil_append, length_nil] at hcopy
    constructor <;> simp only [updateBlocks, SoftwareSha256State.updateBlocks, List.isEmpty_iff, h,
      if_false, hcopy]
    · exact ⟨_, rfl⟩
    · rw [length_append, length_drop (l := digest.buffer)]
      omega

theorem updateBlocks_nil (digest : Sha256) : digest.updateBlocks [] = digest := by
  simp [updateBlocks, compressBlocks]

theorem update_follows (h : digest.Follows loader) (bytes : List UInt8) :
    (digest.update bytes).Follows (loader.updateBytes bytes) := by
  obtain ⟨stale, hstale⟩ := h.buffer
  have hshort := loader.buffer_length
  have hblock := h.block
  rw [hstale, length_append] at hblock
  have htotal : digest.totalBytes + bytes.length = loader.totalBytes + bytes.length := by
    rw [h.totalBytes]
  unfold update SoftwareSha256State.updateBytes
  by_cases hempty : loader.buffer = []
  · have hzero : digest.bufferLen = 0 := by rw [h.bufferLen, hempty, length_nil]
    rw [if_pos hzero, if_pos (List.isEmpty_iff.2 hempty)]
    exact @updateBlocks_follows ⟨_, _, _, _, digest.state_length⟩ _ _ htotal h.state hzero h.block
      _ _
  · have hzero : digest.bufferLen ≠ 0 := by rwa [h.bufferLen, Ne, length_eq_zero_iff]
    rw [if_neg hzero, if_neg (mt List.isEmpty_iff.1 hempty)]
    obtain ⟨taken, htaken⟩ : ∃ taken, taken = min (64 - loader.buffer.length) bytes.length :=
      ⟨_, rfl⟩
    have hlength : (bytes.take taken).length = taken := by
      rw [List.length_take]
      omega
    have hcopy : copyInto digest.buffer loader.buffer.length (bytes.take taken) =
        loader.buffer ++ bytes.take taken ++ stale.drop taken := by
      rw [hstale, copyInto_append, hlength]
    have hsize : (loader.buffer ++ bytes.take taken ++ stale.drop taken).length = 64 := by
      simp only [length_append, hlength, length_drop]
      omega
    simp only [h.bufferLen, ← htaken, hcopy, length_append, hlength]
    by_cases hfull : loader.buffer.length + taken = 64
    · have hnone : stale.drop taken = [] := drop_eq_nil_of_le (by omega)
      rw [if_pos hfull, dif_neg (by omega)]
      refine @updateBlocks_follows ⟨_, _, _, _, _⟩ _ _ htotal ?_ rfl hsize _ _
      simp only [h.state, hnone, append_nil]
    · have hnone : bytes.drop taken = [] := drop_eq_nil_of_le (by omega)
      rw [if_neg hfull, dif_pos (by omega), hnone, updateBlocks_nil]
      exact ⟨h.state, ⟨_, rfl⟩, hsize, by simp only [length_append, hlength], htotal⟩

theorem foldl_update_follows (h : digest.Follows loader) (chunks : List (List UInt8)) :
    (chunks.foldl update digest).Follows (chunks.foldl .updateBytes loader) := by
  induction chunks generalizing digest loader with
  | nil => exact h
  | cons chunk chunks ih => exact ih (update_follows h chunk)

theorem fill_append (front stale : List UInt8) (stop : ℕ) :
    fill (front ++ stale) front.length stop =
      front ++ List.replicate (stop - front.length) 0 ++ stale.drop (stop - front.length) := by
  rw [fill, copyInto_append, length_replicate]

theorem finish_eq_finalize (h : digest.Follows loader) : digest.finish = loader.finalize := by
  obtain ⟨stale, hstale⟩ := h.buffer
  have hshort := loader.buffer_length
  have hblock := h.block
  rw [hstale, length_append] at hblock
  have hmarked : copyInto digest.buffer loader.buffer.length [0x80] =
      loader.buffer ++ [0x80] ++ stale.drop 1 := by
    rw [hstale, copyInto_append, length_singleton]
  have hfill (stop : ℕ) (h : loader.buffer.length < stop) :
      fill (loader.buffer ++ [0x80] ++ stale.drop 1) (loader.buffer.length + 1) stop =
        loader.buffer ++ [0x80] ++ List.replicate (stop - (loader.buffer.length + 1)) 0 ++
          stale.drop (stop - loader.buffer.length) := by
    have hlength : (loader.buffer ++ [(0x80 : UInt8)]).length = loader.buffer.length + 1 := by simp
    rw [← hlength, fill_append, drop_drop, hlength]
    congr 2
    omega
  have hlast (front back : List UInt8) (hfront : front.length = 56) (hback : back.length = 8) :
      copyInto (front ++ back) 56 (leBytes 8 (loader.totalBytes * 8)).reverse =
        front ++ (leBytes 8 (loader.totalBytes * 8)).reverse := by
    rw [← hfront, copyInto_append, length_reverse, length_leBytes,
      drop_eq_nil_of_le hback.le, append_nil]
  simp only [finish, SoftwareSha256State.finalize, h.bufferLen, h.totalBytes, h.state, hmarked,
    length_append, length_singleton]
  by_cases hlong : 56 < loader.buffer.length + 1
  · have hzeros : fill (List.replicate 64 0) 0 56 = List.replicate 56 0 ++ List.replicate 8 0 := rfl
    have hnone : stale.drop (64 - loader.buffer.length) = [] := drop_eq_nil_of_le (by omega)
    simp only [if_pos hlong, hfill 64 hshort, hnone, append_nil, hzeros,
      hlast (List.replicate 56 0) (List.replicate 8 0) length_replicate length_replicate]
  · have hfront : (loader.buffer ++ [0x80] ++
        List.replicate (56 - (loader.buffer.length + 1)) 0).length = 56 := by
      simp only [length_append, length_replicate, length_singleton]
      omega
    have hback : (stale.drop (56 - loader.buffer.length)).length = 8 := by
      rw [length_drop]
      omega
    simp only [if_neg hlong, hfill 56 (by omega), hlast _ _ hfront hback]

/-- What stands before the empty read that ends a file is measured like one update with it. -/
theorem toOption_copyAndMeasure (h : total ≤ expectedBytes.toNat) (reads : List (List UInt8))
    (digest : Sha256) :
    (copyAndMeasure expectedBytes reads total digest).toOption =
      let chunks := reads.takeWhile fun read ↦ !read.isEmpty
      if total + chunks.flatten.length ≤ expectedBytes.toNat then
        some (total + chunks.flatten.length, (chunks.foldl update digest).finish)
      else none := by
  have hsealed := expectedBytes.toNat_lt
  induction reads generalizing total digest with
  | nil => simp [copyAndMeasure, Except.toOption, h]
  | cons read reads ih =>
    by_cases hread : read = []
    · simp [copyAndMeasure, Except.toOption, hread, h]
    have htake : (read :: reads).takeWhile (fun read ↦ !read.isEmpty) =
        read :: reads.takeWhile fun read ↦ !read.isEmpty := by
      simp [hread]
    simp only [copyAndMeasure, List.isEmpty_iff, hread, if_false, htake, flatten_cons,
      length_append, foldl_cons, ← Nat.add_assoc]
    by_cases hfits : total + read.length ≤ expectedBytes.toNat
    · rw [if_neg (by omega), if_neg (by omega), ih hfits]
    · rw [if_neg (c := total + read.length + _ ≤ _) (by omega)]
      split
      · rfl
      · rw [if_pos (by omega)]
        rfl

end Sha256

theorem toBytes_eq (width value : ℕ) :
    SecureHash.toBytes width value = (leBytes width value).reverse := by
  induction width generalizing value with
  | zero => rfl
  | succ width ih => rw [SecureHash.toBytes, leBytes, reverse_cons, ih]

theorem ofBytes_eq (bytes : List UInt8) : SecureHash.ofBytes bytes = leValue bytes.reverse := by
  induction bytes using List.reverseRecOn with
  | nil => rfl
  | append_singleton bytes byte ih =>
    rw [SecureHash.ofBytes, foldl_append, reverse_append, ← SecureHash.ofBytes, ih]
    exact Nat.add_comm _ _

theorem blockWords_eq (block : List UInt8) (count : ℕ) (start : ℕ) :
    blockWords count (block.drop (4 * start)) = (List.range' start count).map fun t ↦
      UInt32.ofNat (SecureHash.ofBytes ((block.drop (4 * t)).take 4)) := by
  induction count generalizing start with
  | zero => rfl
  | succ count ih =>
    rw [blockWords, range'_succ, map_cons, wordOfBytes, ofBytes_eq, drop_drop, ← ih, Nat.mul_succ]

theorem extendSchedule_eq {word : ℕ → UInt32} (hword : ∀ t, 16 ≤ t →
      word t = SecureHash.smallSigma1 (word (t - 2)) + word (t - 7) +
        SecureHash.smallSigma0 (word (t - 15)) + word (t - 16))
    (count : ℕ) {length : ℕ} (h : 16 ≤ length) :
    extendSchedule count ((List.range length).map word) =
      (List.range (length + count)).map word := by
  induction count generalizing length with
  | zero => rfl
  | succ count ih =>
    have hback (back : ℕ) (hpos : 0 < back) :
        ((List.range length).map word).getD (length - back) 0 = word (length - back) := by
      rw [getD_eq_getElem?_getD, List.getElem?_map, List.getElem?_range (by omega)]
      rfl
    have hnext : (List.range (length + 1)).map word =
        (List.range length).map word ++ [word length] := by
      rw [range_succ, map_append]
      rfl
    have hterms (w2 w7 w15 w16 : UInt32) :
        w16 + (rotateRight w15 7 ^^^ rotateRight w15 18 ^^^ (w15 >>> 3)) + w7 +
            (rotateRight w2 17 ^^^ rotateRight w2 19 ^^^ (w2 >>> 10)) =
          SecureHash.smallSigma1 w2 + w7 + SecureHash.smallSigma0 w15 + w16 := by
      change w16 + SecureHash.smallSigma0 w15 + w7 + SecureHash.smallSigma1 w2 = _
      ac_rfl
    rw [extendSchedule, Nat.add_comm count, ← Nat.add_assoc, ← ih (by omega), hnext, hword _ h]
    dsimp only
    rw [length_map, length_range, hback 2 (by decide), hback 7 (by decide),
      hback 15 (by decide), hback 16 (by decide), hterms]

theorem compressRound_words (working : SecureHash.HashValue) (constant word : UInt32) :
    compressRound working.words (constant, word) =
      (SecureHash.round working constant word).words := rfl

theorem roundConstants_eq : roundConstants = (List.range 64).map SecureHash.roundConstant := by
  have hroots : roundConstants = SecureHash.primes.map (SecureHash.rootFraction 3) := by
    decide +kernel
  rw [hroots]
  apply ext_getElem
  · rw [length_map, SecureHash.length_primes, length_map, length_range]
  · intro t ht _
    rw [length_map] at ht
    simp [SecureHash.roundConstant, ht]

theorem initialState_eq : initialState = SecureHash.initial.words := by decide +kernel

theorem compress_words (value : SecureHash.HashValue) (block : List UInt8) :
    compress value.words block = (SecureHash.compress value block).words := by
  have hschedule : extendSchedule 48 (blockWords 16 block) =
      (List.range 64).map (SecureHash.schedule block) := by
    have hwords := blockWords_eq block 16 0
    have hblock : (List.range' 0 16).map (fun t ↦
        UInt32.ofNat (SecureHash.ofBytes ((block.drop (4 * t)).take 4))) =
          (List.range 16).map (SecureHash.schedule block) := by
      rw [range_eq_range']
      apply map_congr_left
      intro t ht
      rw [SecureHash.schedule, if_pos (by simpa using ht)]
    rw [Nat.mul_zero, drop_zero, hblock] at hwords
    rw [hwords, extendSchedule_eq _ 48 (le_refl 16)]
    intro t ht
    rw [SecureHash.schedule, if_neg (by omega)]
  have hrounds (rounds : List ℕ) (working : SecureHash.HashValue) :
      (rounds.map fun t ↦ (SecureHash.roundConstant t, SecureHash.schedule block t)).foldl
          compressRound working.words =
        (rounds.foldl (fun working t ↦ SecureHash.round working (SecureHash.roundConstant t)
          (SecureHash.schedule block t)) working).words := by
    induction rounds generalizing working with
    | nil => rfl
    | cons t rounds ih =>
      rw [map_cons, foldl_cons, compressRound_words, ih, foldl_cons]
  rw [compress, hschedule, roundConstants_eq, zip_map', hrounds]
  rfl

theorem compressBlocks_words (count : ℕ) (value : SecureHash.HashValue) (bytes : List UInt8) :
    compressBlocks count value.words bytes =
      ((SecureHash.blocks count bytes).foldl SecureHash.compress value).words := by
  induction count generalizing value bytes with
  | zero => rfl
  | succ count ih => rw [compressBlocks, compress_words, ih, SecureHash.blocks, foldl_cons]

/-- The padding of the standard is what closes the buffer of a message's last bytes. -/
theorem finalize_updateBlocks (message : List UInt8) (state : List UInt32) (h : state.length = 8) :
    (SoftwareSha256State.updateBlocks message.length state h message).finalize.bytes =
      (compressBlocks ((SecureHash.pad message).length / 64) state
        (SecureHash.pad message)).flatMap fun word ↦ (leBytes 4 word.toNat).reverse := by
  have hwhole : 64 * (message.length / 64) ≤ message.length := Nat.mul_div_le _ _
  have hcount : (SecureHash.pad message).length / 64 = (message.length + 72) / 64 := by
    rw [SecureHash.pad, length_append, SecureHash.length_padding,
      Nat.mul_div_cancel_left _ (by decide)]
  have hbits : SecureHash.toBytes 8 (8 * message.length) =
      (leBytes 8 (message.length * 8)).reverse := by
    rw [toBytes_eq, Nat.mul_comm]
  obtain ⟨held, hheld⟩ : ∃ held, held = message.drop (64 * (message.length / 64)) := ⟨_, rfl⟩
  have hlength : held.length = message.length % 64 := by
    rw [hheld, length_drop]
    omega
  have hblocks (more : ℕ) :
      compressBlocks (message.length / 64 + more) state (SecureHash.pad message) =
        compressBlocks more (compressBlocks (message.length / 64) state message)
          (held ++ SecureHash.padding message.length) := by
    rw [compressBlocks_add, SecureHash.pad, compressBlocks_append hwhole,
      drop_append_of_le_length hwhole, hheld]
  simp only [SoftwareSha256State.finalize, SoftwareSha256State.updateBlocks, hcount, ← hheld,
    length_append, length_singleton]
  congr 1
  by_cases hlong : 56 < held.length + 1
  · have hmore : (message.length + 72) / 64 = message.length / 64 + 2 := by omega
    have hpadded : held ++ SecureHash.padding message.length =
        (held ++ [0x80] ++ List.replicate (64 - (held.length + 1)) 0) ++
          (List.replicate 56 0 ++ (leBytes 8 (message.length * 8)).reverse) := by
      have hzeros : (119 - message.length % 64) % 64 = 64 - (held.length + 1) + 56 := by omega
      rw [SecureHash.padding, hbits, hzeros, replicate_add]
      simp only [append_assoc, cons_append, nil_append]
    have hblock : (held ++ [0x80] ++ List.replicate (64 - (held.length + 1)) 0).length = 64 := by
      simp only [length_append, length_replicate, length_singleton]
      omega
    rw [if_pos hlong, hmore, hblocks, hpadded, compressBlocks, take_left' hblock,
      drop_left' hblock, compressBlocks, take_of_length_le (by simp)]
    rfl
  · have hmore : (message.length + 72) / 64 = message.length / 64 + 1 := by omega
    have hpadded : held ++ SecureHash.padding message.length =
        held ++ [0x80] ++ List.replicate (56 - (held.length + 1)) 0 ++
          (leBytes 8 (message.length * 8)).reverse := by
      have hzeros : (119 - message.length % 64) % 64 = 56 - (held.length + 1) := by omega
      rw [SecureHash.padding, hbits, hzeros]
      simp only [append_assoc, cons_append, nil_append]
    rw [if_neg hlong, hmore, hblocks, hpadded, compressBlocks, take_of_length_le]
    · rfl
    · simp only [length_append, length_replicate, length_singleton, length_reverse, length_leBytes]
      omega

theorem softwareSha256_standard (message : List UInt8) :
    (softwareSha256 message).bytes = SecureHash.sha256 message := by
  simp only [softwareSha256, SoftwareSha256State.updateBytes_eq_updateBlocks,
    SoftwareSha256State.new, nil_append, Nat.zero_add, finalize_updateBlocks]
  simp only [initialState_eq, compressBlocks_words, SecureHash.sha256, toBytes_eq]

/-- However an input is split, the loader's state comes to the one update with all of it. -/
theorem foldl_updateBytes (digest : SoftwareSha256State) (chunks : List (List UInt8)) :
    chunks.foldl .updateBytes digest = digest.updateBytes chunks.flatten := by
  induction chunks generalizing digest with
  | nil =>
    exact @SoftwareSha256State.updateChunks_eq_updateBytes 0 0 [] (by simp) digest
  | cons chunk chunks ih =>
    rw [foldl_cons, ih, SoftwareSha256State.updateBytes_append, flatten_cons]

/-- Both hashes are SHA-256 of what their updates were given, however it was split into chunks, and
staging a file measures the digest that the loader computed. -/
theorem sha256_standard (chunks : List (List UInt8)) (expectedBytes : UInt64) :
    (softwareSha256 chunks.flatten).bytes = SecureHash.sha256 chunks.flatten ∧
    sha256Cancellable chunks.flatten = softwareSha256 chunks.flatten ∧
    (chunks.foldl .updateBytes SoftwareSha256State.new).finalize = softwareSha256 chunks.flatten ∧
    (chunks.foldl .update Sha256.new).finish = softwareSha256 chunks.flatten ∧
    (copyAndMeasure expectedBytes chunks 0 .new).toOption =
      let contents := (chunks.takeWhile fun read ↦ !read.isEmpty).flatten
      if contents.length ≤ expectedBytes.toNat then
        some (contents.length, softwareSha256 contents)
      else none := by
  have hloader (chunks : List (List UInt8)) :
      (chunks.foldl .updateBytes SoftwareSha256State.new).finalize =
        softwareSha256 chunks.flatten := by
    rw [foldl_updateBytes, softwareSha256]
  have hrunner (chunks : List (List UInt8)) :
      (chunks.foldl .update Sha256.new).finish = softwareSha256 chunks.flatten := by
    rw [Sha256.finish_eq_finalize (Sha256.foldl_update_follows Sha256.new_follows chunks), hloader]
  refine ⟨softwareSha256_standard _, sha256Cancellable_eq _, hloader chunks, hrunner chunks, ?_⟩
  simp only [Sha256.toOption_copyAndMeasure (Nat.zero_le _), Nat.zero_add, hrunner]

end Wrela.TestRunner
