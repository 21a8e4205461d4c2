import Wrela.Wire.Program

/-!
# Fixed-width fields

Little-endian integers, raw byte runs and the accounting steps of a metered format, each with its
writer, its reader and the two relations between them.
-/

namespace Wrela.Wire

open List

variable {ε ε' μ α β : Type}

/-- The `count` low bytes of `value`, least significant first. -/
def leBytes : ℕ → ℕ → List UInt8
  | 0, _ => []
  | count + 1, value => UInt8.ofNat value :: leBytes count (value / 256)

def leValue : List UInt8 → ℕ
  | [] => 0
  | byte :: bytes => byte.toNat + 256 * leValue bytes

@[simp]
theorem length_leBytes (count value : ℕ) : (leBytes count value).length = count := by
  induction count generalizing value with
  | zero => rfl
  | succ count ih => simp [leBytes, ih]

theorem leValue_leBytes (count value : ℕ) : leValue (leBytes count value) = value % 256 ^ count := by
  induction count generalizing value with
  | zero => simp [leBytes, leValue, Nat.mod_one]
  | succ count ih =>
    have hbyte : (UInt8.ofNat value).toNat = value % 256 := by simp
    rw [leBytes, leValue, ih, hbyte, pow_succ, mul_comm (256 ^ count), Nat.mod_mul]

theorem leValue_lt (bytes : List UInt8) : leValue bytes < 256 ^ bytes.length := by
  induction bytes with
  | nil => simp [leValue]
  | cons byte bytes ih =>
    have hbyte := byte.toNat_lt
    simp only [leValue, length_cons, pow_succ]
    omega

theorem leBytes_leValue (bytes : List UInt8) : leBytes bytes.length (leValue bytes) = bytes := by
  induction bytes with
  | nil => rfl
  | cons byte bytes ih =>
    have hbyte := byte.toNat_lt
    have hhead : UInt8.ofNat (byte.toNat + 256 * leValue bytes) = byte := by
      apply UInt8.toNat_inj.1
      rw [UInt8.toNat_ofNat']
      omega
    have htail : (byte.toNat + 256 * leValue bytes) / 256 = leValue bytes := by omega
    rw [length_cons, leValue, leBytes, hhead, htail, ih]

/-- Append `bytes`, refusing to let the sink grow past `limit`. -/
def append (limit : ℕ) (tooLarge : ℕ → ε) (bytes : List UInt8) : Put ε μ Unit := fun sink ↦
  if sink.bytes.length + bytes.length ≤ limit then
    .ok ((), ⟨sink.bytes ++ bytes, sink.meter⟩)
  else .error (tooLarge (sink.bytes.length + bytes.length))

/-- Consume exactly `count` bytes. -/
def take (short : ε) (count : ℕ) : Get ε μ (List UInt8) := fun source ↦
  if count ≤ source.rest.length then
    .ok (source.rest.take count, ⟨source.rest.drop count, source.meter⟩)
  else .error short

variable {bytes : List UInt8} {r : Get ε' μ α}

variable {sink sink' : Sink μ} {count : ℕ} {step : μ → Except ε μ}

theorem append_eq_ok :
    append limit tooLarge bytes sink = .ok ((), sink') ↔
      sink.bytes.length + bytes.length ≤ limit ∧ sink' = ⟨sink.bytes ++ bytes, sink.meter⟩ := by
  unfold append
  split
  · simp [*, eq_comm]
  · simp [*]

theorem take_eq_ok :
    take short count source = .ok (bytes, source') ↔
      bytes.length = count ∧ source.rest = bytes ++ source'.rest ∧
        source'.meter = source.meter := by
  obtain ⟨rest, meter⟩ := source
  obtain ⟨rest', meter'⟩ := source'
  unfold take
  constructor
  · intro h
    split at h
    · rename_i hle
      cases h
      exact ⟨length_take_of_le hle, (take_append_drop count rest).symm, rfl⟩
    · cases h
  · rintro ⟨rfl, hrest, hmeter⟩
    simp only at hrest hmeter
    subst hrest hmeter
    simp

theorem emits_append (hcount : bytes.length = count) :
    Emits (μ := μ) (append limit tooLarge bytes) (take short count) bytes := by
  intro sink sink' h
  obtain ⟨-, rfl⟩ := append_eq_ok.1 h
  exact ⟨bytes, rfl, fun rest ↦ take_eq_ok.2 ⟨hcount, rfl, rfl⟩⟩

theorem absorbs_take (tooLarge : ℕ → ε) :
    Absorbs (μ := μ) limit (take short count) (append limit tooLarge) := by
  intro source bytes source' h
  obtain ⟨-, hrest, hmeter⟩ := take_eq_ok.1 h
  refine ⟨bytes, hrest, fun before hfits ↦ append_eq_ok.2 ⟨by simpa using hfits, ?_⟩⟩
  rw [hmeter]

theorem Returns.length_take (h : Returns (μ := μ) (take short count) bytes) :
    bytes.length = count := by
  obtain ⟨source, source', h⟩ := h
  exact (take_eq_ok.1 h).1

/-! ## Little-endian fields -/

/-- Append `value` as `width` little-endian bytes. -/
def putLe (limit : ℕ) (tooLarge : ℕ → ε) (width value : ℕ) : Put ε μ Unit :=
  append limit tooLarge (leBytes width value)

/-- Consume `width` little-endian bytes and rebuild the value they encode. -/
def getLe (short : ε) (width : ℕ) (decode : ℕ → α) : Get ε μ α := do
  let bytes ← take short width
  pure (decode (leValue bytes))

theorem emits_putLe (h : decode (value % 256 ^ width) = a) :
    Emits (μ := μ) (putLe limit tooLarge width value) (getLe short width decode) a := by
  refine Emits.last (emits_append (length_leBytes width value)) ?_
  rw [leValue_leBytes, h]

theorem putLe_leValue {limit : ℕ} {tooLarge : ℕ → ε} {decode : ℕ → α} {encode : α → ℕ}
    (h : ∀ value < 256 ^ width, encode (decode value) = value) (hlength : bytes.length = width) :
    (putLe limit tooLarge width (encode (decode (leValue bytes))) : Put ε μ Unit) =
      append limit tooLarge bytes := by
  rw [putLe, h _ (hlength ▸ leValue_lt bytes), ← hlength, leBytes_leValue]

theorem absorbs_getLe {limit : ℕ} {tooLarge : ℕ → ε} {short : ε'} {width : ℕ} {decode : ℕ → α}
    {encode : α → ℕ} (h : ∀ value < 256 ^ width, encode (decode value) = value) :
    Absorbs (μ := μ) limit (getLe short width decode)
      fun a ↦ putLe limit tooLarge width (encode a) := by
  refine AbsorbsAfter.start (AbsorbsAfter.bindReturns (absorbs_take tooLarge) fun bytes hbytes ↦ ?_)
  exact AbsorbsAfter.done (by rw [pure_bind, putLe_leValue h hbytes.length_take])

section Machine

variable {limit : ℕ} (tooLarge : ℕ → ε) {short : ε'}

theorem emits_u8 (value : UInt8) : Emits (μ := μ) (putLe limit tooLarge 1 value.toNat)
    (getLe short 1 UInt8.ofNat) value :=
  emits_putLe (by rw [Nat.mod_eq_of_lt (by simpa using value.toNat_lt), UInt8.ofNat_toNat])

theorem emits_u16 (value : UInt16) : Emits (μ := μ) (putLe limit tooLarge 2 value.toNat)
    (getLe short 2 UInt16.ofNat) value :=
  emits_putLe (by rw [Nat.mod_eq_of_lt (by simpa using value.toNat_lt), UInt16.ofNat_toNat])

theorem emits_u32 (value : UInt32) : Emits (μ := μ) (putLe limit tooLarge 4 value.toNat)
    (getLe short 4 UInt32.ofNat) value :=
  emits_putLe (by rw [Nat.mod_eq_of_lt (by simpa using value.toNat_lt), UInt32.ofNat_toNat])

theorem emits_u64 (value : UInt64) : Emits (μ := μ) (putLe limit tooLarge 8 value.toNat)
    (getLe short 8 UInt64.ofNat) value :=
  emits_putLe (by rw [Nat.mod_eq_of_lt (by simpa using value.toNat_lt), UInt64.ofNat_toNat])

theorem emits_u128 (value : BitVec 128) : Emits (μ := μ) (putLe limit tooLarge 16 value.toNat)
    (getLe short 16 (BitVec.ofNat 128)) value :=
  emits_putLe (by rw [Nat.mod_eq_of_lt (by simpa using value.isLt), BitVec.ofNat_toNat,
    BitVec.setWidth_eq])

theorem absorbs_u8 : Absorbs (μ := μ) limit (getLe short 1 UInt8.ofNat)
    fun value ↦ putLe limit tooLarge 1 value.toNat :=
  absorbs_getLe fun value h ↦ by rw [UInt8.toNat_ofNat']; omega

theorem absorbs_u16 : Absorbs (μ := μ) limit (getLe short 2 UInt16.ofNat)
    fun value ↦ putLe limit tooLarge 2 value.toNat :=
  absorbs_getLe fun value h ↦ by rw [UInt16.toNat_ofNat']; omega

theorem absorbs_u32 : Absorbs (μ := μ) limit (getLe short 4 UInt32.ofNat)
    fun value ↦ putLe limit tooLarge 4 value.toNat :=
  absorbs_getLe fun value h ↦ by rw [UInt32.toNat_ofNat']; omega

theorem absorbs_u64 : Absorbs (μ := μ) limit (getLe short 8 UInt64.ofNat)
    fun value ↦ putLe limit tooLarge 8 value.toNat :=
  absorbs_getLe fun value h ↦ by rw [UInt64.toNat_ofNat']; omega

theorem absorbs_u128 : Absorbs (μ := μ) limit (getLe short 16 (BitVec.ofNat 128))
    fun value ↦ putLe limit tooLarge 16 value.toNat :=
  absorbs_getLe fun value h ↦ by rw [BitVec.toNat_ofNat]; omega

end Machine

/-- Append `bytes`, however long the sink gets. -/
def push (bytes : List UInt8) : Put ε μ Unit := fun sink ↦
  .ok ((), ⟨sink.bytes ++ bytes, sink.meter⟩)

/-- What is read back after every bounded append is read back after an unbounded one. -/
theorem Emits.push {a : α} {tooLarge : ℕ → ε}
    (h : ∀ limit, Emits (append limit tooLarge bytes) r a) :
    Emits (push bytes : Put ε μ Unit) r a := by
  intro sink sink' hpush
  cases hpush
  exact h (sink.bytes.length + bytes.length) sink _ (append_eq_ok.2 ⟨le_rfl, rfl⟩)

/-- What a bounded append writes again, an unbounded one does. -/
theorem Absorbs.push {limit : ℕ} {tooLarge : ℕ → ε} {bytes : α → List UInt8}
    (h : Absorbs limit r fun a ↦ append limit tooLarge (bytes a)) :
    Absorbs limit r fun a ↦ (push (bytes a) : Put ε μ Unit) := by
  intro source a source' hread
  obtain ⟨consumed, hconsumed, hwrite⟩ := h source a source' hread
  refine ⟨consumed, hconsumed, fun before hfits ↦ ?_⟩
  obtain ⟨-, hsink⟩ := append_eq_ok.1 (hwrite before hfits)
  rw [hsink]
  rfl

/-- `w` appends exactly `bytes`, and fails only when they do not fit. -/
def Appends (limit : ℕ) (w : Put ε μ Unit) (bytes : List UInt8) : Prop :=
  ∀ sink sink', w sink = .ok ((), sink') ↔
    sink.bytes.length + bytes.length ≤ limit ∧ sink' = ⟨sink.bytes ++ bytes, sink.meter⟩

theorem appends_append (limit : ℕ) (tooLarge : ℕ → ε) (bytes : List UInt8) :
    Appends (μ := μ) limit (append limit tooLarge bytes) bytes := fun _ _ ↦ append_eq_ok

theorem Appends.bind {limit : ℕ} {w v : Put ε μ Unit} {first second : List UInt8}
    (hw : Appends limit w first) (hv : Appends limit v second) :
    Appends limit (w >>= fun _ ↦ v) (first ++ second) := by
  intro sink sink'
  rw [run_bind_eq_ok]
  constructor
  · rintro ⟨_, mid, hmid, hrest⟩
    obtain ⟨-, rfl⟩ := (hw sink mid).1 hmid
    obtain ⟨hfits, rfl⟩ := (hv _ sink').1 hrest
    simp only [length_append] at hfits ⊢
    exact ⟨by omega, by rw [append_assoc]⟩
  · rintro ⟨hfits, rfl⟩
    rw [length_append] at hfits
    refine ⟨(), ⟨sink.bytes ++ first, sink.meter⟩, (hw _ _).2 ⟨by omega, rfl⟩, (hv _ _).2 ?_⟩
    exact ⟨by simp only [length_append]; omega, by rw [append_assoc]⟩

/-- `w` leaves the sink within `limit`. -/
def Bounded (limit : ℕ) (w : Put ε μ α) : Prop :=
  ∀ sink a sink', w sink = .ok (a, sink') → sink'.bytes.length ≤ limit

theorem bounded_append (limit : ℕ) (tooLarge : ℕ → ε) (bytes : List UInt8) :
    Bounded (μ := μ) limit (append limit tooLarge bytes) := by
  intro sink a sink' h
  obtain ⟨hfits, rfl⟩ := append_eq_ok.1 h
  simpa using hfits

theorem Bounded.bind {β : Type} {limit : ℕ} {w : Put ε μ β} {v : β → Put ε μ α}
    (hv : ∀ b, Bounded limit (v b)) : Bounded limit (w >>= v) := by
  intro sink a sink' h
  obtain ⟨b, mid, -, hrest⟩ := run_bind_eq_ok.1 h
  exact hv b mid a sink' hrest

/-- Charge the meter while writing. -/
def charge (step : μ → Except ε μ) : Put ε μ Unit := fun sink ↦
  (step sink.meter).map fun meter ↦ ((), ⟨sink.bytes, meter⟩)

/-- Charge the meter while reading. -/
def account (step : μ → Except ε μ) : Get ε μ Unit := fun source ↦
  (step source.meter).map fun meter ↦ ((), ⟨source.rest, meter⟩)

theorem charge_eq_ok :
    charge step sink = .ok ((), sink') ↔
      step sink.meter = .ok sink'.meter ∧ sink'.bytes = sink.bytes := by
  obtain ⟨bytes', meter'⟩ := sink'
  unfold charge
  cases step sink.meter with
  | error e => simp [Except.map]
  | ok meter => simp [Except.map, and_comm, eq_comm]

theorem account_eq_ok :
    account step source = .ok ((), source') ↔
      step source.meter = .ok source'.meter ∧ source'.rest = source.rest := by
  obtain ⟨rest', meter'⟩ := source'
  unfold account
  cases step source.meter with
  | error e => simp [Except.map]
  | ok meter => simp [Except.map, and_comm, eq_comm]

theorem emits_charge (step : μ → Except ε μ) : Emits (charge step) (account step) () := by
  intro sink sink' h
  obtain ⟨hstep, hbytes⟩ := charge_eq_ok.1 h
  exact ⟨[], by rw [hbytes, append_nil], fun rest ↦ account_eq_ok.2 ⟨hstep, rfl⟩⟩

theorem absorbs_account (step : μ → Except ε μ) :
    Absorbs limit (account step) fun _ ↦ charge step := by
  intro source a source' h
  obtain ⟨hstep, hrest⟩ := account_eq_ok.1 h
  refine ⟨[], by rw [hrest, nil_append], fun before _ ↦ charge_eq_ok.2 ⟨hstep, ?_⟩⟩
  rw [append_nil]

/-- Charging and appending touch different parts of the sink, so a format may do them in either
order. -/
theorem charge_append_comm :
    (charge step >>= fun _ ↦ append limit tooLarge bytes >>= fun _ ↦ v) sink = .ok ((), sink') ↔
      (append limit tooLarge bytes >>= fun _ ↦ charge step >>= fun _ ↦ v) sink =
        .ok ((), sink') := by
  simp only [run_bind_eq_ok]
  constructor
  · rintro ⟨_, mid, hcharge, _, last, happend, hv⟩
    obtain ⟨hstep, hbytes⟩ := charge_eq_ok.1 hcharge
    obtain ⟨hfits, rfl⟩ := append_eq_ok.1 happend
    rw [hbytes] at hfits hv
    exact ⟨(), _, append_eq_ok.2 ⟨hfits, rfl⟩, (), ⟨sink.bytes ++ bytes, mid.meter⟩,
      charge_eq_ok.2 ⟨hstep, rfl⟩, hv⟩
  · rintro ⟨_, mid, happend, _, last, hcharge, hv⟩
    obtain ⟨hfits, rfl⟩ := append_eq_ok.1 happend
    obtain ⟨hstep, hbytes⟩ := charge_eq_ok.1 hcharge
    obtain ⟨lastBytes, lastMeter⟩ := last
    simp only at hstep hbytes
    subst hbytes
    exact ⟨(), ⟨sink.bytes, lastMeter⟩, charge_eq_ok.2 ⟨hstep, rfl⟩, (), _,
      append_eq_ok.2 ⟨hfits, rfl⟩, hv⟩

/-- Write every element in order. -/
def putAll (w : α → Put ε μ Unit) : List α → Put ε μ Unit
  | [] => pure ()
  | a :: as => do
    w a
    putAll w as

/-- Read `count` elements in order. -/
def getMany (r : Get ε μ α) : ℕ → Get ε μ (List α)
  | 0 => pure []
  | count + 1 => do
    let a ← r
    let as ← getMany r count
    pure (a :: as)

theorem emits_putAll (as : List α) (h : ∀ a ∈ as, Emits (w a) r a) :
    Emits (putAll w as) (getMany r as.length) as := by
  induction as with
  | nil => exact Emits.done []
  | cons a as ih =>
    have hhead := h a (by simp)
    have htail := ih fun b hb ↦ h b (by simp [hb])
    exact Emits.bind hhead (Emits.last htail rfl)

theorem absorbs_getMany (h : Absorbs limit r w) (count : ℕ) :
    Absorbs limit (getMany r count) (putAll w) := by
  induction count with
  | zero => exact AbsorbsAfter.start (AbsorbsAfter.done rfl)
  | succ count ih =>
    refine AbsorbsAfter.start (AbsorbsAfter.bind h fun a ↦ AbsorbsAfter.bind ih fun as ↦ ?_)
    exact AbsorbsAfter.done (by simp [putAll])

theorem Returns.length_getMany (h : Returns (getMany r count) as) : as.length = count := by
  induction count generalizing as with
  | zero =>
    obtain ⟨source, source', h⟩ := h
    cases h
    rfl
  | succ count ih =>
    obtain ⟨source, source', h⟩ := h
    obtain ⟨a, mid, -, h⟩ := run_bind_eq_ok.1 h
    obtain ⟨tail, last, htail, h⟩ := run_bind_eq_ok.1 h
    cases h
    rw [length_cons, ih ⟨mid, _, htail⟩]

variable {α β κ κ' : Type}

/-- Equal streams that start with the encodings of two values of the domain start with the same
key and agree afterwards. -/
def Delimits (domain : α → Prop) (encode : α → List UInt8) (key : α → κ) : Prop :=
  ∀ a b, domain a → domain b → ∀ rest rest', encode a ++ rest = encode b ++ rest' →
    key a = key b ∧ rest = rest'

namespace Delimits

variable {domain domain' : α → Prop} {encode encode' : α → List UInt8} {key : α → κ}
  {key' : α → κ'}

/-- The whole stream determines the key. -/
theorem key_eq (h : Delimits domain encode key) (ha : domain a) (hb : domain b)
    (heq : encode a = encode b) : key a = key b :=
  (h a b ha hb [] [] (by rw [heq])).1

/-- A field of a record is delimited on the records whose field is in the domain. -/
theorem comap (h : Delimits domain encode key) (field : β → α) :
    Delimits (domain ∘ field) (encode ∘ field) (key ∘ field) :=
  fun a b ha hb ↦ h (field a) (field b) ha hb

/-- Encodings of one width are delimited where they are injective. -/
theorem ofLength (hwidth : ∀ a, domain a → (encode a).length = width)
    (hkey : ∀ a b, domain a → domain b → encode a = encode b → key a = key b) :
    Delimits domain encode key := by
  intro a b ha hb rest rest' heq
  obtain ⟨hfirst, hrest⟩ := append_inj heq (by rw [hwidth a ha, hwidth b hb])
  exact ⟨hkey a b ha hb hfirst, hrest⟩

end Delimits

/-- A count as eight little-endian bytes. -/
def countBytes (count : ℕ) : List UInt8 := leBytes 8 count

theorem delimits_countBytes : Delimits (fun count ↦ count < 2 ^ 64) countBytes id := by
  refine Delimits.ofLength (fun count _ ↦ length_leBytes 8 count) fun count count' h h' heq ↦ ?_
  have hvalue := congrArg leValue heq
  rw [countBytes, countBytes, leValue_leBytes, leValue_leBytes] at hvalue
  have hwidth : (256 : ℕ) ^ 8 = 2 ^ 64 := by norm_num
  rwa [hwidth, Nat.mod_eq_of_lt h, Nat.mod_eq_of_lt h'] at hvalue

theorem delimits_uint64 :
    Delimits (fun _ ↦ True) (fun value : UInt64 ↦ countBytes value.toNat) id := by
  intro value value' _ _ rest rest' heq
  obtain ⟨hvalue, hrest⟩ := delimits_countBytes _ _ value.toNat_lt value'.toNat_lt _ _ heq
  exact ⟨UInt64.toNat_inj.1 hvalue, hrest⟩

/-- Bytes after their count. -/
def countedBytes (bytes : List UInt8) : List UInt8 := countBytes bytes.length ++ bytes

theorem delimits_countedBytes : Delimits (fun bytes ↦ bytes.length < 2 ^ 64) countedBytes id := by
  intro bytes bytes' hlength hlength' rest rest' heq
  rw [countedBytes, countedBytes, append_assoc, append_assoc] at heq
  obtain ⟨hcount, heq⟩ := delimits_countBytes _ _ hlength hlength' _ _ heq
  exact append_inj heq hcount

/-- Items one after another, with nothing to say how many there are. -/
theorem Delimits.flatMap {domain : α → Prop} {encode : α → List UInt8} {key : α → κ}
    (h : Delimits domain encode key) {items items' : List α}
    (hitems : ∀ a ∈ items, domain a) (hitems' : ∀ a ∈ items', domain a)
    (hlength : items.length = items'.length) {rest rest' : List UInt8}
    (heq : items.flatMap encode ++ rest = items'.flatMap encode ++ rest') :
    items.map key = items'.map key ∧ rest = rest' := by
  induction items generalizing items' with
  | nil =>
    obtain rfl := eq_nil_of_length_eq_zero hlength.symm
    exact ⟨rfl, heq⟩
  | cons item items ih =>
    obtain ⟨item', items', rfl⟩ := exists_cons_of_length_eq_add_one hlength.symm
    simp only [flatMap_cons, append_assoc] at heq
    obtain ⟨hkey, heq⟩ := h item item' (hitems _ mem_cons_self)
      (hitems' _ mem_cons_self) _ _ heq
    obtain ⟨hkeys, hrest⟩ := ih (fun a ha ↦ hitems a (mem_cons_of_mem _ ha))
      (fun a ha ↦ hitems' a (mem_cons_of_mem _ ha)) (by simpa using hlength) heq
    exact ⟨by rw [map_cons, map_cons, hkey, hkeys], hrest⟩

/-- Items after their count. -/
def countedItems (encode : α → List UInt8) (items : List α) : List UInt8 :=
  countBytes items.length ++ items.flatMap encode

theorem Delimits.countedItems {domain : α → Prop} {encode : α → List UInt8} {key : α → κ}
    (h : Delimits domain encode key) :
    Delimits (fun items : List α ↦ items.length < 2 ^ 64 ∧ ∀ a ∈ items, domain a)
      (countedItems encode) (List.map key) := by
  intro items items' hitems hitems' rest rest' heq
  rw [Wire.countedItems, Wire.countedItems, append_assoc, append_assoc] at heq
  obtain ⟨hcount, heq⟩ := delimits_countBytes _ _ hitems.1 hitems'.1 _ _ heq
  exact h.flatMap hitems.2 hitems'.2 hcount heq

end Wrela.Wire
