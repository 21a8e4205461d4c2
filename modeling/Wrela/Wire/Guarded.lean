import Wrela.Wire.Number

/-!
# Guarded readers

A reader of untrusted bytes can refuse, before it allocates, a length that the remaining bytes could
not hold, or one that takes the total it has been asked to hold past a budget.  The writer keeps no
such account.  `Delivers` says that the guards never get in the way of what the writer wrote: it
follows what each part adds to the totals, which is never more than its own bytes, and how many
bytes each part takes at least, which is what the reader's guess about its elements rests on.
`Recovers` is the converse, that what is read is what would be written.
-/

namespace Wrela.Wire

open List

variable {ε ε' α β : Type}

/-- What a reader has been asked to hold: bytes of payload, and elements of vectors. -/
structure Held where
  payload : ℕ
  items : ℕ

namespace Held

def zero : Held := ⟨0, 0⟩

def add (held more : Held) : Held := ⟨held.payload + more.payload, held.items + more.items⟩

/-- Neither total is past the budget. -/
def Within (held : Held) (budget : ℕ) : Prop := held.payload ≤ budget ∧ held.items ≤ budget

theorem add_add (held first second : Held) :
    (held.add first).add second = held.add (first.add second) := by
  simp only [add, Nat.add_assoc]

theorem Within.of_add {held more : Held} {budget : ℕ} (h : (held.add more).Within budget) :
    held.Within budget :=
  ⟨(Nat.le_add_right _ _).trans h.1, (Nat.le_add_right _ _).trans h.2⟩

end Held

variable {error : ε}

theorem run_bind_eq_error {σ : Type} {x : StateT σ (Except ε) α} {f : α → StateT σ (Except ε) β}
    {s : σ} (h : (x >>= f) s = .error error) :
    x s = .error error ∨ ∃ a s', x s = .ok (a, s') ∧ f a s' = .error error := by
  change (x s >>= fun p ↦ f p.1 p.2) = .error error at h
  cases hx : x s with
  | error failure =>
    rw [hx] at h
    cases h
    exact .inl rfl
  | ok p =>
    rw [hx] at h
    exact .inr ⟨p.1, p.2, rfl, h⟩

/-- Everything `w` appends within the budget, at least `least` bytes of it, `r` reads back as `a`.
The totals grow by no more than the bytes do, and nothing but the budget can stop the reader; the
writer fails only in the ways allowed to it. -/
structure Delivers (allowed : ε → Prop) (budget least : ℕ) (w : Put ε Unit Unit)
    (r : Get ε' Held α) (a : α) : Prop where
  fails : ∀ sink error, w sink = .error error → allowed error
  fits : ∀ sink sink', w sink = .ok ((), sink') → sink.bytes.length ≤ budget →
    sink'.bytes.length ≤ budget
  reads : ∀ sink sink', w sink = .ok ((), sink') →
    ∃ bytes more, sink'.bytes = sink.bytes ++ bytes ∧ more.payload ≤ bytes.length ∧
      least + more.items ≤ bytes.length ∧
      ∀ rest held, (held.add more).Within budget →
        r ⟨bytes ++ rest, held⟩ = .ok (a, ⟨rest, held.add more⟩)

section Delivers

variable {allowed : ε → Prop} {budget least least' : ℕ}

variable {a : α} {bytes : List UInt8}

theorem Delivers.mono (h : Delivers allowed budget least' w r a) (hle : least ≤ least') :
    Delivers allowed budget least w r a where
  fails := h.fails
  fits := h.fits
  reads sink sink' hw := by
    obtain ⟨bytes, more, hbytes, hpayload, hitems, hread⟩ := h.reads sink sink' hw
    exact ⟨bytes, more, hbytes, hpayload, by omega, hread⟩

theorem Delivers.bind {w v : Put ε Unit Unit} {r : Get ε' Held β} {b : β} {k : β → Get ε' Held α}
    (hr : Delivers allowed budget least w r b) (hk : Delivers allowed budget least' v (k b) a) :
    Delivers allowed budget (least + least') (w >>= fun _ ↦ v) (r >>= k) a where
  fails sink error h := by
    rcases run_bind_eq_error h with hw | ⟨_, mid, -, hv⟩
    · exact hr.fails sink error hw
    · exact hk.fails mid error hv
  fits sink sink' h hle := by
    obtain ⟨_, mid, hw, hv⟩ := run_bind_eq_ok.1 h
    exact hk.fits mid sink' hv (hr.fits sink mid hw hle)
  reads sink sink' h := by
    obtain ⟨_, mid, hw, hv⟩ := run_bind_eq_ok.1 h
    obtain ⟨first, more, hfirst, hpayload, hitems, hread⟩ := hr.reads sink mid hw
    obtain ⟨second, more', hsecond, hpayload', hitems', hrest⟩ := hk.reads mid sink' hv
    refine ⟨first ++ second, more.add more', ?_, ?_, ?_, fun rest held hwithin ↦ ?_⟩
    · rw [hsecond, hfirst, append_assoc]
    · simp only [Held.add, length_append]
      omega
    · simp only [Held.add, length_append]
      omega
    · rw [← Held.add_add] at hwithin ⊢
      rw [append_assoc]
      exact run_bind_eq_ok.2 ⟨b, _, hread _ _ hwithin.of_add, hrest rest _ hwithin⟩

/-- The last field of a record is read and the record is returned at once. -/
theorem Delivers.last (hr : Delivers allowed budget least w r b) (hk : k b = pure a) :
    Delivers allowed budget least w (r >>= k) a where
  fails := hr.fails
  fits := hr.fits
  reads sink sink' h := by
    obtain ⟨bytes, more, hbytes, hpayload, hitems, hread⟩ := hr.reads sink sink' h
    refine ⟨bytes, more, hbytes, hpayload, hitems, fun rest held hwithin ↦ ?_⟩
    exact run_bind_eq_ok.2 ⟨b, _, hread rest held hwithin, by rw [hk]; rfl⟩

/-- A writer that gives up delivers nothing, so any reader follows it. -/
theorem Delivers.refused {failure : ε} (h : allowed failure) (v : Put ε Unit Unit)
    (r : Get ε' Held α) (a : α) :
    Delivers allowed budget least ((fail failure : Put ε Unit Unit) >>= fun _ ↦ v) r a where
  fails sink error hfail := by
    cases hfail
    exact h
  fits sink sink' hfail := by cases hfail
  reads sink sink' hfail := by cases hfail

theorem append_eq_error {limit : ℕ} {tooLarge : ℕ → ε} {sink : Sink Unit}
    {error : ε} (h : append limit tooLarge bytes sink = .error error) :
    ∃ length, error = tooLarge length := by
  unfold append at h
  split at h
  · cases h
  · cases h
    exact ⟨_, rfl⟩

/-- An append delivers its bytes to whatever reads them and charges no more than their number. -/
theorem delivers_of_append {tooLarge : ℕ → ε} {r : Get ε' Held α}
    (more : Held) (hallowed : ∀ length, allowed (tooLarge length))
    (hpayload : more.payload ≤ bytes.length) (hitems : least + more.items ≤ bytes.length)
    (hread : ∀ rest held, (held.add more).Within budget →
      r ⟨bytes ++ rest, held⟩ = .ok (a, ⟨rest, held.add more⟩)) :
    Delivers allowed budget least (append budget tooLarge bytes) r a where
  fails sink error h := by
    obtain ⟨length, rfl⟩ := append_eq_error h
    exact hallowed length
  fits sink sink' h _ := by
    obtain ⟨hfits, rfl⟩ := append_eq_ok.1 h
    simpa using hfits
  reads sink sink' h := by
    obtain ⟨-, rfl⟩ := append_eq_ok.1 h
    exact ⟨bytes, more, rfl, hpayload, hitems, hread⟩

theorem delivers_append {count : ℕ} {tooLarge : ℕ → ε} {short : ε'}
    (hallowed : ∀ length, allowed (tooLarge length)) (hcount : bytes.length = count) :
    Delivers allowed budget count (append budget tooLarge bytes) (take short count) bytes :=
  delivers_of_append .zero hallowed (Nat.zero_le _) hcount.ge fun _ _ _ ↦
    take_eq_ok.2 ⟨hcount, rfl, rfl⟩

theorem delivers_putLe {tooLarge : ℕ → ε} {short : ε'} {width value : ℕ} {decode : ℕ → α}
    (hallowed : ∀ length, allowed (tooLarge length)) (h : decode (value % 256 ^ width) = a) :
    Delivers allowed budget width (putLe budget tooLarge width value) (getLe short width decode)
      a := by
  refine Delivers.last (delivers_append hallowed (length_leBytes width value)) ?_
  rw [leValue_leBytes, h]

end Delivers

/-- Refuse to go on when the total asked for is past the budget. -/
def hold (budget : ℕ) (error : ε) (total : Held → ℕ) (more : Held) : Get ε Held Unit := fun source ↦
  if total (source.meter.add more) ≤ budget then .ok ((), ⟨source.rest, source.meter.add more⟩)
  else .error error

/-- Refuse to go on when fewer than so many bytes are left. -/
def ensure (error : ε) (count : ℕ) : Get ε Held Unit := fun source ↦
  if count ≤ source.rest.length then .ok ((), source) else .error error

theorem hold_of_within (h : total (source.meter.add more) ≤ budget) :
    hold budget error total more source = .ok ((), ⟨source.rest, source.meter.add more⟩) :=
  if_pos h

theorem ensure_of_le {count : ℕ} {source : Source Held}
    (h : count ≤ source.rest.length) : ensure error count source = .ok ((), source) :=
  if_pos h

/-- A run of bytes that is charged and checked before it is taken. -/
def payload (budget : ℕ) (excess long short : ε) (count : ℕ) : Get ε Held (List UInt8) := do
  hold budget excess Held.payload ⟨count, 0⟩
  ensure long count
  take short count

/-- A run of elements, none of them shorter than `minimum`, that is checked and charged before any
is read. -/
def elements (budget : ℕ) (excess long : ε) (minimum : ℕ) (r : Get ε Held α) (count : ℕ) :
    Get ε Held (List α) := do
  ensure long (count * minimum)
  hold budget excess Held.items ⟨0, count⟩
  getMany r count

theorem delivers_payload {allowed : ε → Prop} {budget : ℕ} {tooLarge : ℕ → ε}
    {excess long short : ε'} {bytes : List UInt8} {count : ℕ}
    (hallowed : ∀ length, allowed (tooLarge length)) (hcount : bytes.length = count) :
    Delivers allowed budget 0 (append budget tooLarge bytes)
      (payload budget excess long short count) bytes := by
  refine delivers_of_append ⟨count, 0⟩ hallowed hcount.ge (Nat.zero_le _)
    fun rest held hwithin ↦ ?_
  have hlong : count ≤ (bytes ++ rest).length := by
    rw [length_append]
    omega
  exact run_bind_eq_ok.2 ⟨(), _, hold_of_within hwithin.1,
    run_bind_eq_ok.2 ⟨(), _, ensure_of_le hlong, take_eq_ok.2 ⟨hcount, rfl, rfl⟩⟩⟩

section Elements

variable {allowed : ε → Prop} {budget least : ℕ} {w : α → Put ε Unit Unit} {r : Get ε' Held α}

theorem putAll_fails (as : List α) (h : ∀ a ∈ as, Delivers allowed budget least (w a) r a)
    (sink : Sink Unit) (error : ε) (hw : putAll w as sink = .error error) : allowed error := by
  induction as generalizing sink with
  | nil => cases hw
  | cons a as ih =>
    rcases run_bind_eq_error hw with hhead | ⟨_, mid, -, htail⟩
    · exact (h a (by simp)).fails sink error hhead
    · exact ih (fun b hb ↦ h b (by simp [hb])) mid htail

theorem putAll_fits (as : List α) (h : ∀ a ∈ as, Delivers allowed budget least (w a) r a)
    (sink sink' : Sink Unit) (hw : putAll w as sink = .ok ((), sink'))
    (hle : sink.bytes.length ≤ budget) : sink'.bytes.length ≤ budget := by
  induction as generalizing sink with
  | nil =>
    cases hw
    exact hle
  | cons a as ih =>
    obtain ⟨_, mid, hhead, htail⟩ := run_bind_eq_ok.1 hw
    exact ih (fun b hb ↦ h b (by simp [hb])) mid htail ((h a (by simp)).fits sink mid hhead hle)

/-- A run of elements, before its own guards: its bytes pay for one more item each. -/
theorem putAll_reads (hleast : 0 < least) (as : List α)
    (h : ∀ a ∈ as, Delivers allowed budget least (w a) r a)
    {sink sink' : Sink Unit} (hw : putAll w as sink = .ok ((), sink')) :
    ∃ bytes more, sink'.bytes = sink.bytes ++ bytes ∧ more.payload ≤ bytes.length ∧
      as.length + more.items ≤ bytes.length ∧ as.length * least ≤ bytes.length ∧
      ∀ rest held, (held.add more).Within budget →
        getMany r as.length ⟨bytes ++ rest, held⟩ = .ok (as, ⟨rest, held.add more⟩) := by
  induction as generalizing sink with
  | nil =>
    cases hw
    exact ⟨[], .zero, by simp, le_rfl, le_rfl, by simp, fun rest held _ ↦ rfl⟩
  | cons a as ih =>
    obtain ⟨_, mid, hhead, htail⟩ := run_bind_eq_ok.1 hw
    obtain ⟨first, more, hfirst, hpayload, hitems, hread⟩ := (h a (by simp)).reads sink mid hhead
    obtain ⟨second, more', hsecond, hpayload', hitems', hsize, hrest⟩ :=
      ih (fun b hb ↦ h b (by simp [hb])) htail
    refine ⟨first ++ second, more.add more', ?_, ?_, ?_, ?_, fun rest held hwithin ↦ ?_⟩
    · rw [hsecond, hfirst, append_assoc]
    · simp only [Held.add, length_append]
      omega
    · simp only [Held.add, length_append, length_cons]
      omega
    · rw [length_append, length_cons, Nat.succ_mul]
      omega
    · rw [← Held.add_add] at hwithin ⊢
      rw [append_assoc]
      exact run_bind_eq_ok.2 ⟨a, _, hread _ _ hwithin.of_add,
        run_bind_eq_ok.2 ⟨as, _, hrest rest _ hwithin, rfl⟩⟩

theorem delivers_elements {minimum : ℕ} {excess long : ε'} (hpositive : 0 < least)
    (hminimum : minimum ≤ least) (as : List α)
    (h : ∀ a ∈ as, Delivers allowed budget least (w a) r a) :
    Delivers allowed budget 0 (putAll w as) (elements budget excess long minimum r as.length)
      as where
  fails := putAll_fails as h
  fits := putAll_fits as h
  reads sink sink' hw := by
    obtain ⟨bytes, more, hbytes, hpayload, hitems, hsize, hread⟩ := putAll_reads hpositive as h hw
    refine ⟨bytes, Held.add ⟨0, as.length⟩ more, hbytes, ?_, ?_, fun rest held hwithin ↦ ?_⟩
    · simpa [Held.add] using hpayload
    · simpa [Held.add] using hitems
    · rw [← Held.add_add] at hwithin ⊢
      have hlong : as.length * minimum ≤ (bytes ++ rest).length := by
        have hshrink := Nat.mul_le_mul_left as.length hminimum
        rw [length_append]
        omega
      exact run_bind_eq_ok.2 ⟨(), _, ensure_of_le hlong,
        run_bind_eq_ok.2 ⟨(), _, hold_of_within hwithin.of_add.2, hread rest _ hwithin⟩⟩

end Elements

/-- Whatever `r` consumes to produce `a`, `w a` appends exactly that while it fits. -/
def Recovers (limit : ℕ) (r : Get ε' Held α) (w : α → Put ε Unit Unit) : Prop :=
  ∀ source a source', r source = .ok (a, source') →
    ∃ bytes, source.rest = bytes ++ source'.rest ∧
      ∀ before, (before ++ bytes).length ≤ limit →
        w a ⟨before, ()⟩ = .ok ((), ⟨before ++ bytes, ()⟩)

/-- `Recovers` in the middle of a record: `p` is what the writer has already done. -/
def RecoversAfter (limit : ℕ) (p : Put ε Unit Unit) (r : Get ε' Held α)
    (w : α → Put ε Unit Unit) : Prop :=
  ∀ source a source', r source = .ok (a, source') →
    ∃ bytes, source.rest = bytes ++ source'.rest ∧
      ∀ sink sink', p sink = .ok ((), sink') → (sink'.bytes ++ bytes).length ≤ limit →
        w a sink = .ok ((), ⟨sink'.bytes ++ bytes, ()⟩)

section Recovers

variable {limit : ℕ} {p : Put ε Unit Unit}

theorem RecoversAfter.start {r : Get ε' Held α} {w : α → Put ε Unit Unit}
    (h : RecoversAfter limit (pure ()) r w) : Recovers limit r w := by
  intro source a source' hread
  obtain ⟨bytes, hbytes, hwrite⟩ := h source a source' hread
  exact ⟨bytes, hbytes, fun before hfits ↦ hwrite ⟨before, ()⟩ ⟨before, ()⟩ rfl hfits⟩

theorem RecoversAfter.bindReturns (hr : Recovers limit r v)
    (hk : ∀ b, Returns r b → RecoversAfter limit (p >>= fun _ ↦ v b) (k b) w) :
    RecoversAfter limit p (r >>= k) w := by
  intro source a source' hread
  obtain ⟨b, mid, hfirst, hrest⟩ := run_bind_eq_ok.1 hread
  obtain ⟨first, hfirstBytes, hfirstWrite⟩ := hr source b mid hfirst
  obtain ⟨second, hsecondBytes, hwrite⟩ := hk b ⟨source, mid, hfirst⟩ mid a source' hrest
  refine ⟨first ++ second, ?_, fun sink sink' hp hfits ↦ ?_⟩
  · rw [hfirstBytes, hsecondBytes, append_assoc]
  · have hfirstFits : (sink'.bytes ++ first).length ≤ limit := by
      simp only [length_append] at hfits ⊢
      omega
    have hdone := hwrite sink ⟨sink'.bytes ++ first, ()⟩
      (run_bind_eq_ok.2 ⟨(), sink', hp, hfirstWrite sink'.bytes hfirstFits⟩) (by simpa using hfits)
    rw [hdone, append_assoc]

theorem RecoversAfter.bind (hr : Recovers limit r v)
    (hk : ∀ b, RecoversAfter limit (p >>= fun _ ↦ v b) (k b) w) :
    RecoversAfter limit p (r >>= k) w :=
  RecoversAfter.bindReturns hr fun b _ ↦ hk b

theorem RecoversAfter.done (h : w a = p) : RecoversAfter limit p (pure a : Get ε' Held α) w := by
  intro source a' source' hread
  cases hread
  refine ⟨[], rfl, fun sink sink' hp _ ↦ ?_⟩
  rw [h, hp, append_nil]

theorem RecoversAfter.rejected {error : ε'} {w : α → Put ε Unit Unit} :
    RecoversAfter limit p (fail error : Get ε' Held α) w := by
  intro source a source' hread
  cases hread

/-- The last field of a record, with the writer of the whole record on the right. -/
theorem RecoversAfter.lastReturns (hr : Recovers limit r v)
    (h : ∀ a, Returns r a → w a = (p >>= fun _ ↦ v a)) :
    RecoversAfter limit p r w := by
  have hbind : RecoversAfter limit p (r >>= pure) w :=
    RecoversAfter.bindReturns hr fun a ha ↦ RecoversAfter.done (h a ha)
  rwa [bind_pure] at hbind

variable {count minimum : ℕ} {excess long : ε'}

theorem recovers_take (tooLarge : ℕ → ε) :
    Recovers limit (take short count) (append limit tooLarge) := by
  intro source bytes source' h
  obtain ⟨-, hrest, -⟩ := take_eq_ok.1 h
  exact ⟨bytes, hrest, fun before hfits ↦ append_eq_ok.2 ⟨by simpa using hfits, rfl⟩⟩

theorem recovers_getLe {tooLarge : ℕ → ε} {short : ε'} {width : ℕ} {decode : ℕ → α}
    {encode : α → ℕ} (h : ∀ value < 256 ^ width, encode (decode value) = value) :
    Recovers limit (getLe short width decode) fun a ↦ putLe limit tooLarge width (encode a) := by
  refine RecoversAfter.start
    (RecoversAfter.bindReturns (recovers_take tooLarge) fun bytes hbytes ↦ ?_)
  exact RecoversAfter.done (by rw [pure_bind, putLe_leValue h hbytes.length_take])

section Machine

variable {allowed : ε → Prop} {budget : ℕ} {tooLarge : ℕ → ε} {short : ε'}

section

variable (hallowed : ∀ length, allowed (tooLarge length))
include hallowed

theorem delivers_u8 (value : UInt8) :
    Delivers allowed budget 1 (putLe budget tooLarge 1 value.toNat)
    (getLe short 1 UInt8.ofNat) value :=
  delivers_putLe hallowed (by
    rw [Nat.mod_eq_of_lt (by simpa using value.toNat_lt), UInt8.ofNat_toNat])

theorem delivers_u32 (value : UInt32) :
    Delivers allowed budget 4 (putLe budget tooLarge 4 value.toNat)
    (getLe short 4 UInt32.ofNat) value :=
  delivers_putLe hallowed (by
    rw [Nat.mod_eq_of_lt (by simpa using value.toNat_lt), UInt32.ofNat_toNat])

theorem delivers_i32 (value : Int32) :
    Delivers allowed budget 4 (putLe budget tooLarge 4 value.toUInt32.toNat)
      (getLe short 4 fun value ↦ (UInt32.ofNat value).toInt32) value :=
  delivers_putLe hallowed (by
    rw [Nat.mod_eq_of_lt (by simpa using value.toUInt32.toNat_lt), UInt32.ofNat_toNat]
    rfl)

theorem delivers_u64 (value : UInt64) :
    Delivers allowed budget 8 (putLe budget tooLarge 8 value.toNat)
    (getLe short 8 UInt64.ofNat) value :=
  delivers_putLe hallowed (by
    rw [Nat.mod_eq_of_lt (by simpa using value.toNat_lt), UInt64.ofNat_toNat])

end

theorem recovers_u8 (tooLarge : ℕ → ε) : Recovers limit (getLe short 1 UInt8.ofNat)
    fun value ↦ putLe limit tooLarge 1 value.toNat :=
  recovers_getLe fun value h ↦ by rw [UInt8.toNat_ofNat']; omega

theorem recovers_u32 (tooLarge : ℕ → ε) : Recovers limit (getLe short 4 UInt32.ofNat)
    fun value ↦ putLe limit tooLarge 4 value.toNat :=
  recovers_getLe fun value h ↦ by rw [UInt32.toNat_ofNat']; omega

theorem recovers_i32 (tooLarge : ℕ → ε) :
    Recovers limit (getLe short 4 fun value ↦ (UInt32.ofNat value).toInt32)
      fun value ↦ putLe limit tooLarge 4 value.toUInt32.toNat :=
  recovers_getLe fun value h ↦ by
    change (UInt32.ofNat value).toNat = value
    rw [UInt32.toNat_ofNat']
    omega

theorem recovers_u64 (tooLarge : ℕ → ε) : Recovers limit (getLe short 8 UInt64.ofNat)
    fun value ↦ putLe limit tooLarge 8 value.toNat :=
  recovers_getLe fun value h ↦ by rw [UInt64.toNat_ofNat']; omega

end Machine

/-- A guard consumes nothing, so it leaves nothing to write. -/
theorem recovers_payload (tooLarge : ℕ → ε) :
    Recovers limit (payload budget excess long short count) (append limit tooLarge) := by
  intro source bytes source' h
  obtain ⟨_, first, hhold, h⟩ := run_bind_eq_ok.1 h
  obtain ⟨_, second, hensure, h⟩ := run_bind_eq_ok.1 h
  rw [hold] at hhold
  rw [ensure] at hensure
  split at hhold
  · split at hensure
    · cases hhold
      cases hensure
      exact recovers_take tooLarge ⟨source.rest, source.meter.add ⟨count, 0⟩⟩ bytes source' h
    · cases hensure
  · cases hhold

theorem recovers_getMany (h : Recovers limit r w) (count : ℕ) :
    Recovers limit (getMany r count) (putAll w) := by
  induction count with
  | zero => exact RecoversAfter.start (RecoversAfter.done rfl)
  | succ count ih =>
    refine RecoversAfter.start (RecoversAfter.bind h fun a ↦ RecoversAfter.bind ih fun as ↦ ?_)
    exact RecoversAfter.done (by simp [putAll])

theorem run_elements_eq_ok
    (h : elements budget excess long minimum r count source = .ok (as, source')) :
    getMany r count ⟨source.rest, source.meter.add ⟨0, count⟩⟩ = .ok (as, source') := by
  obtain ⟨_, first, hensure, h⟩ := run_bind_eq_ok.1 h
  obtain ⟨_, second, hhold, h⟩ := run_bind_eq_ok.1 h
  rw [hold] at hhold
  rw [ensure] at hensure
  split at hensure
  · cases hensure
    split at hhold
    · cases hhold
      exact h
    · cases hhold
  · cases hensure

theorem recovers_elements (h : Recovers limit r w) (count : ℕ) :
    Recovers limit (elements budget excess long minimum r count) (putAll w) := by
  intro source as source' hread
  exact recovers_getMany h count ⟨source.rest, source.meter.add ⟨0, count⟩⟩ as source'
    (run_elements_eq_ok hread)

theorem Returns.length_elements (h : Returns (elements budget excess long minimum r count) as) :
    as.length = count := by
  obtain ⟨source, source', h⟩ := h
  exact Returns.length_getMany ⟨_, source', run_elements_eq_ok h⟩

theorem Returns.length_payload (h : Returns (payload budget excess long short count) bytes) :
    bytes.length = count := by
  revert h
  refine Returns.elim_bind fun _ ↦ Returns.elim_bind fun _ ↦ fun h ↦ ?_
  exact h.length_take

end Recovers

end Wrela.Wire
