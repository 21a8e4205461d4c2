import Wrela.TestModel.ScenarioCodec
import Wrela.TestModel.ReportCodecLaws
import Wrela.Wire.Folds

/-!
# The text of a scenario

The text of a scenario is that of its lines.  No line holds a control character, whatever the
strings of the scenario hold, so the lines can be found again in the text.
-/

namespace Wrela.TestModel

open List Wrela.Source Wrela.BuildModel Wrela.Wire Wrela.Checked

-- whatever the elements are, only those of the list are tried
open scoped Wrela.FiniteChecks

/-- `w` appends the characters and keeps within the limit. -/
def Writes (maximumBytes : UInt64) (w : TextEncoder Unit) (written : List Char) : Prop :=
  ∀ sink sink', w sink = .ok ((), sink') →
    sink'.bytes = sink.bytes ++ encodeChars written ∧
      (sink.bytes.length ≤ maximumBytes.toNat → sink'.bytes.length ≤ maximumBytes.toNat)

section Writes

variable {maximumBytes : UInt64}

theorem Writes.pure : Writes maximumBytes (pure ()) [] := by
  intro sink sink' h
  cases h
  exact ⟨by simp [encodeChars], id⟩

theorem Writes.text (value : List Char) :
    Writes maximumBytes (TextEncoder.text maximumBytes value) value := by
  intro sink sink' h
  obtain ⟨hfits, rfl⟩ := append_eq_ok.1 h
  exact ⟨rfl, fun _ ↦ by simpa using hfits⟩

theorem Writes.bind (hw : Writes maximumBytes w first) (hv : Writes maximumBytes v second) :
    Writes maximumBytes (w >>= fun _ ↦ v) (first ++ second) := by
  intro sink sink' h
  obtain ⟨_, mid, hmid, hrest⟩ := run_bind_eq_ok.1 h
  obtain ⟨hfirst, hfits⟩ := hw sink mid hmid
  obtain ⟨hsecond, hfits'⟩ := hv mid sink' hrest
  refine ⟨?_, hfits' ∘ hfits⟩
  rw [hsecond, hfirst, encodeChars_append, append_assoc]

theorem Writes.putAll {α : Type} {w : α → TextEncoder Unit} {written : α → List Char}
    (h : ∀ a, Writes maximumBytes (w a) (written a)) (as : List α) :
    Writes maximumBytes (putAll w as) (as.flatMap written) := by
  induction as with
  | nil => exact Writes.pure
  | cons a as ih =>
    rw [flatMap_cons]
    exact (h a).bind ih

end Writes

def quotedText (value : String) : List Char := '"' :: (value.toList.flatMap escape ++ ['"'])

def hexDigits (bytes : List UInt8) : List Char :=
  bytes.flatMap fun byte : UInt8 ↦ [lowerHex (byte.toNat / 16), lowerHex (byte.toNat % 16)]

def hexText (bytes : List UInt8) : List Char := '"' :: (hexDigits bytes ++ ['"'])

/-- The line of one field. -/
def fieldLine (key : String) (value : List Char) : List Char := key.toList ++ " = ".toList ++ value

def decimalText (value : ℕ) : List Char := Nat.toDigits 10 value

def optionalLine {α : Type} (key : String) (write : α → List Char) : Option α → List (List Char)
  | none => []
  | some value => [fieldLine key (write value)]

/-- The lines of a step after the one that opens it. -/
def stepLines : ImageScenarioStep → List (List Char)
  | .sendSerial bytes =>
    [fieldLine "kind" (quotedText "send-serial"), fieldLine "bytes_hex" (hexText bytes)]
  | .expectSerial bytes timeoutNs =>
    [fieldLine "kind" (quotedText "expect-serial"), fieldLine "bytes_hex" (hexText bytes),
      fieldLine "timeout_ns" (decimalText timeoutNs.toNat)]
  | .expectTestEvent kind test messageContains timeoutNs =>
    [fieldLine "kind" (quotedText "expect-test-event"),
      fieldLine "event" (quotedText (eventName kind))] ++
      optionalLine "test" (fun test : TestId ↦ decimalText test.val.toNat) test ++
      optionalLine "message_contains" quotedText messageContains ++
      [fieldLine "timeout_ns" (decimalText timeoutNs.toNat)]
  | .expectExit code timeoutNs =>
    [fieldLine "kind" (quotedText "expect-exit")] ++ optionalLine "code" signedDigits code ++
      [fieldLine "timeout_ns" (decimalText timeoutNs.toNat)]
  | .requestShutdown timeoutNs =>
    [fieldLine "kind" (quotedText "request-shutdown"),
      fieldLine "timeout_ns" (decimalText timeoutNs.toNat)]

def stepBlock (step : ImageScenarioStep) : List (List Char) := "[[step]]".toList :: stepLines step

def scenarioLines (scenario : ImageScenario) : List (List Char) :=
  [fieldLine "schema" (decimalText scenario.schema.toNat),
    fieldLine "name" (quotedText scenario.name)] ++
    scenario.steps.flatMap fun step ↦ [] :: stepBlock step

section Encoding

variable {maximumBytes : UInt64}

/-- The same characters, however they are put together. -/
theorem Writes.of_eq (h : Writes maximumBytes w written) (heq : written = written') :
    Writes maximumBytes w written' := heq ▸ h

theorem writes_quoted (value : String) :
    Writes maximumBytes (TextEncoder.quoted maximumBytes value) (quotedText value) := by
  rw [TextEncoder.quoted]
  refine Writes.of_eq (.bind (.text _) (.bind (.putAll (fun _ ↦ .text _) _) (.text _))) ?_
  simp [quotedText]

theorem writes_bytesHex (bytes : List UInt8) :
    Writes maximumBytes (TextEncoder.bytesHex maximumBytes bytes) (hexText bytes) := by
  rw [TextEncoder.bytesHex]
  refine Writes.of_eq (.bind (.text _) (.bind (.putAll (fun _ ↦ .text _) _) (.text _))) ?_
  simp [hexText, hexDigits]

/-- The name of an event has no character to escape. -/
theorem quotedText_eventName (kind : ExpectedScenarioEvent) :
    quotedText (eventName kind) = '"' :: ((eventName kind).toList ++ ['"']) := by
  cases kind <;> decide

theorem writes_timeout (timeoutNs : UInt64) :
    Writes maximumBytes (do
      TextEncoder.text maximumBytes "timeout_ns = ".toList
      TextEncoder.decimal maximumBytes timeoutNs.toNat
      TextEncoder.text maximumBytes ['\n'])
      (joinLines [fieldLine "timeout_ns" (decimalText timeoutNs.toNat)]) := by
  refine Writes.of_eq (.bind (.text _) (.bind (.text _) (.text _))) ?_
  simp [fieldLine, decimalText]

theorem writes_step (step : ImageScenarioStep) :
    Writes maximumBytes (encodeStep maximumBytes step) (joinLines (stepLines step)) := by
  cases step with
  | sendSerial bytes =>
    refine Writes.of_eq (.bind (.text _) (.bind (writes_bytesHex bytes) (.text _))) ?_
    simp [stepLines, fieldLine, quotedText, escape]
  | expectSerial bytes timeoutNs =>
    refine Writes.of_eq (.bind (.text _) (.bind (writes_bytesHex bytes) (.bind (.text _)
      (.bind (.text _) (.text _))))) ?_
    simp [stepLines, fieldLine, quotedText, escape, decimalText]
  | expectTestEvent kind test messageContains timeoutNs =>
    have hkind : quotedText "expect-test-event" = "\"expect-test-event\"".toList := by decide
    cases test with
    | none =>
      cases messageContains with
      | none =>
        refine Writes.of_eq (.bind (.text _) (.bind (.text _) (.bind (.text _)
          (writes_timeout timeoutNs)))) ?_
        simp [stepLines, fieldLine, optionalLine, quotedText_eventName, hkind]
      | some message =>
        refine Writes.of_eq (.bind (.text _) (.bind (.text _) (.bind (.text _) (.bind (.text _)
          (.bind (writes_quoted message) (.bind (.text _) (writes_timeout timeoutNs))))))) ?_
        simp [stepLines, fieldLine, optionalLine, quotedText_eventName, hkind]
    | some test =>
      cases messageContains with
      | none =>
        refine Writes.of_eq (.bind (.text _) (.bind (.text _) (.bind (.text _) (.bind (.text _)
          (.bind (.text _) (.bind (.text _) (writes_timeout timeoutNs))))))) ?_
        simp [stepLines, fieldLine, optionalLine, quotedText_eventName, hkind, decimalText]
      | some message =>
        refine Writes.of_eq (.bind (.text _) (.bind (.text _) (.bind (.text _) (.bind (.text _)
          (.bind (.text _) (.bind (.text _) (.bind (.text _) (.bind (writes_quoted message)
            (.bind (.text _) (writes_timeout timeoutNs)))))))))) ?_
        simp [stepLines, fieldLine, optionalLine, quotedText_eventName, hkind, decimalText]
  | expectExit code timeoutNs =>
    have hkind : quotedText "expect-exit" = "\"expect-exit\"".toList := by decide
    cases code with
    | none =>
      refine Writes.of_eq (.bind (.text _) (writes_timeout timeoutNs)) ?_
      simp [stepLines, fieldLine, optionalLine, hkind]
    | some code =>
      refine Writes.of_eq (.bind (.text _) (.bind (.text _) (.bind (.text _) (.bind (.text _)
        (writes_timeout timeoutNs))))) ?_
      simp [stepLines, fieldLine, optionalLine, hkind]
  | requestShutdown timeoutNs =>
    refine Writes.of_eq (.bind (.text _) (.bind (.text _) (.text _))) ?_
    simp [stepLines, fieldLine, quotedText, escape, decimalText]

/-- The text of a scenario is that of its lines. -/
theorem writes_scenario (scenario : ImageScenario) :
    Writes maximumBytes (encodeScenarioText maximumBytes scenario)
      (joinLines (scenarioLines scenario)) := by
  have hsteps : scenario.steps.flatMap
        (fun step ↦ "\n[[step]]\n".toList ++ joinLines (stepLines step)) =
      joinLines (scenario.steps.flatMap fun step ↦ [] :: stepBlock step) := by
    induction scenario.steps with
    | nil => rfl
    | cons step steps ih =>
      rw [flatMap_cons, ih, flatMap_cons, joinLines_append]
      simp [stepBlock]
  rw [encodeScenarioText]
  refine Writes.of_eq (.bind (.text _) (.bind (.text _) (.bind (.text _) (.bind
    (writes_quoted scenario.name) (.bind (.text _) (.putAll (fun step ↦ (Writes.text _).bind
      (writes_step step)) _)))))) ?_
  rw [hsteps]
  simp [scenarioLines, fieldLine, decimalText]

end Encoding

/-- Every character comes after the control characters that end in the space. -/
def Printed (line : List Char) : Prop := ∀ character ∈ line, 0x1f < character.toNat

instance : DecidablePred Printed := fun line ↦
  inferInstanceAs (Decidable (∀ character ∈ line, 0x1f < character.toNat))

theorem Printed.append (hfirst : Printed first) (hsecond : Printed second) :
    Printed (first ++ second) := fun character hmem ↦
  (mem_append.1 hmem).elim (hfirst character) (hsecond character)

theorem Printed.fieldLine (hkey : Printed key.toList) (hvalue : Printed value) :
    Printed (fieldLine key value) :=
  (hkey.append (by decide)).append hvalue

theorem Printed.flatMap {α : Type} {write : α → List Char} (h : ∀ a, Printed (write a))
    (as : List α) : Printed (as.flatMap write) := by
  intro character hmem
  obtain ⟨a, -, hmem⟩ := mem_flatMap.1 hmem
  exact h a character hmem

theorem toNat_upperHex (h : value < 16) : 0x1f < (upperHex value).toNat := by
  revert value
  decide

theorem toNat_lowerHex (h : value < 16) : 0x1f < (lowerHex value).toNat := by
  revert value
  decide

theorem printed_digits (value : ℕ) : Printed (Nat.toDigits 10 value) := by
  intro digit hmem
  have hdigit := isDigit_toDigits value digit hmem
  simp only [Char.isDigit, Bool.and_eq_true, decide_eq_true_eq] at hdigit
  have hzero : 48 ≤ digit.toNat := hdigit.1
  omega

theorem printed_escape (character : Char) : Printed (escape character) := by
  have hhex (value : ℕ) := toNat_upperHex (Nat.mod_lt value (by decide : 16 > 0))
  unfold escape
  iterate 7
    split
    · decide
  split
  · simp only [Printed, forall_mem_cons]
    exact ⟨by decide, by decide, hhex _, hhex _, hhex _, hhex _, by simp⟩
  · rename_i hcontrol
    have hlarge : ¬ character.toNat ≤ 0x1f := fun hle ↦ hcontrol (.inl hle)
    simpa [Printed] using hlarge

theorem printed_quotedText (value : String) : Printed (quotedText value) :=
  Printed.append (by decide : Printed ['"'])
    (.append (.flatMap printed_escape value.toList) (by decide))

theorem printed_hexText (bytes : List UInt8) : Printed (hexText bytes) := by
  refine Printed.append (by decide : Printed ['"']) (.append (.flatMap (fun byte ↦ ?_) bytes)
    (by decide))
  have hbyte := byte.toNat_lt
  simp only [Printed, forall_mem_cons]
  exact ⟨toNat_lowerHex (by omega), toNat_lowerHex (by omega), by simp⟩

theorem printed_signedDigits (value : Int32) : Printed (signedDigits value) := by
  unfold signedDigits
  split
  · exact printed_digits _
  · exact Printed.append (by decide : Printed ['-']) (printed_digits _)

/-- The keys of the fields of a step. -/
def stepKeys : List String :=
  ["kind", "bytes_hex", "event", "test", "message_contains", "code", "timeout_ns"]

/-- The line is a field of a step, with nothing below the space in its value. -/
def StepField (line : List Char) : Prop :=
  ∃ key ∈ stepKeys, ∃ value, Printed value ∧ line = fieldLine key value

theorem stepField {key : String} {value : List Char} (hvalue : Printed value)
    (hkey : key ∈ stepKeys) : StepField (fieldLine key value) := ⟨key, hkey, value, hvalue, rfl⟩

theorem stepField_optionalLine {α : Type} {key : String} {write : α → List Char}
    (h : ∀ a, Printed (write a)) (hkey : key ∈ stepKeys) (value : Option α) :
    ∀ line ∈ optionalLine key write value, StepField line := by
  cases value with
  | none => simp [optionalLine]
  | some value => simpa [optionalLine] using stepField (h value) hkey

theorem stepField_of_mem_stepLines (step : ImageScenarioStep) :
    ∀ line ∈ stepLines step, StepField line := by
  have hkind (kind : String) : StepField (fieldLine "kind" (quotedText kind)) :=
    stepField (printed_quotedText kind) (by decide)
  have hbytes (bytes : List UInt8) : StepField (fieldLine "bytes_hex" (hexText bytes)) :=
    stepField (printed_hexText bytes) (by decide)
  have htimeout (timeoutNs : UInt64) :
      StepField (fieldLine "timeout_ns" (decimalText timeoutNs.toNat)) :=
    stepField (printed_digits _) (by decide)
  cases step with
  | sendSerial bytes => simp [stepLines, hkind, hbytes]
  | expectSerial bytes timeoutNs => simp [stepLines, hkind, hbytes, htimeout]
  | expectTestEvent kind test messageContains timeoutNs =>
    have hevent : StepField (fieldLine "event" (quotedText (eventName kind))) :=
      stepField (printed_quotedText _) (by decide)
    simp only [stepLines, forall_mem_append, forall_mem_cons]
    refine ⟨⟨⟨⟨hkind _, hevent, by simp⟩, ?_⟩, ?_⟩, htimeout _, by simp⟩
    · exact stepField_optionalLine (fun test ↦ printed_digits _) (by decide) test
    · exact stepField_optionalLine printed_quotedText (by decide) messageContains
  | expectExit code timeoutNs =>
    simp only [stepLines, forall_mem_append, forall_mem_cons]
    refine ⟨⟨⟨hkind _, by simp⟩, ?_⟩, htimeout _, by simp⟩
    exact stepField_optionalLine printed_signedDigits (by decide) code
  | requestShutdown timeoutNs => simp [stepLines, hkind, htimeout]

theorem printed_of_mem_stepLines (h : line ∈ stepLines step) : Printed line := by
  have hkeys : ∀ key ∈ stepKeys, Printed key.toList := by decide
  obtain ⟨key, hkey, value, hvalue, rfl⟩ := stepField_of_mem_stepLines step line h
  exact (hkeys key hkey).fieldLine hvalue

/-- No line of a step looks like the opening of another. -/
theorem opening_not_mem_stepLines (step : ImageScenarioStep) :
    "[[step]]".toList ∉ stepLines step := by
  have hkeys : ∀ key ∈ stepKeys, key.toList.head? ≠ some '[' ∧ key.toList ≠ [] := by decide
  intro hmem
  obtain ⟨key, hkey, value, -, hline⟩ := stepField_of_mem_stepLines step _ hmem
  obtain ⟨hhead, hne⟩ := hkeys key hkey
  obtain ⟨first, rest, hfirst⟩ := exists_cons_of_ne_nil hne
  rw [hfirst] at hhead
  rw [fieldLine, hfirst] at hline
  have hopening : some '[' = some first := congrArg List.head? hline
  exact hhead hopening.symm

theorem length_stepLines (step : ImageScenarioStep) :
    2 ≤ (stepLines step).length ∧ (stepLines step).length ≤ 5 := by
  have hoptional {α : Type} (key : String) (write : α → List Char) (value : Option α) :
      (optionalLine key write value).length ≤ 1 := by cases value <;> simp [optionalLine]
  cases step with
  | expectTestEvent kind test messageContains timeoutNs =>
    have htest := hoptional "test" (fun test : TestId ↦ decimalText test.val.toNat) test
    have hmessage := hoptional "message_contains" quotedText messageContains
    simp only [stepLines, length_append, length_cons, length_nil]
    omega
  | expectExit code timeoutNs =>
    have hcode := hoptional "code" signedDigits code
    simp only [stepLines, length_append, length_cons, length_nil]
    omega
  | _ => simp [stepLines]

theorem printed_scenarioLines (scenario : ImageScenario) :
    ∀ line ∈ scenarioLines scenario, Printed line := by
  rw [scenarioLines, forall_mem_append]
  constructor
  · rw [forall_mem_cons, forall_mem_singleton]
    exact ⟨Printed.fieldLine (by decide) (printed_digits _),
      Printed.fieldLine (by decide) (printed_quotedText _)⟩
  · simp only [stepBlock, mem_flatMap, mem_cons]
    rintro line ⟨step, -, rfl | rfl | hmem⟩
    · decide
    · decide
    · exact printed_of_mem_stepLines hmem

/-- Every step opens once. -/
theorem count_opening_scenarioLines (scenario : ImageScenario) :
    (scenarioLines scenario).count "[[step]]".toList = scenario.steps.length := by
  have hblock (step : ImageScenarioStep) : ([] :: stepBlock step).count "[[step]]".toList = 1 := by
    rw [stepBlock, count_cons_of_ne (by decide), count_cons_self,
      count_eq_zero_of_not_mem (opening_not_mem_stepLines step)]
  have hsteps (steps : List ImageScenarioStep) :
      (steps.flatMap fun step ↦ [] :: stepBlock step).count "[[step]]".toList = steps.length := by
    induction steps with
    | nil => rfl
    | cons step steps ih => rw [flatMap_cons, count_append, hblock, ih, length_cons, Nat.add_comm]
  rw [scenarioLines, count_append, hsteps]
  simp [fieldLine]

theorem length_scenarioLines (scenario : ImageScenario) :
    2 + 4 * scenario.steps.length ≤ (scenarioLines scenario).length ∧
      (scenarioLines scenario).length ≤ scenario.steps.length * 7 + 2 := by
  have hsteps (steps : List ImageScenarioStep) :
      4 * steps.length ≤ (steps.flatMap fun step ↦ [] :: stepBlock step).length ∧
        (steps.flatMap fun step ↦ [] :: stepBlock step).length ≤ steps.length * 7 := by
    induction steps with
    | nil => simp
    | cons step steps ih =>
      have hlines := length_stepLines step
      rw [flatMap_cons, length_append, stepBlock, length_cons, length_cons, length_cons]
      omega
  have hscenario := hsteps scenario.steps
  rw [scenarioLines, length_append, length_cons, length_cons, length_nil]
  omega

/-- The lines are found again in the text. -/
theorem splitTerminator_scenarioLines (scenario : ImageScenario) :
    splitTerminator (joinLines (scenarioLines scenario)) = scenarioLines scenario := by
  refine splitTerminator_joinLines fun line hline hmem ↦ ?_
  have hprinted := printed_scenarioLines scenario line hline '\n' hmem
  exact absurd hprinted (by decide)

theorem carriageReturn_not_mem (scenario : ImageScenario) :
    '\r' ∉ joinLines (scenarioLines scenario) := by
  refine not_mem_joinLines (by decide) fun line hline hmem ↦ ?_
  have hprinted := printed_scenarioLines scenario line hline '\r' hmem
  exact absurd hprinted (by decide)

end Wrela.TestModel
