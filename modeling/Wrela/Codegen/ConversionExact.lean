import Wrela.Codegen.CheckedIntegerExact
import Wrela.Codegen.FloatRangeLaws

/-!
# Rendered checked conversions are exact

A conversion from or to an integer delivers the same number, the truncation of a float or the
rounding of an integer; it fails where the destination has no such number.
-/

namespace Wrela.Codegen

open Wrela.Data Wrela.Llvm Wrela.Machine Wrela.Ieee

/-- A type of numbers that a conversion is from or to. -/
inductive NumberType where
  | integer (signed : Bool) (bits : ℕ)
  | float (format : Format)

namespace NumberType

def width : NumberType → ℕ
  | integer _ bits => bits
  | float format => format.storageBits

/-- The number that a word stands for. -/
def read (word : ℕ) : NumberType → Datum
  | integer signed bits => .finite (interpret signed bits word)
  | float format => format.decode word

/-- What validation promises of a kind and its type. -/
def Admits (machine : MachineWir) (kind : CheckedNumericKind) (ty : MachineTypeId) :
    NumberType → Prop
  | integer signed bits =>
    kind = (if signed then .signedInteger else .unsignedInteger) ∧
      integerBits machine ty = .ok bits ∧ 0 < bits ∧ bits ≤ 128
  | float format => ∃ layout, FloatKind kind layout format

def IsInteger : NumberType → Prop
  | integer .. => True
  | float _ => False

end NumberType

/-- What validation promises of a checked conversion. -/
structure ConversionSite (machine : MachineWir) (function : MachineFunction)
    (result value : ValueId) (sourceKind destinationKind : CheckedNumericKind)
    (destination : MachineTypeId) (failure : ScalarFailureProvenance)
    (source target : NumberType) (symbol : String) : Prop where
  sourceType : ∃ ty, valueType function value = .ok ty ∧ source.Admits machine sourceKind ty
  destinationType : target.Admits machine destinationKind destination
  fatalSymbol : runtimeSymbol machine .fatal = .ok symbol
  failureKind : failure.kind = .conversion
  distinct : value ≠ result

/-- What a conversion has to deliver: an integer that is the truncation of the number, or a word of
the nearest float with its sign; a failure where the integer does not fit or the float overflows. -/
def Converts (target : NumberType) (datum : Datum) (delivered : Except RuntimeFatalCode ℤ) : Prop :=
  match target, delivered with
  | .integer signed bits, .ok whole =>
    ∃ number, datum = .finite number ∧ whole = truncate number ∧ Fits signed bits whole
  | .integer signed bits, .error code => code = .conversion ∧ ¬Convertible signed bits datum
  | .float format, .ok whole =>
    ∃ number, datum = .finite number ∧ ¬format.Overflows number ∧
      ∃ word : ℕ, whole = word ∧ format.NearestEven number word ∧ (format.signBit ≤ word ↔ number < 0)
  | .float format, .error code =>
    code = .conversion ∧ ∃ number, datum = .finite number ∧ format.Overflows number

section Conversions

variable {machine : MachineWir} {function : MachineFunction} {instruction : InstructionId}
  {result value : ValueId} {sourceKind destinationKind : CheckedNumericKind}
  {destination ty : MachineTypeId} {failure : ScalarFailureProvenance} {source target : NumberType}
  {symbol : String} {env : Environment Name} {word bits sourceBits : ℕ} {signed sourceSigned : Bool}
  {format : Format} {layout : FloatLayout}

theorem renderConversionFailure_eq (hsymbol : runtimeSymbol machine .fatal = .ok symbol)
    (hkind : failure.kind = .conversion) :
    renderCheckedFailure machine instruction failure =
      .ok (checkedFailureLines symbol instruction failure
        (.constant RuntimeFatalCode.conversion.asU32)) := by
  rw [renderCheckedFailure, renderCheckedFailureWithCode, hsymbol, hkind]
  rfl

theorem truncate_intCast (whole : ℤ) : truncate whole = whole := by
  rw [truncate]
  split <;> simp

theorem converts_integer (whole : ℤ) :
    Converts (.integer signed bits) (.finite whole)
      (if Fits signed bits whole then .ok whole else .error .conversion) := by
  split
  · rename_i hfits
    exact ⟨whole, rfl, (truncate_intCast whole).symm, hfits⟩
  · rename_i hfits
    refine ⟨rfl, ?_⟩
    rintro ⟨number, hnumber, hconvertible⟩
    cases hnumber
    rw [truncate_intCast] at hconvertible
    exact hfits hconvertible

theorem delivers_integerConversion
    (hsourceKind : sourceKind = if sourceSigned then .signedInteger else .unsignedInteger)
    (hsource : integerBits machine ty = .ok sourceBits) (hsourcePos : 0 < sourceBits)
    (hkind : destinationKind = if signed then .signedInteger else .unsignedInteger)
    (hdestination : integerBits machine destination = .ok bits) (hpos : 0 < bits)
    (hsymbol : runtimeSymbol machine .fatal = .ok symbol) (hfailure : failure.kind = .conversion)
    (hdistinct : value ≠ result) (hvalue : env (.value value) = some word)
    (hword : word < 2 ^ sourceBits) :
    ∃ lines, renderCheckedIntegerConversion machine instruction result sourceKind destinationKind
        value ty destination failure = .ok lines ∧
      Delivers symbol failure result bits (run none lines env)
        (if Fits signed bits (interpret sourceSigned sourceBits word) then
          .ok (interpret sourceSigned sourceBits word) else .error .conversion) := by
  have hsourceSigned : decide (sourceKind = .signedInteger) = sourceSigned := by
    rw [hsourceKind]
    cases sourceSigned <;> rfl
  have hsigned : decide (destinationKind = .signedInteger) = signed := by
    rw [hkind]
    cases signed <;> rfl
  refine ⟨_, by
    simp only [renderCheckedIntegerConversion, hsource, hdestination, hsourceSigned, hsigned,
      renderConversionFailure_eq hsymbol hfailure]
    rfl, ?_⟩
  have hrun := @run_integerConversion instruction result value env sourceBits bits word sourceSigned
    signed hvalue hword hdistinct
  rw [conversionValid_iff hsourcePos hpos hword] at hrun
  rw [← List.append_nil (_ ++ _)]
  refine delivers_checked .conversion (hrun.imp fun env' ⟨hresult, hfailed⟩ ↦
    ⟨hfailed, rfl, hresult⟩) ?_ ?_
  · intro hfits
    rw [if_neg (by simpa using hfits)]
  · intro hfits
    rw [if_pos (by simpa using hfits)]
    exact ⟨_, rfl, fun env' hresult ↦ endsIn_nil.2 hresult⟩

section

variable (hkind : FloatKind destinationKind layout format)
  (hsourceKind : sourceKind = if sourceSigned then .signedInteger else .unsignedInteger)
  (hsource : integerBits machine ty = .ok sourceBits)
include hkind hsourceKind hsource

theorem run_integerToFloat (hvalue : env (.value value) = some word)
    (hword : word < 2 ^ sourceBits) :
    ∃ lines, (renderIntegerToFloat machine instruction result sourceKind destinationKind value ty
        failure = do
          return lines ++ (← renderFloatInfinityTest instruction result destinationKind "failed") ++
            (← renderCheckedFailure machine instruction failure)) ∧
      EndsIn lines env fun env' ↦
        env' (.value result) = some (format.round (interpret sourceSigned sourceBits word)) := by
  have hsourceSigned : decide (sourceKind = .signedInteger) = sourceSigned := by
    rw [hsourceKind]
    cases sourceSigned <;> rfl
  have hformat : (if destinationKind = .float32 then binary32 else binary64) = format := by
    cases hkind <;> rfl
  simp only [renderIntegerToFloat, hsource, bind, Except.bind]
  split
  · rename_i hwide
    subst hwide
    refine ⟨i128ToFloatLines instruction result value layout sourceSigned, ?_,
      run_i128ToFloat hkind.layoutOf hvalue hword⟩
    cases hkind <;> rw [renderI128ToFloat, hsourceSigned]
  · refine ⟨_, rfl, ?_⟩
    simp [Operation.eval, valueOperand, hvalue, hsourceSigned, hformat]

theorem delivers_integerToFloat (hsymbol : runtimeSymbol machine .fatal = .ok symbol)
    (hfailure : failure.kind = .conversion) (hvalue : env (.value value) = some word)
    (hword : word < 2 ^ sourceBits) :
    ∃ lines delivered, renderIntegerToFloat machine instruction result sourceKind destinationKind
        value ty failure = .ok lines ∧
      Delivers symbol failure result format.storageBits (run none lines env) delivered ∧
      Converts (.float format) (.finite (interpret sourceSigned sourceBits word)) delivered := by
  obtain ⟨lines, hlines, hrun⟩ := @run_integerToFloat machine instruction result value sourceKind
    destinationKind ty failure env word sourceBits sourceSigned format layout hkind hsourceKind hsource
    hvalue hword
  generalize (interpret sourceSigned sourceBits word : ℚ) = number at *
  obtain ⟨test, htest, htestRun⟩ :=
    @run_infinityTest instruction result destinationKind layout format "failed" hkind
  have hchecked := endsIn_append (hrun.imp fun env' hresult ↦ htestRun env' _ hresult)
  simp only [Format.decode_round_infinite_iff] at hchecked
  refine ⟨lines ++ test ++ checkedFailureLines symbol instruction failure
      (.constant RuntimeFatalCode.conversion.asU32),
    if format.Overflows number then .error .conversion else .ok (format.round number), ?_, ?_, ?_⟩
  · rw [hlines, htest, renderConversionFailure_eq hsymbol hfailure]
    rfl
  · rw [← List.append_nil (_ ++ _)]
    refine delivers_checked .conversion
      (hchecked.imp fun env' hends ↦ ⟨hends.1, rfl, hends.2⟩) ?_ ?_
    · intro hoverflow
      rw [if_pos (of_decide_eq_true hoverflow)]
    · intro hfinite
      rw [if_neg (of_decide_eq_false hfinite)]
      refine ⟨_, rfl, fun env' hresult ↦ endsIn_nil.2 ?_⟩
      rw [hresult, encode_natCast (format.round_lt number)]
  · split
    · rename_i hoverflow
      exact ⟨rfl, number, rfl, hoverflow⟩
    · rename_i hfinite
      exact ⟨number, rfl, hfinite, _, rfl, Format.round_nearestEven hfinite,
        format.signBit_le_round_iff number⟩

end

section

variable (hkind : FloatKind sourceKind layout format)
  (hdestinationKind : destinationKind = if signed then .signedInteger else .unsignedInteger)
  (hdestination : integerBits machine destination = .ok bits)
include hkind hdestinationKind hdestination

theorem run_floatToInteger (hword : word < 2 ^ format.storageBits) :
    ∃ lines, (renderFloatToInteger machine instruction result sourceKind destinationKind value
        destination failure = do
          return (← renderFloatIntegerRangeTest instruction value sourceKind destinationKind bits) ++
            (← renderCheckedFailure machine instruction failure) ++ lines) ∧
      ∀ (env : Environment Name) (number : ℚ), env (.value value) = some word →
        format.decode word = .finite number → Fits signed bits (truncate number) →
        EndsIn lines env fun env' ↦ env' (.value result) = some (encode bits (truncate number)) := by
  have hsigned : decide (destinationKind = .signedInteger) = signed := by
    rw [hdestinationKind]
    cases signed <;> rfl
  have hformat : (if sourceKind = .float32 then binary32 else binary64) = format := by
    cases hkind <;> rfl
  rw [renderFloatToInteger, hdestination]
  rcases eq_or_ne bits 128 with rfl | hnarrow
  · have hconversion : renderFloatToI128 instruction result value sourceKind destinationKind =
        .ok (floatToI128Lines instruction result value layout signed
          (2 ^ format.exponentBits - 1)) := by
      cases hkind <;> rw [renderFloatToI128, hsigned] <;> rfl
    rw [hconversion]
    exact ⟨_, rfl, fun env number hvalue hdecode hfits ↦
      run_floatToI128 hkind.layoutOf rfl hvalue hword hdecode hfits⟩
  · simp only [bind, Except.bind, hnarrow, if_false]
    refine ⟨_, rfl, fun env number hvalue hdecode hfits ↦ ?_⟩
    simp [Operation.eval, valueOperand, hvalue, hsigned, hformat, hdecode, floatToInteger, hfits]

theorem delivers_floatToInteger (hbits : bits ≤ 128)
    (hsymbol : runtimeSymbol machine .fatal = .ok symbol) (hfailure : failure.kind = .conversion)
    (hvalue : env (.value value) = some word) (hword : word < 2 ^ format.storageBits) :
    ∃ lines delivered, renderFloatToInteger machine instruction result sourceKind destinationKind
        value destination failure = .ok lines ∧
      Delivers symbol failure result bits (run none lines env) delivered ∧
      Converts (.integer signed bits) (format.decode word) delivered := by
  obtain ⟨test, htest, htestRun⟩ :=
    @run_rangeTest instruction value env sourceKind destinationKind layout format bits word signed
      hkind hdestinationKind hbits hvalue
  obtain ⟨tail, htail, htailRun⟩ :=
    @run_floatToInteger machine instruction result value sourceKind destinationKind destination failure
      word bits signed format layout hkind hdestinationKind hdestination hword
  rw [htest, renderConversionFailure_eq hsymbol hfailure] at htail
  have hchecked := htestRun.imp fun env' ⟨hfailed, hvalue'⟩ ↦
    (⟨hfailed, @rfl _ (some RuntimeFatalCode.conversion.asU32), hvalue'⟩ :
      env' (temporary instruction "failed") = _ ∧
        (Operand.constant RuntimeFatalCode.conversion.asU32).eval env' = _ ∧ _)
  by_cases hconvertible : Convertible signed bits (format.decode word)
  · obtain ⟨number, hdecode, hfits⟩ := id hconvertible
    refine ⟨_, .ok (truncate number), htail, delivers_checked .conversion hchecked ?_ ?_,
      number, hdecode, rfl, hfits⟩
    · intro hfailed
      simp [hconvertible] at hfailed
    · exact fun _ ↦ ⟨_, rfl, fun env' hvalue' ↦ htailRun env' number hvalue' hdecode hfits⟩
  · refine ⟨_, .error .conversion, htail, delivers_checked .conversion hchecked (fun _ ↦ rfl) ?_,
      rfl, hconvertible⟩
    intro hpassed
    simp [hconvertible] at hpassed

end

end Conversions

/-- The lines rendered for a checked conversion from or to an integer deliver the same number, the
truncation or the nearest float, whatever the word, and fail exactly where there is none; they never
reach an operation that is undefined, as a shift by the width is. -/
theorem renderCheckedConversion_exact (machine : MachineWir) (function : MachineFunction)
    (instruction : InstructionId) (result value : ValueId)
    (sourceKind destinationKind : CheckedNumericKind) (destination : MachineTypeId)
    (failure : ScalarFailureProvenance) (source target : NumberType) (symbol : String)
    (env : Environment Name) (word : ℕ)
    (hsite : ConversionSite machine function result value sourceKind destinationKind destination
      failure source target symbol)
    (hinteger : source.IsInteger ∨ target.IsInteger) (hvalue : env (.value value) = some word)
    (hword : word < 2 ^ source.width) :
    ∃ lines delivered, renderCheckedConversion machine function instruction (some result) sourceKind
        destinationKind value destination failure = .ok lines ∧
      Delivers symbol failure result target.width (run none lines env) delivered ∧
      Converts target (source.read word) delivered := by
  obtain ⟨ty, hty, hsource⟩ := hsite.sourceType
  have htarget := hsite.destinationType
  simp only [renderCheckedConversion, requiredResult, bind, Except.bind, hty]
  cases source with
  | integer sourceSigned sourceBits =>
    obtain ⟨hsourceKind, hsourceBits, hsourcePos, -⟩ := hsource
    cases target with
    | integer signed bits =>
      obtain ⟨hkind, hbits, hpos, -⟩ := htarget
      obtain ⟨lines, hlines, hdelivers⟩ := @delivers_integerConversion machine instruction result
        value sourceKind destinationKind destination ty failure symbol env word bits sourceBits signed
        sourceSigned hsourceKind hsourceBits hsourcePos hkind hbits hpos hsite.fatalSymbol
        hsite.failureKind hsite.distinct hvalue hword
      refine ⟨lines, _, ?_, hdelivers, converts_integer _⟩
      rw [← hlines, hsourceKind, hkind]
      cases sourceSigned <;> cases signed <;> rfl
    | float format =>
      obtain ⟨layout, hkind⟩ := htarget
      obtain ⟨lines, delivered, hlines, hdelivers, hconverts⟩ := @delivers_integerToFloat machine
        instruction result value sourceKind destinationKind ty failure symbol env word sourceBits
        sourceSigned format layout hkind hsourceKind hsourceBits hsite.fatalSymbol hsite.failureKind
        hvalue hword
      refine ⟨lines, delivered, ?_, hdelivers, hconverts⟩
      rw [← hlines, hsourceKind]
      cases sourceSigned <;> cases hkind <;> rfl
  | float format =>
    obtain ⟨layout, hkind⟩ := hsource
    cases target with
    | integer signed bits =>
      obtain ⟨hdestinationKind, hbits, -, hadmitted⟩ := htarget
      obtain ⟨lines, delivered, hlines, hdelivers, hconverts⟩ := @delivers_floatToInteger machine
        instruction result value sourceKind destinationKind destination failure symbol env word bits
        signed format layout hkind hdestinationKind hbits hadmitted hsite.fatalSymbol
        hsite.failureKind hvalue hword
      refine ⟨lines, delivered, ?_, hdelivers, hconverts⟩
      rw [← hlines, hdestinationKind]
      cases signed <;> cases hkind <;> rfl
    | float other => exact hinteger.elim False.elim False.elim

/-- A function with a value of type `i128` and one of type `f64`. -/
def conversionFunction : MachineFunction :=
  { exampleEntry with values := [⟨⟨0⟩, ⟨6⟩, none⟩, ⟨⟨1⟩, ⟨7⟩, none⟩] }

/-- An image with the types `i128` and `f64` and the fatal intrinsic. -/
def conversionImage : MachineWir :=
  { quietImage with
    types := quietImage.types ++
      [⟨⟨6⟩, .integer 128, 16, 16, some "i128"⟩, ⟨⟨7⟩, .float64, 8, 8, some "f64"⟩]
    symbols := quietImage.symbols ++
      [⟨⟨4⟩, "wrela_rt_v2_fatal", .runtime, .externalRuntime .fatal⟩] }

theorem conversionSite_toFloat :
    ConversionSite conversionImage conversionFunction ⟨1⟩ ⟨0⟩ .signedInteger .float64 ⟨7⟩
      ⟨.conversion, 0, 7⟩ (.integer true 128) (.float binary64) "wrela_rt_v2_fatal" where
  sourceType := ⟨⟨6⟩, by decide, rfl, by decide, by decide, by decide⟩
  destinationType := ⟨layout64, .float64⟩
  fatalSymbol := by decide
  failureKind := rfl
  distinct := by decide

/-- A number between two floats. -/
theorem renderCheckedConversion_exact_toFloat :
    ∃ lines delivered, renderCheckedConversion conversionImage conversionFunction ⟨7⟩ (some ⟨1⟩)
        .signedInteger .float64 ⟨0⟩ ⟨7⟩ ⟨.conversion, 0, 7⟩ = .ok lines ∧
      Delivers "wrela_rt_v2_fatal" ⟨.conversion, 0, 7⟩ ⟨1⟩ 64
        (run none lines (Environment.set (fun _ ↦ none) (.value ⟨0⟩) (2 ^ 100 + 1))) delivered ∧
      Converts (.float binary64) (NumberType.read (2 ^ 100 + 1) (.integer true 128)) delivered :=
  renderCheckedConversion_exact conversionImage conversionFunction ⟨7⟩ ⟨1⟩ ⟨0⟩ .signedInteger .float64
    ⟨7⟩ ⟨.conversion, 0, 7⟩ (.integer true 128) (.float binary64) "wrela_rt_v2_fatal"
    (Environment.set (fun _ ↦ none) (.value ⟨0⟩) (2 ^ 100 + 1)) (2 ^ 100 + 1) conversionSite_toFloat
    (.inl trivial) (by simp) (by decide)

end Wrela.Codegen
