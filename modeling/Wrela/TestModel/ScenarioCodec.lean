import Wrela.TestModel.ReportCodec

/-!
# The canonical scenario codec

A scenario is written as a closed subset of TOML, one field to a line and one blank line before
every step.  The decoder reads the lines in the same order, and then encodes what it has read and
holds the result against its input.
-/

namespace Wrela.TestModel

open Wrela.Source Wrela.BuildModel Wrela.Wire Wrela.Checked

def scenarioBytesResource : String := "image scenario bytes"

def scenarioStepsResource : String := "image scenario steps"

def stepBytesResource : String := "image scenario step payload bytes"

structure ScenarioLimits where
  maximumBytes : UInt64
  maximumSteps : UInt32
  maximumStepBytes : UInt64

structure ScenarioDecodeRequest where
  id : ScenarioId
  name : String
  sourcePath : String
  bytes : List UInt8
  verifiedDigest : Sha256Digest
  limits : ScenarioLimits

def validateLimits (limits : ScenarioLimits) : Except TestModelError Unit :=
  failIf (limits.maximumBytes == 0 || limits.maximumSteps == 0 || limits.maximumStepBytes == 0)
    .invalidLimits

def enforceLength (length : ℕ) (limit : UInt64) (resource : String) : Except TestModelError Unit :=
  failIf (decide (length > limit.toNat)) (.resourceLimit resource limit)

abbrev TextEncoder := Put TestModelError Unit

/-- The characters that stand for one character between quotes. -/
def escape (character : Char) : List Char :=
  if character = '"' then ['\\', '"']
  else if character = '\\' then ['\\', '\\']
  else if character = '\x08' then ['\\', 'b']
  else if character = '\t' then ['\\', 't']
  else if character = '\n' then ['\\', 'n']
  else if character = '\x0c' then ['\\', 'f']
  else if character = '\r' then ['\\', 'r']
  else if character ≤ '\x1f' ∨ character = '\x7f' then
    let value := character.toNat
    ['\\', 'u', upperHex (value / 4096 % 16), upperHex (value / 256 % 16),
      upperHex (value / 16 % 16), upperHex (value % 16)]
  else [character]

def signedDigits (value : Int32) : List Char :=
  match value.toInt with
  | .ofNat magnitude => Nat.toDigits 10 magnitude
  | .negSucc magnitude => '-' :: Nat.toDigits 10 (magnitude + 1)

namespace TextEncoder

variable (maximumBytes : UInt64)

def tooLarge (_ : ℕ) : TestModelError := .resourceLimit scenarioBytesResource maximumBytes

def text (value : List Char) : TextEncoder Unit :=
  append maximumBytes.toNat (tooLarge maximumBytes) (encodeChars value)

def quoted (value : String) : TextEncoder Unit := do
  text maximumBytes ['"']
  putAll (fun character ↦ text maximumBytes (escape character)) value.toList
  text maximumBytes ['"']

def decimal (value : ℕ) : TextEncoder Unit := text maximumBytes (Nat.toDigits 10 value)

def bytesHex (bytes : List UInt8) : TextEncoder Unit := do
  text maximumBytes ['"']
  putAll (fun byte : UInt8 ↦
    text maximumBytes [lowerHex (byte.toNat / 16), lowerHex (byte.toNat % 16)]) bytes
  text maximumBytes ['"']

end TextEncoder

def eventName : ExpectedScenarioEvent → String
  | .runStarted => "run-started"
  | .testStarted => "test-started"
  | .log => "log"
  | .assertionFailed => "assertion-failed"
  | .testFinished => "test-finished"
  | .heartbeat => "heartbeat"
  | .runFinished => "run-finished"

section Encoding

variable (maximumBytes : UInt64)

open TextEncoder

def encodeStep : ImageScenarioStep → TextEncoder Unit
  | .sendSerial bytes => do
    text maximumBytes "kind = \"send-serial\"\nbytes_hex = ".toList
    bytesHex maximumBytes bytes
    text maximumBytes ['\n']
  | .expectSerial bytes timeoutNs => do
    text maximumBytes "kind = \"expect-serial\"\nbytes_hex = ".toList
    bytesHex maximumBytes bytes
    text maximumBytes "\ntimeout_ns = ".toList
    decimal maximumBytes timeoutNs.toNat
    text maximumBytes ['\n']
  | .expectTestEvent kind test messageContains timeoutNs => do
    text maximumBytes "kind = \"expect-test-event\"\nevent = \"".toList
    text maximumBytes (eventName kind).toList
    text maximumBytes "\"\n".toList
    match test with
    | some test => do
      text maximumBytes "test = ".toList
      decimal maximumBytes test.val.toNat
      text maximumBytes ['\n']
    | none => pure ()
    match messageContains with
    | some message => do
      text maximumBytes "message_contains = ".toList
      quoted maximumBytes message
      text maximumBytes ['\n']
    | none => pure ()
    text maximumBytes "timeout_ns = ".toList
    decimal maximumBytes timeoutNs.toNat
    text maximumBytes ['\n']
  | .expectExit code timeoutNs => do
    text maximumBytes "kind = \"expect-exit\"\n".toList
    match code with
    | some code => do
      text maximumBytes "code = ".toList
      text maximumBytes (signedDigits code)
      text maximumBytes ['\n']
    | none => pure ()
    text maximumBytes "timeout_ns = ".toList
    decimal maximumBytes timeoutNs.toNat
    text maximumBytes ['\n']
  | .requestShutdown timeoutNs => do
    text maximumBytes "kind = \"request-shutdown\"\ntimeout_ns = ".toList
    decimal maximumBytes timeoutNs.toNat
    text maximumBytes ['\n']

def encodeScenarioText (scenario : ImageScenario) : TextEncoder Unit := do
  text maximumBytes "schema = ".toList
  decimal maximumBytes scenario.schema.toNat
  text maximumBytes "\nname = ".toList
  quoted maximumBytes scenario.name
  text maximumBytes ['\n']
  putAll (fun step ↦ do
    text maximumBytes "\n[[step]]\n".toList
    encodeStep maximumBytes step) scenario.steps

end Encoding

/-- A first pass measures the text, and a second one writes it. -/
def encodeScenario (scenario : ImageScenario) (limits : ScenarioLimits) :
    Except TestModelError (List UInt8) := do
  scenario.validateShape
  failIf (decide (scenario.steps.length > limits.maximumSteps.toNat))
    (.resourceLimit scenarioStepsResource limits.maximumSteps.toUInt64)
  forAll (fun step ↦ enforceLength step.payloadBytes limits.maximumStepBytes stepBytesResource)
    scenario.steps
  let (_, counter) ← encodeScenarioText limits.maximumBytes scenario ⟨[], ()⟩
  let (_, encoder) ← encodeScenarioText limits.maximumBytes scenario ⟨[], ()⟩
  failIf (encoder.bytes.length != counter.bytes.length) (.invalidScenario scenario.id)
  pure encoder.bytes

def encodeCanonical (scenario : ImageScenario) (limits : ScenarioLimits) :
    Except TestModelError (List UInt8) := do
  validateLimits limits
  encodeScenario scenario limits

section Strings

variable (id : ScenarioId)

/-- So many hexadecimal digits of a scalar value, after those read before. -/
def decodeUnicodeEscape : ℕ → ℕ → List Char → Except TestModelError (Char × List Char)
  | 0, scalar, characters =>
    if scalar.isValidChar then .ok (Char.ofNat scalar, characters) else .error (.invalidScenario id)
  | _ + 1, _, [] => .error (.invalidScenario id)
  | digits + 1, scalar, digit :: characters =>
    match hexValue digit with
    | none => .error (.invalidScenario id)
    | some value =>
      if scalar * 16 + value < UInt32.size then
        decodeUnicodeEscape digits (scalar * 16 + value) characters
      else .error (.invalidScenario id)

/-- The character an escape stands for, after its backslash. -/
def decodeEscape : List Char → Except TestModelError (Char × List Char)
  | [] => .error (.invalidScenario id)
  | escape :: characters =>
    if escape = '"' then .ok ('"', characters)
    else if escape = '\\' then .ok ('\\', characters)
    else if escape = 'b' then .ok ('\x08', characters)
    else if escape = 't' then .ok ('\t', characters)
    else if escape = 'n' then .ok ('\n', characters)
    else if escape = 'f' then .ok ('\x0c', characters)
    else if escape = 'r' then .ok ('\r', characters)
    else if escape = 'u' then decodeUnicodeEscape id 4 0 characters
    else if escape = 'U' then decodeUnicodeEscape id 8 0 characters
    else .error (.invalidScenario id)

def decodeCharacter (character : Char) (characters : List Char) :
    Except TestModelError (Char × List Char) :=
  if character = '\\' then decodeEscape id characters
  else if character = '"' ∨ character ≤ '\x1f' ∨ character = '\x7f' then
    .error (.invalidScenario id)
  else .ok (character, characters)

/-- The characters between the quotes.  Every step takes at least one of them, so their number is
fuel enough. -/
def walkBasicString : ℕ → List Char → Except TestModelError (List Char)
  | _, [] => .ok []
  | 0, _ :: _ => .error (.invalidScenario id)
  | fuel + 1, character :: characters => do
    let (decoded, rest) ← decodeCharacter id character characters
    let decodedRest ← walkBasicString fuel rest
    pure (decoded :: decodedRest)

/-- What stands between a quote at the start and another at the end. -/
def stripQuotes : List Char → Option (List Char)
  | '"' :: rest => if rest.getLast? = some '"' then some rest.dropLast else none
  | _ => none

def decodeBasicString (source : List Char) (maximumDecodedBytes : UInt64) (resource : String) :
    Except TestModelError String := do
  let inner ← orFail (stripQuotes source) (.invalidScenario id)
  let measured ← walkBasicString id inner.length inner
  enforceLength (encodeChars measured).length maximumDecodedBytes resource
  let decoded ← walkBasicString id inner.length inner
  failIf ((encodeChars decoded).length != (encodeChars measured).length) (.invalidScenario id)
  pure (String.ofList decoded)

/-- A literal cannot be longer than its source. -/
def decodeLiteral (source : List Char) : Except TestModelError String :=
  decodeBasicString id source (UInt64.ofNat (encodeChars source).length) scenarioBytesResource

end Strings

/-! ## Lines -/

abbrev LineReader := StateT (List (List Char)) (Except TestModelError)

def exactValue (id : ScenarioId) (line : List Char) (key : String) :
    Except TestModelError (List Char) :=
  let start := key.toList ++ " = ".toList
  if start.isPrefixOf line then .ok (line.drop start.length) else .error (.invalidScenario id)

/-- The next line is one for the key. -/
def hasKey (key : String) : List (List Char) → Bool
  | [] => false
  | line :: _ => (key.toList ++ " = ".toList).isPrefixOf line

namespace LineReader

variable (id : ScenarioId) {α : Type}

def line : LineReader (List Char)
  | [] => .error (.invalidScenario id)
  | line :: lines => .ok (line, lines)

/-- The value of a field that has to be there. -/
def field (key : String) : LineReader (List Char) := do
  let found ← line id
  checked (exactValue id found key)

/-- A field that may be left out. -/
def optionalField (key : String) (decode : LineReader α) : LineReader (Option α) := fun lines ↦
  if hasKey key lines then (do let value ← decode; pure (some value) : LineReader (Option α)) lines
  else .ok (none, lines)

end LineReader

section Decoding

variable (id : ScenarioId)

open LineReader

def parseCanonicalU64 (source : List Char) : Except TestModelError UInt64 :=
  if source.length > 20 ∨ source = [] ∨ source.head? = some '+' ∨
      (source.length > 1 ∧ source.head? = some '0') ∨ !source.all Char.isDigit then
    .error (.invalidScenario id)
  else if decimalValue source < UInt64.size then .ok (UInt64.ofNat (decimalValue source))
  else .error (.invalidScenario id)

/-- The digits of a number after its sign. -/
def magnitudeOf (source : List Char) : List Char :=
  if source.head? = some '-' then source.tail else source

def parseCanonicalI32 (source : List Char) : Except TestModelError Int32 :=
  if source.length > 11 ∨ source = [] ∨ source.head? = some '+' ∨ source = ['-', '0'] ∨
      source.take 2 = ['0', '0'] ∨ (source.head? = some '-' ∧ source[1]? = some '0') ∨
      !(magnitudeOf source).all Char.isDigit then
    .error (.invalidScenario id)
  else if magnitudeOf source = [] then .error (.invalidScenario id)
  else
    let magnitude : ℤ := decimalValue (magnitudeOf source)
    let value := if source.head? = some '-' then -magnitude else magnitude
    if -2 ^ 31 ≤ value ∧ value < 2 ^ 31 then .ok (Int32.ofInt value)
    else .error (.invalidScenario id)

def decodeU64Field (key : String) : LineReader UInt64 := do
  let source ← field id key
  checked (parseCanonicalU64 id source)

def decodeU32Field (key : String) : LineReader UInt32 := do
  let value ← decodeU64Field id key
  if value.toNat < UInt32.size then pure value.toUInt32 else fail (.invalidScenario id)

def decodeI32Field (key : String) : LineReader Int32 := do
  let source ← field id key
  checked (parseCanonicalI32 id source)

/-- Bytes from pairs of digits. -/
def hexPairs : List Char → Option (List UInt8)
  | [] => some []
  | [_] => none
  | high :: low :: digits => do
    let high ← hexValue high
    let low ← hexValue low
    let bytes ← hexPairs digits
    pure (UInt8.ofNat (high * 16 + low) :: bytes)

def saturatingDouble (value : UInt64) : UInt64 :=
  UInt64.ofNat (min (value.toNat * 2) (UInt64.size - 1))

def decodeHex (maximumStepBytes : UInt64) (encoded : List Char) :
    Except TestModelError (List UInt8) := do
  let hex ← (decodeBasicString id encoded (saturatingDouble maximumStepBytes)
    stepBytesResource).mapError fun error ↦
      match error with
      | .resourceLimit resource limit =>
        if resource = stepBytesResource then .resourceLimit stepBytesResource maximumStepBytes
        else .resourceLimit resource limit
      | other => other
  failIf (hex.isEmpty || byteLength hex % 2 != 0) (.invalidScenario id)
  enforceLength (byteLength hex / 2) maximumStepBytes stepBytesResource
  orFail (hexPairs hex.toList) (.invalidScenario id)

def decodeHexField (maximumStepBytes : UInt64) (key : String) : LineReader (List UInt8) := do
  let encoded ← field id key
  checked (decodeHex id maximumStepBytes encoded)

def eventOfName : String → Option ExpectedScenarioEvent
  | "run-started" => some .runStarted
  | "test-started" => some .testStarted
  | "log" => some .log
  | "assertion-failed" => some .assertionFailed
  | "test-finished" => some .testFinished
  | "heartbeat" => some .heartbeat
  | "run-finished" => some .runFinished
  | _ => none

def decodeTestField : LineReader TestId := do
  let test ← decodeU32Field id "test"
  pure ⟨test⟩

def decodeMessageField (maximumStepBytes : UInt64) : LineReader String := do
  let encoded ← field id "message_contains"
  checked (decodeBasicString id encoded maximumStepBytes stepBytesResource)

def decodeEventStep (maximumStepBytes : UInt64) : LineReader ImageScenarioStep := do
  let source ← field id "event"
  let event ← checked (decodeLiteral id source)
  let kind ← checked (orFail (eventOfName event) (.invalidScenario id))
  let test ← optionalField "test" (decodeTestField id)
  let messageContains ← optionalField "message_contains" (decodeMessageField id maximumStepBytes)
  let timeoutNs ← decodeU64Field id "timeout_ns"
  pure (.expectTestEvent kind test messageContains timeoutNs)

def decodeStepOfKind (maximumStepBytes : UInt64) : String → LineReader ImageScenarioStep
  | "send-serial" => do
    let bytes ← decodeHexField id maximumStepBytes "bytes_hex"
    pure (.sendSerial bytes)
  | "expect-serial" => do
    let bytes ← decodeHexField id maximumStepBytes "bytes_hex"
    let timeoutNs ← decodeU64Field id "timeout_ns"
    pure (.expectSerial bytes timeoutNs)
  | "expect-test-event" => decodeEventStep id maximumStepBytes
  | "expect-exit" => do
    let code ← optionalField "code" (decodeI32Field id "code")
    let timeoutNs ← decodeU64Field id "timeout_ns"
    pure (.expectExit code timeoutNs)
  | "request-shutdown" => do
    let timeoutNs ← decodeU64Field id "timeout_ns"
    pure (.requestShutdown timeoutNs)
  | _ => fail (.invalidScenario id)

def decodeStep (maximumStepBytes : UInt64) : LineReader ImageScenarioStep := do
  let opening ← line id
  if opening ≠ "[[step]]".toList then fail (.invalidScenario id)
  else do
    let source ← field id "kind"
    let kind ← checked (decodeLiteral id source)
    decodeStepOfKind id maximumStepBytes kind

/-- The steps, with one blank line between two of them.  Every step takes a line, so their number
is fuel enough. -/
def decodeSteps (maximumStepBytes : UInt64) :
    ℕ → List (List Char) → Except TestModelError (List ImageScenarioStep)
  | _, [] => .ok []
  | 0, _ :: _ => .error (.invalidScenario id)
  | fuel + 1, opening :: lines => do
    let (step, rest) ← decodeStep id maximumStepBytes (opening :: lines)
    match rest with
    | [] => pure [step]
    | blank :: following =>
      if blank ≠ [] ∨ following = [] then .error (.invalidScenario id)
      else do
        let steps ← decodeSteps maximumStepBytes fuel following
        pure (step :: steps)

/-- A text copied piece by piece, each ending between two characters. -/
def copyText (source : String) : Except TestModelError String :=
  orFail (copyChunks nextPiece (byteLength source) (utf8Bytes source)) (.invalidScenario id)

end Decoding

def decodeScenarioText (text : List Char) (request : ScenarioDecodeRequest) :
    Except TestModelError ImageScenario := do
  let invalid : TestModelError := .invalidScenario request.id
  failIf (text.isEmpty || text.getLast? != some '\n' || text.contains '\r') invalid
  let lines := splitTerminator text
  let stepCount := lines.count "[[step]]".toList
  enforceLength stepCount request.limits.maximumSteps.toUInt64 scenarioStepsResource
  failIf (stepCount == 0) invalid
  failIf (decide (lines.length < 6) || decide (lines.length > stepCount * 7 + 2)) invalid
  failIf (lines[0]? != some "schema = 1".toList) invalid
  let nameLine ← orFail lines[1]? invalid
  let nameEncoded ← exactValue request.id nameLine "name"
  let name ← decodeBasicString request.id nameEncoded request.limits.maximumBytes
    scenarioBytesResource
  failIf (name != request.name) (.scenarioIdentityMismatch request.id)
  failIf (lines[2]? != some []) invalid
  let steps ← decodeSteps request.id request.limits.maximumStepBytes lines.length (lines.drop 3)
  failIf (steps.length != stepCount) invalid
  let sourcePath ← copyText request.id request.sourcePath
  pure ⟨request.id, imageScenarioSchema, name, sourcePath, request.verifiedDigest, steps⟩

def decodeScenario (request : ScenarioDecodeRequest) : Except TestModelError ImageScenario := do
  validateLimits request.limits
  enforceLength request.bytes.length request.limits.maximumBytes scenarioBytesResource
  let text ← orFail (fromUtf8 request.bytes) (.invalidScenario request.id)
  let scenario ← decodeScenarioText text.toList request
  scenario.validateShape
  let canonical ← encodeScenario scenario request.limits
  failIf (canonical != request.bytes) (.nonCanonicalScenario request.id)
  pure scenario

end Wrela.TestModel
