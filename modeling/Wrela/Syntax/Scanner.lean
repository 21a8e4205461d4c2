import Wrela.Source.Database
import Mathlib.Data.List.DropRight

/-!
# Tokens

The lexical vocabulary of a source file.  Text is a list of characters and positions are byte
offsets, so that a stretch of text carries its own length.
-/

namespace Wrela.Syntax

open Wrela.Wire

inductive Keyword where
  | module | pub | import_ | from_ | as_ | const | brand | fn | init | async | isr | comptime
  | struct | enum | iface | impl | for_ | projection | scope | implements | deriving_ | region
  | view | mut | iso | read | take | selfValue | if_ | elif | else_ | match_ | case_ | in_ | not
  | while_ | loop | with_ | enter | abort | exit | shadow | return_ | break_ | continue_ | pass
  | assert | send | try_ | yield | await | copy | true_ | false_ | unit | or | and | is
deriving DecidableEq

inductive Punctuation where
  | at_ | dot | comma | colon | semicolon | leftParen | rightParen | leftBracket | rightBracket
  | leftBrace | rightBrace | arrow | question | pipe
deriving DecidableEq

inductive Operator where
  | assign | add | subtract | multiply | divide | remainder | bitAnd | bitOr | bitXor | shiftLeft
  | shiftRight | equal | notEqual | less | lessEqual | greater | greaterEqual | addAssign
  | subtractAssign | multiplyAssign | divideAssign | remainderAssign | bitAndAssign | bitOrAssign
  | bitXorAssign | shiftLeftAssign | shiftRightAssign | addWrapping | subtractWrapping
  | multiplyWrapping | bitNot | range | rangeInclusive
deriving DecidableEq

inductive TokenKind where
  | identifier
  | integerLiteral
  | floatLiteral
  | stringLiteral
  | byteStringLiteral
  | characterLiteral
  | interpolatedStringStart
  | interpolatedStringText
  | interpolationFormat
  | interpolatedStringEnd
  | keyword (keyword : Keyword)
  | punctuation (punctuation : Punctuation)
  | operator (operator : Operator)
  | newline
  | indent
  | dedent
  | endOfFile
  | error
deriving DecidableEq

inductive NewlineOrigin where
  | physical
  | semicolon
  | endOfFile
deriving DecidableEq

structure Token where
  kind : TokenKind
  start : ℕ
  stop : ℕ
  newlineOrigin : Option NewlineOrigin
  spelling : Option (List Char)
  synthetic : Bool
deriving DecidableEq

inductive TriviaKind where
  | spaces
  | comment
  | suppressedPhysicalNewline
  | blankLine
deriving DecidableEq

structure Trivia where
  kind : TriviaKind
  start : ℕ
  stop : ℕ
deriving DecidableEq

/-- A position in the table of tokens or of trivia. -/
inductive LexicalElement where
  | token (index : ℕ)
  | trivia (index : ℕ)
deriving DecidableEq

structure LosslessLexicalTable where
  tokens : List Token
  trivia : List Trivia
  order : List LexicalElement
deriving DecidableEq

structure Diagnostic where
  code : String
  start : ℕ
  stop : ℕ
  message : String
deriving DecidableEq

structure ParseLimits where
  tokens : UInt32
  nestingDepth : UInt32
  literalBytes : UInt64
  diagnostics : UInt32
  diagnosticBytes : UInt64

def ParseLimits.standard : ParseLimits where
  tokens := 16000000
  nestingDepth := 1024
  literalBytes := 1073741824
  diagnostics := 100000
  diagnosticBytes := 67108864

/-- The failures of the scanner.  `exhausted` marks a loop that was given too few turns; no run ends
so. -/
inductive ParseFailure where
  | resourceLimit (resource : String) (limit : ℕ)
  | internalInvariant (reason : String)
  | exhausted
deriving DecidableEq

/-- The size of a stretch of text in bytes. -/
def textBytes (text : List Char) : ℕ := (encodeChars text).length

def digitValue (character : Char) : Option ℕ :=
  let code := character.toNat
  if 48 ≤ code ∧ code ≤ 57 then some (code - 48)
  else if 97 ≤ code ∧ code ≤ 102 then some (code - 97 + 10)
  else if 65 ≤ code ∧ code ≤ 70 then some (code - 65 + 10)
  else none

def isHexDigit (character : Char) : Bool := (digitValue character).isSome

def isForbiddenRawCharacter (character : Char) : Bool :=
  let code := character.toNat
  code == 0x00ad || code == 0x034f || code == 0x061c || (0x115f ≤ code && code ≤ 0x1160) ||
    (0x17b4 ≤ code && code ≤ 0x17b5) || (0x180b ≤ code && code ≤ 0x180f) ||
    (0x200b ≤ code && code ≤ 0x200f) || (0x202a ≤ code && code ≤ 0x202e) ||
    (0x2060 ≤ code && code ≤ 0x206f) || code == 0x3164 || (0xfe00 ≤ code && code ≤ 0xfe0f) ||
    code == 0xfeff || code == 0xffa0 || (0xfff0 ≤ code && code ≤ 0xfff8) ||
    (0x1bca0 ≤ code && code ≤ 0x1bca3) || (0x1d173 ≤ code && code ≤ 0x1d17a) ||
    (0xe0000 ≤ code && code ≤ 0xe0fff)

def keywords : List (String × Keyword) :=
  [("module", .module), ("pub", .pub), ("import", .import_), ("from", .from_), ("as", .as_),
    ("const", .const), ("brand", .brand), ("fn", .fn), ("init", .init), ("async", .async),
    ("isr", .isr), ("comptime", .comptime), ("struct", .struct), ("enum", .enum),
    ("interface", .iface), ("impl", .impl), ("for", .for_), ("projection", .projection),
    ("scope", .scope), ("implements", .implements), ("deriving", .deriving_), ("region", .region),
    ("view", .view), ("mut", .mut), ("iso", .iso), ("read", .read), ("take", .take),
    ("self", .selfValue), ("if", .if_), ("elif", .elif), ("else", .else_), ("match", .match_),
    ("case", .case_), ("in", .in_), ("not", .not), ("while", .while_), ("loop", .loop),
    ("with", .with_), ("enter", .enter), ("abort", .abort), ("exit", .exit), ("shadow", .shadow),
    ("return", .return_), ("break", .break_), ("continue", .continue_), ("pass", .pass),
    ("assert", .assert), ("send", .send), ("try", .try_), ("yield", .yield), ("await", .await),
    ("copy", .copy), ("true", .true_), ("false", .false_), ("unit", .unit), ("or", .or),
    ("and", .and), ("is", .is)]

def keyword (spelling : List Char) : Option Keyword := keywords.lookup (String.ofList spelling)

def isLiteralToken : TokenKind → Bool
  | .integerLiteral => true
  | .floatLiteral => true
  | .stringLiteral => true
  | .byteStringLiteral => true
  | .characterLiteral => true
  | .interpolatedStringStart => true
  | .interpolatedStringText => true
  | .interpolationFormat => true
  | .interpolatedStringEnd => true
  | _ => false

inductive EscapeValue where
  | scalar (value : Char)
  | byte (value : UInt8)
deriving DecidableEq

structure EscapeDiagnostic where
  code : String
  message : String
deriving DecidableEq

/-- `length` counts the characters after the backslash. -/
structure DecodedEscape where
  length : ℕ
  value : Option EscapeValue
  diagnostic : Option EscapeDiagnostic
deriving DecidableEq

def simpleEscape : Char → Option Char
  | '\\' => some '\\'
  | '"' => some '"'
  | '\'' => some '\''
  | 'n' => some '\n'
  | 'r' => some '\r'
  | 't' => some '\t'
  | '0' => some '\x00'
  | _ => none

/-- The number that a run of hexadecimal digits spells. -/
def hexValue (digits : List Char) : ℕ :=
  digits.foldl (fun value digit ↦ value * 16 + (digitValue digit).getD 0) 0

def charFromU32 (value : ℕ) : Option Char :=
  if h : value.isValidChar then some (Char.ofNatAux value h) else none

/-- The hexadecimal digits that the text starts with, at most `limit` of them. -/
def hexRun (limit : ℕ) (text : List Char) : List Char := (text.take limit).takeWhile isHexDigit

/-- A byte escape, from the text after its letter. -/
def decodeByteEscape (tail : List Char) : DecodedEscape :=
  let digits := hexRun 2 tail
  if digits.length = 2 then ⟨1 + digits.length, some (.byte (UInt8.ofNat (hexValue digits))), none⟩
  else
    ⟨1 + digits.length, none, some ⟨"syntax-invalid-escape",
      "a byte escape must contain exactly two hexadecimal digits"⟩⟩

/-- A Unicode escape, from the digits after its brace and whether a brace follows them. -/
def decodeUnicodeDigits (digits : List Char) (closed : Bool) : DecodedEscape :=
  let scalar := if digits = [] then none else charFromU32 (hexValue digits)
  if digits ≠ [] ∧ digits.length ≤ 6 ∧ closed ∧ scalar.isSome then
    ⟨2 + digits.length + closed.toNat, scalar.map .scalar, none⟩
  else
    ⟨2 + digits.length + closed.toNat, none, some ⟨"syntax-invalid-unicode-escape",
      "Unicode escape must contain one to six digits naming a scalar value"⟩⟩

/-- A Unicode escape, from the text after its letter. -/
def decodeUnicodeEscape (tail : List Char) : DecodedEscape :=
  if tail.head? = some '{' then
    let digits := hexRun 7 tail.tail
    decodeUnicodeDigits digits (decide ((tail.tail.drop digits.length).head? = some '}'))
  else
    ⟨1, none, some ⟨"syntax-invalid-unicode-escape",
      "Unicode escape must use the form \\u\x7bH...\x7d"⟩⟩

def decodeEscape (text : List Char) (byteString : Bool) : DecodedEscape :=
  match text with
  | [] => ⟨0, none, some ⟨"syntax-invalid-escape", "incomplete escape sequence"⟩⟩
  | escaped :: tail =>
    match simpleEscape escaped with
    | some value =>
      ⟨1, some (if byteString then .byte (UInt8.ofNat value.toNat) else .scalar value), none⟩
    | none =>
      if escaped = 'x' ∧ byteString then decodeByteEscape tail
      else if escaped = 'u' ∧ !byteString then decodeUnicodeEscape tail
      else ⟨1, none, some ⟨"syntax-invalid-escape", "escape is not part of Wrela revision 0.1"⟩⟩

inductive LiteralKind where
  | integer
  | float
  | string
  | byteString
  | character
  | boolean
  | unit
deriving DecidableEq

inductive LiteralValue where
  | integerSpelling
  | floatSpelling
  | text (value : List Char)
  | bytes (value : List UInt8)
  | character (value : Char)
  | boolean (value : Bool)
  | unit
  | invalid
deriving DecidableEq

/-- How the body of a literal is decoded: what a character stands for and which escapes count. -/
structure BodyDecoder (α : Type) where
  byteString : Bool
  plain : Char → Option α
  escaped : EscapeValue → Option α

/-- Decode the text between the quotes; each turn takes one character or one escape.  The result is
`none` when some part has no value. -/
def BodyDecoder.decode {α : Type} (decoder : BodyDecoder α) : ℕ → List Char → Option (List α)
  | _, [] => some []
  | 0, _ :: _ => none
  | turns + 1, character :: rest =>
    if character = '\\' then
      let escape := decodeEscape rest decoder.byteString
      let value := if escape.diagnostic = none then escape.value.bind decoder.escaped else none
      value.bind fun value ↦ (decoder.decode turns (rest.drop escape.length)).map (value :: ·)
    else (decoder.plain character).bind fun value ↦ (decoder.decode turns rest).map (value :: ·)

def EscapeValue.toScalar : EscapeValue → Option Char
  | .scalar value => some value
  | .byte _ => none

def EscapeValue.toByte : EscapeValue → Option UInt8
  | .scalar _ => none
  | .byte value => some value

def asciiByte (character : Char) : Option UInt8 :=
  if character.toNat < 128 then some (UInt8.ofNat character.toNat) else none

def textDecoder : BodyDecoder Char := ⟨false, some, EscapeValue.toScalar⟩

def byteDecoder : BodyDecoder UInt8 := ⟨true, asciiByte, EscapeValue.toByte⟩

def decodeTextBody (body : List Char) : Option (List Char) := textDecoder.decode body.length body

def decodeByteBody (body : List Char) : Option (List UInt8) := byteDecoder.decode body.length body

/-- The text between an opening and a closing quote. -/
def stripQuotes (opening : List Char) (closing : Char) (spelling : List Char) :
    Option (List Char) :=
  if opening.isPrefixOf spelling then
    let body := spelling.drop opening.length
    if body.getLast? = some closing then some body.dropLast else none
  else none

def onlyScalar : List Char → Option Char
  | [value] => some value
  | _ => none

def decodeLiteralSpelling (kind : LiteralKind) (spelling : List Char) : LiteralValue :=
  match kind with
  | .integer => .integerSpelling
  | .float => .floatSpelling
  | .boolean =>
    if spelling = "true".toList then .boolean true
    else if spelling = "false".toList then .boolean false
    else .invalid
  | .unit => if spelling = "unit".toList then .unit else .invalid
  | .string =>
    ((stripQuotes ['"'] '"' spelling).bind fun body ↦ (decodeTextBody body).map .text).getD .invalid
  | .byteString =>
    ((stripQuotes ['b', '"'] '"' spelling).bind fun body ↦
      (decodeByteBody body).map .bytes).getD .invalid
  | .character =>
    ((stripQuotes ['\''] '\'' spelling).bind fun body ↦
      ((decodeTextBody body).bind onlyScalar).map .character).getD .invalid

open Wrela.Source

/-- The state of a scan.  `rest` is the text from byte `position` on; the innermost indentation level
and the innermost delimiter come first. -/
structure Scanner where
  position : ℕ
  rest : List Char
  atLineStart : Bool
  preparedDedentAt : Option ℕ
  hangingHeaderAt : Option ℕ
  hangingHeaderContinuation : Bool
  indentation : List ℕ
  delimiters : List (Char × ℕ)
  tokens : List Token
  trivia : List Trivia
  order : List LexicalElement
  literalBytes : ℕ
  interpolationDepth : ℕ
  diagnostics : List Diagnostic
  diagnosticBytes : ℕ

def Scanner.new (text : List Char) : Scanner where
  position := 0
  rest := text
  atLineStart := true
  preparedDedentAt := none
  hangingHeaderAt := none
  hangingHeaderContinuation := false
  indentation := [0]
  delimiters := []
  tokens := []
  trivia := []
  order := []
  literalBytes := 0
  interpolationDepth := 0
  diagnostics := []
  diagnosticBytes := 0

abbrev Scan := StateT Scanner (Except ParseFailure)

def whenever (condition : Prop) [Decidable condition] (action : Scan Unit) : Scan Unit :=
  if condition then action else pure ()

/-- Stop when a resource is used up. -/
def limitTo (used : Prop) [Decidable used] (resource : String) (limit : ℕ) : Scan Unit :=
  if used then throw (.resourceLimit resource limit) else pure ()

variable (limits : ParseLimits)

def error (code : String) (start stop : ℕ) (message : String) : Scan Unit := do
  let state ← get
  limitTo (limits.diagnostics.toNat ≤ state.diagnostics.length) "diagnostics"
    limits.diagnostics.toNat
  let next := state.diagnosticBytes + (byteLength code + byteLength message)
  limitTo (limits.diagnosticBytes.toNat < next) "diagnostic bytes" limits.diagnosticBytes.toNat
  set { state with
    diagnostics := state.diagnostics ++ [Diagnostic.mk code start stop message]
    diagnosticBytes := next }

def checkTokenCapacity : Scan Unit := do
  let state ← get
  limitTo (limits.tokens.toNat ≤ state.tokens.length) "tokens" limits.tokens.toNat

/-- Count the bytes of a literal. -/
def chargeLiteral (text : List Char) : Scan Unit := do
  let state ← get
  let next := state.literalBytes + textBytes text
  limitTo (limits.literalBytes.toNat < next) "literal bytes" limits.literalBytes.toNat
  set { state with literalBytes := next }

def pushToken (token : Token) : Scan Unit :=
  modify fun state ↦ { state with
    tokens := state.tokens ++ [token]
    order := state.order ++ [.token state.tokens.length] }

/-- Push the token that covers `text`, which begins at byte `start`. -/
def pushPhysical (kind : TokenKind) (start : ℕ) (text : List Char)
    (newlineOrigin : Option NewlineOrigin) (spelling : Bool) : Scan Unit := do
  checkTokenCapacity limits
  whenever (spelling && isLiteralToken kind) (chargeLiteral limits text)
  pushToken ⟨kind, start, start + textBytes text, newlineOrigin,
    if spelling then some text else none, false⟩

def pushSynthetic (kind : TokenKind) (position : ℕ) (newlineOrigin : Option NewlineOrigin) :
    Scan Unit := do
  checkTokenCapacity limits
  pushToken ⟨kind, position, position, newlineOrigin, none, true⟩

def pushTrivia (kind : TriviaKind) (start : ℕ) (text : List Char) : Scan Unit :=
  modify fun state ↦ { state with
    trivia := state.trivia ++ [⟨kind, start, start + textBytes text⟩]
    order := state.order ++ [.trivia state.trivia.length] }

/-- Move past `count` characters. -/
def consume (count : ℕ) : Scan (List Char) := do
  let state ← get
  let text := state.rest.take count
  set { state with
    position := state.position + textBytes text
    rest := state.rest.drop count }
  return text

def consumeWhile (holds : Char → Bool) : Scan (List Char) := do
  let state ← get
  consume (state.rest.takeWhile holds).length

def isBlank (character : Char) : Bool := character == ' ' || character == '\t'

def isLineBreak (character : Char) : Bool := character == '\n' || character == '\r'

/-- The size of the line ending that the text starts with, zero when it starts with none. -/
def lineEnding : List Char → ℕ
  | [] => 0
  | character :: rest =>
    if character = '\n' then 1
    else if character = '\r' ∧ rest.head? = some '\n' then 2
    else 0

/-- The width of leading space, where a tab reaches the next multiple of four. -/
def indentationWidth (blank : List Char) : ℕ :=
  blank.foldl (fun width character ↦ if character = '\t' then (width / 4 + 1) * 4 else width + 1) 0

def startsWithText (spelling : String) (rest : List Char) : Bool := spelling.toList.isPrefixOf rest

def scanHorizontalSpace : Scan Unit := do
  let start := (← get).position
  let blank ← consumeWhile isBlank
  pushTrivia .spaces start blank

def scanComment : Scan Unit := do
  let start := (← get).position
  let comment ← consumeWhile fun character ↦ !isLineBreak character
  pushTrivia .comment start comment

def currentIndentation : Scan ℕ := do
  match (← get).indentation with
  | current :: _ => return current
  | [] => throw (.internalInvariant "scanner lost its root indentation")

/-- Close the levels above the root that are deeper than `indentation`. -/
def unwind (indentation : ℕ) : List ℕ → List ℕ
  | current :: outer :: levels =>
    if indentation < current then unwind indentation (outer :: levels) else current :: outer :: levels
  | levels => levels

def closeLevels (indentation : ℕ) : Scan ℕ := do
  let state ← get
  let levels := unwind indentation state.indentation
  set { state with indentation := levels }
  return state.indentation.length - levels.length

def repeated (count : ℕ) (action : Scan Unit) : Scan Unit :=
  match count with
  | 0 => pure ()
  | count + 1 => do
    action
    repeated count action

def applyIndentation (indentation : ℕ) : Scan Unit := do
  let current ← currentIndentation
  let position := (← get).position
  if current < indentation then
    whenever (indentation ≠ current + 4)
      (error limits "syntax-invalid-indentation" (position - indentation) position
        s!"indentation must increase by exactly four spaces from column {current + 1}")
    let state ← get
    limitTo (limits.nestingDepth.toNat ≤ state.indentation.length) "scanner nesting depth"
      limits.nestingDepth.toNat
    modify fun state ↦ { state with indentation := indentation :: state.indentation }
    pushSynthetic limits .indent position none
  else if indentation < current then
    let closed ← closeLevels indentation
    repeated closed (pushSynthetic limits .dedent position none)
    let current ← currentIndentation
    whenever (current ≠ indentation)
      (error limits "syntax-inconsistent-dedent" (position - indentation) position
        "dedent does not match an earlier indentation level")

def scanBlankLine (width : ℕ) : Scan Unit := do
  let start := (← get).position
  let newline ← consume width
  pushTrivia .blankLine start newline

def reportLeadingTab (start : ℕ) (blank : List Char) : Scan Unit :=
  match blank.findIdx? (· == '\t') with
  | some tab =>
    error limits "syntax-leading-tab" (start + tab) (start + tab + 1)
      "tabs are forbidden in leading indentation"
  | none => pure ()

/-- The indentation of a line with code, unless the newline before it has settled it. -/
def beginLine (indentation : ℕ) : Scan Unit := do
  let state ← get
  if state.hangingHeaderAt = some state.position then
    set { state with hangingHeaderAt := none, atLineStart := false }
  else if state.preparedDedentAt = some state.position then
    set { state with preparedDedentAt := none, atLineStart := false }
  else if state.delimiters = [] then
    set { state with preparedDedentAt := none }
    applyIndentation limits indentation
    modify fun state ↦ { state with atLineStart := false }
  else set { state with atLineStart := false }

/-- The leading space of a line.  The result is true when the whole line is trivia. -/
def scanLinePrefix : Scan Bool := do
  let start := (← get).position
  let blank ← consumeWhile isBlank
  whenever (blank ≠ []) (pushTrivia .spaces start blank)
  reportLeadingTab limits start blank
  let state ← get
  if state.rest = [] then return true
  else if lineEnding state.rest ≠ 0 then
    scanBlankLine (lineEnding state.rest)
    return true
  else if state.rest.head? = some '#' then
    scanComment
    let state ← get
    whenever (lineEnding state.rest ≠ 0) (scanBlankLine (lineEnding state.rest))
    return true
  else
    beginLine limits (indentationWidth blank)
    return false

structure SignificantLine where
  indentation : ℕ
  prefixStart : ℕ
  prefixEnd : ℕ
  codeOffset : Option ℕ
  /-- The text from the code offset on. -/
  code : List Char

/-- The first line from `cursor` on that is neither blank nor a comment. -/
def nextSignificantLine : ℕ → ℕ → List Char → SignificantLine
  | 0, cursor, _ => ⟨0, cursor, cursor, none, []⟩
  | turns + 1, cursor, rest =>
    let blank := rest.takeWhile isBlank
    let code := rest.drop blank.length
    let prefixEnd := cursor + textBytes blank
    if code = [] then ⟨0, cursor, prefixEnd, none, []⟩
    else if lineEnding code ≠ 0 then
      nextSignificantLine turns (prefixEnd + lineEnding code) (code.drop (lineEnding code))
    else if code.head? = some '#' then
      let comment := code.takeWhile fun character ↦ !isLineBreak character
      let ending := code.drop comment.length
      if ending = [] then ⟨0, cursor, prefixEnd, none, []⟩
      else
        -- a lone carriage return ends a comment here, but not in `scanLinePrefix`
        let width := max 1 (lineEnding ending)
        nextSignificantLine turns (prefixEnd + textBytes comment + width) (ending.drop width)
    else ⟨indentationWidth blank, cursor, prefixEnd, some prefixEnd, code⟩

def isLayout (kind : TokenKind) : Bool := kind == .newline || kind == .indent || kind == .dedent

def currentLineStartsDeclarationHeader (tokens : List Token) : Bool :=
  let line := (tokens.map Token.kind).rtakeWhile fun kind ↦ !isLayout kind
  let line := if line.head? = some (.keyword .pub) then line.tail else line
  match line.head? with
  | some (.keyword first) =>
    first == .projection || first == .scope || first == .fn || first == .init ||
      ((first == .async || first == .isr || first == .comptime) &&
        line.tail.head? == some (.keyword .fn))
  | _ => false

/-- Whether the line after a newline continues the header of a declaration. -/
def startsHangingHeader (state : Scanner) (current : ℕ) (line : SignificantLine) : Bool :=
  !state.hangingHeaderContinuation && current < line.indentation &&
    startsWithText "->" line.code &&
    state.tokens.getLast?.map Token.kind == some (.punctuation .rightParen) &&
    currentLineStartsDeclarationHeader state.tokens

def pushNewline (start width : ℕ) : Scan Unit := do
  let newline ← consume width
  pushPhysical limits .newline start newline (some .physical) false

def suppressNewline (start width : ℕ) : Scan Unit := do
  let newline ← consume width
  pushTrivia .suppressedPhysicalNewline start newline

/-- Close the levels that end before the next line, each with a dedent and a newline. -/
def closeBefore (start width : ℕ) (line : SignificantLine) : Scan Unit := do
  let closed ← closeLevels line.indentation
  let current ← currentIndentation
  whenever (current ≠ line.indentation)
    (error limits "syntax-inconsistent-dedent" line.prefixStart line.prefixEnd
      "dedent does not match an earlier indentation level")
  whenever (closed ≠ 0) do
    pushSynthetic limits .dedent start none
    pushNewline limits start width
  repeated (closed - 1) do
    pushSynthetic limits .dedent (start + width) none
    pushSynthetic limits .newline (start + width) (some .physical)
  modify fun state ↦ { state with preparedDedentAt := line.codeOffset }

def scanNewline (width : ℕ) : Scan Unit := do
  let state ← get
  let start := state.position
  if state.delimiters = [] then
    let line := nextSignificantLine (state.rest.length + 1) (start + width) (state.rest.drop width)
    let current ← currentIndentation
    if startsHangingHeader state current line then
      suppressNewline start width
      modify fun state ↦ { state with
        hangingHeaderAt := line.codeOffset
        hangingHeaderContinuation := true
        atLineStart := true }
    else
      modify fun state ↦ { state with hangingHeaderContinuation := false, atLineStart := true }
      if line.indentation < current then closeBefore limits start width line
      else pushNewline limits start width
  else
    suppressNewline start width
    modify fun state ↦ { state with atLineStart := true }

end Wrela.Syntax
