import Wrela.Syntax.Scanner

/-!
# Lexemes

Everything that begins a token in the middle of a line and holds no further tokens: names, numbers,
strings and byte strings, delimiters, comments and newlines.  An interpolated string holds
expressions with tokens of their own; its loop stands beside the loop of the scan.
-/

namespace Wrela.Syntax

open Wrela.Source

variable (U : Unicode) (limits : ParseLimits)

def scanIdentifier : Scan Unit := do
  let start := (← get).position
  let first ← consume 1
  let others ← consumeWhile fun character ↦ U.isXidContinue character || character == '_'
  let spelling := first ++ others
  whenever (spelling ≠ ['_'] ∧ first = ['_'])
    (error limits "syntax-invalid-identifier-start" start (start + 1)
      "an identifier must begin with a Unicode XID_Start character")
  whenever (U.nfc spelling ≠ spelling)
    (error limits "syntax-non-nfc-identifier" start (start + textBytes spelling)
      "identifier spelling is not Unicode NFC")
  match keyword spelling with
  | some word => pushPhysical limits (.keyword word) start spelling none false
  | none => pushPhysical limits .identifier start spelling none true

def isDigitBelow (base : ℕ) (character : Char) : Bool :=
  match digitValue character with
  | some value => decide (value < base)
  | none => false

/-- Digits below the base, with an underscore only between two of them. -/
def digitsValid (base : ℕ) (digits : List Char) : Bool :=
  !digits.isEmpty && digits.zipIdx.all fun (digit, index) ↦
    isDigitBelow base digit ||
      (digit == '_' && decide (0 < index) && decide (index + 1 < digits.length) &&
        (digits[index - 1]?.any (isDigitBelow base)) && digits[index + 1]?.any (isDigitBelow base))

def validateDigitRun (start : ℕ) (digits : List Char) (base : ℕ) : Scan Unit :=
  whenever (digitsValid base digits = false)
    (error limits "syntax-invalid-number" start (start + textBytes digits)
      s!"numeric literal has an invalid base-{base} digit or underscore")

def numberBase (rest : List Char) : ℕ :=
  if rest.head? = some '0' then
    match rest.tail.head? with
    | some 'x' => 16
    | some 'X' => 16
    | some 'o' => 8
    | some 'O' => 8
    | some 'b' => 2
    | some 'B' => 2
    | _ => 10
  else 10

def scanDigits (base : ℕ) : Scan (List Char) :=
  consumeWhile fun character ↦ isDigitBelow base character || character == '_'

/-- The fraction of a decimal number, when one follows. -/
def scanFraction : Scan (List Char) := do
  let state ← get
  if state.rest.head? = some '.' ∧ (state.rest.tail.head?.any (isDigitBelow 10)) = true then
    let point ← consume 1
    let digits ← scanDigits 10
    validateDigitRun limits (state.position + 1) digits 10
    return point ++ digits
  else return []

/-- The exponent of a decimal number, when one follows. -/
def scanExponent : Scan (List Char) := do
  let state ← get
  if state.rest.head? = some 'e' ∨ state.rest.head? = some 'E' then
    let letter ← consume 1
    let sign := (← get).rest.head?
    let sign ← consume (if sign = some '+' ∨ sign = some '-' then 1 else 0)
    let start := (← get).position
    let digits ← scanDigits 10
    validateDigitRun limits start digits 10
    return letter ++ sign ++ digits
  else return []

def scanNumber : Scan Unit := do
  let state ← get
  let start := state.position
  let base := numberBase state.rest
  if base ≠ 10 then
    let marker ← consume 2
    let digits ← scanDigits base
    validateDigitRun limits (start + 2) digits base
    pushPhysical limits .integerLiteral start (marker ++ digits) none true
  else
    let digits ← scanDigits 10
    validateDigitRun limits start digits 10
    let fraction ← scanFraction limits
    let exponent ← scanExponent limits
    let kind := if fraction = [] ∧ exponent = [] then TokenKind.integerLiteral else .floatLiteral
    pushPhysical limits kind start (digits ++ fraction ++ exponent) none true

/-- One escape, backslash included. -/
def scanEscape (byteString : Bool) : Scan (List Char) := do
  let state ← get
  let escape := decodeEscape (state.rest.drop 1) byteString
  let text ← consume (escape.length + 1)
  match escape.diagnostic with
  | some diagnostic =>
    error limits diagnostic.code state.position (state.position + textBytes text) diagnostic.message
  | none => pure ()
  return text

/-- What the loop over a quoted literal has read. -/
structure Quoted where
  text : List Char
  decodedScalars : ℕ
  interpolationDepth : ℕ
  terminated : Bool

/-- How many braces of interpolations inside the quotes are open after the character. -/
def Quoted.braceDepth (read : Quoted) (interpolated : Bool) (character : Char) : ℕ :=
  if interpolated && character == '{' then read.interpolationDepth + 1
  else if interpolated && character == '}' then read.interpolationDepth - 1
  else read.interpolationDepth

def Quoted.add (read : Quoted) (text : List Char) (depth : ℕ) : Quoted :=
  { read with
    text := read.text ++ text
    decodedScalars := read.decodedScalars + 1
    interpolationDepth := depth }

/-- A doubled brace, which stands for one brace of the text. -/
def isDoubledBrace (read : Quoted) (rest : List Char) : Bool :=
  startsWithText "\x7b\x7b" rest || (startsWithText "\x7d\x7d" rest && read.interpolationDepth == 0)

def quotedLoop (quote : Char) (byteString interpolated : Bool) : ℕ → Quoted → Scan Quoted
  | 0, _ => throw .exhausted
  | turns + 1, read => do
    let state ← get
    match state.rest with
    | [] => return read
    | character :: _ =>
      if character = quote ∧ read.interpolationDepth = 0 then
        let closing ← consume 1
        return { read with text := read.text ++ closing, terminated := true }
      else if isLineBreak character then
        return read
      else if character = '\\' then
        let escape ← scanEscape limits byteString
        quotedLoop quote byteString interpolated turns (read.add escape read.interpolationDepth)
      else if interpolated && isDoubledBrace read state.rest then
        let braces ← consume 2
        quotedLoop quote byteString interpolated turns (read.add braces read.interpolationDepth)
      else
        whenever (interpolated && character == '}' && read.interpolationDepth == 0)
          (error limits "syntax-unmatched-interpolation-brace" state.position (state.position + 1)
            "unmatched closing brace in interpolated string")
        whenever (byteString && decide (128 ≤ character.toNat))
          (error limits "syntax-non-ascii-byte-string" state.position
            (state.position + textBytes [character])
            "byte strings permit only ASCII source characters and escapes")
        let text ← consume 1
        quotedLoop quote byteString interpolated turns
          (read.add text (read.braceDepth interpolated character))

def scanQuoted (kind : TokenKind) (prefixBytes : ℕ) (byteString interpolated : Bool) :
    Scan Unit := do
  let start := (← get).position
  let quote := if kind = .characterLiteral then '\'' else '"'
  let opening ← consume (prefixBytes + 1)
  let turns := (← get).rest.length + 1
  let read ← quotedLoop limits quote byteString interpolated turns ⟨opening, 0, 0, false⟩
  let stop := (← get).position
  whenever (read.terminated = false)
    (error limits "syntax-unterminated-literal" start stop
      "literal is not terminated before the physical newline or end of file")
  whenever (read.interpolationDepth ≠ 0)
    (error limits "syntax-unmatched-interpolation-brace" start stop
      "interpolated string has an unmatched opening brace")
  whenever (kind = .characterLiteral ∧ read.decodedScalars ≠ 1)
    (error limits "syntax-invalid-character-literal" start stop
      "a character literal must decode to exactly one Unicode scalar")
  pushPhysical limits kind start read.text none true

def scanCharacterLiteral : Scan Unit := scanQuoted limits .characterLiteral 0 false false

/-- The characters up to and with the next three quotes, or up to the end of the line. -/
def tripleQuotedLength : List Char → ℕ
  | [] => 0
  | character :: rest =>
    if startsWithText "\"\"\"" (character :: rest) then 3
    else if isLineBreak character then 0
    else tripleQuotedLength rest + 1

def scanReservedTripleQuoted : Scan Unit := do
  let start := (← get).position
  error limits "syntax-reserved-multiline-string" start (start + 3)
    "triple-quoted strings are reserved and are not legal in revision 0.1"
  let opening ← consume 3
  let state ← get
  let body ← consume (tripleQuotedLength state.rest)
  pushPhysical limits .stringLiteral start (opening ++ body) none true

def operators : List (String × TokenKind) :=
  [(">>=", .operator .shiftRightAssign), ("<<=", .operator .shiftLeftAssign),
    ("..=", .operator .rangeInclusive), ("->", .punctuation .arrow), ("==", .operator .equal),
    ("!=", .operator .notEqual), ("<=", .operator .lessEqual), (">=", .operator .greaterEqual),
    ("+=", .operator .addAssign), ("-=", .operator .subtractAssign),
    ("*=", .operator .multiplyAssign), ("/=", .operator .divideAssign),
    ("%=", .operator .remainderAssign), ("&=", .operator .bitAndAssign),
    ("|=", .operator .bitOrAssign), ("^=", .operator .bitXorAssign),
    ("<<", .operator .shiftLeft), (">>", .operator .shiftRight), ("+%", .operator .addWrapping),
    ("-%", .operator .subtractWrapping), ("*%", .operator .multiplyWrapping),
    ("..", .operator .range)]

def singleKind : Char → Option TokenKind
  | '@' => some (.punctuation .at_)
  | '.' => some (.punctuation .dot)
  | ',' => some (.punctuation .comma)
  | ':' => some (.punctuation .colon)
  | ';' => some (.punctuation .semicolon)
  | '(' => some (.punctuation .leftParen)
  | ')' => some (.punctuation .rightParen)
  | '[' => some (.punctuation .leftBracket)
  | ']' => some (.punctuation .rightBracket)
  | '{' => some (.punctuation .leftBrace)
  | '}' => some (.punctuation .rightBrace)
  | '?' => some (.punctuation .question)
  | '|' => some (.punctuation .pipe)
  | '=' => some (.operator .assign)
  | '+' => some (.operator .add)
  | '-' => some (.operator .subtract)
  | '*' => some (.operator .multiply)
  | '/' => some (.operator .divide)
  | '%' => some (.operator .remainder)
  | '&' => some (.operator .bitAnd)
  | '^' => some (.operator .bitXor)
  | '<' => some (.operator .less)
  | '>' => some (.operator .greater)
  | '~' => some (.operator .bitNot)
  | _ => none

/-- The opening delimiter that a closing one needs. -/
def expectedOpener : Char → Option Char
  | ')' => some '('
  | ']' => some '['
  | '}' => some '{'
  | _ => none

def openDelimiter (character : Char) (start : ℕ) : Scan Unit := do
  let state ← get
  limitTo (limits.nestingDepth.toNat ≤ state.delimiters.length) "scanner nesting depth"
    limits.nestingDepth.toNat
  set { state with delimiters := (character, start) :: state.delimiters }

def closeDelimiter (character expected : Char) (start : ℕ) : Scan Unit := do
  let state ← get
  if state.delimiters.head?.map Prod.fst = some expected then
    set { state with delimiters := state.delimiters.tail }
  else
    error limits "syntax-unmatched-delimiter" start state.position
      s!"closing delimiter '{character}' has no matching opener"

def updateDelimiters (character : Char) (start : ℕ) : Scan Unit :=
  if character = '(' ∨ character = '[' ∨ character = '{' then openDelimiter limits character start
  else
    match expectedOpener character with
    | some expected => closeDelimiter limits character expected start
    | none => pure ()

/-- A code point as at least four upper-case hexadecimal digits. -/
def codePoint (character : Char) : String :=
  let digits := (Nat.toDigits 16 character.toNat).map Char.toUpper
  String.ofList (List.replicate (4 - digits.length) '0' ++ digits)

def scanPunctuationOrError : Scan Unit := do
  let state ← get
  let start := state.position
  match operators.find? fun entry ↦ startsWithText entry.1 state.rest with
  | some (spelling, kind) =>
    let text ← consume spelling.length
    pushPhysical limits kind start text none false
  | none =>
    let text ← consume 1
    match text with
    | [] => throw (.internalInvariant "scanner requested a character at end of input")
    | character :: _ =>
      if character = ';' ∧ state.delimiters = [] then
        pushPhysical limits .newline start text (some .semicolon) false
      else
        match singleKind character with
        | some kind =>
          updateDelimiters limits character start
          pushPhysical limits kind start text none false
        | none =>
          error limits "syntax-unexpected-character" start (start + textBytes text)
            s!"unexpected source character U+{codePoint character}"
          updateDelimiters limits character start
          pushPhysical limits .error start text none true

variable (U : Unicode) (limits : ParseLimits)

def pushInterpolationText (start : ℕ) (text : List Char) : Scan Unit :=
  if text = [] then pure () else pushPhysical limits .interpolatedStringText start text none true

/-- Whether a colon ends the expression: inside the parameters of a closure it does not. -/
def interpolationColonStartsFormat (tokens : List TokenKind) (basePipeCount : ℕ) : Bool :=
  let closurePrefix :=
    match tokens with
    | .punctuation .pipe :: _ => true
    | .keyword .take :: .punctuation .pipe :: _ => true
    | .keyword .async :: .punctuation .pipe :: _ => true
    | .keyword .async :: .keyword .take :: .punctuation .pipe :: _ => true
    | _ => false
  !closurePrefix || decide (2 ≤ basePipeCount)

/-- The characters of a format specification, each checked as it is read. -/
def formatLoop : ℕ → List Char → Scan (List Char)
  | 0, _ => throw .exhausted
  | turns + 1, text => do
    let state ← get
    match state.rest with
    | [] => return text
    | character :: _ =>
      if character = '}' ∨ isLineBreak character ∨ character = '"' then
        return text
      else
        whenever (character = '{')
          (error limits "syntax-interpolation-format-brace" state.position (state.position + 1)
            "interpolation format specifications cannot contain braces")
        whenever (128 ≤ character.toNat)
          (error limits "syntax-interpolation-format-ascii" state.position
            (state.position + textBytes [character])
            "interpolation format specifications must be ASCII")
        let next ← consume 1
        formatLoop turns (text ++ next)

def unmatchedOpeningBrace (opening : ℕ) : Scan Unit := do
  let state ← get
  error limits "syntax-unmatched-interpolation-brace" opening state.position
    "interpolated string has an unmatched opening brace"

def pushFormat (start : ℕ) (text : List Char) : Scan Unit :=
  if text = [] then
    error limits "syntax-empty-interpolation-format" start start
      "interpolation format specifications cannot be empty"
  else pushPhysical limits .interpolationFormat start text none true

def scanInterpolationFormat (opening : ℕ) : Scan Unit := do
  let state ← get
  let start := state.position
  let text ← formatLoop limits (state.rest.length + 1) []
  pushFormat limits start text
  let state ← get
  if state.rest.head? = some '}' then
    let closing ← consume 1
    pushPhysical limits (.punctuation .rightBrace) state.position closing none false
  else unmatchedOpeningBrace limits opening

/-- One token outside layout; `interpolated` scans a nested interpolated string. -/
def scanToken (interpolated : Scan Unit) : Scan Unit := do
  let state ← get
  let start := state.position
  match state.rest with
  | [] => throw (.internalInvariant "scanner requested a character at end of input")
  | character :: _ =>
    if isBlank character then scanHorizontalSpace
    else if character = '#' then scanComment
    else if startsWithText "b\"" state.rest then scanQuoted limits .byteStringLiteral 1 true false
    else if startsWithText "f\"" state.rest then interpolated
    else if startsWithText "\"\"\"" state.rest then scanReservedTripleQuoted limits
    else if character = '"' then scanQuoted limits .stringLiteral 0 false false
    else if character = '\'' then scanCharacterLiteral limits
    else if isDigitBelow 10 character then scanNumber limits
    else if character = '_' then scanIdentifier U limits
    else if U.isXidStart character then scanIdentifier U limits
    else if isForbiddenRawCharacter character then
      let text ← consume 1
      pushPhysical limits .error start text none true
    else scanPunctuationOrError limits

def scanInterpolationExpressionToken (interpolated : Scan Unit) (delimiterBase : ℕ) :
    Scan Unit := do
  let state ← get
  let start := state.position
  if state.delimiters.length = delimiterBase ∧
      (state.rest.head? = some ')' ∨ state.rest.head? = some ']') then
    let text ← consume 1
    error limits "syntax-unmatched-delimiter" start (start + textBytes text)
      s!"closing delimiter '{String.ofList text}' has no matching opener"
    pushPhysical limits
      (.punctuation (if text = [')'] then .rightParen else .rightBracket)) start text none false
  else scanToken U limits interpolated

/-- The parts of a nested string around its loop, which is given the start of the literal. -/
def scanInterpolatedWith (loop : ℕ → Scan Unit) : Scan Unit := do
  let state ← get
  limitTo (limits.nestingDepth.toNat ≤ state.interpolationDepth) "scanner nesting depth"
    limits.nestingDepth.toNat
  modify fun state ↦ { state with interpolationDepth := state.interpolationDepth + 1 }
  let opening ← consume 2
  pushPhysical limits .interpolatedStringStart state.position opening none true
  loop state.position
  modify fun state ↦ { state with interpolationDepth := state.interpolationDepth - 1 }

def unterminatedInterpolation (literalStart textStart : ℕ) (text : List Char) : Scan Unit := do
  pushInterpolationText limits textStart text
  let state ← get
  error limits "syntax-unterminated-literal" literalStart state.position
    "literal is not terminated before the physical newline or end of file"

/-- Where the value of an interpolation began, and how many bare pipes it has had. -/
structure ValueStart where
  opening : ℕ
  delimiterBase : ℕ
  expressionTokenStart : ℕ

mutual

/-- The text of an interpolated string; `text` is what was read since byte `textStart`. -/
def interpolatedLoop : ℕ → ℕ → ℕ → List Char → Scan Unit
  | 0, _, _, _ => throw .exhausted
  | turns + 1, literalStart, textStart, text => do
    let state ← get
    match state.rest with
    | [] => unterminatedInterpolation limits literalStart textStart text
    | character :: _ =>
      if isLineBreak character then
        unterminatedInterpolation limits literalStart textStart text
      else if character = '"' then
        pushInterpolationText limits textStart text
        let quote ← consume 1
        pushPhysical limits .interpolatedStringEnd state.position quote none true
      else if character = '\\' then
        let escape ← scanEscape limits false
        interpolatedLoop turns literalStart textStart (text ++ escape)
      else if startsWithText "\x7b\x7b" state.rest then
        let braces ← consume 2
        interpolatedLoop turns literalStart textStart (text ++ braces)
      else if character = '{' then
        pushInterpolationText limits textStart text
        let brace ← consume 1
        pushPhysical limits (.punctuation .leftBrace) state.position brace none false
        let value ← get
        interpolationValueLoop turns
          ⟨state.position, value.delimiters.length, value.tokens.length⟩ 0
        let after ← get
        interpolatedLoop turns literalStart after.position []
      else if startsWithText "\x7d\x7d" state.rest then
        let braces ← consume 2
        interpolatedLoop turns literalStart textStart (text ++ braces)
      else
        whenever (character = '}')
          (error limits "syntax-unmatched-interpolation-brace" state.position (state.position + 1)
            "unmatched closing brace in interpolated string")
        let next ← consume 1
        interpolatedLoop turns literalStart textStart (text ++ next)

/-- The expression between the braces. -/
def interpolationValueLoop : ℕ → ValueStart → ℕ → Scan Unit
  | 0, _, _ => throw .exhausted
  | turns + 1, value, basePipeCount => do
    let state ← get
    let atBase := decide (state.delimiters.length = value.delimiterBase)
    if state.rest = [] ∨ state.rest.head?.any isLineBreak = true then
      modify fun state ↦ { state with
        delimiters := state.delimiters.drop (state.delimiters.length - value.delimiterBase) }
      unmatchedOpeningBrace limits value.opening
    else if atBase ∧ state.rest.head? = some '}' then
      let closing ← consume 1
      pushPhysical limits (.punctuation .rightBrace) state.position closing none false
    else if atBase ∧ state.rest.head? = some ':' ∧
        interpolationColonStartsFormat
          ((state.tokens.drop value.expressionTokenStart).map Token.kind) basePipeCount then
      let colon ← consume 1
      pushPhysical limits (.punctuation .colon) state.position colon none false
      scanInterpolationFormat limits value.opening
    else
      scanInterpolationExpressionToken U limits
        (scanInterpolatedWith limits fun start ↦
          interpolatedLoop turns start (start + 2) []) value.delimiterBase
      let after ← get
      let isPipe := decide (after.delimiters.length = value.delimiterBase ∧
        state.tokens.length < after.tokens.length ∧
        after.tokens.getLast?.map Token.kind = some (.punctuation .pipe))
      interpolationValueLoop turns value (if isPipe then min (basePipeCount + 1) 2 else basePipeCount)

end

def scanInterpolated : Scan Unit := do
  let state ← get
  scanInterpolatedWith limits fun start ↦
    interpolatedLoop U limits (state.rest.length + 1) start (start + 2) []

/-- What a turn of the scan does after the start of its line. -/
def scanElement : Scan Unit := do
  let state ← get
  if state.rest = [] then pure ()
  else if lineEnding state.rest ≠ 0 then scanNewline limits (lineEnding state.rest)
  else scanToken U limits (scanInterpolated U limits)

/-- One turn of the scan. -/
def scanStep : Scan Unit := do
  let state ← get
  if state.atLineStart then
    let trivial ← scanLinePrefix limits
    if trivial then pure () else scanElement U limits
  else scanElement U limits

def scanLoop : ℕ → Scan Unit
  | 0 => throw .exhausted
  | turns + 1 => do
    let state ← get
    if state.rest = [] then pure ()
    else
      scanStep U limits
      scanLoop turns

/-- Report every forbidden code point, with `offset` the position of the text. -/
def preflightForbiddenCharacters : ℕ → List Char → Scan Unit
  | _, [] => pure ()
  | offset, character :: rest => do
    whenever (isForbiddenRawCharacter character)
      (error limits "syntax-forbidden-code-point" offset (offset + textBytes [character])
        ("raw Unicode code point U+" ++ codePoint character ++
          " is forbidden; use an explicit escape inside strings or comments"))
    preflightForbiddenCharacters (offset + textBytes [character]) rest

def reportUnclosed : List (Char × ℕ) → Scan Unit
  | [] => pure ()
  | (delimiter, start) :: delimiters => do
    error limits "syntax-unclosed-delimiter" start (start + textBytes [delimiter])
      s!"opening delimiter '{delimiter}' is not closed"
    reportUnclosed delimiters

/-- Close every level above the root, or end the last line. -/
def closeFile : Scan Unit := do
  let state ← get
  let eof := state.position
  if state.indentation.length > 1 then
    let open_ := state.indentation.length - 1
    set { state with indentation := state.indentation.drop open_ }
    repeated open_ do
      pushSynthetic limits .dedent eof none
      pushSynthetic limits .newline eof (some .endOfFile)
  else
    whenever (state.tokens.getLast?.map Token.kind ≠ some .newline)
      (pushSynthetic limits .newline eof (some .endOfFile))

def finishLayout : Scan Unit := do
  let state ← get
  reportUnclosed limits state.delimiters.reverse
  closeFile limits
  pushSynthetic limits .endOfFile state.position none

def scanText (text : List Char) : Scan Unit := do
  preflightForbiddenCharacters limits 0 text
  scanLoop U limits (text.length + 1)
  finishLayout limits

/-- The lexical table of a text and the diagnostics of its scan. -/
def scan (text : List Char) : Except ParseFailure (LosslessLexicalTable × List Diagnostic) := do
  let (_, state) ← (scanText U limits text).run (Scanner.new text)
  return (⟨state.tokens, state.trivia, state.order⟩, state.diagnostics)

end Wrela.Syntax
