import Hermas.Base.Assoc
import Hermas.Base.Bytes
import Mathlib.Data.String.Basic

/-!
# Schemas

An app declares its types and its actions in a text. `lex` cuts the text into tokens and
`parse` reads the declarations off them, one level of nesting at a time. The maps of a
schema are kept in the order of their names, so that the order of the text is forgotten.
-/

namespace Hermas.Schema

def maxTypesPerApp : Nat := 256

def maxActionsPerApp : Nat := 256

def maxRepresentationDepth : Nat := 64

structure Span where
  offset : Nat
  length : Nat
  line : Nat
  column : Nat
  deriving DecidableEq, Repr

/-- `Span::start` -/
def Span.start : Span := { offset := 0, length := 0, line := 1, column := 1 }

structure SchemaDiagnostic where
  file : String
  stage : String
  code : String
  span : Span
  message : String
  deriving DecidableEq, Repr

/-! ## Tokens -/

inductive Symbol where
  | leftBrace | rightBrace | leftAngle | rightAngle | colon | equals
  deriving DecidableEq, Repr

/-- A symbol as a message shows it. -/
def Symbol.name : Symbol → String
  | leftBrace => "LeftBrace"
  | rightBrace => "RightBrace"
  | leftAngle => "LeftAngle"
  | rightAngle => "RightAngle"
  | colon => "Colon"
  | equals => "Equals"

inductive TokenKind where
  | identifier (value : String)
  | number (value : UInt32)
  | symbol (symbol : Symbol)
  | stop
  deriving DecidableEq, Repr

structure Token where
  kind : TokenKind
  span : Span
  deriving DecidableEq, Repr

def isDigit (byte : UInt8) : Bool := 48 ≤ byte && byte ≤ 57

/-- `identifier_start` -/
def identifierStart (byte : UInt8) : Bool :=
  65 ≤ byte && byte ≤ 90 || 97 ≤ byte && byte ≤ 122 || byte == 95

/-- `identifier_continue` -/
def identifierContinue (byte : UInt8) : Bool :=
  identifierStart byte || isDigit byte || byte == 45

/-- Between tokens; commas and semicolons are blanks. -/
def isBlank (byte : UInt8) : Bool := [32, 9, 13, 44, 59].contains byte

def newline : UInt8 := 10

def symbolOf (byte : UInt8) : Option Symbol :=
  match byte.toNat with
  | 123 => some .leftBrace
  | 125 => some .rightBrace
  | 60 => some .leftAngle
  | 62 => some .rightAngle
  | 58 => some .colon
  | 61 => some .equals
  | _ => none

/-- A run of ASCII bytes as a string. -/
def text (bytes : Bytes) : String := String.ofList (bytes.map fun byte => Char.ofNat byte.toNat)

/-- The bytes of an ASCII string. -/
def bytesOf (source : String) : Bytes := source.toList.map fun c => UInt8.ofNat c.toNat

/-- One more digit of a number of 32 bits. -/
def pushDigit (value : Nat) (byte : UInt8) : Option Nat :=
  let next := value * 10 + (byte.toNat - 48)
  if next < 2 ^ 32 then some next else none

/-- A byte as two digits. -/
def hexByte (byte : UInt8) : String :=
  String.ofList [Nat.digitChar (byte.toNat / 16), Nat.digitChar (byte.toNat % 16)]

/-- Where the lexer is. -/
structure Place where
  offset : Nat := 0
  line : Nat := 1
  column : Nat := 1

/-- So many bytes on in the same line. -/
def Place.skip (place : Place) (count : Nat) : Place :=
  { place with offset := place.offset + count, column := place.column + count }

def Place.span (place : Place) (length : Nat) : Span :=
  { offset := place.offset, length, line := place.line, column := place.column }

/-- The loop of `lex`, with the token at the end apart. A round takes at least a byte, so the
length of the text bounds the rounds. -/
def lexFrom (file : String) : Nat → Place → Bytes → Except SchemaDiagnostic (List Token × Token)
  | _, place, [] => .ok ([], { kind := .stop, span := place.span 0 })
  | 0, place, _ :: _ => .ok ([], { kind := .stop, span := place.span 0 })
  | rounds + 1, place, byte :: rest => do
      if isBlank byte then
        lexFrom file rounds (place.skip 1) rest
      else if byte = newline then
        lexFrom file rounds { offset := place.offset + 1, line := place.line + 1 } rest
      else if byte = 35 then
        let comment := (byte :: rest).takeWhile (· != newline)
        lexFrom file rounds (place.skip comment.length) ((byte :: rest).drop comment.length)
      else if identifierStart byte then
        let word := (byte :: rest).takeWhile identifierContinue
        let (tokens, last) ← lexFrom file rounds (place.skip word.length)
          ((byte :: rest).drop word.length)
        pure ({ kind := .identifier (text word), span := place.span word.length } :: tokens, last)
      else if isDigit byte then
        let digits := (byte :: rest).takeWhile isDigit
        match digits.foldlM pushDigit 0 with
        | none => .error ⟨file, "syntax", "invalid-integer", place.span 1,
            "integer literal exceeds the 32-bit range"⟩
        | some value => do
            let (tokens, last) ← lexFrom file rounds (place.skip digits.length)
              ((byte :: rest).drop digits.length)
            pure ({ kind := .number (UInt32.ofNat value), span := place.span digits.length } :: tokens,
              last)
      else
        match symbolOf byte with
        | none =>
            let shown := hexByte byte
            .error ⟨file, "syntax", "unexpected-byte", place.span 1, s!"unexpected byte 0x{shown}"⟩
        | some symbol => do
            let (tokens, last) ← lexFrom file rounds (place.skip 1) rest
            pure ({ kind := .symbol symbol, span := place.span 1 } :: tokens, last)

/-- `lex` -/
def lex (file : String) (source : Bytes) : Except SchemaDiagnostic (List Token × Token) :=
  lexFrom file source.length {} source

/-- `Tokens`: those in front of the end that are left, and the end. -/
structure Tokens where
  file : String
  items : List Token
  last : Token

namespace Tokens

def peek (tokens : Tokens) : Token := tokens.items.headD tokens.last

/-- The end is never passed. -/
def advance (tokens : Tokens) : Token × Tokens :=
  (tokens.peek, { tokens with items := tokens.items.tail })

def diagnostic (tokens : Tokens) (code : String) (span : Span) (message : String) :
    SchemaDiagnostic :=
  ⟨tokens.file, "schema", code, span, message⟩

def unexpected (tokens : Tokens) (span : Span) (message : String) : SchemaDiagnostic :=
  ⟨tokens.file, "syntax", "unexpected-token", span, message⟩

/-- `check_keyword` -/
def checkKeyword (tokens : Tokens) (expected : String) : Bool :=
  tokens.peek.kind == .identifier expected

/-- `expect_keyword` -/
def expectKeyword (tokens : Tokens) (expected : String) : Except SchemaDiagnostic (Span × Tokens) :=
  let (token, tokens) := tokens.advance
  if token.kind = .identifier expected then .ok (token.span, tokens)
  else .error (tokens.unexpected token.span s!"expected `{expected}`")

/-- `expect_identifier` -/
def expectIdentifier (tokens : Tokens) : Except SchemaDiagnostic ((String × Span) × Tokens) :=
  let (token, tokens) := tokens.advance
  match token.kind with
  | .identifier value => .ok ((value, token.span), tokens)
  | _ => .error (tokens.unexpected token.span "expected identifier")

/-- `expect_number` -/
def expectNumber (tokens : Tokens) : Except SchemaDiagnostic ((UInt32 × Span) × Tokens) :=
  let (token, tokens) := tokens.advance
  match token.kind with
  | .number value => .ok ((value, token.span), tokens)
  | _ => .error (tokens.unexpected token.span "expected integer")

/-- `expect_symbol` -/
def expectSymbol (tokens : Tokens) (expected : Symbol) : Except SchemaDiagnostic (Span × Tokens) :=
  let (token, tokens) := tokens.advance
  if token.kind = .symbol expected then .ok (token.span, tokens)
  else
    let shown := expected.name
    .error (tokens.unexpected token.span s!"expected {shown}")

/-- `expect_end` -/
def expectEnd (tokens : Tokens) : Except SchemaDiagnostic Unit :=
  if tokens.peek.kind = .stop then .ok ()
  else .error (tokens.unexpected tokens.peek.span "expected end of file")

end Tokens

/-! ## Declarations -/

/-- `TypeExpression`; a map is the list of its entries in the order of their names. -/
inductive TypeExpression where
  | unit
  | integer
  | boolean
  | string (maximum : UInt32)
  | bytes (maximum : UInt32)
  | named (name : String) (span : Span)
  | record (fields : List (String × TypeExpression))
  | list (element : TypeExpression) (maximum : UInt16)
  | variant (cases : List (String × TypeExpression))

structure TypeDeclaration where
  expression : TypeExpression
  span : Span

inductive ParsedCompensation where
  | none
  | action (name : String)
  deriving DecidableEq, Repr

structure ParsedAction where
  input : String
  success : String
  error : String
  compensation : ParsedCompensation
  span : Span
  deriving DecidableEq, Repr

structure ParsedSchema where
  app : String
  appSpan : Span
  types : List (String × TypeDeclaration)
  actions : List (String × ParsedAction)

/-! ## Parsing -/

/-- The members between two braces. Each takes a token, so the tokens that are left bound the
rounds. -/
def parseMembersFrom
    (element : Tokens → Except SchemaDiagnostic (TypeExpression × Tokens)) :
    Nat → List (String × TypeExpression) → Tokens →
      Except SchemaDiagnostic (List (String × TypeExpression) × Tokens)
  | 0, members, tokens => .ok (members, tokens)
  | rounds + 1, members, tokens =>
      if tokens.peek.kind = .symbol .rightBrace ∨ tokens.peek.kind = .stop then
        .ok (members, tokens)
      else do
        let ((name, span), tokens) ← tokens.expectIdentifier
        let (_, tokens) ← tokens.expectSymbol .colon
        let (representation, tokens) ← element tokens
        if (members.lookup name).isSome then
          .error (tokens.diagnostic "duplicate-member" span s!"member `{name}` is declared twice")
        else
          parseMembersFrom element rounds (Assoc.insert name representation members) tokens

/-- `parse_members` -/
def parseMembers (element : Tokens → Except SchemaDiagnostic (TypeExpression × Tokens))
    (requireMember : Bool) (tokens : Tokens) :
    Except SchemaDiagnostic (List (String × TypeExpression) × Tokens) := do
  let (_, tokens) ← tokens.expectSymbol .leftBrace
  let (members, tokens) ← parseMembersFrom element (tokens.items.length + 1) [] tokens
  let (_, tokens) ← tokens.expectSymbol .rightBrace
  if requireMember ∧ members.isEmpty then
    .error (tokens.diagnostic "empty-variant" tokens.peek.span
      "a variant must declare at least one case")
  else .ok (members, tokens)

/-- `parse_type_expression`, with the levels of nesting that are left. -/
def parseTypeExpression : Nat → Tokens → Except SchemaDiagnostic (TypeExpression × Tokens)
  | 0, tokens => .error (tokens.diagnostic "limit-exceeded" tokens.peek.span
      s!"representation nesting exceeds {maxRepresentationDepth}")
  | levels + 1, tokens => do
      let ((name, span), tokens) ← tokens.expectIdentifier
      match name with
      | "Unit" => .ok (.unit, tokens)
      | "Integer" => .ok (.integer, tokens)
      | "Boolean" => .ok (.boolean, tokens)
      | "String" => do
          let (_, tokens) ← tokens.expectSymbol .leftAngle
          let ((maximum, _), tokens) ← tokens.expectNumber
          let (_, tokens) ← tokens.expectSymbol .rightAngle
          .ok (.string maximum, tokens)
      | "Bytes" => do
          let (_, tokens) ← tokens.expectSymbol .leftAngle
          let ((maximum, _), tokens) ← tokens.expectNumber
          let (_, tokens) ← tokens.expectSymbol .rightAngle
          .ok (.bytes maximum, tokens)
      | "List" => do
          let (_, tokens) ← tokens.expectSymbol .leftAngle
          let (element, tokens) ← parseTypeExpression levels tokens
          let ((maximum, maximumSpan), tokens) ← tokens.expectNumber
          if 65535 < maximum then
            .error (tokens.diagnostic "invalid-bound" maximumSpan
              "list bound exceeds the 16-bit representation")
          else do
            let (_, tokens) ← tokens.expectSymbol .rightAngle
            .ok (.list element maximum.toUInt16, tokens)
      | "record" => do
          let (fields, tokens) ← parseMembers (parseTypeExpression levels) false tokens
          .ok (.record fields, tokens)
      | "variant" => do
          let (cases, tokens) ← parseMembers (parseTypeExpression levels) true tokens
          .ok (.variant cases, tokens)
      | _ => .ok (.named name span, tokens)

/-- `parse_action` -/
def parseAction (tokens : Tokens) : Except SchemaDiagnostic ((String × ParsedAction) × Tokens) := do
  let (span, tokens) ← tokens.expectKeyword "action"
  let ((name, _), tokens) ← tokens.expectIdentifier
  let (_, tokens) ← tokens.expectSymbol .leftBrace
  let (_, tokens) ← tokens.expectKeyword "input"
  let ((input, _), tokens) ← tokens.expectIdentifier
  let (_, tokens) ← tokens.expectKeyword "success"
  let ((success, _), tokens) ← tokens.expectIdentifier
  let (_, tokens) ← tokens.expectKeyword "error"
  let ((error, _), tokens) ← tokens.expectIdentifier
  let (_, tokens) ← tokens.expectKeyword "compensation"
  let ((compensationName, _), tokens) ← tokens.expectIdentifier
  let compensation :=
    if compensationName = "none" then .none else .action compensationName
  let (_, tokens) ← tokens.expectSymbol .rightBrace
  .ok ((name, { input, success, error, compensation, span }), tokens)

/-- `type NAME = EXPRESSION` -/
def parseType (types : List (String × TypeDeclaration)) (tokens : Tokens) :
    Except SchemaDiagnostic (List (String × TypeDeclaration) × Tokens) := do
  let (span, tokens) ← tokens.expectKeyword "type"
  let ((name, nameSpan), tokens) ← tokens.expectIdentifier
  let (_, tokens) ← tokens.expectSymbol .equals
  let (expression, tokens) ← parseTypeExpression (maxRepresentationDepth + 1) tokens
  let declared := Assoc.insert name { expression, span } types
  if (types.lookup name).isSome then
    .error (tokens.diagnostic "duplicate-type" nameSpan s!"type `{name}` is declared twice")
  else if maxTypesPerApp < declared.length then
    .error (tokens.diagnostic "limit-exceeded" span
      s!"an app may declare at most {maxTypesPerApp} types")
  else .ok (declared, tokens)

/-- The loop of `parse`. Each declaration takes a token. -/
def parseDeclarations : Nat → List (String × TypeDeclaration) → List (String × ParsedAction) →
    Tokens → Except SchemaDiagnostic
      ((List (String × TypeDeclaration) × List (String × ParsedAction)) × Tokens)
  | 0, types, actions, tokens => .ok ((types, actions), tokens)
  | rounds + 1, types, actions, tokens =>
      if tokens.peek.kind = .stop then .ok ((types, actions), tokens)
      else if tokens.checkKeyword "type" then do
        let (types, tokens) ← parseType types tokens
        parseDeclarations rounds types actions tokens
      else if tokens.checkKeyword "action" then do
        let ((name, action), tokens) ← parseAction tokens
        let declared := Assoc.insert name action actions
        if (actions.lookup name).isSome then
          .error (tokens.diagnostic "duplicate-action" action.span
            s!"Action `{name}` is declared twice")
        else if maxActionsPerApp < declared.length then
          .error (tokens.diagnostic "limit-exceeded" action.span
            s!"an app may declare at most {maxActionsPerApp} Actions")
        else parseDeclarations rounds types declared tokens
      else .error (tokens.unexpected tokens.peek.span "expected `type` or `action`")

/-- `parse` -/
def parse (file : String) (source : Bytes) : Except SchemaDiagnostic ParsedSchema := do
  let (items, last) ← lex file source
  let tokens : Tokens := { file, items, last }
  let (appSpan, tokens) ← tokens.expectKeyword "app"
  let ((app, _), tokens) ← tokens.expectIdentifier
  let ((types, actions), tokens) ← parseDeclarations (tokens.items.length + 1) [] [] tokens
  tokens.expectEnd
  if types.isEmpty then
    .error (tokens.diagnostic "missing-type" appSpan
      "an app schema must declare at least one nominal type")
  else if actions.isEmpty then
    .error (tokens.diagnostic "missing-action" appSpan
      "an app schema must declare at least one Action")
  else .ok { app, appSpan, types, actions }

end Hermas.Schema
