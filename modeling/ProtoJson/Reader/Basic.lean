import ProtoJson.Reader.Token

/-!
# The reader

A cursor over a JSON text from which a schema-directed decoder takes tokens. The decoder announces
the separator that must come before the next token; the reader consumes it when that token is
scanned. So a decoder can announce a comma after every item: in front of a closing bracket the
announcement lapses.

Every read returns its result together with the reader after it, also when it fails. A token of an
unwanted class is kept for the next read.
-/

namespace ProtoJson

/-- What a reader makes of the text between quotes. -/
structure ReadOptions where
  /-- Whether escapes are replaced by what they stand for. -/
  decodeEscapes : Bool := false
  /-- Whether bytes are decoded from base64. -/
  decodeBase64 : Bool := false
  deriving DecidableEq, Repr

/-- The state of a reader. -/
structure Reader where
  options : ReadOptions := {}
  /-- The input after the cursor. -/
  rest : List UInt8
  /-- The bytes before the cursor. -/
  offset : Nat := 0
  /-- A token that was scanned and not taken. The cursor stands after it. -/
  token : Option Token := none
  /-- The separator that the next scan must consume. -/
  pending : Option UInt8 := none
  /-- The number of containers that are open. -/
  depth : Nat := 0
  deriving DecidableEq, Repr

namespace Reader

/-- So many containers can be open at once. -/
def maxDepth : Nat := 128

/-- A reader at the start of a text. -/
def ofBytes (input : List UInt8) (options : ReadOptions) : Reader :=
  { options, rest := input }

/-- Announces the separator in front of the next token. -/
def separate (s : Reader) (separator : UInt8) : Reader := { s with pending := some separator }

/-- Announces a comma. -/
def comma (s : Reader) : Reader := s.separate (ascii ',')

/-- Announces a colon. -/
def colon (s : Reader) : Reader := s.separate (ascii ':')

/-- An error at the cursor. -/
def error (s : Reader) (fault : Fault) : SyntaxError := .locate s.offset s.rest fault

/-- The next byte that is no blank. -/
def peek? (s : Reader) : Option UInt8 := s.rest.find? fun b => !isBlank b

/-- Whether the next token is the symbol `byte`. -/
def atSymbol (s : Reader) (byte : UInt8) : Bool :=
  match s.token with
  | some t => t.kind == .symbol byte
  | none => s.peek? == some byte

/-- Moves the cursor over `n` bytes. -/
def advance (s : Reader) (n : Nat) : Reader :=
  { s with rest := s.rest.drop n, offset := s.offset + n }

/-- Moves the cursor over blanks. -/
def skipBlanks (s : Reader) : Reader := s.advance (s.rest.takeWhile isBlank).length

/-- Scans the token at the cursor. The cursor stays if there is none. -/
def scanToken (s : Reader) : Except SyntaxError Token × Reader :=
  match TokenKind.scan s.rest with
  | .ok (kind, length) => (.ok { kind, offset := s.offset, source := s.rest }, s.advance length)
  | .error fault => (.error (s.error fault), s)

/-- Scans the next token where no separator is announced. -/
def scanUnseparated (s : Reader) : Except SyntaxError Token × Reader :=
  let s := s.skipBlanks
  match s.rest with
  | [] => (.error (s.error .unexpectedEnd), s)
  | b :: _ =>
    if b = ascii ',' ∨ b = ascii ':' ∨ b = ascii '}' ∨ b = ascii ']' then
      (.error (s.error (.unexpectedCharacter (Char.ofNat b.toNat))), s)
    else s.scanToken

/-- Scans the next token and the separator in front of it. An announced comma may be missing before
a closing bracket. -/
def scan (s : Reader) : Except SyntaxError Token × Reader :=
  match s.pending with
  | none => s.scanUnseparated
  | some p =>
    let s := s.skipBlanks
    match s.rest with
    | [] => (.error (s.error .unexpectedEnd), s)
    | b :: _ =>
      if b = ascii ',' ∨ b = ascii ':' then
        if b = p then { s.advance 1 with pending := none }.scanUnseparated
        else (.error (s.error (.unexpectedCharacter (Char.ofNat b.toNat))), s)
      else if (b = ascii '}' ∨ b = ascii ']') ∧ p = ascii ',' then
        { s with pending := none }.scanToken
      else
        (.error (s.error (.missingSeparator (Char.ofNat p.toNat) (Char.ofNat b.toNat))), s)

/-- Takes the token that is kept, or scans one. -/
def nextToken (s : Reader) : Except SyntaxError Token × Reader :=
  match s.token with
  | some t => (.ok t, { s with token := none })
  | none => s.scan

/-- Takes the next token if `accept` gives a value for it. Any other token is kept. -/
def expect {α : Type} (s : Reader) (expected : TokenClass) (accept : TokenKind → Option α) :
    Except SyntaxError (Token × α) × Reader :=
  match s.nextToken with
  | (.error e, s) => (.error e, s)
  | (.ok t, s) =>
    match accept t.kind with
    | some a => (.ok (t, a), s)
    | none =>
      (.error (t.error (.unexpectedToken expected t.kind.tokenClass)), { s with token := some t })

/-- Opens a container whose bracket is the token `t`. -/
def enter (s : Reader) (t : Token) : Except SyntaxError Unit × Reader :=
  if s.depth < maxDepth then (.ok (), { s with depth := s.depth + 1 })
  else (.error (t.error (.tooDeep maxDepth)), s)

/-- Takes the symbol `byte`. Opening brackets open a container and closing ones close it. -/
def symbol (s : Reader) (byte : UInt8) : Except SyntaxError Unit × Reader :=
  match s.expect (.symbol byte) fun k => if k = .symbol byte then some () else none with
  | (.error e, s) => (.error e, s)
  | (.ok (t, _), s) =>
    if byte = ascii '{' ∨ byte = ascii '[' then s.enter t
    else if byte = ascii '}' ∨ byte = ascii ']' then (.ok (), { s with depth := s.depth - 1 })
    else (.ok (), s)

end Reader

end ProtoJson
