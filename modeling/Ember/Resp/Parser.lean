import Ember.Base.Decimal
import Ember.Base.Framing
import Ember.Base.Word
import Ember.Resp.Types

/-!
# The RESP parser

The parser looks at the bytes received so far and returns a value with the
number of bytes it occupies, or says that the buffer holds no complete frame
yet, or that the bytes are malformed.  Lengths and counts sent by the peer go
into pointer-width additions, slices and allocation requests before they are
compared with the size of the buffer, and these operations can panic.

An array is parsed by parsing its elements on the rest of the buffer, so the
parser is recursive.  `parseStep` is its body with the recursive call left
open; `parse_eq` states the recursion as the source has it.
-/

namespace Ember.Resp

open Ember.Base
open Ember.Base.Framing

/-- Why a buffer was not parsed. -/
inductive ParseError where
  | incomplete
  | invalid (message : String)
  deriving DecidableEq, Repr

namespace Parser

/-- What parsing a buffer comes to. -/
abbrev Parsed := Outcome ParseError (RespType × ℕ)

/-- The bytes before the first CR LF, and the offset behind it. -/
def readUntilCrlf : List UInt8 → Option (List UInt8 × ℕ)
  | [] => none
  | b :: rest =>
      if b = 13 ∧ rest.head? = some 10 then some ([], 2)
      else (readUntilCrlf rest).map fun line => (b :: line.1, line.2 + 1)

/-- A pointer-width length or count. -/
def parseUsizeFromBuf (buf : List UInt8) : Outcome ParseError ℕ := do
  let text ← Outcome.ofOption (.invalid "Invalid UTF-8 string.") (fromUtf8 buf)
  Outcome.ofOption (.invalid "Invalid value for an integer.") (parseUnsigned 64 text)

/-- The shape the one-line parsers share: behind `skip` bytes, a line whose
content alone decides the value. -/
def parseLine {α : Type} (skip : ℕ) (decode : List UInt8 → Outcome ParseError α)
    (buf : List UInt8) : Outcome ParseError (α × ℕ) :=
  match readUntilCrlf (buf.drop skip) with
  | some (data, len) => (fun value => (value, len + skip)) <$> decode data
  | none => .error .incomplete

/-- The content of a simple string or a simple error. -/
def decodeSimple (data : List UInt8) : Outcome ParseError RespType := do
  let text ← Outcome.ofOption
    (.invalid "Simple string value is not a valid utf8 string.") (fromUtf8 data)
  pure (.simpleString text)

/-- The content of an integer. -/
def decodeInteger (data : List UInt8) : Outcome ParseError RespType := do
  let text ← Outcome.ofOption (.invalid "Integer value is not valid.") (fromUtf8 data)
  let int ← Outcome.ofOption (.invalid "Invalid integer value.") (parseSigned 63 text)
  pure (.integer (Int64.ofInt int))

/-- The content of a boolean. -/
def decodeBool : List UInt8 → Outcome ParseError RespType
  | [116] => .ok (.boolean true)
  | [102] => .ok (.boolean false)
  | _ => .error (.invalid "Invalid value for boolean. Only \"t\" or \"f\" is accepted.")

/-- The content of a null is not looked at. -/
def decodeNull (_ : List UInt8) : Outcome ParseError RespType :=
  .ok .null

/-- The words of an inline command. -/
def decodeInline (data : List UInt8) : Outcome ParseError RespType := do
  let line ← Outcome.ofOption (.invalid "Invalid inline command") (fromUtf8 data)
  pure (.array ((splitWhitespace line).map .bulkString))

/-- A simple string or a simple error. -/
def parseSimple : List UInt8 → Parsed := parseLine 1 decodeSimple

/-- An integer. -/
def parseInteger : List UInt8 → Parsed := parseLine 1 decodeInteger

/-- A null. -/
def parseNull : List UInt8 → Parsed := parseLine 1 decodeNull

/-- A boolean. -/
def parseBool : List UInt8 → Parsed := parseLine 1 decodeBool

/-- A line of words, which is a command. -/
def parseInline : List UInt8 → Parsed := parseLine 0 decodeInline

/-- The length or count in the first line of a frame, and the offset behind that
line. -/
def parseHeader : List UInt8 → Outcome ParseError (ℕ × ℕ) := parseLine 1 parseUsizeFromBuf

variable (target : Target)

/-- The rest of a bulk string whose length and data offset are known. -/
def parseBulkBody (buf : List UInt8) (bulkStrLen dataStart : ℕ) : Parsed := do
  let dataEnd ← target.addUsize dataStart bulkStrLen
  let frameEnd ← target.addUsize dataEnd 2
  if frameEnd > buf.length then
    .error .incomplete
  else
    let data ← slice buf dataStart dataEnd
    let terminator ← slice buf dataEnd frameEnd
    if terminator ≠ RespType.crlf then
      .error (.invalid "Missing CRLF after bulk string")
    else
      let text ← Outcome.ofOption (.invalid "Invalid UTF-8") (fromUtf8 data)
      pure (.bulkString text, frameEnd)

/-- A bulk string: a length, then that many bytes and a CR LF. -/
def parseBulkString (buf : List UInt8) : Parsed := do
  let (bulkStrLen, dataStart) ← parseHeader buf
  parseBulkBody target buf bulkStrLen dataStart

/-- The loop over the elements of an array: `remaining` elements are still to be
read, those in `arr` occupy `bytesConsumed` bytes together with the header. -/
def parseElements (parse : List UInt8 → Parsed) (buf : List UInt8) :
    ℕ → List RespType → ℕ → Parsed
  | 0, arr, bytesConsumed => .ok (.array arr, bytesConsumed)
  | remaining + 1, arr, bytesConsumed => do
      let rest ← slice buf bytesConsumed buf.length
      let (element, len) ← parse rest
      parseElements parse buf remaining (arr ++ [element]) (bytesConsumed + len)

/-- An array: a count, then that many frames. -/
def parseArray (parse : List UInt8 → Parsed) (buf : List UInt8) : Parsed := do
  let (arrLen, bytesConsumed) ← parseHeader buf
  target.withCapacity arrLen
  parseElements parse buf arrLen [] bytesConsumed

/-- Does the buffer start with none of the type markers? -/
def isInline (first : UInt8) : Bool :=
  match Char.ofUInt8 first with
  | '+' | '-' | ':' | '$' | '*' | '_' | '#' => false
  | _ => true

/-- The parser that the first byte of a buffer selects. -/
def parserFor (parse : List UInt8 → Parsed) (first : UInt8) : List UInt8 → Parsed :=
  if isInline first then parseInline
  else
    match Char.ofUInt8 first with
    | '+' => parseSimple
    | '-' => parseSimple
    | ':' => parseInteger
    | '$' => parseBulkString target
    | '*' => parseArray target parse
    | '_' => parseNull
    | '#' => parseBool
    | other => fun _ => .error (.invalid ("Invalid RESP type: " ++ other.toString))

/-- The body of the parser, given the parser for the elements of arrays. -/
def parseStep (parse : List UInt8 → Parsed) : List UInt8 → Parsed
  | [] => .error .incomplete
  | first :: rest => parserFor target parse first (first :: rest)

/-- The parser with its array nesting cut off at a depth.  The cut-off is only
reached on the empty buffer once the depth is the length of the buffer. -/
def parseWithin : ℕ → List UInt8 → Parsed
  | 0, _ => .error .incomplete
  | depth + 1, buf => parseStep target (parseWithin depth) buf

/-- Parse one frame at the front of a buffer. -/
def parse (buf : List UInt8) : Parsed :=
  parseWithin target buf.length buf

end Parser

end Ember.Resp
