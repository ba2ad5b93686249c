import GoRedis.Protocol.Serializer
/-!
# The RESP parser

The reader is the list of bytes not consumed yet. Errors keep how the source wraps them,
because `Replay` asks with `errors.Is` whether the end of the file is underneath.
-/
namespace GoRedis

inductive ReadError
  | eof
  | unexpectedEOF
  | unknownPrefix (b : UInt8)
  | readingLine (cause : ReadError)
  | invalidInteger (line : Bytes)
  | invalidBulkLength (line : Bytes)
  | negativeBulkLength (n : Int)
  | readingBulkData (cause : ReadError)
  | readingCRLF (cause : ReadError)
  | expectedCRLF (got : Bytes)
  | invalidArrayLength (line : Bytes)
  | negativeArrayLength (n : Int)
  | readingElement (i : Nat) (cause : ReadError)
  | expectedArray (got : Response)
  | emptyCommand
  | notBulkString (i : Nat)
  deriving Repr

/-- `errors.Is(err, io.EOF)` -/
def ReadError.isEOF : ReadError → Bool
  | eof => true
  | readingLine e => e.isEOF
  | readingBulkData e => e.isEOF
  | readingCRLF e => e.isEOF
  | readingElement _ e => e.isEOF
  | _ => false

abbrev Read (α : Type) := Go (Except ReadError (α × Bytes))

/-- `strings.TrimRight(line, "\r\n")` -/
def trimRight (line : Bytes) : Bytes :=
  (line.reverse.dropWhile fun b => b=13 ∨ b=10).reverse

/-- `ReadString('\n')`: the bytes before the first line feed and those behind it. -/
def splitLine : Bytes → Option (Bytes × Bytes)
  | [] => none
  | b::s => if b=10 then some ([],s) else (splitLine s).map fun p => (b::p.1,p.2)

/-- `readLine`; without a line feed the error wraps `io.EOF`. -/
def readLine (input : Bytes) : Except ReadError (Bytes × Bytes) :=
  match splitLine input with
  | none => .error (.readingLine .eof)
  | some (line,rest) => .ok (trimRight line,rest)

/-- `io.ReadFull`: a clean `io.EOF` only when not a single byte could be read. -/
def readFull (n : Nat) (input : Bytes) : Except ReadError (Bytes × Bytes) :=
  if n ≤ input.length then .ok (input.take n,input.drop n)
  else if input=[] then .error .eof else .error .unexpectedEOF

def consumeCRLF (input : Bytes) : Except ReadError Bytes :=
  match readFull 2 input with
  | .error e => .error (.readingCRLF e)
  | .ok (got,rest) => if got=crlf then .ok rest else .error (.expectedCRLF got)

def readBulkString (input : Bytes) : Read Response :=
  match readLine input with
  | .error e => .ok (.error e)
  | .ok (line,rest) => match parseInt line with
    | none => .ok (.error (.invalidBulkLength line))
    | some n =>
      if n=-1 then .ok (.ok (.nullBulkString,rest))
      else if n < 0 then .ok (.error (.negativeBulkLength n))
      else if ¬MakeOk 1 n then .error .makeLen
      else match readFull n.toNat rest with
        | .error e => .ok (.error (.readingBulkData e))
        | .ok (data,rest') => match consumeCRLF rest' with
          | .error e => .ok (.error e)
          | .ok rest'' => .ok (.ok (.bulkString data,rest''))

/-- The element loop of `readArray`, `i` elements read so far. -/
def readElems (readValue : Bytes → Read Response) : Nat → Nat → Bytes → Read (List Response)
  | 0,_,input => .ok (.ok ([],input))
  | n+1,i,input => match readValue input with
    | .error p => .error p
    | .ok (.error e) => .ok (.error (.readingElement i e))
    | .ok (.ok (v,rest)) => match readElems readValue n (i+1) rest with
      | .error p => .error p
      | .ok (.error e) => .ok (.error e)
      | .ok (.ok (vs,rest')) => .ok (.ok (v::vs,rest'))

/-- The size of a `Response` in bytes: a tag, a string, an `int64` and a slice. -/
def responseSize : Nat := 56

/-- `readArray`, given how an element is read. -/
def readArray (readValue : Bytes → Read Response) (input : Bytes) : Read Response :=
  match readLine input with
  | .error e => .ok (.error e)
  | .ok (line,rest) => match parseInt line with
    | none => .ok (.error (.invalidArrayLength line))
    | some n =>
      if n=-1 then .ok (.ok (.nullArray,rest))
      else if n < 0 then .ok (.error (.negativeArrayLength n))
      else if ¬MakeOk responseSize n then .error .makeLen
      else match readElems readValue n.toNat 0 rest with
        | .error p => .error p
        | .ok (.error e) => .ok (.error e)
        | .ok (.ok (vs,rest')) => .ok (.ok (.array vs,rest'))

/-- `readSimpleString`, `readError` and `readInteger` share the line they read. -/
def readLineValue (build : Bytes → Except ReadError Response) (input : Bytes) : Read Response :=
  match readLine input with
  | .error e => .ok (.error e)
  | .ok (line,rest) => match build line with
    | .error e => .ok (.error e)
    | .ok r => .ok (.ok (r,rest))

def buildInteger (line : Bytes) : Except ReadError Response :=
  match parseInt line with
  | none => .error (.invalidInteger line)
  | some n => .ok (.integer n)

/-- `readValue` with a bound on how deep arrays nest. -/
def readValueDepth : Nat → Bytes → Read Response
  | 0,_ => .error .stackOverflow
  | _+1,[] => .ok (.error .eof)
  | depth+1,b::rest =>
    if b=43 then readLineValue (fun line => .ok (.simpleString line)) rest
    else if b=45 then readLineValue (fun line => .ok (.error line)) rest
    else if b=58 then readLineValue buildInteger rest
    else if b=36 then readBulkString rest
    else if b=42 then readArray (readValueDepth depth) rest
    else .ok (.error (.unknownPrefix b))

/-- `readValue`. Every level of nesting takes at least one byte, so the bound is never met. -/
def readValue (input : Bytes) : Read Response := readValueDepth (input.length+1) input

/-- The loop of `ReadCommand` over the elements of the array. -/
def commandParts : Nat → List Response → Except ReadError (List Bytes)
  | _,[] => .ok []
  | i,.bulkString s::es => match commandParts (i+1) es with
    | .error e => .error e
    | .ok parts => .ok (s::parts)
  | i,_::_ => .error (.notBulkString i)

def readCommand (input : Bytes) : Read (List Bytes) :=
  match readValue input with
  | .error p => .error p
  | .ok (.error e) => .ok (.error e)
  | .ok (.ok (.array [],_)) => .ok (.error .emptyCommand)
  | .ok (.ok (.array es,rest)) => match commandParts 0 es with
    | .error e => .ok (.error e)
    | .ok parts => .ok (.ok (parts,rest))
  | .ok (.ok (v,_)) => .ok (.error (.expectedArray v))

end GoRedis
