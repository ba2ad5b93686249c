import GoRedis.Go.World
/-!
# RESP values and their wire form

`Response` is the value every handler returns. The source keeps a type tag and one field
per kind of payload; here each kind is a constructor and reading a field of another kind
gives that field's zero value.
-/
namespace GoRedis

inductive Response
  | simpleString (s : Bytes)
  | error (s : Bytes)
  | integer (n : Int)
  | bulkString (s : Bytes)
  | nullBulkString
  | array (elems : List Response)
  | nullArray
  deriving Repr, Inhabited

namespace Response

def isError : Response → Bool
  | error _ => true
  | _ => false

/-- `r.Integer` -/
def int : Response → Int
  | integer n => n
  | _ => 0

/-- `r.Str` -/
def str : Response → Bytes
  | simpleString s => s
  | error s => s
  | bulkString s => s
  | _ => []

/-- `r.Array` -/
def elems : Response → List Response
  | array es => es
  | _ => []

def isNullBulk : Response → Bool
  | nullBulkString => true
  | _ => false

def isNullArray : Response → Bool
  | nullArray => true
  | _ => false

/-- An array of bulk strings. -/
def bulks (vs : List Bytes) : Response := array (vs.map bulkString)

end Response

def crlf : Bytes := [13,10]

mutual
def serialize : Response → Bytes
  | .simpleString s => 43::(s++crlf)
  | .error s => 45::(s++crlf)
  | .integer n => 58::(formatInt n++crlf)
  | .bulkString s => 36::(formatNat s.length++crlf++s++crlf)
  | .nullBulkString => utf8 "$-1\r\n"
  | .nullArray => utf8 "*-1\r\n"
  | .array es => 42::(formatNat es.length++crlf++serializeAll es)

/-- The element loop of the array case. -/
def serializeAll : List Response → Bytes
  | [] => []
  | e::es => serialize e++serializeAll es
end

/-- The wire form of one command, as clients send it and the log stores it. -/
def encode (args : List Bytes) : Bytes := serialize (Response.bulks args)

/-- The wire form of one bulk string. -/
def encodeBulk (s : Bytes) : Bytes := 36::(formatNat s.length++crlf++s++crlf)

theorem serializeAll_bulks (args : List Bytes) :
    serializeAll (args.map Response.bulkString)=args.flatMap encodeBulk := by
  induction args with
  | nil => simp [serializeAll]
  | cons a args ih => simp [serializeAll,serialize,encodeBulk,ih]

theorem encode_eq (args : List Bytes) :
    encode args=42::(formatNat args.length++crlf++args.flatMap encodeBulk) := by
  simp [encode,Response.bulks,serialize,serializeAll_bulks]

end GoRedis
