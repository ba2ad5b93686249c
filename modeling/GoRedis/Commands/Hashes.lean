import GoRedis.Commands.Reply
import GoRedis.Storage.Hashes
/-!
# Hash commands
-/
namespace GoRedis
variable {F : Type}

/-- `fields[args[i]] = args[i+1]` over the field/value pairs, live and in replay. -/
def pairsMap (acc : Map Bytes) : List Bytes → Map Bytes
  | f::v::rest => pairsMap (acc.insert f v) rest
  | _ => acc

/-- The argument count `HSET` asks for, live and in replay. -/
def hsetShape (args : List Bytes) : Bool := 4 ≤ args.length ∧ (args.length-2)%2=0

def handleHSet (args : List Bytes) (s : MemoryStore F) : Response × MemoryStore F :=
  if hsetShape args then
    let (n,s') := s.hSet (args.getD 1 []) (pairsMap ∅ (args.drop 2))
    (.integer n,s')
  else (wrongArgs "HSET",s)

def handleHGet (w : World) (args : List Bytes) (m : Maps F) : Response :=
  match args with
  | [_,key,field] => optReply (m.hGet w.now key field)
  | _ => wrongArgs "HGET"

def handleHDel (w : World) (args : List Bytes) (s : MemoryStore F) : Response × MemoryStore F :=
  match args with
  | _::key::field::fields =>
    let (n,s') := s.hDel w.now key (field::fields)
    (.integer n,s')
  | _ => (wrongArgs "HDEL",s)

def handleHGetAll (w : World) (args : List Bytes) (m : Maps F) : Response :=
  match args with
  | [_,key] => .bulks ((m.hGetAll w key).flatMap fun p => [p.1,p.2])
  | _ => wrongArgs "HGETALL"

def handleHMGet (w : World) (args : List Bytes) (m : Maps F) : Response :=
  match args with
  | _::key::field::fields =>
    .array ((field::fields).map fun f => optReply (m.hGet w.now key f))
  | _ => wrongArgs "HMGET"

def handleHLen (w : World) (args : List Bytes) (m : Maps F) : Response :=
  match args with
  | [_,key] => .integer (m.hLen w.now key)
  | _ => wrongArgs "HLEN"

def handleHExists (w : World) (args : List Bytes) (m : Maps F) : Response :=
  match args with
  | [_,key,field] => boolReply (m.hExists w.now key field)
  | _ => wrongArgs "HEXISTS"

def handleHKeys (w : World) (args : List Bytes) (m : Maps F) : Response :=
  match args with
  | [_,key] => .bulks (m.hKeys w key)
  | _ => wrongArgs "HKEYS"

def handleHVals (w : World) (args : List Bytes) (m : Maps F) : Response :=
  match args with
  | [_,key] => .bulks (m.hVals w key)
  | _ => wrongArgs "HVALS"

def handleHIncrByFloat [Float64 F] (w : World) (args : List Bytes) (s : MemoryStore F) :
    Response × MemoryStore F :=
  match args with
  | [_,key,field,n] => match (Float64.parseFloat n : Option F) with
    | none => (notFloat,s)
    | some delta => match (match s.hGet w.now key field with
        | none => some 0
        | some raw => (Float64.parseFloat raw : Option F)) with
      | none => (.error (utf8 "ERR hash value is not a valid float"),s)
      | some current =>
        let text := Float64.formatFixed (current+delta)
        (.bulkString text,(s.hSet key ((∅ : Map Bytes).insert field text)).2)
  | _ => (wrongArgs "HINCRBYFLOAT",s)

/-- `handleHIncrBy`: the sum wraps, there is no overflow test. -/
def handleHIncrBy (w : World) (args : List Bytes) (s : MemoryStore F) :
    Response × MemoryStore F :=
  match args with
  | [_,key,field,n] => match (match s.hGet w.now key field with
      | none => some 0
      | some raw => parseInt raw) with
    | none => (.error (utf8 "ERR hash value is not an integer"),s)
    | some current => match parseInt n with
      | none => (notInteger,s)
      | some delta =>
        let next := wrap64 (current+delta)
        (.integer next,(s.hSet key ((∅ : Map Bytes).insert field (formatInt next))).2)
  | _ => (wrongArgs "HINCRBY",s)

end GoRedis
