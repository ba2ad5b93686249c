import GoRedis.Commands.Reply
import GoRedis.Storage.Strings
/-!
# String, counter and expiry commands
-/
namespace GoRedis
variable {F : Type}

/-- The four options that carry an expiry. -/
inductive ExpireUnit
  | ex
  | px
  | exat
  | pxat
  deriving DecidableEq, Repr

def expireUnit (word : Bytes) : Option ExpireUnit :=
  if toUpper word=utf8 "EX" then some .ex
  else if toUpper word=utf8 "PX" then some .px
  else if toUpper word=utf8 "EXAT" then some .exat
  else if toUpper word=utf8 "PXAT" then some .pxat
  else none

/-- The duration an expiry option stands for. -/
def ExpireUnit.ttl (now : Int) : ExpireUnit → Int → Int
  | ex,n => scale n second
  | px,n => scale n millisecond
  | exat,n => timeUntil now (unix n)
  | pxat,n => timeUntil now (unixMilli n)

/-- In `SET`, an instant that has passed becomes a duration of one nanosecond. -/
def ExpireUnit.setTTL (now : Int) (u : ExpireUnit) (n : Int) : Int :=
  match u with
  | ex | px => u.ttl now n
  | exat | pxat => if u.ttl now n ≤ 0 then 1 else u.ttl now n

/-- The options of `SET` that are a single word. -/
def setFlag (word : Bytes) (o : SetAdvOpts) : Option SetAdvOpts :=
  if toUpper word=utf8 "NX" then some { o with nx := true }
  else if toUpper word=utf8 "XX" then some { o with xx := true }
  else if toUpper word=utf8 "GET" then some { o with get := true }
  else if toUpper word=utf8 "KEEPTTL" then some { o with keepTTL := true }
  else none

/-- The option loop of `handleSet`. -/
def setOptions (now : Int) : List Bytes → SetAdvOpts → Int → Except Response (SetAdvOpts × Int)
  | [],o,ttl => .ok (o,ttl)
  | a::rest,o,ttl => match setFlag a o with
    | some o' => setOptions now rest o' ttl
    | none => match expireUnit a with
      | none => .error syntaxError
      | some u => match rest with
        | [] => .error syntaxError
        | v::rest' => match (parseInt v).filter fun n => 0 < n with
          | none => .error (.error (utf8 "ERR invalid expire time in 'SET' command"))
          | some n => setOptions now rest' o (u.setTTL now n)

/-- The reply of `handleSet`. -/
def setReply (opts : SetAdvOpts) (old : Option Bytes) (wasSet : Bool) : Response :=
  if opts.get then optReply old else if wasSet then okReply else .nullBulkString

def handleSet (w : World) (args : List Bytes) (s : MemoryStore F) : Response × MemoryStore F :=
  match args with
  | _::key::value::rest => match setOptions w.now rest {} 0 with
    | .error r => (r,s)
    | .ok (opts,ttl) =>
      if opts.nx ∧ opts.xx then (syntaxError,s)
      else
        let (old,wasSet,s') := s.setAdv w.now key value ttl opts
        (setReply opts old wasSet,s')
  | _ => (wrongArgs "SET",s)

theorem handleSet_cases (w : World) (args : List Bytes) (s : MemoryStore F) :
    (handleSet w args s).2=s ∨ ∃ name key rest e, args=name::key::rest ∧
      (handleSet w args s).2=((s.deleteKey key).putString key e).bumpVersion key := by
  unfold handleSet
  split
  · rename_i name key value rest
    split
    · exact .inl rfl
    · split_ifs
      · exact .inl rfl
      · rcases s.setAdv_cases w.now key value _ _ with ⟨_,hrun⟩ | ⟨_,hrun⟩
        · exact .inl (by rw [hrun])
        · exact .inr ⟨name,key,_,_,rfl,by rw [hrun]⟩
  · exact .inl rfl

def handleGet (w : World) (args : List Bytes) (m : Maps F) : Response :=
  match args with
  | [_,key] => optReply (m.get w.now key)
  | _ => .error (utf8 "ERR wrong number of arguments for 'GET'")

def handleDel (w : World) (args : List Bytes) (s : MemoryStore F) : Response × MemoryStore F :=
  match args with
  | _::key::keys =>
    let (n,s') := s.del w.now (key::keys)
    (.integer n,s')
  | _ => (.error (utf8 "ERR wrong number of arguments for 'DEL'"),s)

def handleExists (w : World) (args : List Bytes) (m : Maps F) : Response :=
  match args with
  | _::key::keys => .integer (m.exists_ w.now (key::keys))
  | _ => .error (utf8 "ERR wrong number of arguments for 'EXISTS'")

def handleKeys (w : World) (args : List Bytes) (m : Maps F) : Response :=
  match args with
  | [_,pattern] =>
    if w.filepathMatch pattern []=none then .error (utf8 "ERR invalid pattern")
    else .bulks (m.keys w pattern)
  | _ => .error (utf8 "ERR wrong number of arguments for 'KEYS'")

def handleSetNX (w : World) (args : List Bytes) (s : MemoryStore F) : Response × MemoryStore F :=
  match args with
  | [_,key,value] =>
    if (s.get w.now key).isSome then (.integer 0,s) else (.integer 1,s.set key value)
  | _ => (wrongArgs "SETNX",s)

/-- `handleSetEX` and `handlePSetEX` differ in name and unit. -/
def handleSetTTL (name : String) (unit : Int) (w : World) (args : List Bytes)
    (s : MemoryStore F) : Response × MemoryStore F :=
  match args with
  | [_,key,n,value] => match (parseInt n).filter fun n => 0 < n with
    | none => (.error (utf8 "ERR invalid expire time in '"++utf8 name++utf8 "' command"),s)
    | some n => (okReply,s.setWithTTL w.now key value (scale n unit))
  | _ => (wrongArgs name,s)

def handleSetEX (w : World) := handleSetTTL (F := F) "SETEX" second w

def handlePSetEX (w : World) := handleSetTTL (F := F) "PSETEX" millisecond w

/-- The loop of `MSET`, live and in replay. -/
def msetLoop (s : MemoryStore F) : List Bytes → MemoryStore F
  | k::v::rest => msetLoop (s.set k v) rest
  | _ => s

def handleMSet (args : List Bytes) (s : MemoryStore F) : Response × MemoryStore F :=
  if args.length < 3 ∨ args.length%2=0 then (wrongArgs "MSET",s)
  else (okReply,msetLoop s args.tail)

def handleMGet (w : World) (args : List Bytes) (m : Maps F) : Response :=
  match args with
  | _::key::keys => .array ((key::keys).map fun k => optReply (m.get w.now k))
  | _ => wrongArgs "MGET"

def handleGetSet (w : World) (args : List Bytes) (s : MemoryStore F) : Response × MemoryStore F :=
  match args with
  | [_,key,value] => (optReply (s.get w.now key),s.set key value)
  | _ => (wrongArgs "GETSET",s)

def handleGetDel (w : World) (args : List Bytes) (s : MemoryStore F) : Response × MemoryStore F :=
  match args with
  | [_,key] => match s.get w.now key with
    | none => (.nullBulkString,s)
    | some v => (.bulkString v,(s.del w.now [key]).2)
  | _ => (wrongArgs "GETDEL",s)

/-- What the options of `GETEX` ask for. -/
structure GetExOpts where
  ttl : Int := 0
  persist : Bool := false
  hasTTL : Bool := false
  deriving DecidableEq, Repr

/-- The option loop of `handleGetEX`. -/
def getExOptions (now : Int) : List Bytes → GetExOpts → Except Response GetExOpts
  | [],o => .ok o
  | a::rest,o =>
    if toUpper a=utf8 "PERSIST" then getExOptions now rest { o with persist := true }
    else match expireUnit a with
      | none => .error syntaxError
      | some u => match rest with
        | [] => .error syntaxError
        | v::rest' => match (parseInt v).filter fun n => 0 < n with
          | none => .error (.error (utf8 "ERR invalid expire time in 'GETEX' command"))
          | some n => getExOptions now rest' { o with ttl := u.ttl now n,hasTTL := true }

theorem getExOptions_error {now : Int} {opts : List Bytes} {o : GetExOpts} {r : Response}
    (h : getExOptions now opts o=.error r) :
    r=syntaxError ∨ r=.error (utf8 "ERR invalid expire time in 'GETEX' command") := by
  fun_induction getExOptions now opts o <;>
    first | solve_by_elim | (cases h <;> first | exact .inl rfl | exact .inr rfl)

def handleGetEX (w : World) (args : List Bytes) (s : MemoryStore F) : Response × MemoryStore F :=
  match args with
  | _::key::rest => match getExOptions w.now rest {} with
    | .error r => (r,s)
    | .ok o =>
      let (v,s') := s.getEx w.now key o.ttl o.persist o.hasTTL
      (optReply v,s')
  | _ => (wrongArgs "GETEX",s)

def handleAppend (w : World) (args : List Bytes) (s : MemoryStore F) : Response × MemoryStore F :=
  match args with
  | [_,key,value] =>
    let newVal := (s.get w.now key).getD []++value
    (.integer newVal.length,s.set key newVal)
  | _ => (wrongArgs "APPEND",s)

def handleStrLen (w : World) (args : List Bytes) (m : Maps F) : Response :=
  match args with
  | [_,key] => .integer ((m.get w.now key).getD []).length
  | _ => wrongArgs "STRLEN"

/-- `incrBy`, with the overflow test made after the wrapping addition. -/
def incrBy (w : World) (key : Bytes) (delta : Int) (s : MemoryStore F) :
    Response × MemoryStore F :=
  match (match s.get w.now key with
    | none => some 0
    | some raw => parseInt raw) with
  | none => (notInteger,s)
  | some current =>
    let next := wrap64 (current+delta)
    if 0 < delta ∧ next < current then (.error (utf8 "ERR increment would overflow"),s)
    else if delta < 0 ∧ current < next then (.error (utf8 "ERR decrement would overflow"),s)
    else (.integer next,s.set key (formatInt next))

/-- `handleIncr` and `handleDecr`. -/
def handleStep (name : String) (delta : Int) (w : World) (args : List Bytes)
    (s : MemoryStore F) : Response × MemoryStore F :=
  match args with
  | [_,key] => incrBy w key delta s
  | _ => (wrongArgs name,s)

def handleIncr (w : World) := handleStep (F := F) "INCR" 1 w

def handleDecr (w : World) := handleStep (F := F) "DECR" (-1) w

/-- `handleIncrBy` and `handleDecrBy`; the latter negates its argument in `int64`. -/
def handleStepBy (name : String) (sign : Int → Int) (w : World) (args : List Bytes)
    (s : MemoryStore F) : Response × MemoryStore F :=
  match args with
  | [_,key,n] => match parseInt n with
    | none => (notInteger,s)
    | some delta => incrBy w key (sign delta) s
  | _ => (wrongArgs name,s)

def handleIncrBy (w : World) := handleStepBy (F := F) "INCRBY" id w

def handleDecrBy (w : World) := handleStepBy (F := F) "DECRBY" (fun d => wrap64 (-d)) w

def handleIncrByFloat [Float64 F] (w : World) (args : List Bytes) (s : MemoryStore F) :
    Response × MemoryStore F :=
  match args with
  | [_,key,n] => match (Float64.parseFloat n : Option F) with
    | none => (notFloat,s)
    | some delta => match (match s.get w.now key with
        | none => some 0
        | some raw => (Float64.parseFloat raw : Option F)) with
      | none => (notFloat,s)
      | some current =>
        let text := Float64.formatFixed (current+delta)
        (.bulkString text,s.set key text)
  | _ => (wrongArgs "INCRBYFLOAT",s)

/-- `handleExpire` and `handlePExpire`. -/
def handleExpireIn (name : String) (unit : Int) (w : World) (args : List Bytes)
    (s : MemoryStore F) : Response × MemoryStore F :=
  match args with
  | [_,key,n] => match (parseInt n).filter fun n => 0 ≤ n with
    | none => (notInteger,s)
    | some n =>
      let (ok,s') := s.expire w.now key (scale n unit)
      (boolReply ok,s')
  | _ => (wrongArgs name,s)

def handleExpire (w : World) := handleExpireIn (F := F) "EXPIRE" second w

def handlePExpire (w : World) := handleExpireIn (F := F) "PEXPIRE" millisecond w

/-- `handleExpireAt` and `handlePExpireAt`: a passed instant deletes the key and replies 1,
whether or not the key was there. -/
def handleExpireOn (name : String) (instant : Int → Int) (w : World) (args : List Bytes)
    (s : MemoryStore F) : Response × MemoryStore F :=
  match args with
  | [_,key,n] => match parseInt n with
    | none => (notInteger,s)
    | some n =>
      let remaining := timeUntil w.now (instant n)
      if remaining ≤ 0 then (.integer 1,(s.del w.now [key]).2)
      else
        let (ok,s') := s.expire w.now key remaining
        (boolReply ok,s')
  | _ => (wrongArgs name,s)

def handleExpireAt (w : World) := handleExpireOn (F := F) "EXPIREAT" unix w

def handlePExpireAt (w : World) := handleExpireOn (F := F) "PEXPIREAT" unixMilli w

/-- `handleTTL` and `handlePTTL` differ in how a duration is rounded. -/
def handleRemaining (name : String) (round : World → Int → Int) (w : World) (args : List Bytes)
    (m : Maps F) : Response :=
  match args with
  | [_,key] =>
    let d := m.ttl w.now key
    if d=-1*second then .integer (-1)
    else if d=-2*second then .integer (-2)
    else .integer (if round w d < 1 then 1 else round w d)
  | _ => wrongArgs name

def handleTTL (w : World) := handleRemaining (F := F) "TTL" World.wholeSeconds w

def handlePTTL (w : World) := handleRemaining (F := F) "PTTL" (fun _ d => d.tdiv millisecond) w

def handlePersist (w : World) (args : List Bytes) (s : MemoryStore F) :
    Response × MemoryStore F :=
  match args with
  | [_,key] =>
    let (ok,s') := s.persist w.now key
    (boolReply ok,s')
  | _ => (wrongArgs "PERSIST",s)

end GoRedis
