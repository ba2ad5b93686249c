import GoRedis.Commands.Hashes
import GoRedis.Commands.Lists
import GoRedis.Commands.Server
import GoRedis.Commands.Sets
import GoRedis.Commands.Strings
import GoRedis.Commands.ZSets
/-!
# The router

The registered commands are split by what their handlers can do: a reading one is given the
maps only, a writing one the store. The registry is the table of `register`; `dispatch`
returns, beside the reply and the store, the argument lists passed to `Append` when an
appender is wired in.
-/
namespace GoRedis

inductive ReadCommand
  | ping | command
  | get | exists_ | keys | mget | strlen | ttl | pttl
  | hget | hgetall | hmget | hlen | hexists | hkeys | hvals
  | llen | lrange | lindex | lpos
  | smembers | scard | sismember | smismember | sinter | sunion | sdiff | srandmember
  | zscore | zcard | zrank | zrevrank | zrange | zrevrange | zrangebyscore | zrevrangebyscore
  | zrangebylex | zrevrangebylex | zcount | zlexcount
  | scan | hscan | sscan | zscan
  | info | dbsize | type | select | object | client | publish
  deriving DecidableEq, Repr

inductive WriteCommand
  | set | getex | del | setnx | setex | psetex | mset | getset | getdel | append
  | expire | pexpire | expireat | pexpireat | persist
  | incr | incrby | incrbyfloat | decr | decrby
  | hset | hdel | hincrby | hincrbyfloat
  | lpush | rpush | lpushx | rpushx | lpop | rpop | lset | linsert | lrem | ltrim | lmove | rpoplpush
  | sadd | srem | sinterstore | sunionstore | sdiffstore | spop | smove
  | zadd | zrem | zincrby | zpopmin | zpopmax | zunionstore | zinterstore
  | rename | flushdb | flushall
  deriving DecidableEq, Repr

inductive Command
  | read (c : ReadCommand)
  | write (c : WriteCommand)
  deriving DecidableEq, Repr

/-- The table that `register` builds. `HMSET` is the handler of `HSET` under a second name. -/
def registry : List (String × Command) :=
  [("PING",.read .ping),("COMMAND",.read .command),
   ("SET",.write .set),("GET",.read .get),("GETEX",.write .getex),("DEL",.write .del),
   ("EXISTS",.read .exists_),("KEYS",.read .keys),("SETNX",.write .setnx),
   ("SETEX",.write .setex),("PSETEX",.write .psetex),("MSET",.write .mset),
   ("MGET",.read .mget),("GETSET",.write .getset),("GETDEL",.write .getdel),
   ("APPEND",.write .append),("STRLEN",.read .strlen),
   ("EXPIRE",.write .expire),("PEXPIRE",.write .pexpire),("EXPIREAT",.write .expireat),
   ("PEXPIREAT",.write .pexpireat),("TTL",.read .ttl),("PTTL",.read .pttl),
   ("PERSIST",.write .persist),
   ("INCR",.write .incr),("INCRBY",.write .incrby),("INCRBYFLOAT",.write .incrbyfloat),
   ("DECR",.write .decr),("DECRBY",.write .decrby),
   ("HSET",.write .hset),("HMSET",.write .hset),("HGET",.read .hget),("HDEL",.write .hdel),
   ("HGETALL",.read .hgetall),("HMGET",.read .hmget),("HLEN",.read .hlen),
   ("HEXISTS",.read .hexists),("HKEYS",.read .hkeys),("HVALS",.read .hvals),
   ("HINCRBY",.write .hincrby),("HINCRBYFLOAT",.write .hincrbyfloat),
   ("LPUSH",.write .lpush),("RPUSH",.write .rpush),("LPUSHX",.write .lpushx),
   ("RPUSHX",.write .rpushx),("LPOP",.write .lpop),("RPOP",.write .rpop),("LLEN",.read .llen),
   ("LRANGE",.read .lrange),("LINDEX",.read .lindex),("LSET",.write .lset),
   ("LINSERT",.write .linsert),("LREM",.write .lrem),("LTRIM",.write .ltrim),
   ("LMOVE",.write .lmove),("RPOPLPUSH",.write .rpoplpush),("LPOS",.read .lpos),
   ("SADD",.write .sadd),("SREM",.write .srem),("SMEMBERS",.read .smembers),
   ("SCARD",.read .scard),("SISMEMBER",.read .sismember),("SMISMEMBER",.read .smismember),
   ("SINTER",.read .sinter),("SUNION",.read .sunion),("SDIFF",.read .sdiff),
   ("SINTERSTORE",.write .sinterstore),("SUNIONSTORE",.write .sunionstore),
   ("SDIFFSTORE",.write .sdiffstore),("SRANDMEMBER",.read .srandmember),("SPOP",.write .spop),
   ("SMOVE",.write .smove),
   ("ZADD",.write .zadd),("ZREM",.write .zrem),("ZSCORE",.read .zscore),("ZCARD",.read .zcard),
   ("ZRANK",.read .zrank),("ZREVRANK",.read .zrevrank),("ZINCRBY",.write .zincrby),
   ("ZRANGE",.read .zrange),("ZREVRANGE",.read .zrevrange),
   ("ZRANGEBYSCORE",.read .zrangebyscore),("ZREVRANGEBYSCORE",.read .zrevrangebyscore),
   ("ZRANGEBYLEX",.read .zrangebylex),("ZREVRANGEBYLEX",.read .zrevrangebylex),
   ("ZCOUNT",.read .zcount),("ZLEXCOUNT",.read .zlexcount),("ZPOPMIN",.write .zpopmin),
   ("ZPOPMAX",.write .zpopmax),("ZUNIONSTORE",.write .zunionstore),
   ("ZINTERSTORE",.write .zinterstore),
   ("SCAN",.read .scan),("HSCAN",.read .hscan),("SSCAN",.read .sscan),("ZSCAN",.read .zscan),
   ("INFO",.read .info),("DBSIZE",.read .dbsize),("TYPE",.read .type),("RENAME",.write .rename),
   ("FLUSHDB",.write .flushdb),("FLUSHALL",.write .flushall),("SELECT",.read .select),
   ("OBJECT",.read .object),("CLIENT",.read .client),("PUBLISH",.read .publish)]

/-- `r.handlers[name]` -/
def lookup (name : Bytes) : Option Command :=
  (registry.map fun p => (utf8 p.1,p.2)).lookup name

/-- The command a request is for. -/
def commandOf (args : List Bytes) : Option Command :=
  args.head?.bind fun name => lookup (toUpper name)

/-- If the request is for a writing command, `P` holds of it. -/
def RequestOf (P : WriteCommand → List Bytes → Prop) (args : List Bytes) : Prop :=
  match args with
  | [] => True
  | name::_ => match lookup (toUpper name) with
    | some (.write c) => P c args
    | _ => True

theorem RequestOf.command {P : WriteCommand → List Bytes → Prop} {name : Bytes}
    {rest : List Bytes} {c : WriteCommand} (h : RequestOf P (name::rest))
    (hname : lookup (toUpper name)=some (.write c)) : P c (name::rest) := by
  simpa only [RequestOf,hname] using h

section
variable {F : Type} [Float64 F]

/-- The reading handlers. -/
def answer (w : World) (c : ReadCommand) (args : List Bytes) (m : Maps F) : Go Response :=
  match c with
  | .ping => .ok (handlePing args)
  | .command => .ok handleCommand
  | .get => .ok (handleGet w args m)
  | .exists_ => .ok (handleExists w args m)
  | .keys => .ok (handleKeys w args m)
  | .mget => .ok (handleMGet w args m)
  | .strlen => .ok (handleStrLen w args m)
  | .ttl => .ok (handleTTL w args m)
  | .pttl => .ok (handlePTTL w args m)
  | .hget => .ok (handleHGet w args m)
  | .hgetall => .ok (handleHGetAll w args m)
  | .hmget => .ok (handleHMGet w args m)
  | .hlen => .ok (handleHLen w args m)
  | .hexists => .ok (handleHExists w args m)
  | .hkeys => .ok (handleHKeys w args m)
  | .hvals => .ok (handleHVals w args m)
  | .llen => .ok (handleLLen w args m)
  | .lrange => .ok (handleLRange w args m)
  | .lindex => .ok (handleLIndex w args m)
  | .lpos => .ok (handleLPos w args m)
  | .smembers => .ok (handleSMembers w args m)
  | .scard => .ok (handleSCard w args m)
  | .sismember => .ok (handleSIsMember w args m)
  | .smismember => .ok (handleSMIsMember w args m)
  | .sinter => .ok (handleSInter w args m)
  | .sunion => .ok (handleSUnion w args m)
  | .sdiff => .ok (handleSDiff w args m)
  | .srandmember => handleSRandMember w args m
  | .zscore => .ok (handleZScore w args m)
  | .zcard => handleZCard w args m
  | .zrank => .ok (handleZRank w args m)
  | .zrevrank => .ok (handleZRevRank w args m)
  | .zrange => .ok (handleZRange w args m)
  | .zrevrange => .ok (handleZRevRange w args m)
  | .zrangebyscore => .ok (handleZRangeByScore w args m)
  | .zrevrangebyscore => .ok (handleZRevRangeByScore w args m)
  | .zrangebylex => .ok (handleZRangeByLex w args m)
  | .zrevrangebylex => .ok (handleZRevRangeByLex w args m)
  | .zcount => .ok (handleZCount w args m)
  | .zlexcount => .ok (handleZLexCount w args m)
  | .scan => .ok (handleScan w args m)
  | .hscan => .ok (handleHScan w args m)
  | .sscan => .ok (handleSScan w args m)
  | .zscan => .ok (handleZScan w args m)
  | .info => .ok (handleInfo w args m)
  | .dbsize => .ok (handleDBSize w args m)
  | .type => .ok (handleType w args m)
  | .select => .ok (handleSelect args)
  | .object => handleObject w args m
  | .client => .ok (handleClient args)
  | .publish => .ok (handlePublish w args)

/-- The writing handlers. -/
def execute (w : World) (c : WriteCommand) (args : List Bytes) (s : MemoryStore F) :
    Go (Response × MemoryStore F) :=
  match c with
  | .set => .ok (handleSet w args s)
  | .getex => .ok (handleGetEX w args s)
  | .del => .ok (handleDel w args s)
  | .setnx => .ok (handleSetNX w args s)
  | .setex => .ok (handleSetEX w args s)
  | .psetex => .ok (handlePSetEX w args s)
  | .mset => .ok (handleMSet args s)
  | .getset => .ok (handleGetSet w args s)
  | .getdel => .ok (handleGetDel w args s)
  | .append => .ok (handleAppend w args s)
  | .expire => .ok (handleExpire w args s)
  | .pexpire => .ok (handlePExpire w args s)
  | .expireat => .ok (handleExpireAt w args s)
  | .pexpireat => .ok (handlePExpireAt w args s)
  | .persist => .ok (handlePersist w args s)
  | .incr => .ok (handleIncr w args s)
  | .incrby => .ok (handleIncrBy w args s)
  | .incrbyfloat => .ok (handleIncrByFloat w args s)
  | .decr => .ok (handleDecr w args s)
  | .decrby => .ok (handleDecrBy w args s)
  | .hset => .ok (handleHSet args s)
  | .hdel => .ok (handleHDel w args s)
  | .hincrby => .ok (handleHIncrBy w args s)
  | .hincrbyfloat => .ok (handleHIncrByFloat w args s)
  | .lpush => .ok (handleLPush w args s)
  | .rpush => .ok (handleRPush w args s)
  | .lpushx => .ok (handleLPushX w args s)
  | .rpushx => .ok (handleRPushX w args s)
  | .lpop => handleLPop w args s
  | .rpop => handleRPop w args s
  | .lset => .ok (handleLSet w args s)
  | .linsert => .ok (handleLInsert w args s)
  | .lrem => .ok (handleLRem w args s)
  | .ltrim => .ok (handleLTrim w args s)
  | .lmove => .ok (handleLMove w args s)
  | .rpoplpush => .ok (handleRPopLPush w args s)
  | .sadd => .ok (handleSAdd w args s)
  | .srem => .ok (handleSRem w args s)
  | .sinterstore => .ok (handleSInterStore w args s)
  | .sunionstore => .ok (handleSUnionStore w args s)
  | .sdiffstore => .ok (handleSDiffStore w args s)
  | .spop => handleSPop w args s
  | .smove => .ok (handleSMove w args s)
  | .zadd => .ok (handleZAdd w args s)
  | .zrem => .ok (handleZRem w args s)
  | .zincrby => .ok (handleZIncrBy w args s)
  | .zpopmin => handleZPopMin w args s
  | .zpopmax => handleZPopMax w args s
  | .zunionstore => handleZUnionStore w args s
  | .zinterstore => handleZInterStore w args s
  | .rename => handleRename w args s
  | .flushdb => .ok (handleFlushDB args s)
  | .flushall => .ok (handleFlushAll args s)

end

section
variable {F : Type}

/-- `[]string{"SET", key, value}` -/
def setRecord (key value : Bytes) : List Bytes := [utf8 "SET",key,value]

/-- `[]string{"DEL", key}` -/
def delRecord (key : Bytes) : List Bytes := [utf8 "DEL",key]

/-- `[]string{"PEXPIREAT", key, strconv.FormatInt(absMs, 10)}` -/
def pexpireatRecord (key : Bytes) (absMs : Int) : List Bytes :=
  [utf8 "PEXPIREAT",key,formatInt absMs]

/-- `[]string{"HSET", key, field, value}` -/
def hsetRecord (key field value : Bytes) : List Bytes := [utf8 "HSET",key,field,value]

/-- The records of `SETEX` and `PSETEX`. -/
def setTTLRecords (millis : Int → Int) (args : List Bytes) : List (List Bytes) :=
  match args with
  | [_,key,n,value] => setRecord key value::match parseInt n with
    | none => []
    | some n => [pexpireatRecord key (millis n)]
  | _ => []

/-- The record of `EXPIRE`, `PEXPIRE` and `EXPIREAT`, given the instant in milliseconds. -/
def expireRecord (millis : Int → Int) (args : List Bytes) (resp : Response) : List (List Bytes) :=
  match args with
  | [_,key,n] => if resp.int=1 then match parseInt n with
      | none => []
      | some n => [pexpireatRecord key (millis n)]
    else []
  | _ => []

/-- The records of `RENAME`, read off the store after the command. -/
def renameRecords (w : World) (args : List Bytes) (m : Maps F) : List (List Bytes) :=
  match args with
  | [_,src,dst] =>
    if src=dst then []
    else (match m.type w.now dst with
      | some .string => match m.get w.now dst with
        | none => []
        | some val => [setRecord dst val]
      | some .hash =>
        let all := m.hGetAll w dst
        if all=[] then [] else [utf8 "HSET"::dst::all.flatMap fun p => [p.1,p.2]]
      | _ => [])++[delRecord src]
  | _ => []

/-- `appendToAOF` after a reply that is no error; `m` are the maps the command left behind. -/
def appendToAOF (w : World) (c : WriteCommand) (args : List Bytes) (resp : Response)
    (m : Maps F) : List (List Bytes) :=
  let key := args.getD 1 []
  match c with
  | .set | .del | .mset | .hset | .hdel | .flushdb | .flushall | .persist | .append
  | .lpush | .rpush | .lpushx | .rpushx | .lset | .linsert | .ltrim
  | .sadd | .srem | .sinterstore | .sunionstore | .sdiffstore | .smove
  | .zadd | .zrem | .zincrby | .zunionstore | .zinterstore => [args]
  | .setnx => if resp.int=1 then [setRecord key (args.getD 2 [])] else []
  | .getset => [setRecord key (args.getD 2 [])]
  | .getdel => if resp.isNullBulk then [] else [delRecord key]
  | .lpop | .rpop => if resp.isNullBulk ∨ resp.isNullArray then [] else [args]
  | .lmove | .rpoplpush => if resp.isNullBulk then [] else [args]
  | .lrem => if 0 < resp.int then [args] else []
  | .spop => if resp.isNullBulk then [] else [args]
  | .zpopmin | .zpopmax => if resp.elems=[] then [] else [args]
  | .setex => setTTLRecords (fun n => absMilli w.now (wrap64 (n*1000))) args
  | .psetex => setTTLRecords (absMilli w.now) args
  | .expire => expireRecord (fun n => absMilli w.now (wrap64 (n*1000))) args resp
  | .pexpire => expireRecord (absMilli w.now) args resp
  | .expireat => expireRecord (fun n => wrap64 (n*1000)) args resp
  | .pexpireat => if resp.int=1 ∧ args.length=3 then [args] else []
  | .incr | .incrby | .decr | .decrby => [setRecord key (formatInt resp.int)]
  | .incrbyfloat => [setRecord key resp.str]
  | .hincrby => if args.length=4 then [hsetRecord key (args.getD 2 []) (formatInt resp.int)] else []
  | .hincrbyfloat => if args.length=4 then [hsetRecord key (args.getD 2 []) resp.str] else []
  | .rename => renameRecords w args m
  | .getex => []

/-- What one call of `Dispatch` does: the reply, the store and the lists given to `Append`. -/
structure Dispatched (F : Type) where
  resp : Response
  store : MemoryStore F
  records : List (List Bytes)

/-- `Dispatch`, with an appender wired in. -/
def dispatch [Float64 F] (w : World) (args : List Bytes) (s : MemoryStore F) : Go (Dispatched F) :=
  match args with
  | [] => .ok ⟨.error (utf8 "ERR empty command"),s,[]⟩
  | name::_ => match lookup (toUpper name) with
    | none => .ok ⟨.error (utf8 "ERR unknown command '"++name++utf8 "'"),s,[]⟩
    | some (.read c) => match answer w c args s.toMaps with
      | .error p => .error p
      | .ok resp => .ok ⟨resp,s,[]⟩
    | some (.write c) => match execute w c args s with
      | .error p => .error p
      | .ok (resp,s') =>
        .ok ⟨resp,s',if resp.isError then [] else appendToAOF w c args resp s'.toMaps⟩

variable [Float64 F]

theorem dispatch_unknown {name : Bytes} (rest : List Bytes) (h : lookup (toUpper name)=none)
    (w : World) (s : MemoryStore F) : dispatch w (name::rest) s=
      .ok ⟨.error (utf8 "ERR unknown command '"++name++utf8 "'"),s,[]⟩ := by
  simp only [dispatch,h]

theorem dispatch_read {args : List Bytes} {c : ReadCommand} (h : commandOf args=some (.read c))
    (w : World) (s : MemoryStore F) :
    dispatch w args s=(answer w c args s.toMaps).map fun r => ⟨r,s,[]⟩ := by
  cases args with
  | nil => cases h
  | cons name rest =>
    have hl : lookup (toUpper name)=some (.read c) := h
    simp only [dispatch,hl]
    cases answer w c (name::rest) s.toMaps <;> rfl

theorem dispatch_write {args : List Bytes} {c : WriteCommand} (h : commandOf args=some (.write c))
    (w : World) (s : MemoryStore F) :
    dispatch w args s=(execute w c args s).map fun p =>
      ⟨p.1,p.2,if p.1.isError then [] else appendToAOF w c args p.1 p.2.toMaps⟩ := by
  cases args with
  | nil => cases h
  | cons name rest =>
    have hl : lookup (toUpper name)=some (.write c) := h
    simp only [dispatch,hl]
    cases execute w c (name::rest) s <;> rfl

theorem dispatch_of_execute {args : List Bytes} {c : WriteCommand} {w : World} {s : MemoryStore F}
    {p : Response × MemoryStore F} (hc : commandOf args=some (.write c))
    (h : execute w c args s=.ok p) :
    ∃ d, dispatch w args s=.ok d ∧ d.resp=p.1 ∧ d.store=p.2 := by
  rw [dispatch_write hc,h]
  exact ⟨_,rfl,rfl,rfl⟩

theorem execute_of_dispatch {args : List Bytes} {c : WriteCommand} {w : World} {s : MemoryStore F}
    {d : Dispatched F} (hc : commandOf args=some (.write c)) (h : dispatch w args s=.ok d) :
    execute w c args s=.ok (d.resp,d.store) := by
  rw [dispatch_write hc] at h
  cases he : execute w c args s with
  | error p =>
    rw [he] at h
    cases h
  | ok p =>
    rw [he] at h
    cases h
    rfl

end
end GoRedis
