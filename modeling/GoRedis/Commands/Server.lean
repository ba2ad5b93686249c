import GoRedis.Commands.Reply
import GoRedis.Storage.Lists
import GoRedis.Storage.Scan
/-!
# Scans, server, meta and pub/sub commands
-/
namespace GoRedis
variable {F : Type}

/-- `parseScanArgs`: the pattern and the page size. -/
def parseScanArgs : List Bytes → Bytes → Int → Except Response (Bytes × Int)
  | [],pattern,count => .ok (pattern,count)
  | a::rest,pattern,count =>
    if toUpper a=utf8 "MATCH" then match rest with
      | [] => .error syntaxError
      | v::rest' => parseScanArgs rest' v count
    else if toUpper a=utf8 "COUNT" then match rest with
      | [] => .error syntaxError
      | v::rest' => match (parseInt v).filter fun n => 1 ≤ n with
        | none => .error notInteger
        | some n => parseScanArgs rest' pattern n
    else .error syntaxError

theorem parseScanArgs_error {opts : List Bytes} {pattern : Bytes} {count : Int} {r : Response}
    (h : parseScanArgs opts pattern count=.error r) : r.isError=true := by
  fun_induction parseScanArgs opts pattern count <;> first | solve_by_elim | (cases h <;> rfl)

/-- The cursor and the page, as all four scans reply. -/
def scanReply (p : Nat × List Bytes) : Response :=
  .array [.bulkString (formatNat p.1),.bulks p.2]

/-- The part the four scan handlers share: read the cursor and the options, then scan. -/
def scanWith (cursor : Bytes) (opts : List Bytes)
    (run : Nat → Bytes → Int → Except StoreError (Nat × List Bytes)) : Response :=
  match parseUint cursor with
  | none => notInteger
  | some c => match parseScanArgs opts (utf8 "*") 10 with
    | .error r => r
    | .ok (pattern,count) =>
      replyOf scanReply (run c (if pattern=utf8 "*" then [] else pattern) count)

def handleScan (w : World) (args : List Bytes) (m : Maps F) : Response :=
  match args with
  | _::cursor::opts => scanWith cursor opts fun c pattern count => .ok (m.scan w c pattern count)
  | _ => wrongArgs "SCAN"

def handleHScan (w : World) (args : List Bytes) (m : Maps F) : Response :=
  match args with
  | _::key::cursor::opts => scanWith cursor opts (m.hScan w key)
  | _ => wrongArgs "HSCAN"

def handleSScan (w : World) (args : List Bytes) (m : Maps F) : Response :=
  match args with
  | _::key::cursor::opts => scanWith cursor opts (m.sScan w key)
  | _ => wrongArgs "SSCAN"

def handleZScan [Float64 F] (w : World) (args : List Bytes) (m : Maps F) : Response :=
  match args with
  | _::key::cursor::opts => scanWith cursor opts (m.zScan w key)
  | _ => wrongArgs "ZSCAN"

def infoServer (w : World) : Bytes :=
  utf8 "# Server\r\nredis_version:7.0.0-go-clone\r\nos:"++w.runtime.os++
  utf8 "\r\narch_bits:64\r\ngo_version:"++w.runtime.goVersion++
  utf8 "\r\nuptime_in_seconds:"++formatInt w.runtime.uptime++
  utf8 "\r\nuptime_in_days:"++formatInt (w.runtime.uptime.tdiv 86400)++
  utf8 "\r\nconnected_clients:0\r\n\r\n"

def infoKeyspace (w : World) (m : Maps F) : Bytes :=
  utf8 "# Keyspace\r\ndb0:keys="++formatNat (m.len w.now)++utf8 ",expires=0\r\n\r\n"

def infoMemory (w : World) : Bytes :=
  utf8 "# Memory\r\nused_memory:"++formatNat w.runtime.alloc++
  utf8 "\r\nused_memory_human:"++w.runtime.allocHuman++utf8 "K\r\n\r\n"

/-- Whether a requested section covers the one called `name`. -/
def infoCovers (wanted : Bytes) (name : String) : Bool :=
  wanted=utf8 name ∨ wanted=utf8 "all" ∨ wanted=utf8 "default"

def handleInfo (w : World) (args : List Bytes) (m : Maps F) : Response :=
  if 2 < args.length then wrongArgs "INFO"
  else
    let wanted := match args with
      | [_,a] => toLower a
      | _ => utf8 "all"
    .bulkString ((if infoCovers wanted "server" then infoServer w else [])++
      (if infoCovers wanted "keyspace" then infoKeyspace w m else [])++
      (if infoCovers wanted "memory" then infoMemory w else []))

def handleDBSize (w : World) (args : List Bytes) (m : Maps F) : Response :=
  if args.length=1 then .integer (m.len w.now) else wrongArgs "DBSIZE"

def handleType (w : World) (args : List Bytes) (m : Maps F) : Response :=
  match args with
  | [_,key] => .simpleString (typeName (m.type w.now key))
  | _ => wrongArgs "TYPE"

def noSuchKey : Response := .error (utf8 "ERR no such key")

/-- `handleRename`. A key is never renamed to itself in the store. -/
def handleRename (w : World) (args : List Bytes) (s : MemoryStore F) :
    Go (Response × MemoryStore F) :=
  match args with
  | [_,src,dst] =>
    if src=dst then
      .ok (if s.type w.now src=none then noSuchKey else okReply,s)
    else match s.rename w.now src dst with
      | .error p => .error p
      | .ok (ok,s') => .ok (if ok then okReply else noSuchKey,s')
  | _ => .ok (wrongArgs "RENAME",s)

/-- `handleFlushDB` and `handleFlushAll`. -/
def handleFlush (name : String) (args : List Bytes) (s : MemoryStore F) :
    Response × MemoryStore F :=
  if 2 < args.length then (wrongArgs name,s) else (okReply,s.flush)

def handleFlushDB (args : List Bytes) := handleFlush (F := F) "FLUSHDB" args

def handleFlushAll (args : List Bytes) := handleFlush (F := F) "FLUSHALL" args

def handleSelect (args : List Bytes) : Response :=
  match args with
  | [_,a] => if a=utf8 "0" then okReply else .error (utf8 "ERR DB index is out of range")
  | _ => wrongArgs "SELECT"

/-- A small collection has one encoding, a larger one another. -/
def encodingOf (n : Nat) (small large : String) : Response :=
  .bulkString (utf8 (if n ≤ 128 then small else large))

/-- `OBJECT ENCODING` of an existing or missing key. The call of `Type` and the one behind it read
the clock and take the lock one after the other: `m` is the store of the first, `n` that of the
second. -/
def objectEncoding (w : World) (key : Bytes) (m n : Maps F) : Go Response :=
  match m.type w.now key with
  | none => .ok noSuchKey
  | some .string =>
    let val := (n.get w.later key).getD []
    .ok (.bulkString (utf8 (if (parseInt val).isSome ∧ val.length < 20 then "int"
      else if val.length ≤ 44 then "embstr" else "raw")))
  | some .hash => .ok (encodingOf (n.hLen w.later key) "ziplist" "hashtable")
  | some .list =>
    .ok (encodingOf ((n.lLen w.later key).toOption.getD 0) "listpack" "quicklist")
  | some .set => .ok (encodingOf ((n.sCard w.later key).toOption.getD 0) "listpack" "hashtable")
  | some .zset => match n.zCard w.later key with
    | .error p => .error p
    | .ok n => .ok (encodingOf (n.toOption.getD 0) "listpack" "skiplist")

def objectHelp : List String :=
  ["OBJECT <subcommand> [<arg> [value] [opt] ...]. subcommands are:",
   "ENCODING <key>",
   "    Return the kind of internal representation the Redis object stored at <key> is using.",
   "FREQ <key>",
   "    Return the access frequency index of the key. The returned integer is proportional to the logarithm of the recent access frequency.",
   "HELP",
   "    Return subcommand help summary.",
   "IDLETIME <key>",
   "    Return the idle time of the key, that is the approximated number of seconds elapsed since the last access to the key.",
   "REFCOUNT <key>",
   "    Return the reference count of the object stored at <key>."]

/-- `OBJECT REFCOUNT`, `IDLETIME` and `FREQ`: a constant for every key that exists. -/
def objectConstant (name : String) (n : Int) (w : World) (rest : List Bytes) (m : Maps F) :
    Response :=
  match rest with
  | [key] => if m.type w.now key=none then noSuchKey else .integer n
  | _ => wrongArgs name

def unknownSubcommand (sub : Bytes) (cmd : String) : Response :=
  .error (utf8 "ERR unknown subcommand '"++sub++utf8 "'. Try "++utf8 cmd++utf8 " HELP.")

def handleObject (w : World) (args : List Bytes) (m : Maps F) : Go Response :=
  match args with
  | _::sub::rest =>
    if toUpper sub=utf8 "ENCODING" then match rest with
      | [key] => objectEncoding w key m m
      | _ => .ok (wrongArgs "OBJECT|ENCODING")
    else if toUpper sub=utf8 "REFCOUNT" then .ok (objectConstant "OBJECT|REFCOUNT" 1 w rest m)
    else if toUpper sub=utf8 "IDLETIME" then .ok (objectConstant "OBJECT|IDLETIME" 0 w rest m)
    else if toUpper sub=utf8 "FREQ" then .ok (objectConstant "OBJECT|FREQ" 0 w rest m)
    else if toUpper sub=utf8 "HELP" then .ok (.bulks (objectHelp.map utf8))
    else .ok (unknownSubcommand sub "OBJECT")
  | _ => .ok (wrongArgs "OBJECT")

/-- The fixed connection description of `CLIENT LIST` and `CLIENT INFO`. -/
def clientLine (cmd : String) : Bytes :=
  utf8 "id=1 addr=127.0.0.1:0 laddr=127.0.0.1:6379 fd=0 name= age=0 idle=0 flags=N db=0 sub=0 psub=0 multi=-1 watch=0 qbuf=0 qbuf-free=0 argv-mem=0 multi-mem=0 tot-mem=0 rbs=0 rbp=0 obl=0 oll=0 omem=0 events=r cmd=client|"++
  utf8 cmd++utf8 " user=default library-name= library-ver= resp=2\n"

def handleClient (args : List Bytes) : Response :=
  match args with
  | _::sub::rest =>
    if toUpper sub=utf8 "ID" then .integer 1
    else if toUpper sub=utf8 "GETNAME" then .nullBulkString
    else if toUpper sub=utf8 "SETNAME" then
      if rest.length=1 then okReply else wrongArgs "CLIENT|SETNAME"
    else if toUpper sub=utf8 "LIST" then .bulkString (clientLine "list")
    else if toUpper sub=utf8 "INFO" then .bulkString (clientLine "info")
    else if toUpper sub ∈ ["NO-EVICT","NO-TOUCH","CACHING","REPLY","UNPAUSE","PAUSE"].map utf8 then
      okReply
    else if toUpper sub=utf8 "KILL" then .integer 0
    else unknownSubcommand sub "CLIENT"
  | _ => wrongArgs "CLIENT"

def handleCommand : Response := .array []

def handlePing (args : List Bytes) : Response :=
  match args with
  | [_] => .simpleString (utf8 "PONG")
  | [_,a] => .bulkString a
  | _ => .error (utf8 "ERR wrong number of arguments for 'PING'")

/-- The handler that `makePublishHandler` returns. -/
def handlePublish (w : World) (args : List Bytes) : Response :=
  match args with
  | [_,channel,message] => .integer (match w.publish with
      | none => 0
      | some publish => publish channel message)
  | _ => wrongArgs "publish"

end GoRedis
