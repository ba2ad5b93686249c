import GoRedis.Commands.Router
import GoRedis.Persistence.AOF
/-!
# Replaying the log

`applyCommand` is the second interpreter of the repository: it knows the commands that
`appendToAOF` writes and works on the store directly. `Replay` runs it over the file.
-/
namespace GoRedis
variable {F : Type}

inductive ReplayError
  | emptyCommand
  /-- a fixed text about the argument list -/
  | usage (text : Bytes)
  /-- a text in front of the argument that `strconv` refused -/
  | invalid (text arg : Bytes)
  | unknownCommand (name : Bytes)
  deriving DecidableEq, Repr

/-- What applying one record gives: the process may panic, the record may be refused. -/
abbrev Applied (F : Type) := Go (Except ReplayError (MemoryStore F))

/-- A record that was applied. -/
def done (s : MemoryStore F) : Applied F := .ok (.ok s)

/-- A record that was refused before anything happened. -/
def refuse (e : ReplayError) : Applied F := .ok (.error e)

def usage (text : String) : Applied F := refuse (.usage (utf8 text))

/-- The same for an operation that may panic. -/
def dropErrorGo {α : Type} (s : MemoryStore F) :
    Go (Except StoreError (α × MemoryStore F)) → Applied F
  | .error p => .error p
  | .ok r => done (dropError s r)

/-- The count of a replayed pop: 1 unless there are three arguments and the last parses. -/
def replayCount : List Bytes → Int
  | [_,_,n] => (parseInt n).getD 1
  | _ => 1

/-- The `LPUSH` and `RPUSH` cases. -/
def replayPush (text : String) (push : Push F) (w : World) (args : List Bytes)
    (s : MemoryStore F) : Applied F :=
  match args with
  | _::key::v::vs => done (dropError s (push s w.now key (v::vs)))
  | _ => usage text

/-- The `LPUSHX` and `RPUSHX` cases. -/
def replayPushX (text : String) (push : Push F) (w : World) (args : List Bytes)
    (s : MemoryStore F) : Applied F :=
  match args with
  | _::key::v::vs =>
    if s.type w.now key=some .list then done (dropError s (push s w.now key (v::vs))) else done s
  | _ => usage text

/-- The cases of the pops. -/
def replayPop {α : Type} (text : String)
    (pop : Bytes → Int → Go (Except StoreError (α × MemoryStore F)))
    (args : List Bytes) (s : MemoryStore F) : Applied F :=
  match args with
  | _::key::_ => dropErrorGo s (pop key (replayCount args))
  | _ => usage text

/-- The cases of the commands with a key and at least one further argument. -/
def replayMany {α : Type} (text : String)
    (op : Bytes → List Bytes → Except StoreError (α × MemoryStore F))
    (args : List Bytes) (s : MemoryStore F) : Applied F :=
  match args with
  | _::key::x::xs => done (dropError s (op key (x::xs)))
  | _ => usage text

/-- The `ZUNIONSTORE` and `ZINTERSTORE` cases: weights and aggregate are not looked at. -/
def replayZStore (shape invalid : String) (op : ZStore F) (w : World) (args : List Bytes)
    (s : MemoryStore F) : Applied F :=
  match args with
  | _::dst::n::a::rest => match (parseInt n).filter fun n => 1 ≤ n with
    | none => usage invalid
    | some numkeys =>
      if (args.length:Int) < wrap64 (3+numkeys) then usage invalid
      else if wrap64 (3+numkeys) < 3 then .error .sliceBounds
      else done (dropError s (op s w.now dst ((a::rest).take numkeys.toNat) [] (utf8 "SUM")))
  | _ => usage shape

/-- The `PEXPIREAT` case: a deadline that has passed deletes the key. -/
def replayPExpireAt (w : World) (args : List Bytes) (s : MemoryStore F) : Applied F :=
  match args with
  | [_,key,n] => match parseInt n with
    | none => refuse (.invalid (utf8 "PEXPIREAT: invalid timestamp") n)
    | some absMs =>
      let remaining := timeUntil w.now (unixMilli absMs)
      if remaining ≤ 0 then done (s.del w.now [key]).2 else done (s.expire w.now key remaining).2
  | _ => usage "PEXPIREAT requires 2 arguments"

/-- The `ZADD` case. -/
def replayZAdd [Float64 F] (w : World) (args : List Bytes) (s : MemoryStore F) : Applied F :=
  match args with
  | _::key::a::b::rest =>
    let (fl,tail) := zaddFlags (a::b::rest) {}
    if tail.length%2 ≠ 0 then usage "ZADD: odd number of score/member arguments"
    else match zaddMembers Float64.parseFloat tail with
      | .error sc => refuse (.invalid (utf8 "ZADD: invalid score") sc)
      | .ok members => done (dropError s (s.zAdd w.now key members fl))
  | _ => usage "ZADD requires key and at least one score/member pair"

/-- The `ZINCRBY` case. -/
def replayZIncrBy [Float64 F] (w : World) (args : List Bytes) (s : MemoryStore F) : Applied F :=
  match args with
  | [_,key,n,x] => match (Float64.parseFloat n : Option F) with
    | none => refuse (.invalid (utf8 "ZINCRBY: invalid increment") n)
    | some incr => done (dropError s (s.zIncrBy w.now key incr x))
  | _ => usage "ZINCRBY requires key increment member"

/-- The list cases that take an index, a count or a range. -/
def replayList (w : World) (c : WriteCommand) (args : List Bytes) (s : MemoryStore F) :
    Applied F :=
  match c,args with
  | .lset,[_,key,i,value] => match parseInt i with
    | none => refuse (.invalid (utf8 "LSET: invalid index") i)
    | some idx => done ((s.lSet w.now key idx value).toOption.getD s)
  | .lset,_ => usage "LSET requires key index value"
  | .linsert,[_,key,side,pivot,value] =>
    done (dropError s (s.lInsert w.now key (toUpper side=utf8 "BEFORE") pivot value))
  | .linsert,_ => usage "LINSERT requires key BEFORE|AFTER pivot value"
  | .ltrim,[_,key,a,b] => match parseInt a,parseInt b with
    | some start,some stop => done ((s.lTrim w.now key start stop).toOption.getD s)
    | _,_ => usage "LTRIM: invalid range"
  | .ltrim,_ => usage "LTRIM requires key start stop"
  | .lrem,[_,key,n,value] => match parseInt n with
    | none => refuse (.invalid (utf8 "LREM: invalid count") n)
    | some count => done (dropError s (s.lRem w.now key count value))
  | .lrem,_ => usage "LREM requires key count value"
  | .lmove,[_,src,dst,a,b] => done (dropError s
      (s.lMove w.now src dst (toUpper a=utf8 "LEFT") (toUpper b=utf8 "LEFT")))
  | .lmove,_ => usage "LMOVE requires src dst srcDir dstDir"
  | .rpoplpush,[_,src,dst] => done (dropError s (s.lMove w.now src dst false true))
  | _,_ => usage "RPOPLPUSH requires src dst"

/-- The switch of `applyCommand`. -/
def applyWrite [Float64 F] (w : World) (c : WriteCommand) (args : List Bytes)
    (s : MemoryStore F) : Applied F :=
  match c with
  | .set => match args with
    | [_,key,value] => done (s.set key value)
    | _ => refuse (.usage (utf8 "SET requires 2 arguments, got "++formatNat (args.length-1)))
  | .del => match args with
    | _::key::keys => done (s.del w.now (key::keys)).2
    | _ => usage "DEL requires at least 1 argument"
  | .mset =>
    if args.length < 3 ∨ args.length%2=0 then
      usage "MSET requires an even number of key/value pairs"
    else done (msetLoop s args.tail)
  | .append => match args with
    | [_,key,value] => done (s.set key ((s.get w.now key).getD []++value))
    | _ => usage "APPEND requires 2 arguments"
  | .pexpireat => replayPExpireAt w args s
  | .persist => match args with
    | [_,key] => done (s.persist w.now key).2
    | _ => usage "PERSIST requires 1 argument"
  | .hset =>
    if hsetShape args then done (s.hSet (args.getD 1 []) (pairsMap ∅ (args.drop 2))).2
    else refuse (.usage (args.headD []++utf8 " requires key + field/value pairs"))
  | .hdel => match args with
    | _::key::f::fs => done (s.hDel w.now key (f::fs)).2
    | _ => usage "HDEL requires key and at least one field"
  | .lpush => replayPush "LPUSH requires key and at least one value" MemoryStore.lPush w args s
  | .rpush => replayPush "RPUSH requires key and at least one value" MemoryStore.rPush w args s
  | .lpushx => replayPushX "LPUSHX requires key and at least one value" MemoryStore.lPush w args s
  | .rpushx => replayPushX "RPUSHX requires key and at least one value" MemoryStore.rPush w args s
  | .lpop => replayPop "LPOP requires at least key" (s.lPop w.now) args s
  | .rpop => replayPop "RPOP requires at least key" (s.rPop w.now) args s
  | .lset | .linsert | .ltrim | .lrem | .lmove | .rpoplpush => replayList w c args s
  | .sadd => replayMany "SADD requires key and at least one member" (s.sAdd w.now) args s
  | .srem => replayMany "SREM requires key and at least one member" (s.sRem w.now) args s
  | .sinterstore =>
    replayMany "SINTERSTORE requires dst and at least one key" (s.sInterStore w) args s
  | .sunionstore =>
    replayMany "SUNIONSTORE requires dst and at least one key" (s.sUnionStore w) args s
  | .sdiffstore =>
    replayMany "SDIFFSTORE requires dst and at least one key" (s.sDiffStore w) args s
  | .smove => match args with
    | [_,src,dst,x] => done (dropError s (s.sMove w.now src dst x))
    | _ => usage "SMOVE requires src dst member"
  | .spop => replayPop "SPOP requires key" (s.sPop w) args s
  | .zadd => replayZAdd w args s
  | .zrem => replayMany "ZREM requires key and at least one member" (s.zRem w.now) args s
  | .zincrby => replayZIncrBy w args s
  | .zunionstore => replayZStore "ZUNIONSTORE requires dst numkeys key [key ...]"
      "ZUNIONSTORE: invalid arguments" MemoryStore.zUnionStore w args s
  | .zinterstore => replayZStore "ZINTERSTORE requires dst numkeys key [key ...]"
      "ZINTERSTORE: invalid arguments" MemoryStore.zInterStore w args s
  | .zpopmin => replayPop "ZPOPMIN requires key" (s.zPopMin w.now) args s
  | .zpopmax => replayPop "ZPOPMAX requires key" (s.zPopMax w.now) args s
  | .flushdb | .flushall => done s.flush
  | .getex | .setnx | .setex | .psetex | .getset | .getdel | .expire | .pexpire | .expireat
  | .incr | .incrby | .incrbyfloat | .decr | .decrby | .hincrby | .hincrbyfloat | .rename =>
    refuse (.unknownCommand (args.headD []))

/-- `applyCommand`. The words of its switch are registered names, so the registry resolves
them; every other name is unknown. -/
def applyCommand [Float64 F] (w : World) (args : List Bytes) (s : MemoryStore F) : Applied F :=
  match args with
  | [] => refuse .emptyCommand
  | name::_ => match lookup (toUpper name) with
    | some (.write c) => applyWrite w c args s
    | _ => refuse (.unknownCommand name)

theorem applyCommand_of_lookup [Float64 F] {name : Bytes} {c : WriteCommand}
    (h : lookup (toUpper name)=some (.write c)) (w : World) (rest : List Bytes)
    (s : MemoryStore F) :
    applyCommand w (name::rest) s=applyWrite w c (name::rest) s := by
  simp only [applyCommand,h]

@[simp] theorem applyCommand_set [Float64 F] (w : World) (key value : Bytes)
    (s : MemoryStore F) : applyCommand w (setRecord key value) s=done (s.set key value) := by
  rw [setRecord,applyCommand_of_lookup (c := .set) (by decide)]
  rfl

@[simp] theorem applyCommand_del [Float64 F] (w : World) (key : Bytes) (s : MemoryStore F) :
    applyCommand w (delRecord key) s=done (s.del w.now [key]).2 := by
  rw [delRecord,applyCommand_of_lookup (c := .del) (by decide)]
  rfl

theorem applyCommand_hset [Float64 F] (w : World) (key : Bytes) (pairs : List (Bytes × Bytes))
    (hne : pairs ≠ []) (s : MemoryStore F) :
    applyCommand w (utf8 "HSET"::key::pairs.flatMap fun p => [p.1,p.2]) s=
      done (s.hSet key (pairsMap ∅ (pairs.flatMap fun p => [p.1,p.2]))).2 := by
  have hlen : (pairs.flatMap fun p => [p.1,p.2]).length=2*pairs.length := by
    simp [List.length_flatMap,Nat.mul_comm]
  have hpos := List.length_pos_of_ne_nil hne
  have hshape : hsetShape (utf8 "HSET"::key::pairs.flatMap fun p => [p.1,p.2])=true := by
    simp only [hsetShape,List.length_cons,hlen,decide_eq_true_eq]
    omega
  rw [applyCommand_of_lookup (c := .hset) (by decide),applyWrite,if_pos hshape]
  rfl

/-- Why `Replay` stopped before the end of the file, with the number of the command. -/
inductive ReplayFailure
  | parse (number : Nat) (cause : ReadError)
  | command (number : Nat) (name : Bytes) (cause : ReplayError)
  deriving Repr

/-- The results of `Replay` and the store it leaves. -/
structure Replayed (F : Type) where
  count : Nat
  err : Option ReplayFailure
  store : MemoryStore F

/-- The loop of `Replay`. Every command takes at least one byte, so `fuel` beyond the length
of the input is never used up. The `n`-th command runs in its own world. -/
def replayLoop [Float64 F] (world : Nat → World) :
    Nat → Nat → Bytes → MemoryStore F → Go (Replayed F)
  | 0,n,_,s => .ok ⟨n,none,s⟩
  | fuel+1,n,input,s => match readCommand input with
    | .error p => .error p
    | .ok (.error e) => .ok ⟨n,if e.isEOF then none else some (.parse (n+1) e),s⟩
    | .ok (.ok (args,rest)) => match applyCommand (world n) args s with
      | .error p => .error p
      | .ok (.error e) => .ok ⟨n,some (.command (n+1) (args.headD []) e),s⟩
      | .ok (.ok s') => replayLoop world fuel (n+1) rest s'

/-- `Replay`. A missing file leaves the store as it is. -/
def replay [Float64 F] (world : Nat → World) (file : Option Bytes) (s : MemoryStore F) :
    Go (Replayed F) :=
  match file with
  | none => .ok ⟨0,none,s⟩
  | some input => replayLoop world (input.length+1) 0 input s.flush

/-- `setupAOF`: the store is what was replayed, error or not, and the file is opened as it is. -/
def setupAOF [Float64 F] (world : Nat → World) (file : Option Bytes) (s : MemoryStore F) :
    Go (MemoryStore F × Bytes) :=
  match replay world file s with
  | .error p => .error p
  | .ok r => .ok (r.store,openAppend file)

end GoRedis
