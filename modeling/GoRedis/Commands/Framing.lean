import GoRedis.Commands.Router
import GoRedis.Protocol.Values
/-!
# One request, one reply

A reply is framed when it is read back from its serialization as itself. The only replies that
are not are errors that quote a word of the request with a line feed in it.
-/
namespace GoRedis
open Response
variable {F : Type} {w : World} {args : List Bytes} {m : Maps F} {s : MemoryStore F}

/-- Every line of the reply is one line. -/
def Response.Framed (r : Response) : Prop := r.Every OneLine

theorem framed_iff_readValue {r : Response} (held : r.Every Held) :
    r.Framed ↔ readValue (serialize r)=.ok (.ok (r,[])) := by
  constructor
  · intro h
    have hread := readValueDepth_serialize (held.and h) ((serialize r).length+1) (by omega) []
    rw [List.append_nil] at hread
    exact hread
  · intro h
    exact (readValueDepth_image _ _ r [] h).mono fun _ hr => hr.2

@[simp] theorem framed_integer (n : Int) : (integer n).Framed := (every_leaf rfl).mpr trivial

@[simp] theorem framed_bulkString (v : Bytes) : (bulkString v).Framed := (every_leaf rfl).mpr trivial

@[simp] theorem framed_nullBulkString : nullBulkString.Framed := (every_leaf rfl).mpr trivial

@[simp] theorem framed_error (v : Bytes) :
    (error v).Framed ↔ 10 ∉ v ∧ v.getLast? ≠ some 13 := every_leaf rfl

@[simp] theorem framed_simpleString (v : Bytes) :
    (simpleString v).Framed ↔ 10 ∉ v ∧ v.getLast? ≠ some 13 := every_leaf rfl

@[simp] theorem framed_ite {p : Prop} [Decidable p] {a b : Response} (ha : a.Framed)
    (hb : b.Framed) : (if p then a else b).Framed := by
  split
  · exact ha
  · exact hb

@[simp] theorem framed_array (es : List Response) : (array es).Framed ↔ ∀ e ∈ es, e.Framed :=
  every_array.trans (and_iff_right trivial)

@[simp] theorem framed_bulks (vs : List Bytes) : (bulks vs).Framed := by
  simp [bulks]

@[simp] theorem framed_optReply (v : Option Bytes) : (optReply v).Framed := by
  cases v <;> simp [optReply]

@[simp] theorem framed_boolReply (b : Bool) : (boolReply b).Framed := by simp [boolReply]

@[simp] theorem framed_okReply : okReply.Framed := by simp +decide [okReply]

@[simp] theorem framed_syntaxError : syntaxError.Framed := by simp +decide [syntaxError]

@[simp] theorem framed_notInteger : notInteger.Framed := by simp +decide [notInteger]

@[simp] theorem framed_notFloat : notFloat.Framed := by simp +decide [notFloat]

@[simp] theorem framed_wrongArgs (name : String) :
    (wrongArgs name).Framed ↔ 10 ∉ utf8 name := by
  rw [wrongArgs,framed_error,List.mem_append,List.mem_append,List.getLast?_append]
  simp +decide

@[simp] theorem framed_noSuchKey : noSuchKey.Framed := by simp +decide [noSuchKey]

@[simp] theorem framed_notFloatRange : notFloatRange.Framed := by simp +decide [notFloatRange]

@[simp] theorem framed_rankZero : rankZero.Framed := (every_leaf rfl).mpr (by decide +kernel)

theorem framed_storeError (e : StoreError) : (error e.text).Framed := by
  cases e <;> simp +decide [StoreError.text]

@[simp] theorem framed_replyOf {α : Type} {f : α → Response} (hf : ∀ a, (f a).Framed)
    (r : Except StoreError α) : (replyOf f r).Framed := by
  cases r with
  | error e => exact framed_storeError e
  | ok a => exact hf a

@[simp] theorem framed_commit {α : Type} {f : α → Response} (hf : ∀ a, (f a).Framed)
    (r : Except StoreError (α × MemoryStore F)) : (commit s f r).1.Framed := by
  cases r with
  | error e => exact framed_storeError e
  | ok a => exact hf a.1

theorem setOptions_framed {now : Int} {l : List Bytes} {o : SetAdvOpts} {ttl : Int} {r : Response}
    (h : setOptions now l o ttl=.error r) : r.Framed := by
  fun_induction setOptions now l o ttl <;> first | solve_by_elim | (cases h <;> simp +decide)

theorem getExOptions_framed {now : Int} {l : List Bytes} {o : GetExOpts} {r : Response}
    (h : getExOptions now l o=.error r) : r.Framed := by
  fun_induction getExOptions now l o <;> first | solve_by_elim | (cases h <;> simp +decide)

theorem lposOptions_framed {l : List Bytes} {o : LPosOpts} {r : Response}
    (h : lposOptions l o=.error r) : r.Framed := by
  fun_induction lposOptions l o <;>
    first | solve_by_elim | (cases h <;> simp)

theorem zrangeOptions_framed {l : List Bytes} {o : ZRangeOpts} {r : Response}
    (h : zrangeOptions l o=.error r) : r.Framed := by
  fun_induction zrangeOptions l o <;> first | solve_by_elim | (cases h <;> simp)

theorem limitOptions_framed {l : List Bytes} {o : ZRangeOpts} {r : Response}
    (h : limitOptions l o=.error r) : r.Framed := by
  fun_induction limitOptions l o <;> first | solve_by_elim | (cases h <;> simp)

theorem parseScanArgs_framed {l : List Bytes} {pattern : Bytes} {count : Int} {r : Response}
    (h : parseScanArgs l pattern count=.error r) : r.Framed := by
  fun_induction parseScanArgs l pattern count <;> first | solve_by_elim | (cases h <;> simp)

theorem zstoreOptions_framed [Float64 F] {numkeys pending : Nat} {l : List Bytes} {ws : List F}
    {agg : Bytes} {r : Response} (h : zstoreOptions numkeys pending l ws agg=.error r) :
    r.Framed := by
  fun_induction zstoreOptions numkeys pending l ws agg <;>
    first | solve_by_elim | (cases h <;> simp +decide)

theorem framed_scanWith (cursor : Bytes) (opts : List Bytes)
    (run : Nat → Bytes → Int → Except StoreError (Nat × List Bytes)) :
    (scanWith cursor opts run).Framed := by
  unfold scanWith
  split
  · exact framed_notInteger
  · split
    · rename_i hopts
      exact parseScanArgs_framed hopts
    · exact framed_replyOf (fun p => by simp [scanReply]) _

theorem framed_objectEncoding {key : Bytes} {r : Response} (h : objectEncoding w key m m=.ok r) :
    r.Framed := by
  unfold objectEncoding at h
  split at h
  · cases h
    exact framed_noSuchKey
  iterate 4
    cases h
    exact framed_bulkString _
  · split at h
    · cases h
    · cases h
      exact framed_bulkString _

/-- An error that quotes `sub` is one line exactly when `sub` has no line feed; the quote behind
it keeps a carriage return off the end. -/
theorem framed_unknownSubcommand (sub : Bytes) (cmd : String) (hcmd : 10 ∉ utf8 cmd) :
    (unknownSubcommand sub cmd).Framed ↔ 10 ∉ sub := by
  rw [unknownSubcommand,framed_error,List.getLast?_append]
  simp +decide [List.mem_append,hcmd]

theorem framed_unknownCommand (name : Bytes) :
    (error (utf8 "ERR unknown command '"++name++utf8 "'")).Framed ↔ 10 ∉ name := by
  rw [framed_error,List.getLast?_append]
  simp +decide [List.mem_append]

theorem framed_type (t : Option KeyType) : (simpleString (typeName t)).Framed := by
  cases t with
  | none => simp +decide [typeName]
  | some t => cases t <;> simp +decide [typeName]

theorem framed_handleLPos : (handleLPos w args m).Framed := by
  unfold handleLPos
  split
  · split
    · rename_i hopts
      exact lposOptions_framed hopts
    · apply framed_replyOf
      intro vals
      dsimp only
      split
      · simp
      · split <;> simp
  · simp +decide

theorem framed_handleZCard {r : Response} (h : handleZCard w args m=.ok r) : r.Framed := by
  unfold handleZCard at h
  split at h
  · split at h
    · cases h
    · cases h
      simp
  · cases h
    simp +decide

theorem framed_membersReply (withCount : Bool) (members : List Bytes) :
    (membersReply withCount members).Framed := by
  unfold membersReply
  split <;> simp

theorem framed_popReply (withCount : Bool) (vals : Option (List Bytes)) :
    (popReply withCount vals).Framed := by
  cases vals <;> simp [popReply]

theorem framed_refused {name : String} (hname : 10 ∉ utf8 name) {r : Response}
    (hr : r=notInteger ∨ r=wrongArgs name) : r.Framed := by
  rcases hr with rfl | rfl
  · exact framed_notInteger
  · exact (framed_wrongArgs name).mpr hname

theorem framed_commitGo {α : Type} {f : α → Response} (hf : ∀ a, (f a).Framed)
    {x : Go (Except StoreError (α × MemoryStore F))} {p : Response × MemoryStore F}
    (h : x.map (commit s f)=.ok p) : p.1.Framed := by
  cases x with
  | error e => cases h
  | ok r =>
    cases h
    exact framed_commit hf r

theorem framed_handleSRandMember {r : Response} (h : handleSRandMember w args m=.ok r) :
    r.Framed := by
  obtain ⟨r',hr,heq⟩ | ⟨key,count,withCount,_,heq⟩ := handleSRandMember_cases w args m
  · rw [heq] at h
    cases h
    exact framed_refused (by decide) hr
  · rw [heq] at h
    cases hx : m.sRandMember w key count with
    | error e =>
      rw [hx] at h
      cases h
    | ok x =>
      rw [hx] at h
      cases h
      exact framed_replyOf (framed_membersReply _) x

theorem framed_handlePop {name : String} (hname : 10 ∉ utf8 name) {pop : Pop F}
    {p : Response × MemoryStore F} (h : handlePop name pop w args s=.ok p) : p.1.Framed := by
  obtain ⟨r,hr,heq⟩ | ⟨key,count,withCount,_,heq⟩ := handlePop_cases name pop w args
  · rw [heq] at h
    cases h
    exact framed_refused hname hr
  · rw [heq] at h
    exact framed_commitGo (framed_popReply withCount) h

theorem framed_handleSPop {p : Response × MemoryStore F} (h : handleSPop w args s=.ok p) :
    p.1.Framed := by
  obtain ⟨r,hr,heq⟩ | ⟨key,count,withCount,_,heq⟩ := handleSPop_cases (F := F) w args
  · rw [heq] at h
    cases h
    exact framed_refused (by decide) hr
  · rw [heq] at h
    exact framed_commitGo (framed_membersReply withCount) h

theorem framed_handleSet : (handleSet w args s).1.Framed := by
  unfold handleSet
  split
  · split
    · rename_i hopts
      exact setOptions_framed hopts
    · split
      · simp
      · simp [setReply]
  · simp +decide

theorem framed_handleGetEX : (handleGetEX w args s).1.Framed := by
  unfold handleGetEX
  split
  · split
    · rename_i hopts
      exact getExOptions_framed hopts
    · simp
  · simp +decide

theorem framed_incrBy (key : Bytes) (delta : Int) : (incrBy w key delta s).1.Framed := by
  unfold incrBy
  split
  · simp
  · dsimp only
    split_ifs <;> simp +decide

theorem framed_handleRename {p : Response × MemoryStore F} (h : handleRename w args s=.ok p) :
    p.1.Framed := by
  unfold handleRename at h
  split at h
  · split at h
    · cases h
      simp
    · split at h
      · cases h
      · cases h
        simp
  · cases h
    simp +decide

theorem framed_handleRankOf (name : String) (hname : 10 ∉ utf8 name)
    (rank : Maps F → Int → Bytes → Bytes → Except StoreError (Option Nat)) :
    (handleRankOf name rank w args m).Framed := by
  unfold handleRankOf
  split
  · apply framed_replyOf
    intro r
    cases r <;> simp
  · simpa using hname

section
variable [Float64 F]

theorem framed_handleZRange : (handleZRange w args m).Framed := by
  unfold handleZRange
  split
  · split
    · rename_i hopts
      exact zrangeOptions_framed hopts
    · split_ifs <;> first | exact framed_replyOf framed_bulks _ | (split <;> simp)
  · simp +decide

theorem framed_handleByScore (name : String) (hname : 10 ∉ utf8 name)
    (range : Maps F → Int → Bytes → F → F → Bool → Bool → Bool → Int → Int →
      Except StoreError (List Bytes)) : (handleByScore name range w args m).Framed := by
  unfold handleByScore
  split
  · split
    · split
      · rename_i hopts
        exact limitOptions_framed hopts
      · simp
    · simp
  · simpa using hname

theorem answer_framed {c : ReadCommand} {r : Response} (hobj : c ≠ .object) (hcl : c ≠ .client)
    (h : answer w c args m=.ok r) : r.Framed := by
  cases c
  case object => exact absurd rfl hobj
  case client => exact absurd rfl hcl
  case srandmember => exact framed_handleSRandMember h
  case zcard => exact framed_handleZCard h
  case scan | hscan | sscan | zscan =>
    simp only [answer,handleScan,handleHScan,handleSScan,handleZScan] at h
    cases h
    split
    · exact framed_scanWith _ _ _
    · simp +decide
  case lpos =>
    cases h
    exact framed_handleLPos
  case zrange =>
    cases h
    exact framed_handleZRange
  case zrevrange =>
    cases h
    unfold handleZRevRange
    split
    · split <;> simp
    · simp +decide
  case zrangebyscore =>
    cases h
    exact framed_handleByScore _ (by decide) _
  case zrevrangebyscore =>
    cases h
    exact framed_handleByScore _ (by decide) _
  case zrangebylex | zrevrangebylex =>
    simp only [answer,handleZRangeByLex,handleZRevRangeByLex] at h
    cases h
    split
    · split
      · rename_i hopts
        exact limitOptions_framed hopts
      · simp
    · simp +decide
  case command =>
    cases h
    simp [handleCommand]
  case type =>
    cases h
    unfold handleType
    split
    · exact framed_type _
    · simp +decide
  case zrank =>
    cases h
    exact framed_handleRankOf _ (by decide) _
  case zrevrank =>
    cases h
    exact framed_handleRankOf _ (by decide) _
  case mget =>
    cases h
    unfold handleMGet
    split
    · simp
    · simp +decide
  case smismember =>
    cases h
    unfold handleSMIsMember
    split
    · refine framed_replyOf (fun flags => (framed_array _).mpr ?_) _
      simp only [List.mem_map]
      rintro _ ⟨b,_,rfl⟩
      exact framed_boolReply b
    · simp +decide
  case keys | select | ttl | pttl | lrange | lindex | zcount =>
    simp only [answer,handleKeys,handleSelect,handleTTL,handlePTTL,handleRemaining,handleLRange,
      handleLIndex,handleZCount] at h
    cases h
    split
    · split <;> simp +decide
    · simp +decide
  case ping | get | exists_ | strlen | hget | hgetall | hmget | hlen | hexists | hkeys | hvals
      | llen | smembers | scard | sismember | sinter | sunion | sdiff | zscore
      | zlexcount | info | dbsize | publish =>
    simp only [answer,handlePing,handleGet,handleExists,handleStrLen,handleHGet,handleHGetAll,
      handleHMGet,handleHLen,handleHExists,handleHKeys,handleHVals,handleLLen,handleSMembers,
      handleSCard,handleSIsMember,handleSInter,handleSUnion,handleSDiff,
      handleSetOp,handleZScore,handleZLexCount,handleInfo,handleDBSize,
      handlePublish] at h
    cases h
    split <;> simp +decide

theorem framed_handleZPop {name : String} (hname : 10 ∉ utf8 name) {pop : ZPop F}
    {p : Response × MemoryStore F} (h : handleZPop name pop w args s=.ok p) : p.1.Framed := by
  obtain ⟨r,hr,heq⟩ | ⟨key,count,withCount,_,heq⟩ := handleZPop_cases name pop w args
  · rw [heq] at h
    cases h
    exact framed_refused hname hr
  · rw [heq] at h
    exact framed_commitGo (fun ms => framed_bulks _) h

theorem framed_handleZAdd : (handleZAdd w args s).1.Framed := by
  unfold handleZAdd
  split
  · dsimp only
    split_ifs
    · simp +decide
    · simp +decide
    · simp
    · split
      · simp
      · exact framed_commit framed_integer _
  · simp +decide

theorem framed_handleZSetStore {name : String} (hname : 10 ∉ utf8 name) {op : ZStore F}
    {p : Response × MemoryStore F} (h : handleZSetStore name op w args s=.ok p) : p.1.Framed := by
  unfold handleZSetStore at h
  split at h
  · split at h
    · cases h
      simp
    · split_ifs at h
      · cases h
        simp
      · dsimp only at h
        split at h
        · rename_i hopts
          cases h
          exact zstoreOptions_framed hopts
        · cases h
          simp
  · cases h
    simpa using hname

theorem execute_framed {c : WriteCommand} {p : Response × MemoryStore F}
    (h : execute w c args s=.ok p) : p.1.Framed := by
  cases c
  case set =>
    cases h
    exact framed_handleSet
  case getex =>
    cases h
    exact framed_handleGetEX
  case zunionstore => exact framed_handleZSetStore (by decide) h
  case zinterstore => exact framed_handleZSetStore (by decide) h
  case rename => exact framed_handleRename h
  case lpop => exact framed_handlePop (by decide) h
  case rpop => exact framed_handlePop (by decide) h
  case spop => exact framed_handleSPop h
  case zpopmin => exact framed_handleZPop (by decide) h
  case zpopmax => exact framed_handleZPop (by decide) h
  case zadd =>
    cases h
    exact framed_handleZAdd
  case incr | decr =>
    simp only [execute,handleIncr,handleDecr,handleStep] at h
    cases h
    split
    · exact framed_incrBy _ _
    · simp +decide
  case incrby | decrby =>
    simp only [execute,handleIncrBy,handleDecrBy,handleStepBy] at h
    cases h
    split
    · split
      · simp
      · exact framed_incrBy _ _
    · simp +decide
  case expireat | pexpireat | incrbyfloat | hincrby | hincrbyfloat =>
    simp only [execute,handleExpireAt,handlePExpireAt,handleExpireOn,handleIncrByFloat,
      handleHIncrBy,handleHIncrByFloat] at h
    cases h
    split
    · split
      · simp +decide
      · split <;> simp +decide
    · simp +decide
  case setex | psetex | setnx | getdel | expire | pexpire | lset | linsert | lrem | ltrim | lmove
      | zincrby | lpushx | rpushx =>
    simp only [execute,handleSetEX,handlePSetEX,handleSetTTL,handleSetNX,handleGetDel,
      handleExpire,handlePExpire,handleExpireIn,handleLSet,handleLInsert,handleLRem,handleLTrim,
      handleLMove,handleZIncrBy,handleLPushX,handleRPushX,handlePushX] at h
    cases h
    split
    · split <;> simp +decide
    · simp +decide
  case del | mset | getset | append | persist | hset | hdel | lpush | rpush
      | sadd | srem | sinterstore | sunionstore | sdiffstore | smove | zrem | rpoplpush
      | flushdb | flushall =>
    simp only [execute,handleDel,handleMSet,handleGetSet,handleAppend,handlePersist,
      handleHSet,handleHDel,handleLPush,handleRPush,handlePush,handleSAdd,handleSRem,
      handleSInterStore,handleSUnionStore,handleSDiffStore,handleSetOpStore,
      handleSMove,handleZRem,handleRPopLPush,handleFlushDB,handleFlushAll,
      handleFlush] at h
    cases h
    split <;> simp +decide

end

theorem lf_mem_behind {b c : UInt8} {rest : Bytes} (hb : b ≠ 10) (hc : c ≠ 10)
    (h : 10 ∈ b::c::rest) : 10 ∈ rest := by
  rw [List.mem_cons,List.mem_cons] at h
  rcases h with h | h | h
  · exact absurd h.symm hb
  · exact absurd h.symm hc
  · exact h

theorem lf_mem_toUpper {word : Bytes} (h : 10 ∈ word) : 10 ∈ toUpper word := by
  fun_induction toUpper word with
  | case1 => exact h
  | case2 b =>
    rw [List.mem_singleton] at h ⊢
    rw [← h]
    decide
  | case3 b c rest hbc ih =>
    obtain ⟨rfl,rfl⟩ := hbc
    exact List.mem_cons_of_mem _ (ih (lf_mem_behind (by decide) (by decide) h))
  | case4 b c rest _ hbc ih =>
    obtain ⟨rfl,rfl⟩ := hbc
    exact List.mem_cons_of_mem _ (ih (lf_mem_behind (by decide) (by decide) h))
  | case5 b c rest _ _ ih =>
    rw [List.mem_cons] at h ⊢
    rcases h with h | h
    · rw [← h]
      exact .inl (by decide)
    · exact .inr (ih h)

theorem toUpper_ne {word : Bytes} (h : 10 ∈ word) (known : String) (hk : 10 ∉ utf8 known) :
    toUpper word ≠ utf8 known := by
  intro heq
  exact hk (heq ▸ lf_mem_toUpper h)

theorem framed_objectConstant (name : String) (hname : 10 ∉ utf8 name) (n : Int)
    (rest : List Bytes) : (objectConstant name n w rest m).Framed := by
  unfold objectConstant
  split
  · simp
  · simpa using hname

theorem handleObject_framed_iff {cmd sub : Bytes} {rest : List Bytes} {r : Response}
    (h : handleObject w (cmd::sub::rest) m=.ok r) : r.Framed ↔ 10 ∉ sub := by
  unfold handleObject at h
  dsimp only at h
  constructor
  · intro hr hlf
    have hne := toUpper_ne hlf
    rw [if_neg (hne "ENCODING" (by decide)),if_neg (hne "REFCOUNT" (by decide)),
      if_neg (hne "IDLETIME" (by decide)),if_neg (hne "FREQ" (by decide)),
      if_neg (hne "HELP" (by decide))] at h
    cases h
    exact (framed_unknownSubcommand sub "OBJECT" (by decide)).mp hr hlf
  · intro hlf
    split_ifs at h
    · split at h
      · exact framed_objectEncoding h
      · cases h
        simp +decide
    · cases h
      exact framed_objectConstant _ (by decide) _ _
    · cases h
      exact framed_objectConstant _ (by decide) _ _
    · cases h
      exact framed_objectConstant _ (by decide) _ _
    · cases h
      exact framed_bulks _
    · cases h
      exact (framed_unknownSubcommand sub "OBJECT" (by decide)).mpr hlf

theorem handleClient_framed_iff (cmd sub : Bytes) (rest : List Bytes) :
    (handleClient (cmd::sub::rest)).Framed ↔ 10 ∉ sub := by
  unfold handleClient
  dsimp only
  constructor
  · intro hr hlf
    have hne := toUpper_ne hlf
    have hnoted : toUpper sub ∉
        ["NO-EVICT","NO-TOUCH","CACHING","REPLY","UNPAUSE","PAUSE"].map utf8 := by
      intro hmem
      obtain ⟨known,hknown,heq⟩ := List.mem_map.mp hmem
      have hlit : ∀ known ∈ ["NO-EVICT","NO-TOUCH","CACHING","REPLY","UNPAUSE","PAUSE"],
          10 ∉ utf8 known := by decide
      exact hne known (hlit known hknown) heq.symm
    rw [if_neg (hne "ID" (by decide)),if_neg (hne "GETNAME" (by decide)),
      if_neg (hne "SETNAME" (by decide)),if_neg (hne "LIST" (by decide)),
      if_neg (hne "INFO" (by decide)),if_neg hnoted,if_neg (hne "KILL" (by decide))] at hr
    exact (framed_unknownSubcommand sub "CLIENT" (by decide)).mp hr hlf
  · intro hlf
    have hunknown := (framed_unknownSubcommand sub "CLIENT" (by decide)).mpr hlf
    split_ifs <;> first | exact hunknown | simp +decide

/-- The reply quotes a word of the request that has a line feed in it: the name of a command
that does not exist, or a subcommand that `OBJECT` or `CLIENT` does not have. -/
def QuotesLineFeed (args : List Bytes) : Prop :=
  (commandOf args=none ∧ ∃ name ∈ args.head?, 10 ∈ name) ∨
    ((commandOf args=some (.read .object) ∨ commandOf args=some (.read .client)) ∧
      ∃ sub ∈ args[1]?, 10 ∈ sub)

variable [Float64 F]

theorem dispatch_framed_iff {d : Dispatched F} (h : dispatch w args s=.ok d) :
    d.resp.Framed ↔ ¬QuotesLineFeed args := by
  cases args with
  | nil =>
    cases h
    simp +decide [QuotesLineFeed]
  | cons name rest =>
    cases hc : commandOf (name::rest) with
    | none =>
      rw [dispatch_unknown rest hc] at h
      cases h
      rw [framed_unknownCommand]
      simp [QuotesLineFeed,hc]
    | some c =>
      cases c with
      | write c =>
        rw [dispatch_write hc] at h
        obtain ⟨p,hp,rfl⟩ := Go.map_eq_ok.mp h
        simp [execute_framed hp,QuotesLineFeed,hc]
      | read c =>
        rw [dispatch_read hc] at h
        obtain ⟨r,hr,rfl⟩ := Go.map_eq_ok.mp h
        by_cases hobj : c=.object
        · subst hobj
          cases rest with
          | nil =>
            cases hr
            simp +decide [QuotesLineFeed,hc]
          | cons sub rest =>
            have hobj : handleObject w (name::sub::rest) s.toMaps=.ok r := hr
            rw [handleObject_framed_iff hobj]
            simp [QuotesLineFeed,hc]
        · by_cases hcl : c=.client
          · subst hcl
            cases hr
            cases rest with
            | nil => simp +decide [handleClient,QuotesLineFeed,hc]
            | cons sub rest =>
              rw [handleClient_framed_iff]
              simp [QuotesLineFeed,hc]
          · simp [answer_framed hobj hcl hr,QuotesLineFeed,hc,hobj,hcl]

/-- The bytes written for a request are read as one value, the reply, with nothing left over,
unless the reply quotes a line feed of the request. -/
theorem reply_framed_iff (args : List Bytes) (w : World) (s : MemoryStore F) (d : Dispatched F)
    (h : dispatch w args s=.ok d) (held : d.resp.Every Held) :
    readValue (serialize d.resp)=.ok (.ok (d.resp,[])) ↔ ¬QuotesLineFeed args :=
  (framed_iff_readValue held).symm.trans (dispatch_framed_iff h)

/-- An unknown command without a line feed. -/
theorem reply_framed_iff_unknown : ∃ d,
    dispatch (World.plain 0) [utf8 "NOSUCH\r"] (MemoryStore.new : MemoryStore Int)=.ok d ∧
      (readValue (serialize d.resp)=.ok (.ok (d.resp,[])) ↔ ¬QuotesLineFeed [utf8 "NOSUCH\r"]) :=
  ⟨_,rfl,reply_framed_iff _ (World.plain 0) MemoryStore.new _ rfl (by decide)⟩

/-- A line feed in the name of an unknown command splits the reply: the client reads an error
and then a second reply that the request brought along. -/
theorem reply_split : ∃ d,
    dispatch (World.plain 0) [utf8 "x\n+OK"] (MemoryStore.new : MemoryStore Int)=.ok d ∧
      readValue (serialize d.resp)=
        .ok (.ok (.error (utf8 "ERR unknown command 'x"),utf8 "+OK'\r\n")) :=
  ⟨_,rfl,rfl⟩

end GoRedis
