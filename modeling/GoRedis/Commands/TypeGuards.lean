import GoRedis.Commands.Router
import GoRedis.Storage.Typed
/-!
# Handlers that ask for the type of their key

A list, set or sorted set command refuses its arguments whatever the store holds, or it asks
for the type of its key and reports one that is not its own.
-/
namespace GoRedis
variable {F : Type} {t T : KeyType} {name k : Bytes} {rest : List Bytes}

/-- The type a command takes its one key for. `SET` and its kin, `MSET` and `HSET` overwrite. -/
def ReadCommand.keyType : ReadCommand → Option KeyType
  | get | strlen => some .string
  | hget | hgetall | hmget | hlen | hexists | hkeys | hvals | hscan => some .hash
  | llen | lrange | lindex | lpos => some .list
  | smembers | scard | sismember | smismember | srandmember | sscan => some .set
  | zscore | zcard | zrank | zrevrank | zrange | zrevrange | zrangebyscore | zrevrangebyscore
  | zrangebylex | zrevrangebylex | zcount | zlexcount | zscan => some .zset
  | _ => none

@[inherit_doc ReadCommand.keyType]
def WriteCommand.keyType : WriteCommand → Option KeyType
  | getex | getset | getdel | append | incr | incrby | incrbyfloat | decr | decrby => some .string
  | hdel | hincrby | hincrbyfloat => some .hash
  | lpush | rpush | lpushx | rpushx | lpop | rpop | lset | linsert | lrem | ltrim => some .list
  | sadd | srem | spop => some .set
  | zadd | zrem | zincrby | zpopmin | zpopmax => some .zset
  | _ => none

def wrongTypeReply : Response := .error StoreError.wrongType.text

section Guarded
variable {ρ : Type} {out : Response → MemoryStore F → ρ} {f : World → MemoryStore F → ρ}

/-- A handler with its arguments refuses them whatever the store holds, or reports a type of `k`
other than `t`; `out` is how it replies with an error and leaves the store alone. -/
def Guarded (t : KeyType) (k : Bytes) (out : Response → MemoryStore F → ρ)
    (f : World → MemoryStore F → ρ) : Prop :=
  (∃ r, r.isError=true ∧ ∀ w s, f w s=out r s) ∨
    ∀ w s T, s.typeOf w.now k=some T → T ≠ t → f w s=out wrongTypeReply s

theorem guarded_refused {r : Response} (hr : r.isError=true) :
    Guarded t k out fun _ s => out r s := .inl ⟨r,hr,fun _ _ => rfl⟩

theorem Guarded.ok (h : Guarded t k out f) :
    Guarded t k (fun r s => (.ok (out r s) : Go ρ)) fun w s => .ok (f w s) := by
  rcases h with ⟨r,hr,hf⟩ | hf
  · exact .inl ⟨r,hr,fun w s => congrArg Except.ok (hf w s)⟩
  · exact .inr fun w s T h hne => congrArg Except.ok (hf w s T h hne)

theorem Guarded.reports {w w' : World} {s s' : MemoryStore F} {x : ρ} (h : Guarded t k out f)
    (haccept : f w' s'=x) (hx : ∀ r, r.isError=true → x ≠ out r s') (htype : s.typeOf w.now k=some T)
    (hne : T ≠ t) : f w s=out wrongTypeReply s := by
  rcases h with ⟨r,hr,hf⟩ | hf
  · exact absurd (haccept.symm.trans (hf w' s')) (hx r hr)
  · exact hf w s T htype hne

end Guarded

/-- The reply of a reading handler. -/
def reply (r : Response) (_ : MemoryStore F) : Response := r

theorem handleLLen_guarded :
    Guarded .list k reply fun w (s : MemoryStore F) => handleLLen w (name::k::rest) s.toMaps := by
  rcases rest with _ | ⟨_,_⟩
  case nil =>
    refine .inr fun w s T h hne => ?_
    simp only [handleLLen,Maps.lLen,Maps.getList_wrongType h hne]
    rfl
  case cons => exact guarded_refused rfl

theorem handleLRange_guarded :
    Guarded .list k reply fun w (s : MemoryStore F) => handleLRange w (name::k::rest) s.toMaps := by
  rcases rest with _ | ⟨a,_ | ⟨b,_ | ⟨_,_⟩⟩⟩
  case cons.cons.nil =>
    simp only [handleLRange]
    rcases parseInt a with _ | start
    · exact guarded_refused rfl
    rcases parseInt b with _ | stop
    · exact guarded_refused rfl
    refine .inr fun w s T h hne => ?_
    simp only [Maps.lRange,Maps.getList_wrongType h hne]
    rfl
  all_goals exact guarded_refused rfl

theorem handleLIndex_guarded :
    Guarded .list k reply fun w (s : MemoryStore F) => handleLIndex w (name::k::rest) s.toMaps := by
  rcases rest with _ | ⟨i,_ | ⟨_,_⟩⟩
  case cons.nil =>
    simp only [handleLIndex]
    rcases parseInt i with _ | idx
    · exact guarded_refused rfl
    refine .inr fun w s T h hne => ?_
    simp only [Maps.lIndex,Maps.getList_wrongType h hne]
    rfl
  all_goals exact guarded_refused rfl

theorem handleLPos_guarded :
    Guarded .list k reply fun w (s : MemoryStore F) => handleLPos w (name::k::rest) s.toMaps := by
  rcases rest with _ | ⟨target,opts⟩
  · exact guarded_refused rfl
  simp only [handleLPos]
  cases hopts : lposOptions opts {} with
  | error r => exact guarded_refused (lposOptions_error hopts)
  | ok o =>
    refine .inr fun w s T h hne => ?_
    simp only [Maps.lRange,Maps.getList_wrongType h hne]
    rfl

theorem handlePush_guarded (cmd : String) {push : Push F}
    (hpush : ∀ s now vs T, s.typeOf now k=some T → T ≠ .list → push s now k vs=.error .wrongType) :
    Guarded .list k Prod.mk fun w s => handlePush cmd push w (name::k::rest) s := by
  rcases rest with _ | ⟨v,vs⟩
  · exact guarded_refused rfl
  refine .inr fun w s T h hne => ?_
  simp only [handlePush,hpush s w.now _ T h hne]
  rfl

theorem handlePop_guarded (cmd : String) (cut : Nat → List Bytes → List Bytes × List Bytes) :
    Guarded .list k (fun r s => .ok (r,s)) fun w (s : MemoryStore F) =>
      handlePop cmd (MemoryStore.popList cut) w (name::k::rest) s := by
  rcases rest with _ | ⟨n,_ | ⟨_,_⟩⟩
  case nil =>
    refine .inr fun w s T h hne => ?_
    simp only [handlePop,MemoryStore.popList,Maps.getList_wrongType h hne]
    rfl
  case cons.nil =>
    cases hn : (parseInt n).filter fun n => 0 ≤ n with
    | none => exact .inl ⟨notInteger,rfl,fun w s => by simp only [handlePop,hn]⟩
    | some count =>
      refine .inr fun w s T h hne => ?_
      simp only [handlePop,hn,MemoryStore.popList,Maps.getList_wrongType h hne]
      rfl
  case cons.cons => exact guarded_refused rfl

theorem handleLSet_guarded :
    Guarded .list k Prod.mk fun w (s : MemoryStore F) => handleLSet w (name::k::rest) s := by
  rcases rest with _ | ⟨i,_ | ⟨v,_ | ⟨_,_⟩⟩⟩
  case cons.cons.nil =>
    simp only [handleLSet]
    rcases parseInt i with _ | idx
    · exact guarded_refused rfl
    refine .inr fun w s T h hne => ?_
    simp only [MemoryStore.lSet_wrongType h hne]
    rfl
  all_goals exact guarded_refused rfl

theorem handleLInsert_guarded :
    Guarded .list k Prod.mk fun w (s : MemoryStore F) => handleLInsert w (name::k::rest) s := by
  rcases rest with _ | ⟨side,_ | ⟨pivot,_ | ⟨v,_ | ⟨_,_⟩⟩⟩⟩
  case cons.cons.cons.nil =>
    simp only [handleLInsert]
    rcases insertSide side with _ | before
    · exact guarded_refused rfl
    refine .inr fun w s T h hne => ?_
    simp only [MemoryStore.lInsert_wrongType h hne]
    rfl
  all_goals exact guarded_refused rfl

theorem handleLRem_guarded :
    Guarded .list k Prod.mk fun w (s : MemoryStore F) => handleLRem w (name::k::rest) s := by
  rcases rest with _ | ⟨n,_ | ⟨v,_ | ⟨_,_⟩⟩⟩
  case cons.cons.nil =>
    simp only [handleLRem]
    rcases parseInt n with _ | count
    · exact guarded_refused rfl
    refine .inr fun w s T h hne => ?_
    simp only [MemoryStore.lRem,Maps.getList_wrongType h hne]
    rfl
  all_goals exact guarded_refused rfl

theorem handleLTrim_guarded :
    Guarded .list k Prod.mk fun w (s : MemoryStore F) => handleLTrim w (name::k::rest) s := by
  rcases rest with _ | ⟨a,_ | ⟨b,_ | ⟨_,_⟩⟩⟩
  case cons.cons.nil =>
    simp only [handleLTrim]
    rcases parseInt a with _ | start
    · exact guarded_refused rfl
    rcases parseInt b with _ | stop
    · exact guarded_refused rfl
    refine .inr fun w s T h hne => ?_
    simp only [MemoryStore.lTrim_wrongType h hne]
    rfl
  all_goals exact guarded_refused rfl

theorem handleSMembers_guarded :
    Guarded .set k reply fun w (s : MemoryStore F) => handleSMembers w (name::k::rest) s.toMaps := by
  rcases rest with _ | ⟨_,_⟩
  case nil =>
    refine .inr fun w s T h hne => ?_
    simp only [handleSMembers,Maps.sMembers,Maps.getSet_wrongType h hne]
    rfl
  case cons => exact guarded_refused rfl

theorem handleSCard_guarded :
    Guarded .set k reply fun w (s : MemoryStore F) => handleSCard w (name::k::rest) s.toMaps := by
  rcases rest with _ | ⟨_,_⟩
  case nil =>
    refine .inr fun w s T h hne => ?_
    simp only [handleSCard,Maps.sCard,Maps.getSet_wrongType h hne]
    rfl
  case cons => exact guarded_refused rfl

theorem handleSIsMember_guarded :
    Guarded .set k reply fun w (s : MemoryStore F) => handleSIsMember w (name::k::rest) s.toMaps := by
  rcases rest with _ | ⟨x,_ | ⟨_,_⟩⟩
  case cons.nil =>
    refine .inr fun w s T h hne => ?_
    simp only [handleSIsMember,Maps.sIsMember,Maps.getSet_wrongType h hne]
    rfl
  all_goals exact guarded_refused rfl

theorem handleSMIsMember_guarded :
    Guarded .set k reply fun w (s : MemoryStore F) => handleSMIsMember w (name::k::rest) s.toMaps := by
  rcases rest with _ | ⟨x,xs⟩
  · exact guarded_refused rfl
  refine .inr fun w s T h hne => ?_
  simp only [handleSMIsMember,Maps.sMIsMember,Maps.getSet_wrongType h hne]
  rfl

theorem handleSRandMember_guarded :
    Guarded .set k (fun r _ => .ok r) fun w (s : MemoryStore F) =>
      handleSRandMember w (name::k::rest) s.toMaps := by
  rcases rest with _ | ⟨n,_ | ⟨_,_⟩⟩
  case nil =>
    refine .inr fun w s T h hne => ?_
    simp only [handleSRandMember,Maps.sRandMember,Maps.getSet_wrongType h hne]
    rfl
  case cons.nil =>
    cases hn : parseInt n with
    | none => exact .inl ⟨notInteger,rfl,fun w s => by simp only [handleSRandMember,hn]⟩
    | some count =>
      refine .inr fun w s T h hne => ?_
      simp only [handleSRandMember,hn,Maps.sRandMember,Maps.getSet_wrongType h hne]
      rfl
  case cons.cons => exact guarded_refused rfl

theorem handleSAdd_guarded :
    Guarded .set k Prod.mk fun w (s : MemoryStore F) => handleSAdd w (name::k::rest) s := by
  rcases rest with _ | ⟨x,xs⟩
  · exact guarded_refused rfl
  refine .inr fun w s T h hne => ?_
  simp only [handleSAdd,MemoryStore.sAdd,MemoryStore.setGuard_wrongType h hne]
  rfl

theorem handleSRem_guarded :
    Guarded .set k Prod.mk fun w (s : MemoryStore F) => handleSRem w (name::k::rest) s := by
  rcases rest with _ | ⟨x,xs⟩
  · exact guarded_refused rfl
  refine .inr fun w s T h hne => ?_
  simp only [handleSRem,MemoryStore.sRem,Maps.getSet_wrongType h hne]
  rfl

theorem handleSPop_guarded :
    Guarded .set k (fun r s => .ok (r,s)) fun w (s : MemoryStore F) =>
      handleSPop w (name::k::rest) s := by
  rcases rest with _ | ⟨n,_ | ⟨_,_⟩⟩
  case nil =>
    refine .inr fun w s T h hne => ?_
    simp only [handleSPop,MemoryStore.sPop,Maps.getSet_wrongType h hne]
    rfl
  case cons.nil =>
    cases hn : (parseInt n).filter fun n => 0 ≤ n with
    | none => exact .inl ⟨notInteger,rfl,fun w s => by simp only [handleSPop,hn]⟩
    | some count =>
      refine .inr fun w s T h hne => ?_
      simp only [handleSPop,hn,MemoryStore.sPop,Maps.getSet_wrongType h hne]
      rfl
  case cons.cons => exact guarded_refused rfl

theorem handleZCard_guarded :
    Guarded .zset k (fun r _ => .ok r) fun w (s : MemoryStore F) =>
      handleZCard w (name::k::rest) s.toMaps := by
  rcases rest with _ | ⟨_,_⟩
  case nil =>
    refine .inr fun w s T h hne => ?_
    simp only [handleZCard,Maps.zCard,Maps.getZSet_wrongType h hne]
    rfl
  case cons => exact guarded_refused rfl

theorem handleRankOf_guarded (cmd : String)
    {rank : Maps F → Int → Bytes → Bytes → Except StoreError (Option Nat)}
    (hrank : ∀ m now x T, m.typeOf now k=some T → T ≠ .zset → rank m now k x=.error .wrongType) :
    Guarded .zset k reply fun w s => handleRankOf cmd rank w (name::k::rest) s.toMaps := by
  rcases rest with _ | ⟨x,_ | ⟨_,_⟩⟩
  case cons.nil =>
    refine .inr fun w s T h hne => ?_
    simp only [handleRankOf,hrank s.toMaps w.now x T h hne]
    rfl
  all_goals exact guarded_refused rfl

theorem handleZRem_guarded :
    Guarded .zset k Prod.mk fun w (s : MemoryStore F) => handleZRem w (name::k::rest) s := by
  rcases rest with _ | ⟨x,xs⟩
  · exact guarded_refused rfl
  refine .inr fun w s T h hne => ?_
  simp only [handleZRem,MemoryStore.zRem,Maps.getZSet_wrongType h hne]
  rfl

variable [Float64 F]

theorem handleZScore_guarded :
    Guarded .zset k reply fun w (s : MemoryStore F) => handleZScore w (name::k::rest) s.toMaps := by
  rcases rest with _ | ⟨x,_ | ⟨_,_⟩⟩
  case cons.nil =>
    refine .inr fun w s T h hne => ?_
    simp only [handleZScore,Maps.zScore,Maps.getZSet_wrongType h hne]
    rfl
  all_goals exact guarded_refused rfl

theorem handleZRange_guarded :
    Guarded .zset k reply fun w (s : MemoryStore F) => handleZRange w (name::k::rest) s.toMaps := by
  rcases rest with _ | ⟨a,_ | ⟨b,opts⟩⟩
  case cons.cons =>
    cases hopts : zrangeOptions opts {} with
    | error r =>
      exact .inl ⟨r,zrangeOptions_error hopts,fun w s => by simp only [handleZRange,hopts,reply]⟩
    | ok o =>
      by_cases hlex : o.byLex
      · refine .inr fun w s T h hne => ?_
        simp only [handleZRange,hopts,if_pos hlex,Maps.zRangeByLex,Maps.getZSet_wrongType h hne]
        split_ifs <;> rfl
      by_cases hscore : o.byScore
      · cases ha : (parseScoreBound a : Option (F × Bool)) with
        | none =>
          exact .inl ⟨notFloatRange,rfl,fun w s => by
            simp only [handleZRange,hopts,if_neg hlex,if_pos hscore,ha,reply]⟩
        | some x =>
          cases hb : (parseScoreBound b : Option (F × Bool)) with
          | none =>
            exact .inl ⟨notFloatRange,rfl,fun w s => by
              simp only [handleZRange,hopts,if_neg hlex,if_pos hscore,ha,hb,reply]⟩
          | some y =>
            refine .inr fun w s T h hne => ?_
            simp only [handleZRange,hopts,if_neg hlex,if_pos hscore,ha,hb,Maps.zRangeByScore,
              Maps.zRevRangeByScore,Maps.getZSet_wrongType h hne]
            split_ifs <;> rfl
      · cases ha : parseInt a with
        | none =>
          exact .inl ⟨notInteger,rfl,fun w s => by
            simp only [handleZRange,hopts,if_neg hlex,if_neg hscore,ha,reply]⟩
        | some start =>
          cases hb : parseInt b with
          | none =>
            exact .inl ⟨notInteger,rfl,fun w s => by
              simp only [handleZRange,hopts,if_neg hlex,if_neg hscore,ha,hb,reply]⟩
          | some stop =>
            refine .inr fun w s T h hne => ?_
            simp only [handleZRange,hopts,if_neg hlex,if_neg hscore,ha,hb,Maps.zRange,
              Maps.getZSet_wrongType h hne]
            rfl
  all_goals exact guarded_refused rfl

theorem handleZRevRange_guarded :
    Guarded .zset k reply fun w (s : MemoryStore F) => handleZRevRange w (name::k::rest) s.toMaps := by
  rcases rest with _ | ⟨a,_ | ⟨b,opts⟩⟩
  case cons.cons =>
    unfold handleZRevRange
    dsimp only
    cases parseInt a with
    | none => exact guarded_refused rfl
    | some start =>
      cases parseInt b with
      | none => exact guarded_refused rfl
      | some stop =>
        refine .inr fun w s T h hne => ?_
        dsimp only
        rw [Maps.zRange,Maps.getZSet_wrongType h hne]
        rfl
  all_goals exact guarded_refused rfl

theorem handleByScore_guarded (cmd : String)
    {range : Maps F → Int → Bytes → F → F → Bool → Bool → Bool → Int → Int →
      Except StoreError (List Bytes)}
    (hrange : ∀ m now x y xe ye sc o n T, m.typeOf now k=some T → T ≠ .zset →
      range m now k x y xe ye sc o n=.error .wrongType) :
    Guarded .zset k reply fun w s => handleByScore cmd range w (name::k::rest) s.toMaps := by
  rcases rest with _ | ⟨a,_ | ⟨b,opts⟩⟩
  case cons.cons =>
    simp only [handleByScore]
    rcases (parseScoreBound a : Option (F × Bool)) with _ | ⟨x,xe⟩
    · exact guarded_refused rfl
    rcases (parseScoreBound b : Option (F × Bool)) with _ | ⟨y,ye⟩
    · exact guarded_refused rfl
    cases hopts : limitOptions opts {} with
    | error r => exact guarded_refused (limitOptions_error hopts)
    | ok o =>
      refine .inr fun w s T h hne => ?_
      simp only [hrange s.toMaps w.now x y xe ye _ _ _ T h hne]
      rfl
  all_goals exact guarded_refused rfl

theorem handleZCount_guarded :
    Guarded .zset k reply fun w (s : MemoryStore F) => handleZCount w (name::k::rest) s.toMaps := by
  rcases rest with _ | ⟨a,_ | ⟨b,_ | ⟨_,_⟩⟩⟩
  case cons.cons.nil =>
    simp only [handleZCount]
    rcases (parseScoreBound a : Option (F × Bool)) with _ | ⟨x,xe⟩
    · exact guarded_refused rfl
    rcases (parseScoreBound b : Option (F × Bool)) with _ | ⟨y,ye⟩
    · exact guarded_refused rfl
    refine .inr fun w s T h hne => ?_
    simp only [Maps.zCount,Maps.getZSet_wrongType h hne]
    rfl
  all_goals exact guarded_refused rfl

theorem handleZRangeByLex_guarded :
    Guarded .zset k reply fun w (s : MemoryStore F) => handleZRangeByLex w (name::k::rest) s.toMaps := by
  rcases rest with _ | ⟨a,_ | ⟨b,opts⟩⟩
  case cons.cons =>
    simp only [handleZRangeByLex]
    cases hopts : limitOptions opts {} with
    | error r => exact guarded_refused (limitOptions_error hopts)
    | ok o =>
      refine .inr fun w s T h hne => ?_
      simp only [Maps.zRangeByLex,Maps.getZSet_wrongType h hne]
      rfl
  all_goals exact guarded_refused rfl

theorem handleZRevRangeByLex_guarded :
    Guarded .zset k reply fun w (s : MemoryStore F) =>
      handleZRevRangeByLex w (name::k::rest) s.toMaps := by
  rcases rest with _ | ⟨a,_ | ⟨b,opts⟩⟩
  case cons.cons =>
    simp only [handleZRevRangeByLex]
    cases hopts : limitOptions opts {} with
    | error r => exact guarded_refused (limitOptions_error hopts)
    | ok o =>
      refine .inr fun w s T h hne => ?_
      simp only [Maps.zRangeByLex,Maps.getZSet_wrongType h hne]
      rfl
  all_goals exact guarded_refused rfl

theorem handleZLexCount_guarded :
    Guarded .zset k reply fun w (s : MemoryStore F) => handleZLexCount w (name::k::rest) s.toMaps := by
  rcases rest with _ | ⟨a,_ | ⟨b,_ | ⟨_,_⟩⟩⟩
  case cons.cons.nil =>
    refine .inr fun w s T h hne => ?_
    simp only [handleZLexCount,Maps.zLexCount,Maps.zRangeByLex,Maps.getZSet_wrongType h hne]
    rfl
  all_goals exact guarded_refused rfl

theorem handleZIncrBy_guarded :
    Guarded .zset k Prod.mk fun w (s : MemoryStore F) => handleZIncrBy w (name::k::rest) s := by
  rcases rest with _ | ⟨n,_ | ⟨x,_ | ⟨_,_⟩⟩⟩
  case cons.cons.nil =>
    simp only [handleZIncrBy]
    rcases (parseScore n : Option F) with _ | incr
    · exact guarded_refused rfl
    refine .inr fun w s T h hne => ?_
    simp only [MemoryStore.zIncrBy,MemoryStore.zsetGuard_wrongType h hne]
    rfl
  all_goals exact guarded_refused rfl

theorem handleZPop_guarded (cmd : String) (order : List (ZMember F) → List (ZMember F)) :
    Guarded .zset k (fun r s => .ok (r,s)) fun w (s : MemoryStore F) =>
      handleZPop cmd (MemoryStore.popZSet order) w (name::k::rest) s := by
  rcases rest with _ | ⟨n,_ | ⟨_,_⟩⟩
  case nil =>
    refine .inr fun w s T h hne => ?_
    simp only [handleZPop,MemoryStore.popZSet,Maps.getZSet_wrongType h hne]
    rfl
  case cons.nil =>
    cases hn : (parseInt n).filter fun n => 0 ≤ n with
    | none => exact .inl ⟨notInteger,rfl,fun w s => by simp only [handleZPop,hn]⟩
    | some count =>
      refine .inr fun w s T h hne => ?_
      simp only [handleZPop,hn,MemoryStore.popZSet,Maps.getZSet_wrongType h hne]
      rfl
  case cons.cons => exact guarded_refused rfl

theorem handleZAdd_guarded :
    Guarded .zset k Prod.mk fun w (s : MemoryStore F) => handleZAdd w (name::k::rest) s := by
  rcases rest with _ | ⟨a,_ | ⟨b,more⟩⟩
  case cons.cons =>
    simp only [handleZAdd]
    split_ifs
    · exact guarded_refused rfl
    · exact guarded_refused rfl
    · exact guarded_refused rfl
    rcases zaddMembers (parseScore : Bytes → Option F) (zaddFlags (a::b::more) {}).2 with _ | members
    · exact guarded_refused rfl
    refine .inr fun w s T h hne => ?_
    simp only [MemoryStore.zAdd,MemoryStore.zsetGuard_wrongType h hne]
    rfl
  all_goals exact guarded_refused rfl

theorem answer_guarded_list {c : ReadCommand} (hc : c.keyType=some .list) :
    Guarded .list k (fun r _ => .ok r) fun w (s : MemoryStore F) =>
      answer w c (name::k::rest) s.toMaps := by
  cases c
  case llen => exact handleLLen_guarded.ok
  case lrange => exact handleLRange_guarded.ok
  case lindex => exact handleLIndex_guarded.ok
  case lpos => exact handleLPos_guarded.ok
  all_goals cases hc

theorem answer_guarded_set {c : ReadCommand} (hc : c.keyType=some .set) (hscan : c ≠ .sscan) :
    Guarded .set k (fun r _ => .ok r) fun w (s : MemoryStore F) =>
      answer w c (name::k::rest) s.toMaps := by
  cases c
  case smembers => exact handleSMembers_guarded.ok
  case scard => exact handleSCard_guarded.ok
  case sismember => exact handleSIsMember_guarded.ok
  case smismember => exact handleSMIsMember_guarded.ok
  case srandmember => exact handleSRandMember_guarded
  case sscan => exact absurd rfl hscan
  all_goals cases hc

theorem answer_guarded_zset {c : ReadCommand} (hc : c.keyType=some .zset) (hscan : c ≠ .zscan) :
    Guarded .zset k (fun r _ => .ok r) fun w (s : MemoryStore F) =>
      answer w c (name::k::rest) s.toMaps := by
  cases c
  case zscore => exact handleZScore_guarded.ok
  case zcard => exact handleZCard_guarded
  case zrank =>
    refine (handleRankOf_guarded "ZRANK" fun m now x T h hne => ?_).ok
    rw [Maps.zRank,Maps.getZSet_wrongType h hne]
    rfl
  case zrevrank =>
    refine (handleRankOf_guarded "ZREVRANK" fun m now x T h hne => ?_).ok
    rw [Maps.zRevRank,Maps.getZSet_wrongType h hne]
    rfl
  case zrange => exact handleZRange_guarded.ok
  case zrevrange => exact handleZRevRange_guarded.ok
  case zrangebyscore =>
    refine (handleByScore_guarded "ZRANGEBYSCORE" fun m now x y xe ye sc o n T h hne => ?_).ok
    rw [Maps.zRangeByScore,Maps.getZSet_wrongType h hne]
    rfl
  case zrevrangebyscore =>
    refine (handleByScore_guarded "ZREVRANGEBYSCORE" fun m now x y xe ye sc o n T h hne => ?_).ok
    rw [Maps.zRevRangeByScore,Maps.getZSet_wrongType h hne]
    rfl
  case zrangebylex => exact handleZRangeByLex_guarded.ok
  case zrevrangebylex => exact handleZRevRangeByLex_guarded.ok
  case zcount => exact handleZCount_guarded.ok
  case zlexcount => exact handleZLexCount_guarded.ok
  case zscan => exact absurd rfl hscan
  all_goals cases hc

theorem execute_guarded_list {c : WriteCommand} (hc : c.keyType=some .list) (hl : c ≠ .lpushx)
    (hr : c ≠ .rpushx) :
    Guarded .list k (fun r s => .ok (r,s)) fun w (s : MemoryStore F) =>
      execute w c (name::k::rest) s := by
  cases c
  case lpush =>
    refine (handlePush_guarded "LPUSH" fun s now vs T h hne => ?_).ok
    simp [MemoryStore.lPush,MemoryStore.listGuard_wrongType h hne]
  case rpush =>
    refine (handlePush_guarded "RPUSH" fun s now vs T h hne => ?_).ok
    simp [MemoryStore.rPush,MemoryStore.listGuard_wrongType h hne]
  case lpop => exact handlePop_guarded "LPOP" _
  case rpop => exact handlePop_guarded "RPOP" _
  case lset => exact handleLSet_guarded.ok
  case linsert => exact handleLInsert_guarded.ok
  case lrem => exact handleLRem_guarded.ok
  case ltrim => exact handleLTrim_guarded.ok
  case lpushx => exact absurd rfl hl
  case rpushx => exact absurd rfl hr
  all_goals cases hc

theorem execute_guarded_set {c : WriteCommand} (hc : c.keyType=some .set) :
    Guarded .set k (fun r s => .ok (r,s)) fun w (s : MemoryStore F) =>
      execute w c (name::k::rest) s := by
  cases c
  case sadd => exact handleSAdd_guarded.ok
  case srem => exact handleSRem_guarded.ok
  case spop => exact handleSPop_guarded
  all_goals cases hc

theorem execute_guarded_zset {c : WriteCommand} (hc : c.keyType=some .zset) :
    Guarded .zset k (fun r s => .ok (r,s)) fun w (s : MemoryStore F) =>
      execute w c (name::k::rest) s := by
  cases c
  case zadd => exact handleZAdd_guarded.ok
  case zrem => exact handleZRem_guarded.ok
  case zincrby => exact handleZIncrBy_guarded.ok
  case zpopmin => exact handleZPop_guarded "ZPOPMIN" _
  case zpopmax => exact handleZPop_guarded "ZPOPMAX" _
  all_goals cases hc

end GoRedis
