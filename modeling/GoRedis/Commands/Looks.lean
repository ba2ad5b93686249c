import GoRedis.Commands.Router
import GoRedis.Storage.Look
/-!
# What a reading command depends on

Which arguments of a reading request are keys is read off the command. But for the two commands
that report deadlines, the answer depends on what these keys look like, on nothing else.
-/
namespace GoRedis

/-- The keys a reading request names. -/
def ReadCommand.named (c : ReadCommand) (args : List Bytes) : List Bytes :=
  match c with
  | .ping | .command | .select | .client | .publish | .keys | .scan | .info | .dbsize => []
  | .exists_ | .mget | .sinter | .sunion | .sdiff => args.drop 1
  | .object => (args.drop 2).take 1
  | _ => (args.drop 1).take 1

variable {F : Type} {m n : Maps F} {w : World} {args : List Bytes}

theorem objectEncoding_looks {key : Bytes} (h : m.Looks n w.now key)
    (hlater : m.Looks n w.later key) :
    objectEncoding w key m m=objectEncoding w key n n := by
  unfold objectEncoding
  rw [h.type,hlater.get,hlater.hLen,hlater.lLen,hlater.sCard,hlater.zCard]

theorem objectConstant_looks {rest : List Bytes} (name : String) (v : Int)
    (h : ∀ k ∈ rest.take 1, m.Looks n w.now k) :
    objectConstant name v w rest m=objectConstant name v w rest n := by
  unfold objectConstant
  split
  · rw [(h _ (by simp)).type]
  · rfl

theorem handleObject_looks (h : ∀ k ∈ (args.drop 2).take 1, m.Looks n w.now k)
    (hlater : ∀ k ∈ (args.drop 2).take 1, m.Looks n w.later k) :
    handleObject w args m=handleObject w args n := by
  unfold handleObject
  split
  · rename_i sub rest
    have hrest : ∀ k ∈ rest.take 1, m.Looks n w.now k := h
    simp only [objectConstant_looks _ _ hrest]
    split_ifs
    · split
      · rw [objectEncoding_looks (hrest _ (by simp)) (hlater _ (by simp))]
      · rfl
    all_goals rfl
  · rfl

variable [Float64 F]

theorem handleZRange_looks (h : ∀ k ∈ (args.drop 1).take 1, m.Looks n w.now k) :
    handleZRange w args m=handleZRange w args n := by
  unfold handleZRange
  split
  · have hk := h _ List.mem_cons_self
    simp only [hk.zRangeByLex,hk.zRangeByScore,hk.zRevRangeByScore,hk.zRange]
  · rfl

theorem handleZRevRange_looks (h : ∀ k ∈ (args.drop 1).take 1, m.Looks n w.now k) :
    handleZRevRange w args m=handleZRevRange w args n := by
  unfold handleZRevRange
  split
  · simp only [(h _ List.mem_cons_self).zRange]
  · rfl

theorem answer_looks {c : ReadCommand}
    (hc : c ∉ [.keys,.scan,.info,.dbsize,.ttl,.pttl])
    (h : ∀ k ∈ c.named args, m.Looks n w.now k)
    (hlater : ∀ k ∈ c.named args, m.Looks n w.later k) : answer w c args m=answer w c args n := by
  cases c
  case keys | scan | info | dbsize | ttl | pttl => exact absurd (by decide) hc
  case ping | command | select | client | publish => rfl
  case object => exact handleObject_looks h hlater
  -- every argument is a key
  case exists_ | mget | sinter | sunion | sdiff =>
    simp only [answer,handleExists,handleMGet,handleSInter,handleSUnion,handleSDiff,handleSetOp]
    split
    · rename_i key keys
      have hks : ∀ k ∈ key::keys, m.Looks n w.now k := h
      have hget : (key::keys).map (fun k => optReply (m.get w.now k))=
          (key::keys).map fun k => optReply (n.get w.now k) :=
        List.map_congr_left fun k hk => by rw [(hks k hk).get]
      simp only [Maps.Looks.exists_ hks,hget,Maps.Looks.setInter hks,Maps.Looks.setUnion hks,
        Maps.Looks.setDiff hks]
    · rfl
  -- the first argument is the key
  case get | strlen | type =>
    simp only [answer,handleGet,handleStrLen,handleType]
    split
    · have hk := h _ List.mem_cons_self
      simp only [hk.get,hk.type]
    · rfl
  case hget | hgetall | hmget | hlen | hexists | hkeys | hvals | hscan =>
    simp only [answer,handleHGet,handleHGetAll,handleHMGet,handleHLen,handleHExists,handleHKeys,
      handleHVals,handleHScan]
    split
    · have hk := h _ List.mem_cons_self
      simp only [hk.hGet,hk.hGetAll,hk.hLen,hk.hExists,hk.hKeys,hk.hVals,hk.hScan]
    · rfl
  case llen | lrange | lindex | lpos =>
    simp only [answer,handleLLen,handleLRange,handleLIndex,handleLPos]
    split
    · have hk := h _ List.mem_cons_self
      simp only [hk.lLen,hk.lRange,hk.lIndex]
    · rfl
  case smembers | scard | sismember | smismember | sscan =>
    simp only [answer,handleSMembers,handleSCard,handleSIsMember,handleSMIsMember,handleSScan]
    split
    · have hk := h _ List.mem_cons_self
      simp only [hk.sMembers,hk.sCard,hk.sIsMember,hk.sMIsMember,hk.sScan]
    · rfl
  case srandmember =>
    simp only [answer,handleSRandMember]
    split
    · simp only [(h _ List.mem_cons_self).sRandMember]
    · simp only [(h _ List.mem_cons_self).sRandMember]
    · rfl
  case zscore | zcard | zrank | zrevrank | zcount | zlexcount | zscan =>
    simp only [answer,handleZScore,handleZCard,handleZRank,handleZRevRank,handleRankOf,
      handleZCount,handleZLexCount,handleZScan]
    split
    · have hk := h _ List.mem_cons_self
      simp only [hk.zScore,hk.zCard,hk.zRank,hk.zRevRank,hk.zCount,hk.zLexCount,hk.zScan]
    · rfl
  case zrange => exact congrArg Except.ok (handleZRange_looks h)
  case zrevrange => exact congrArg Except.ok (handleZRevRange_looks h)
  case zrangebyscore | zrevrangebyscore | zrangebylex | zrevrangebylex =>
    simp only [answer,handleZRangeByScore,handleZRevRangeByScore,handleByScore,
      handleZRangeByLex,handleZRevRangeByLex]
    split
    · have hk := h _ List.mem_cons_self
      simp only [hk.zRangeByScore,hk.zRevRangeByScore,hk.zRangeByLex]
    · rfl

end GoRedis
