import GoRedis.Storage.Lists
import GoRedis.Storage.Scan
import GoRedis.Storage.View
/-!
# What readers see of a key

A reader takes a string unless its own deadline has passed, and any other entry unless the
deadline of the key has. Maps that look alike at a key in this sense cannot be told apart by a
reader of that key.
-/
namespace GoRedis
namespace Maps
variable {F : Type} {m n : Maps F} {now : Int} {w : World} {k : Bytes} {ks : List Bytes}

/-- The entry of `k` in one of the maps without own deadlines, unless the key's has passed. -/
def live {V : Type} (m : Maps F) (now : Int) (k : Bytes) (entries : Map V) : Option V :=
  if m.keyExpiredNonStr now k then none else entries[k]?

/-- The two stores look alike at `k`. -/
structure Looks (m n : Maps F) (now : Int) (k : Bytes) : Prop where
  string : m.liveString now k=n.liveString now k
  hash : m.liveHash now k=n.liveHash now k
  list : m.live now k m.lists=n.live now k n.lists
  set : m.live now k m.sets=n.live now k n.sets
  zset : m.live now k m.zsets=n.live now k n.zsets

theorem typeOf_eq_live (m : Maps F) (now : Int) (k : Bytes) : m.typeOf now k=
    if (m.liveString now k).isSome then some .string
    else if (m.liveHash now k).isSome then some .hash
    else if (m.live now k m.lists).isSome then some .list
    else if (m.live now k m.sets).isSome then some .set
    else if (m.live now k m.zsets).isSome then some .zset
    else none := by
  unfold typeOf liveHash live
  simp only [Std.ExtTreeMap.mem_iff_isSome_getElem?]
  cases m.keyExpiredNonStr now k <;> simp

theorem live_of_typeOf {V : Type} {t : KeyType} (h : m.typeOf now k=some t) (ht : t ≠ .string)
    (entries : Map V) : m.live now k entries=entries[k]? := by
  have hexp : m.keyExpiredNonStr now k=false := by
    rw [typeOf_eq_row] at h
    exact Row.not_expired_of_typeOf h ht
  rw [live,hexp]
  rfl

namespace Looks

theorem symm (h : m.Looks n now k) : n.Looks m now k :=
  ⟨h.string.symm,h.hash.symm,h.list.symm,h.set.symm,h.zset.symm⟩

theorem typeOf (h : m.Looks n now k) : m.typeOf now k=n.typeOf now k := by
  rw [typeOf_eq_live,typeOf_eq_live,h.string,h.hash,h.list,h.set,h.zset]

theorem get (h : m.Looks n now k) : m.get now k=n.get now k := by
  rw [Maps.get,h.string,Maps.get]

theorem type (h : m.Looks n now k) : m.type now k=n.type now k := h.typeOf

theorem exists_ (h : ∀ k ∈ ks, m.Looks n now k) : m.exists_ now ks=n.exists_ now ks := by
  apply List.countP_congr
  intro k hk
  rw [(h k hk).typeOf]

theorem hGet (h : m.Looks n now k) (f : Bytes) : m.hGet now k f=n.hGet now k f := by
  rw [Maps.hGet,h.hash,Maps.hGet]

theorem hGetAll (h : m.Looks n w.now k) : m.hGetAll w k=n.hGetAll w k := by
  rw [Maps.hGetAll,h.hash,Maps.hGetAll]

theorem hLen (h : m.Looks n now k) : m.hLen now k=n.hLen now k := by
  rw [Maps.hLen,h.hash,Maps.hLen]

theorem hExists (h : m.Looks n now k) (f : Bytes) : m.hExists now k f=n.hExists now k f := by
  rw [Maps.hExists,h.hash,Maps.hExists]

theorem hKeys (h : m.Looks n w.now k) : m.hKeys w k=n.hKeys w k := by
  rw [Maps.hKeys,h.hGetAll,Maps.hKeys]

theorem hVals (h : m.Looks n w.now k) : m.hVals w k=n.hVals w k := by
  rw [Maps.hVals,h.hGetAll,Maps.hVals]

theorem hScan (h : m.Looks n w.now k) : m.hScan w k=n.hScan w k := by
  funext cursor pattern count
  rw [Maps.hScan,h.hash,h.typeOf,Maps.hScan]

theorem getList (h : m.Looks n now k) : m.getList now k=n.getList now k := by
  unfold Maps.getList
  rw [← h.typeOf]
  split
  · rfl
  · rename_i ht
    have ht' := h.typeOf ▸ ht
    rw [← live_of_typeOf ht (by decide),h.list,live_of_typeOf ht' (by decide)]
  · rfl

theorem lLen (h : m.Looks n now k) : m.lLen now k=n.lLen now k := by
  rw [Maps.lLen,h.getList,Maps.lLen]

theorem lRange (h : m.Looks n now k) (start stop : Int) :
    m.lRange now k start stop=n.lRange now k start stop := by
  rw [Maps.lRange,h.getList,Maps.lRange]

theorem lIndex (h : m.Looks n now k) (i : Int) : m.lIndex now k i=n.lIndex now k i := by
  rw [Maps.lIndex,h.getList,Maps.lIndex]

theorem getSet (h : m.Looks n now k) : m.getSet now k=n.getSet now k := by
  unfold Maps.getSet
  rw [← h.typeOf]
  split
  · rfl
  · rename_i ht
    have ht' := h.typeOf ▸ ht
    rw [← live_of_typeOf ht (by decide),h.set,live_of_typeOf ht' (by decide)]
  · rfl

theorem sMembers (h : m.Looks n w.now k) : m.sMembers w k=n.sMembers w k := by
  rw [Maps.sMembers,h.getSet,Maps.sMembers]

theorem sCard (h : m.Looks n now k) : m.sCard now k=n.sCard now k := by
  rw [Maps.sCard,h.getSet,Maps.sCard]

theorem sIsMember (h : m.Looks n now k) (x : Bytes) :
    m.sIsMember now k x=n.sIsMember now k x := by
  rw [Maps.sIsMember,h.getSet,Maps.sIsMember]

theorem sMIsMember (h : m.Looks n now k) (xs : List Bytes) :
    m.sMIsMember now k xs=n.sMIsMember now k xs := by
  rw [Maps.sMIsMember,h.getSet,Maps.sMIsMember]

theorem inAll (h : ∀ k ∈ ks, m.Looks n now k) (x : Bytes) :
    m.inAll now x ks=n.inAll now x ks := by
  induction ks with
  | nil => rfl
  | cons k ks ih =>
    rw [List.forall_mem_cons] at h
    rw [Maps.inAll,h.1.getSet,ih h.2,Maps.inAll]

theorem inOther (h : ∀ k ∈ ks, m.Looks n now k) (x : Bytes) :
    m.inOther now x ks=n.inOther now x ks := by
  induction ks with
  | nil => rfl
  | cons k ks ih =>
    rw [List.forall_mem_cons] at h
    rw [Maps.inOther,h.1.getSet,ih h.2,Maps.inOther]

theorem setInter (h : ∀ k ∈ ks, m.Looks n w.now k) : m.setInter w ks=n.setInter w ks := by
  cases ks with
  | nil => rfl
  | cons k ks =>
    rw [List.forall_mem_cons] at h
    simp only [Maps.setInter,h.1.getSet,inAll h.2]

theorem unionLoop (h : ∀ k ∈ ks, m.Looks n now k) (seen : KeySet) :
    m.unionLoop now seen ks=n.unionLoop now seen ks := by
  induction ks generalizing seen with
  | nil => rfl
  | cons k ks ih =>
    rw [List.forall_mem_cons] at h
    simp only [Maps.unionLoop,h.1.getSet,ih h.2]

theorem setUnion (h : ∀ k ∈ ks, m.Looks n w.now k) : m.setUnion w ks=n.setUnion w ks := by
  rw [Maps.setUnion,unionLoop h,Maps.setUnion]

theorem setDiff (h : ∀ k ∈ ks, m.Looks n w.now k) : m.setDiff w ks=n.setDiff w ks := by
  cases ks with
  | nil => rfl
  | cons k ks =>
    rw [List.forall_mem_cons] at h
    simp only [Maps.setDiff,h.1.getSet,inOther h.2]

theorem sRandMember (h : m.Looks n w.now k) (count : Int) :
    m.sRandMember w k count=n.sRandMember w k count := by
  rw [Maps.sRandMember,h.getSet,Maps.sRandMember]

theorem sScan (h : m.Looks n w.now k) : m.sScan w k=n.sScan w k := by
  funext cursor pattern count
  have hset : (if m.keyExpiredNonStr w.now k then none else m.sets[k]?)=
      if n.keyExpiredNonStr w.now k then none else n.sets[k]? := h.set
  rw [Maps.sScan,hset,h.typeOf,Maps.sScan]

theorem getZSet (h : m.Looks n now k) : m.getZSet now k=n.getZSet now k := by
  unfold Maps.getZSet
  rw [← h.typeOf]
  split
  · rfl
  · rename_i ht
    have ht' := h.typeOf ▸ ht
    rw [← live_of_typeOf ht (by decide),h.zset,live_of_typeOf ht' (by decide)]
  · rfl

theorem zScore (h : m.Looks n now k) (x : Bytes) : m.zScore now k x=n.zScore now k x := by
  rw [Maps.zScore,h.getZSet,Maps.zScore]

theorem zCard (h : m.Looks n now k) : m.zCard now k=n.zCard now k := by
  rw [Maps.zCard,h.getZSet,Maps.zCard]

section Scores
variable [Float64 F]

theorem zRank (h : m.Looks n now k) (x : Bytes) : m.zRank now k x=n.zRank now k x := by
  rw [Maps.zRank,h.getZSet,Maps.zRank]

theorem zRevRank (h : m.Looks n now k) (x : Bytes) : m.zRevRank now k x=n.zRevRank now k x := by
  rw [Maps.zRevRank,h.getZSet,Maps.zRevRank]

theorem zRange (h : m.Looks n now k) (start stop : Int) (rev scores : Bool) :
    m.zRange now k start stop rev scores=n.zRange now k start stop rev scores := by
  rw [Maps.zRange,h.getZSet,Maps.zRange]

theorem zRangeByScore (h : m.Looks n now k) (lo hi : F) (loExcl hiExcl scores : Bool)
    (offset count : Int) : m.zRangeByScore now k lo hi loExcl hiExcl scores offset count=
      n.zRangeByScore now k lo hi loExcl hiExcl scores offset count := by
  rw [Maps.zRangeByScore,h.getZSet,Maps.zRangeByScore]

theorem zRevRangeByScore (h : m.Looks n now k) (hi lo : F) (hiExcl loExcl scores : Bool)
    (offset count : Int) : m.zRevRangeByScore now k hi lo hiExcl loExcl scores offset count=
      n.zRevRangeByScore now k hi lo hiExcl loExcl scores offset count := by
  rw [Maps.zRevRangeByScore,h.getZSet,Maps.zRevRangeByScore]

theorem zCount (h : m.Looks n now k) (lo hi : F) (loExcl hiExcl : Bool) :
    m.zCount now k lo hi loExcl hiExcl=n.zCount now k lo hi loExcl hiExcl := by
  rw [Maps.zCount,h.getZSet,Maps.zCount]

theorem zRangeByLex (h : m.Looks n now k) (lo hi : Bytes) (offset count : Int) :
    m.zRangeByLex now k lo hi offset count=n.zRangeByLex now k lo hi offset count := by
  rw [Maps.zRangeByLex,h.getZSet,Maps.zRangeByLex]

theorem zLexCount (h : m.Looks n now k) (lo hi : Bytes) :
    m.zLexCount now k lo hi=n.zLexCount now k lo hi := by
  rw [Maps.zLexCount,h.zRangeByLex,Maps.zLexCount]

theorem zUnionLoop (h : ∀ k ∈ ks, m.Looks n now k) (agg : Bytes) (weights : List F)
    (scores : Map F) :
    m.zUnionLoop now agg ks weights scores=n.zUnionLoop now agg ks weights scores := by
  induction ks generalizing weights scores with
  | nil => rfl
  | cons k ks ih =>
    rw [List.forall_mem_cons] at h
    simp only [Maps.zUnionLoop,h.1.getZSet,ih h.2]

theorem zInterLoop (h : ∀ k ∈ ks, m.Looks n now k) (agg : Bytes) (weights : List F)
    (scores : Map F) :
    m.zInterLoop now agg ks weights scores=n.zInterLoop now agg ks weights scores := by
  induction ks generalizing weights scores with
  | nil => rfl
  | cons k ks ih =>
    rw [List.forall_mem_cons] at h
    simp only [Maps.zInterLoop,h.1.getZSet,ih h.2]

theorem zScan (h : m.Looks n w.now k) : m.zScan w k=n.zScan w k := by
  funext cursor pattern count
  have hzset : (if m.keyExpiredNonStr w.now k then none else m.zsets[k]?)=
      if n.keyExpiredNonStr w.now k then none else n.zsets[k]? := h.zset
  rw [Maps.zScan,hzset,h.typeOf,Maps.zScan]

end Scores
end Looks
end Maps
end GoRedis
