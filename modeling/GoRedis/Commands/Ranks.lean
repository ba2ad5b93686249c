import GoRedis.Commands.Router
import GoRedis.Storage.Ranks
/-!
# `ZRANK`, `ZREVRANK` and `ZRANGE`
-/
namespace GoRedis
variable {F : Type} [Float64 F] {w : World} {s : MemoryStore F} {key x : Bytes} {z : Map F}

/-- The request is answered with `r` and changes nothing. -/
def Answers (w : World) (args : List Bytes) (s : MemoryStore F) (r : Response) : Prop :=
  dispatch w args s=.ok ⟨r,s,[]⟩

theorem bulks_inj {xs ys : List Bytes} : Response.bulks xs=.bulks ys ↔ xs=ys := by
  have hinj : Function.Injective Response.bulkString := fun _ _ h => Response.bulkString.inj h
  rw [Response.bulks,Response.bulks,Response.array.injEq,hinj.list_map.eq_iff]

theorem Answers.iff_eq {args : List Bytes} {r r' : Response} (h : Answers w args s r) :
    Answers w args s r' ↔ r=r' := by
  rw [Answers] at h ⊢
  rw [h]
  simp

theorem Answers.bulks_iff {args xs ys : List Bytes} (h : Answers w args s (.bulks xs)) :
    Answers w args s (.bulks ys) ↔ xs=ys := h.iff_eq.trans bulks_inj

theorem answers_zrank_iff {name : Bytes} {i : Nat} (hc : commandOf [name,key,x]=some (.read .zrank)) :
    Answers w [name,key,x] s (.integer i) ↔ s.zRank w.now key x=.ok (some i) := by
  rw [Answers,dispatch_read hc]
  simp only [answer,handleZRank,handleRankOf,Except.map,Except.ok.injEq,Dispatched.mk.injEq,
    and_true]
  cases s.zRank w.now key x with
  | error e => simp [replyOf]
  | ok r => cases r <;> simp [replyOf]

theorem answers_zrevrank {name : Bytes} {i : Nat}
    (hc : commandOf [name,key,x]=some (.read .zrevrank))
    (h : s.zRevRank w.now key x=.ok (some i)) : Answers w [name,key,x] s (.integer i) := by
  rw [Answers,dispatch_read hc]
  simp only [answer,handleZRevRank,handleRankOf,h]
  rfl

theorem answers_zrange {name a b : Bytes} {start stop : Int}
    (hc : commandOf [name,key,a,b]=some (.read .zrange)) (ha : parseInt a=some start)
    (hb : parseInt b=some stop) : Answers w [name,key,a,b] s
      (replyOf .bulks (s.zRange w.now key start stop false false)) := by
  rw [Answers,dispatch_read hc]
  simp only [answer,handleZRange,zrangeOptions,ha,hb]
  rfl

theorem answers_lrange {name a b : Bytes} {start stop : Int}
    (hc : commandOf [name,key,a,b]=some (.read .lrange)) (ha : parseInt a=some start)
    (hb : parseInt b=some stop) : Answers w [name,key,a,b] s
      (replyOf .bulks (s.lRange w.now key start stop)) := by
  rw [Answers,dispatch_read hc]
  simp only [answer,handleLRange,ha,hb]
  rfl

/-- A sorted set has one strict order; ranks and ranges are places and slices of it. -/
theorem sorted_set_order (w : World) (s : MemoryStore F) (key : Bytes) (z : Map F)
    (htype : s.typeOf w.now key=some .zset) (hz : s.zsets[key]?=some z) :
    (sortedMembers z).Perm (zMembers z) ∧ (sortedMembers z).Pairwise zLess ∧
    (∀ name x (i : Nat), commandOf [name,key,x]=some (.read .zrank) →
      (Answers w [name,key,x] s (.integer i) ↔
        ∃ e, (sortedMembers z)[i]?=some e ∧ e.member=x)) ∧
    (∀ name e, commandOf [name,key,e.member]=some (.read .zrank) → e ∈ zMembers z →
      Answers w [name,key,e.member] s (.integer ((zMembers z).countP fun y => zLess y e))) ∧
    (∀ name name' x, commandOf [name,key,x]=some (.read .zrank) →
      commandOf [name',key,x]=some (.read .zrevrank) → x ∈ z →
      ∃ i j : Nat, Answers w [name,key,x] s (.integer i) ∧ Answers w [name',key,x] s (.integer j) ∧
        i+j=z.size-1) ∧
    ∀ name name' a b start stop (s' : MemoryStore F) lkey,
      commandOf [name,key,a,b]=some (.read .zrange) →
      commandOf [name',lkey,a,b]=some (.read .lrange) → parseInt a=some start →
      parseInt b=some stop → s'.typeOf w.now lkey=some .list →
      s'.lists[lkey]?=some ((sortedMembers z).map ZMember.member) →
      (InInt64 z.size → zRangeBounds64 start stop z.size=clampRange start stop z.size) ∧
      ∃ xs, Answers w [name,key,a,b] s (.bulks xs) ∧ Answers w [name',lkey,a,b] s' (.bulks xs) := by
  have hget : s.getZSet w.now key=.ok (some z) := by
    rw [Maps.getZSet,htype,hz]
  refine ⟨sortedMembers_perm z,sortedMembers_strict z,?_,?_,?_,?_⟩
  · intro name x i hc
    rw [answers_zrank_iff hc,Maps.zRank_eq_some_iff hget]
  · intro name e hc he
    rw [answers_zrank_iff hc]
    exact Maps.zRank_of_mem hget he
  · intro name name' x hc hc' hx
    obtain ⟨i,hi⟩ := Maps.exists_zRank hget hx
    obtain ⟨hlt,hrev⟩ := Maps.zRevRank_of_zRank hget hi
    refine ⟨i,z.size-1-i,(answers_zrank_iff hc).mpr hi,answers_zrevrank hc' hrev,?_⟩
    omega
  · intro name name' a b start stop s' lkey hc hc' ha hb htype' hlist
    have hget' : s'.getList w.now lkey=.ok (some ((sortedMembers z).map ZMember.member)) := by
      rw [Maps.getList,htype',hlist]
    refine ⟨zRangeBounds64_eq_clampRange (parseInt_inInt64 ha) (parseInt_inInt64 hb),?_⟩
    have hz := answers_zrange (w := w) (s := s) hc ha hb
    have hl := answers_lrange (w := w) (s := s') hc' ha hb
    rw [Maps.zRange_eq_lRange hget hget'] at hz
    simp only [Maps.lRange,hget',Except.map,replyOf] at hz hl
    exact ⟨_,hz,hl⟩

/-- Two members with the same score: the second by name has rank 1. -/
theorem sorted_set_order_tie :
    ∃ s : MemoryStore Int, Answers (World.plain 0) [utf8 "ZRANK",utf8 "z",utf8 "b"] s (.integer 1) := by
  let z : Map Int := ((∅ : Map Int).insert (utf8 "b") 5).insert (utf8 "a") 5
  let s : MemoryStore Int := MemoryStore.new.putZSet (utf8 "z") z
  have horder := sorted_set_order (World.plain 0) s (utf8 "z") z (by decide) (by decide)
  refine ⟨s,(horder.2.2.1 (utf8 "ZRANK") (utf8 "b") 1 (by decide)).mpr ⟨⟨utf8 "b",5⟩,?_,rfl⟩⟩
  decide

end GoRedis
