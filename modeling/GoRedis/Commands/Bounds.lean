import GoRedis.Commands.Checked
/-!
# Numbers of the client and the bounds of slices

Over the whole router, two kinds of requests leave the bounds of a slice: a number of keys so
large that adding three wraps around, and a draw with so many repetitions that no slice holds it.
-/
namespace GoRedis
variable {F : Type}

namespace Checked

section Draw
variable {w : World} {args : List Bytes} {m : Maps F} {key : Bytes} {count : Int} {st : KeySet}

/-- The draw and its reply, with repetitions or without. -/
def drawn (w : World) (m : Maps F) (key : Bytes) (withCount : Bool) (count : Int) : Go Response :=
  (m.sRandMember w key count).bind fun r => built (replyOf (membersReply withCount) r)

/-- The bytes that a slice of the draw needs for each member: a name, or an element of the reply
if the draw gets there. -/
def drawSize (st : KeySet) : Nat := if st.isEmpty then 16 else responseSize

theorem rangeOrder_eq_nil_iff (w : World) (st : KeySet) :
    w.rangeOrder st.toList=[] ↔ st.isEmpty=true := by
  rw [← List.length_eq_zero_iff,(w.rangeOrder_perm st.toList).length_eq,
    Std.ExtTreeSet.length_toList,Std.ExtTreeSet.isEmpty_eq_size_beq_zero,beq_iff_eq]

theorem makeOk_wrap64_neg (hcount : InInt64 count) (hneg : count < 0) :
    MakeOk 16 (wrap64 (-count)) ↔ -count*16 ≤ maxAlloc := by
  unfold InInt64 at hcount
  unfold MakeOk maxAlloc wrap64
  omega

theorem sRandMember_of_neg (hst : m.getSet w.now key=.ok (some st)) (hcount : InInt64 count)
    (hneg : count < 0) : m.sRandMember w key count=
      if maxAlloc < -count*16 then .error .makeLen
      else if st.isEmpty then .error .emptyRange
      else .ok (.ok ((List.range (-count).toNat).map fun i =>
        (w.rangeOrder st.toList).getD (w.intN i (w.rangeOrder st.toList).length) [])) := by
  have hmake := makeOk_wrap64_neg hcount hneg
  rw [Maps.sRandMember,hst]
  dsimp only
  rw [if_neg (by omega),if_neg (by omega)]
  by_cases hlong : maxAlloc < -count*16
  · rw [if_pos hlong,if_pos (mt hmake.mp (not_le.mpr hlong))]
  · have hwrap : wrap64 (-count)= -count := wrap64_of_inInt64 (by
      unfold InInt64 maxAlloc at *
      omega)
    rw [if_neg hlong,if_neg (not_not.mpr (hmake.mpr (not_lt.mp hlong))),hwrap]
    simp only [rangeOrder_eq_nil_iff]

theorem drawn_of_nonneg (h : m.Fits) (w : World) (key : Bytes) (withCount : Bool)
    (hpos : 0 ≤ count) :
    ∃ r, m.sRandMember w key count=.ok r ∧
      drawn w m key withCount count=.ok (replyOf (membersReply withCount) r) := by
  have hdraw : ∃ r, m.sRandMember w key count=.ok r ∧
      ∀ vs, r=.ok vs → MakeOk responseSize vs.length := by
    unfold Maps.sRandMember
    cases hst : m.getSet w.now key with
    | error e => exact ⟨_,rfl,fun vs hvs => by cases hvs⟩
    | ok ost =>
      cases ost with
      | none =>
        refine ⟨_,rfl,?_⟩
        rintro vs ⟨⟩
        exact fits_nil
      | some st =>
        have hfit := fits_getSet h hst w
        dsimp only
        split_ifs
        · refine ⟨_,rfl,?_⟩
          rintro vs ⟨⟩
          exact fits_nil
        · refine ⟨_,rfl,?_⟩
          rintro vs ⟨⟩
          exact hfit
        · refine ⟨_,rfl,?_⟩
          rintro vs ⟨⟩
          apply fits_of_le hfit
          rw [List.length_take,(w.shuffle_perm _).length_eq]
          omega
        all_goals omega
  obtain ⟨r,hr,hfit⟩ := hdraw
  refine ⟨r,hr,?_⟩
  rw [drawn,hr]
  exact built_replyOf fun vs hvs => built_members withCount (hfit vs hvs)

theorem drawn_of_long (hst : m.getSet w.now key=.ok (some st)) (hcount : InInt64 count)
    (hneg : count < 0) (hlong : maxAlloc < -count*drawSize st) :
    drawn w m key true count=.error .makeLen := by
  rw [drawn,sRandMember_of_neg hst hcount hneg]
  by_cases hnames : maxAlloc < -count*16
  · rw [if_pos hnames]
    rfl
  · have hfull : ¬st.isEmpty=true := by
      intro hempty
      rw [drawSize,if_pos hempty] at hlong
      exact hnames hlong
    rw [drawSize,if_neg hfull] at hlong
    rw [if_neg hnames,if_neg hfull]
    apply built_bulks_error
    rw [List.length_map,List.length_range]
    rintro ⟨_,hle⟩
    rw [Int.toNat_of_nonneg (by omega)] at hle
    omega

theorem drawn_of_short (hst : m.getSet w.now key=.ok (some st)) (hcount : InInt64 count)
    (hneg : count < 0) (hshort : ¬maxAlloc < -count*drawSize st) :
    drawn w m key true count=(m.sRandMember w key count).map (replyOf (membersReply true)) ∧
      ∀ p, m.sRandMember w key count=.error p → p=.emptyRange := by
  have hsize : 16 ≤ drawSize st := by
    unfold drawSize
    split_ifs <;> decide
  have hnames : ¬maxAlloc < -count*16 := by
    have hmul : -count*16 ≤ -count*drawSize st :=
      mul_le_mul_of_nonneg_left (by exact_mod_cast hsize) (by omega)
    omega
  rw [drawn,sRandMember_of_neg hst hcount hneg,if_neg hnames]
  by_cases hempty : st.isEmpty=true
  · rw [if_pos hempty]
    refine ⟨rfl,?_⟩
    rintro p ⟨⟩
    rfl
  · rw [if_neg hempty]
    rw [drawSize,if_neg hempty] at hshort
    refine ⟨?_,fun p hp => by cases hp⟩
    apply built_bulks
    rw [List.length_map,List.length_range]
    refine ⟨Int.natCast_nonneg _,?_⟩
    rw [Int.toNat_of_nonneg (by omega)]
    omega

/-- `SRANDMEMBER` of a set with a negative count that is too large. -/
def DrawsTooMany (w : World) (args : List Bytes) (m : Maps F) : Prop :=
  ∃ cmd key n count st, args=[cmd,key,n] ∧ parseInt n=some count ∧
    m.getSet w.now key=.ok (some st) ∧ count < 0 ∧ maxAlloc < -count*drawSize st

theorem handleSRandMember_of_long (hlong : DrawsTooMany w args m) :
    handleSRandMember w args m=.error .makeLen := by
  obtain ⟨cmd,key,n,count,st,rfl,hparse,hst,hneg,hlong⟩ := hlong
  simp only [handleSRandMember,hparse,sRandMember_eq]
  exact drawn_of_long hst (parseInt_inInt64 hparse) hneg hlong

theorem drawn_eq_map (h : m.Fits) (w : World) (key : Bytes) (hcount : InInt64 count)
    (hshort : ∀ st, m.getSet w.now key=.ok (some st) → count < 0 →
      ¬maxAlloc < -count*drawSize st) :
    drawn w m key true count=(m.sRandMember w key count).map (replyOf (membersReply true)) ∧
      ∀ p, m.sRandMember w key count=.error p → p=.emptyRange := by
  by_cases hpos : 0 ≤ count
  · obtain ⟨r,hr,hdrawn⟩ := drawn_of_nonneg h w key true hpos
    rw [hdrawn,hr]
    exact ⟨rfl,fun p hp => by cases hp⟩
  have hneg : count < 0 := not_le.mp hpos
  cases hst : m.getSet w.now key with
  | error e =>
    rw [drawn,Maps.sRandMember,hst]
    exact ⟨rfl,fun p hp => by cases hp⟩
  | ok ost =>
    cases ost with
    | none =>
      rw [drawn,Maps.sRandMember,hst]
      exact ⟨built_bulks fits_nil,fun p hp => by cases hp⟩
    | some st => exact drawn_of_short hst hcount hneg (hshort st hst hneg)

theorem handleSRandMember_of_short (h : m.Fits) (hshort : ¬DrawsTooMany w args m) :
    handleSRandMember w args m=GoRedis.handleSRandMember w args m ∧
      ∀ p, GoRedis.handleSRandMember w args m=.error p → p=.emptyRange := by
  rcases args with _ | ⟨cmd,_ | ⟨key,_ | ⟨n,_ | ⟨c,rest⟩⟩⟩⟩
  case cons.cons.nil =>
    obtain ⟨r,hr,hdrawn⟩ := drawn_of_nonneg h w key false (by decide : (0:Int) ≤ 1)
    simp only [handleSRandMember,GoRedis.handleSRandMember,sRandMember_eq,hr]
    rw [drawn,hr] at hdrawn
    exact ⟨hdrawn,fun p hp => by cases hp⟩
  case cons.cons.cons.nil =>
    simp only [handleSRandMember,GoRedis.handleSRandMember,sRandMember_eq]
    cases hparse : parseInt n with
    | none => exact ⟨rfl,fun p hp => by cases hp⟩
    | some count =>
      obtain ⟨hdrawn,hpanic⟩ := drawn_eq_map h w key (parseInt_inInt64 hparse)
        fun st hst hneg hlong => hshort ⟨cmd,key,n,count,st,rfl,hparse,hst,hneg,hlong⟩
      dsimp only
      rw [drawn] at hdrawn
      rw [hdrawn]
      cases hr : m.sRandMember w key count with
      | error p =>
        refine ⟨rfl,?_⟩
        rintro q ⟨⟩
        exact hpanic p hr
      | ok r => exact ⟨rfl,fun p hp => by cases hp⟩
  all_goals exact ⟨rfl,fun p hp => by cases hp⟩

end Draw

section Router
variable [Float64 F] {w : World} {args : List Bytes} {m : Maps F} {s : MemoryStore F}

theorem execute_eq (h : s.Fits) (hargs : MakeOk 16 args.length) (c : WriteCommand) :
    execute w c args s=GoRedis.execute w c args s := by
  cases c
  case lpop => exact handleLPop_eq h
  case rpop => exact handleRPop_eq h
  case lset => exact handleLSet_eq h
  case ltrim => exact handleLTrim_eq h
  case spop => exact handleSPop_eq h
  case zpopmin => exact handleZPopMin_eq h
  case zpopmax => exact handleZPopMax_eq h
  case zunionstore => exact handleZSetStore_eq hargs _ _
  case zinterstore => exact handleZSetStore_eq hargs _ _
  all_goals rfl

theorem answer_eq (h : m.Fits) {c : ReadCommand} (hc : c ≠ .srandmember) :
    answer w c args m=GoRedis.answer w c args m := by
  cases c
  case srandmember => exact absurd rfl hc
  case lrange => exact handleLRange_eq h
  case lindex => exact handleLIndex_eq h
  case lpos => exact handleLPos_eq h
  case zrange => exact handleZRange_eq h
  case zrevrange => exact handleZRevRange_eq h
  case zrangebyscore => exact built_handleByScore (fits_zRangeByScore h) _
  case zrevrangebyscore => exact built_handleByScore (fits_zRevRangeByScore h) _
  case zrangebylex => exact built_handleZRangeByLex h
  case zrevrangebylex => exact built_handleZRevRangeByLex h
  case scan => exact handleScan_eq h
  case hscan => exact handleHScan_eq h
  case sscan => exact handleSScan_eq h
  case zscan => exact handleZScan_eq h
  all_goals rfl

/-- A request that draws too much. -/
def LongDraw (w : World) (args : List Bytes) (m : Maps F) : Prop :=
  commandOf args=some (.read .srandmember) ∧ DrawsTooMany w args m

/-- A request for so many keys that `3+numkeys` is not the sum. -/
def WrappedKeys (args : List Bytes) : Prop :=
  (commandOf args=some (.write .zunionstore) ∨ commandOf args=some (.write .zinterstore)) ∧
    ∃ cmd dst n a rest numkeys, args=cmd::dst::n::a::rest ∧ parseInt n=some numkeys ∧
      2^63-3 ≤ numkeys

theorem dispatch_of_read {c : ReadCommand} (hc : commandOf args=some (.read c)) :
    dispatch w args s=(answer w c args s.toMaps).map fun r => ⟨r,s,[]⟩ := by
  rw [dispatch,hc]

theorem dispatch_of_write {c : WriteCommand} (hc : commandOf args=some (.write c)) :
    dispatch w args s=(execute w c args s).map fun p =>
      ⟨p.1,p.2,if p.1.isError then [] else appendToAOF w c args p.1 p.2.toMaps⟩ := by
  rw [dispatch,hc]

theorem dispatch_eq (h : s.Fits) (hargs : MakeOk 16 args.length)
    (hdraw : ¬LongDraw w args s.toMaps) : dispatch w args s=GoRedis.dispatch w args s := by
  cases hc : commandOf args with
  | none => rw [dispatch,hc]
  | some c =>
    cases c with
    | write c => rw [dispatch_of_write hc,dispatch_write hc,execute_eq h hargs c]
    | read c =>
      rw [dispatch_of_read hc,dispatch_read hc]
      by_cases hs : c=.srandmember
      · subst hs
        exact congrArg _ (handleSRandMember_of_short h fun hlong => hdraw ⟨hc,hlong⟩).1
      · rw [answer_eq h hs]

theorem handleZSetStore_error {name : String} {op : ZStore F} {p : Panic}
    (hp : GoRedis.handleZSetStore name op w args s=.error p) :
    ∃ cmd dst n a rest numkeys, args=cmd::dst::n::a::rest ∧ parseInt n=some numkeys ∧
      2^63-3 ≤ numkeys := by
  rcases args with _ | ⟨cmd,_ | ⟨dst,_ | ⟨n,_ | ⟨a,rest⟩⟩⟩⟩
  case cons.cons.cons.cons =>
    simp only [GoRedis.handleZSetStore] at hp
    cases hnum : (parseInt n).filter fun n => 1 ≤ n with
    | none =>
      rw [hnum] at hp
      cases hp
    | some numkeys =>
      obtain ⟨hparse,hpos⟩ := Option.filter_eq_some_iff.mp hnum
      have hone : 1 ≤ numkeys := by simpa using hpos
      refine ⟨cmd,dst,n,a,rest,numkeys,rfl,hparse,?_⟩
      obtain ⟨hle,_⟩ | ⟨_,hwrap⟩ := wrap64_three_add (parseInt_inInt64 hparse) hone
      · exact hle
      · exfalso
        simp only [hnum,hwrap] at hp
        split_ifs at hp
        · omega
        · split at hp <;> cases hp
  all_goals cases hp

theorem handleZSetStore_of_wrapped (name : String) (op : ZStore F) {cmd dst n a : Bytes}
    {rest : List Bytes} {numkeys : Int} (hparse : parseInt n=some numkeys)
    (hle : 2^63-3 ≤ numkeys) :
    GoRedis.handleZSetStore name op w (cmd::dst::n::a::rest) s=.error .sliceBounds := by
  have hone : 1 ≤ numkeys := by omega
  have hin := parseInt_inInt64 hparse
  have hwrap : wrap64 (3+numkeys) < 0 := by
    unfold InInt64 at hin
    unfold wrap64
    omega
  simp only [GoRedis.handleZSetStore,hparse,Option.filter_some,hone,decide_true,if_true]
  rw [if_neg (by omega),if_pos (by omega)]

/-- No slice of the request is made, indexed or cut outside its bounds. -/
def InBounds (w : World) (args : List Bytes) (s : MemoryStore F) : Prop :=
  ∀ p, dispatch w args s=.error p → p ≠ .makeLen ∧ p ≠ .sliceBounds

theorem not_inBounds_of_longDraw (hdraw : LongDraw w args s.toMaps) : ¬InBounds w args s := by
  intro hin
  have hp : dispatch w args s=.error .makeLen := by
    rw [dispatch_of_read hdraw.1]
    exact congrArg _ (handleSRandMember_of_long hdraw.2)
  exact (hin _ hp).1 rfl

theorem not_inBounds_of_wrappedKeys (hargs : MakeOk 16 args.length) (hkeys : WrappedKeys args) :
    ¬InBounds w args s := by
  obtain ⟨hc,cmd,dst,n,a,rest,numkeys,rfl,hparse,hle⟩ := hkeys
  intro hin
  have hp : dispatch w (cmd::dst::n::a::rest) s=.error .sliceBounds := by
    rcases hc with hc | hc
    all_goals
      rw [dispatch_of_write hc,execute,handleZSetStore_eq hargs,
        handleZSetStore_of_wrapped _ _ hparse hle]
      rfl
  exact (hin _ hp).2 rfl

/-- What panics otherwise is a missing sorted set or an empty set. -/
theorem dispatch_panics (h : s.Fits) (hkeys : ¬WrappedKeys args)
    (hdraw : ¬LongDraw w args s.toMaps) {p : Panic} (hp : GoRedis.dispatch w args s=.error p) :
    p=.nilDereference ∨ p=.emptyRange := by
  cases hc : commandOf args with
  | none =>
    cases args with
    | nil => cases hp
    | cons name rest =>
      rw [dispatch_unknown rest hc] at hp
      cases hp
  | some c =>
    cases c with
    | write c =>
      rw [dispatch_write hc,Go.map_eq_error] at hp
      by_cases hunion : c=.zunionstore
      · subst hunion
        exact absurd ⟨.inl hc,handleZSetStore_error hp⟩ hkeys
      by_cases hinter : c=.zinterstore
      · subst hinter
        exact absurd ⟨.inr hc,handleZSetStore_error hp⟩ hkeys
      obtain ⟨r,hr⟩ := execute_total_of_ne w hunion hinter args s
      rw [hr] at hp
      cases hp
    | read c =>
      rw [dispatch_read hc,Go.map_eq_error] at hp
      by_cases hcard : c=.zcard
      · subst hcard
        exact .inl (handleZCard_panics hp)
      by_cases hobject : c=.object
      · subst hobject
        obtain ⟨_,_,_,_,_,hobj⟩ := (handleObject_error_iff w args s.toMaps p).mp hp
        exact .inl (objectEncoding_panics hobj)
      by_cases hs : c=.srandmember
      · subst hs
        exact .inr ((handleSRandMember_of_short h fun hlong => hdraw ⟨hc,hlong⟩).2 p hp)
      obtain ⟨r,hr⟩ := answer_total_of_ne w hcard hobject hs args s.toMaps
      rw [hr] at hp
      cases hp

/-- The requests that keep to the bounds. -/
theorem inBounds_iff (w : World) (args : List Bytes) (s : MemoryStore F) (hs : s.Fits)
    (hargs : MakeOk 16 args.length) :
    InBounds w args s ↔ ¬WrappedKeys args ∧ ¬LongDraw w args s.toMaps := by
  constructor
  · intro hin
    constructor
    · intro hkeys
      exact not_inBounds_of_wrappedKeys hargs hkeys hin
    · intro hdraw
      exact not_inBounds_of_longDraw hdraw hin
  · rintro ⟨hkeys,hdraw⟩ p hp
    rw [dispatch_eq hs hargs hdraw] at hp
    rcases dispatch_panics hs hkeys hdraw hp with rfl | rfl
    · exact ⟨by decide,by decide⟩
    · exact ⟨by decide,by decide⟩

end Router

theorem fits_new : (MemoryStore.new : MemoryStore F).Fits where
  lists := by intro k l h; simp [MemoryStore.new,Maps.empty] at h
  sets := by intro k st h; simp [MemoryStore.new,Maps.empty] at h
  hashes := by intro k hash h; simp [MemoryStore.new,Maps.empty] at h
  zsets := by intro k z h; simp [MemoryStore.new,Maps.empty] at h
  keys := by intro now; exact fits_nil

/-- `RPUSH k a b c`, and then the extremes of `int64` as indexes. -/
theorem inBounds_iff_lrange : ∃ d e : Dispatched Int,
    GoRedis.dispatch (World.plain 0) [utf8 "RPUSH",utf8 "k",utf8 "a",utf8 "b",utf8 "c"]
      MemoryStore.new=.ok d ∧
    InBounds (World.plain 0)
      [utf8 "LRANGE",utf8 "k",utf8 "-9223372036854775808",utf8 "9223372036854775807"] d.store ∧
    dispatch (World.plain 0)
      [utf8 "LRANGE",utf8 "k",utf8 "-9223372036854775808",utf8 "9223372036854775807"] d.store=.ok e ∧
    e.resp=.bulks [utf8 "a",utf8 "b",utf8 "c"] := by
  refine ⟨_,_,rfl,(inBounds_iff _ _ _ ?_ (by decide)).mpr ⟨?_,?_⟩,rfl,rfl⟩
  · refine ⟨Map.forall_of_toList (by decide),Map.forall_of_toList (by decide),
      Map.forall_of_toList (by decide),Map.forall_of_toList (by decide),fun now => ?_⟩
    rw [Maps.Lasting.allKeys_eq (by decide) now 0,Maps.allKeys_eq_sort]
    decide
  · rintro ⟨hc | hc,_⟩
    · exact absurd hc (by decide)
    · exact absurd hc (by decide)
  · rintro ⟨hc,_⟩
    exact absurd hc (by decide)

/-- The largest `int64` as a number of keys, and the least one as a number of draws. -/
theorem numbers_out_of_bounds : (MemoryStore.new : MemoryStore Int).Fits ∧
    dispatch (World.plain 0) [utf8 "ZUNIONSTORE",utf8 "d",utf8 "9223372036854775807",utf8 "k"]
      (MemoryStore.new : MemoryStore Int)=.error .sliceBounds ∧
    ∃ d, GoRedis.dispatch (World.plain 0) [utf8 "SADD",utf8 "s",utf8 "x"]
        (MemoryStore.new : MemoryStore Int)=.ok d ∧
      dispatch (World.plain 0) [utf8 "SRANDMEMBER",utf8 "s",utf8 "-9223372036854775808"] d.store=
        .error .makeLen :=
  ⟨fits_new,rfl,_,rfl,rfl⟩

end Checked
end GoRedis
