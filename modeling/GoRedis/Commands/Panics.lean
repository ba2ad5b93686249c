import GoRedis.Persistence.Reachable
/-!
# The request that ends the process

With numbers that fit in 32 bits, no operation of the store panics on a reachable store but one:
`ZCard` follows the pointer of a sorted set that is not there. `ZCARD` calls it for any key, and
`OBJECT ENCODING` for one that was a sorted set a moment before.
-/
namespace GoRedis
variable {F : Type} {w : World} {args : List Bytes} {s : MemoryStore F}

namespace Maps
variable {m : Maps F} {now : Int} {key : Bytes}

theorem zsets_of_typeOf (h : m.typeOf now key=some .zset) : ∃ z, m.zsets[key]?=some z := by
  have hmem : key ∈ m.zsets := typeOf_holds h
  exact ⟨_,Std.ExtTreeMap.getElem?_eq_some_getElem hmem⟩

theorem zCard_error_iff : (∃ p, m.zCard now key=.error p) ↔ m.typeOf now key=none := by
  unfold zCard getZSet
  constructor
  · rintro ⟨p,h⟩
    by_contra hne
    obtain ⟨t,ht⟩ := Option.ne_none_iff_exists'.mp hne
    cases t
    case zset =>
      obtain ⟨z,hz⟩ := zsets_of_typeOf ht
      simp [ht,hz] at h
    all_goals simp [ht] at h
  · intro h
    simp [h]

theorem zCard_panics {p : Panic} (h : m.zCard now key=.error p) : p=.nilDereference := by
  unfold zCard at h
  split at h
  all_goals cases h
  rfl

theorem getSet_eq_some {st : KeySet} (h : m.getSet now key=.ok (some st)) :
    m.sets[key]?=some st := by
  unfold getSet at h
  split at h
  · cases h
  · exact Except.ok.inj h
  · cases h

/-- A draw does not panic: a negative count is not too large, and a set that is there is not
empty. -/
theorem sRandMember_total (hm : m.NoEmpty) (w : World) (key : Bytes) {count : Int}
    (hcount : |count| < 2^31) : ∃ r, m.sRandMember w key count=.ok r := by
  unfold sRandMember
  split
  · exact ⟨_,rfl⟩
  · exact ⟨_,rfl⟩
  · rename_i st hst
    have hbound := abs_lt.mp hcount
    have hwrap : wrap64 (-count)= -count := wrap64_of_inInt64 (by unfold InInt64; omega)
    have hne : st.toList ≠ [] := by
      intro he
      have hempty : st=∅ := Std.ExtTreeSet.eq_empty_iff_forall_not_mem.mpr fun x hx =>
        List.not_mem_nil (he ▸ Std.ExtTreeSet.mem_toList.mpr hx)
      exact hm.sets key (hempty ▸ getSet_eq_some hst)
    have hall : w.rangeOrder st.toList ≠ [] := by
      intro he
      have hperm := w.rangeOrder_perm st.toList
      rw [he] at hperm
      exact hne hperm.nil_eq.symm
    dsimp only
    split_ifs with h₁ h₂ h₃ h₄
    · exact ⟨_,rfl⟩
    · exact ⟨_,rfl⟩
    · exact ⟨_,rfl⟩
    · exact ⟨_,rfl⟩
    · exfalso
      apply h₄
      rw [hwrap]
      unfold MakeOk maxAlloc
      omega

end Maps

/-- The numbers among the arguments fit in 32 bits. -/
def SmallNumbers (args : List Bytes) : Prop := ∀ a ∈ args, ∀ n ∈ parseInt a, |n| < 2^31

instance : DecidablePred SmallNumbers := fun args =>
  inferInstanceAs (Decidable (∀ a ∈ args, ∀ n ∈ parseInt a, |n| < 2^31))

theorem handleRename_total (w : World) (args : List Bytes) (s : MemoryStore F) :
    ∃ p, handleRename w args s=.ok p := by
  unfold handleRename
  split
  · split
    · exact ⟨_,rfl⟩
    · rename_i hsame
      obtain ⟨r,hr⟩ := s.rename_total w.now hsame
      rw [hr]
      exact ⟨_,rfl⟩
  · exact ⟨_,rfl⟩

theorem handlePop_total (name : String) (cut : Nat → List Bytes → List Bytes × List Bytes)
    (w : World) (args : List Bytes) (s : MemoryStore F) :
    ∃ p, handlePop name (MemoryStore.popList cut) w args s=.ok p := by
  obtain ⟨r,_,heq⟩ | ⟨key,count,withCount,hargs,heq⟩ :=
    handlePop_cases name (MemoryStore.popList cut) w args
  · exact ⟨_,heq s⟩
  · obtain ⟨r,hr⟩ := MemoryStore.popList_total cut s w.now key hargs.nonneg
    rw [heq,hr]
    exact ⟨_,rfl⟩

theorem handleSPop_total (w : World) (args : List Bytes) (s : MemoryStore F) :
    ∃ p, handleSPop w args s=.ok p := by
  obtain ⟨r,_,heq⟩ | ⟨key,count,withCount,hargs,heq⟩ := handleSPop_cases (F := F) w args
  · exact ⟨_,heq s⟩
  · obtain ⟨r,hr⟩ := s.sPop_total w key hargs.nonneg
    rw [heq,hr]
    exact ⟨_,rfl⟩

theorem handleSRandMember_total {m : Maps F} (hm : m.NoEmpty) (w : World)
    (hargs : SmallNumbers args) : ∃ r, handleSRandMember w args m=.ok r := by
  obtain ⟨r,_,heq⟩ | ⟨key,count,withCount,hcount,heq⟩ := handleSRandMember_cases w args m
  · exact ⟨_,heq⟩
  · have hsmall : |count| < 2^31 := by
      rcases hcount with rfl | ⟨n,hn,hparse⟩
      · decide
      · exact hargs n hn count hparse
    obtain ⟨r,hr⟩ := Maps.sRandMember_total hm w key hsmall
    rw [heq,hr]
    exact ⟨_,rfl⟩

theorem objectEncoding_error_iff (w : World) (key : Bytes) (m n : Maps F) :
    (∃ p, objectEncoding w key m n=.error p) ↔
      m.typeOf w.now key=some .zset ∧ n.typeOf w.later key=none := by
  rw [← Maps.zCard_error_iff]
  unfold objectEncoding Maps.type
  constructor
  · rintro ⟨p,h⟩
    split at h
    case h_6 ht =>
      refine ⟨ht,?_⟩
      split at h
      · exact ⟨_,‹_›⟩
      · cases h
    all_goals cases h
  · rintro ⟨ht,p,hp⟩
    rw [ht]
    simp only [hp]
    exact ⟨p,rfl⟩

theorem objectEncoding_panics {key : Bytes} {m n : Maps F} {p : Panic}
    (h : objectEncoding w key m n=.error p) : p=.nilDereference := by
  unfold objectEncoding at h
  split at h
  case h_6 =>
    split at h
    · rename_i q hq
      cases h
      exact Maps.zCard_panics hq
    · cases h
  all_goals cases h

theorem handleObject_error_iff (w : World) (args : List Bytes) (m : Maps F) (p : Panic) :
    handleObject w args m=.error p ↔
      ∃ name sub key, args=[name,sub,key] ∧ toUpper sub=utf8 "ENCODING" ∧
        objectEncoding w key m m=.error p := by
  constructor
  · intro h
    unfold handleObject at h
    split at h
    · rename_i name sub rest
      split_ifs at h with henc
      · split at h
        · exact ⟨name,sub,_,rfl,henc,h⟩
        · cases h
    · cases h
  · rintro ⟨name,sub,key,rfl,henc,h⟩
    simp only [handleObject,henc,if_true]
    exact h

theorem handleObject_panics_iff (w : World) (args : List Bytes) (m : Maps F) :
    (∃ p, handleObject w args m=.error p) ↔ ∃ name sub key, args=[name,sub,key] ∧
      toUpper sub=utf8 "ENCODING" ∧ m.typeOf w.now key=some .zset ∧
      m.typeOf w.later key=none := by
  constructor
  · rintro ⟨p,hp⟩
    obtain ⟨name,sub,key,hargs,henc,h⟩ := (handleObject_error_iff w args m p).mp hp
    exact ⟨name,sub,key,hargs,henc,(objectEncoding_error_iff w key m m).mp ⟨p,h⟩⟩
  · rintro ⟨name,sub,key,hargs,henc,hlost⟩
    obtain ⟨p,h⟩ := (objectEncoding_error_iff w key m m).mpr hlost
    exact ⟨p,(handleObject_error_iff w args m p).mpr ⟨name,sub,key,hargs,henc,h⟩⟩

theorem handleZCard_error_iff (w : World) (args : List Bytes) (m : Maps F) :
    (∃ p, handleZCard w args m=.error p) ↔
      ∃ name key, args=[name,key] ∧ m.typeOf w.now key=none := by
  unfold handleZCard
  split
  · rename_i name key
    have hiff : (∃ p, m.zCard w.now key=.error p) ↔ m.typeOf w.now key=none :=
      Maps.zCard_error_iff
    constructor
    · rintro ⟨p,h⟩
      refine ⟨name,key,rfl,hiff.mp ?_⟩
      split at h
      · exact ⟨_,‹_›⟩
      · cases h
    · rintro ⟨_,_,⟨⟩,hnone⟩
      obtain ⟨p,hp⟩ := hiff.mpr hnone
      rw [hp]
      exact ⟨p,rfl⟩
  · rename_i hshape
    constructor
    · rintro ⟨p,h⟩
      cases h
    · rintro ⟨name,key,rfl,_⟩
      exact absurd rfl (hshape name key)

theorem handleZCard_panics {m : Maps F} {p : Panic} (h : handleZCard w args m=.error p) :
    p=.nilDereference := by
  unfold handleZCard at h
  split at h
  · split at h
    · rename_i q hq
      cases h
      exact Maps.zCard_panics hq
    · cases h
  · cases h

section
variable [Float64 F]

theorem handleZPop_total (name : String) (order : List (ZMember F) → List (ZMember F))
    (w : World) (args : List Bytes) (s : MemoryStore F) :
    ∃ p, handleZPop name (MemoryStore.popZSet order) w args s=.ok p := by
  obtain ⟨r,_,heq⟩ | ⟨key,count,withCount,hargs,heq⟩ :=
    handleZPop_cases name (MemoryStore.popZSet order) w args
  · exact ⟨_,heq s⟩
  · obtain ⟨r,hr⟩ := MemoryStore.popZSet_total order s w.now key hargs.nonneg
    rw [heq,hr]
    exact ⟨_,rfl⟩

theorem handleZSetStore_total (name : String) (op : ZStore F) (w : World)
    (hargs : SmallNumbers args) (s : MemoryStore F) :
    ∃ p, handleZSetStore name op w args s=.ok p := by
  unfold handleZSetStore
  split
  · rename_i cmd dst n a rest
    split
    · exact ⟨_,rfl⟩
    · rename_i numkeys hnum
      obtain ⟨hparse,hpos⟩ := Option.filter_eq_some_iff.mp hnum
      have hsmall := abs_lt.mp (hargs n (by simp) numkeys hparse)
      have hone : 1 ≤ numkeys := by simpa using hpos
      have hwrap : wrap64 (3+numkeys)=3+numkeys := wrap64_of_inInt64 (by unfold InInt64; omega)
      rw [hwrap]
      split_ifs
      · exact ⟨_,rfl⟩
      · omega
      · dsimp only
        split
        · exact ⟨_,rfl⟩
        · exact ⟨_,rfl⟩
  · exact ⟨_,rfl⟩

theorem execute_total_of_ne (w : World) {c : WriteCommand} (hunion : c ≠ .zunionstore)
    (hinter : c ≠ .zinterstore) (args : List Bytes) (s : MemoryStore F) :
    ∃ p, execute w c args s=.ok p := by
  cases c
  case lpop => exact handlePop_total _ _ w args s
  case rpop => exact handlePop_total _ _ w args s
  case spop => exact handleSPop_total w args s
  case zpopmin => exact handleZPop_total _ _ w args s
  case zpopmax => exact handleZPop_total _ _ w args s
  case zunionstore => exact absurd rfl hunion
  case zinterstore => exact absurd rfl hinter
  case rename => exact handleRename_total w args s
  all_goals exact ⟨_,rfl⟩

theorem execute_total (w : World) (c : WriteCommand) (hargs : SmallNumbers args)
    (s : MemoryStore F) : ∃ p, execute w c args s=.ok p := by
  by_cases hunion : c=.zunionstore
  · subst hunion
    exact handleZSetStore_total _ _ w hargs s
  by_cases hinter : c=.zinterstore
  · subst hinter
    exact handleZSetStore_total _ _ w hargs s
  exact execute_total_of_ne w hunion hinter args s

theorem answer_total_of_ne (w : World) {c : ReadCommand} (hcard : c ≠ .zcard)
    (hobject : c ≠ .object) (hdraw : c ≠ .srandmember) (args : List Bytes) (m : Maps F) :
    ∃ r, answer w c args m=.ok r := by
  cases c
  case zcard => exact absurd rfl hcard
  case object => exact absurd rfl hobject
  case srandmember => exact absurd rfl hdraw
  all_goals exact ⟨_,rfl⟩

theorem answer_total (w : World) {c : ReadCommand} (hcard : c ≠ .zcard) (hobject : c ≠ .object)
    (hargs : SmallNumbers args) {m : Maps F} (hm : m.NoEmpty) : ∃ r, answer w c args m=.ok r := by
  by_cases hdraw : c=.srandmember
  · subst hdraw
    exact handleSRandMember_total hm w hargs
  · exact answer_total_of_ne w hcard hobject hdraw args m

/-- The request is `ZCARD` of a key that does not exist. -/
def CountsMissing (w : World) (args : List Bytes) (m : Maps F) : Prop :=
  commandOf args=some (.read .zcard) ∧
    ∃ name key, args=[name,key] ∧ m.typeOf w.now key=none

/-- The request is `OBJECT ENCODING` of a sorted set whose deadline passes between the two store
calls. -/
def CountsLost (w : World) (args : List Bytes) (m : Maps F) : Prop :=
  commandOf args=some (.read .object) ∧
    ∃ name sub key, args=[name,sub,key] ∧ toUpper sub=utf8 "ENCODING" ∧
      m.typeOf w.now key=some .zset ∧ m.typeOf w.later key=none

/-- On a reachable store and with small numbers, the request that panics counts a sorted set that
is not there. If others write between the two store calls of `OBJECT ENCODING`, it panics exactly
if the sorted set is gone by the second. -/
theorem dispatch_panics_iff (w : World) (args : List Bytes) (s : MemoryStore F)
    (hs : Reachable s) (hargs : SmallNumbers args) :
    ((∃ p, dispatch w args s=.error p) ↔
        CountsMissing w args s.toMaps ∨ CountsLost w args s.toMaps) ∧
      ∀ (n : Maps F) key, (∃ p, objectEncoding w key s.toMaps n=.error p) ↔
        s.typeOf w.now key=some .zset ∧ n.typeOf w.later key=none := by
  refine ⟨?_,fun n key => objectEncoding_error_iff w key s.toMaps n⟩
  unfold CountsMissing CountsLost
  cases hc : commandOf args with
  | none =>
    cases args with
    | nil => simp [dispatch]
    | cons name rest => simp [dispatch_unknown rest hc]
  | some c =>
    cases c with
    | write c =>
      obtain ⟨p,hp⟩ := execute_total w c hargs s
      simp [dispatch_write hc,hp,Except.map]
    | read c =>
      by_cases hz : c=.zcard
      · subst hz
        have hiff := handleZCard_error_iff w args s.toMaps
        simp only [dispatch_read hc,Go.map_eq_error,answer]
        simpa using hiff
      by_cases ho : c=.object
      · subst ho
        have hiff := handleObject_panics_iff w args s.toMaps
        simp only [dispatch_read hc,Go.map_eq_error,answer]
        simpa using hiff
      · obtain ⟨r,hr⟩ := answer_total w hz ho hargs hs.noEmpty
        simp [dispatch_read hc,hr,Except.map,hz,ho]

end

/-- A request that asks for the type before the deadline of a sorted set and counts it after. -/
def acrossDeadline : World :=
  {World.plain 0 with later := 2000000, now_le_later := by decide}

/-- `ZADD z 1 a` and `PEXPIRE z 1`: one request counts the sorted set in time, and another one
loses it. -/
theorem dispatch_panics_iff_deadline : ∃ d e : Dispatched Int,
    dispatch (World.plain 0) [utf8 "ZADD",utf8 "z",utf8 "1",utf8 "a"] MemoryStore.new=.ok d ∧
    dispatch (World.plain 0) [utf8 "PEXPIRE",utf8 "z",utf8 "1"] d.store=.ok e ∧
    (¬∃ p, dispatch acrossDeadline [utf8 "ZCARD",utf8 "z"] e.store=.error p) ∧
    ∃ p, dispatch acrossDeadline [utf8 "OBJECT",utf8 "ENCODING",utf8 "z"] e.store=.error p := by
  have hs := Reachable.dispatch (World.plain 0) [utf8 "PEXPIRE",utf8 "z",utf8 "1"]
    (Reachable.dispatch (F := Int) (World.plain 0) [utf8 "ZADD",utf8 "z",utf8 "1",utf8 "a"] .new rfl)
    rfl
  refine ⟨_,_,rfl,rfl,?_,?_⟩
  · rw [(dispatch_panics_iff _ _ _ hs (by decide)).1]
    rintro (⟨_,name,key,hargs,hnone⟩ | ⟨hc,_⟩)
    · cases hargs
      exact absurd hnone (by decide)
    · exact absurd hc (by decide)
  · apply (dispatch_panics_iff _ _ _ hs (by decide)).1.mpr
    exact .inr ⟨by decide,_,_,_,rfl,by decide,by decide,by decide⟩

/-- `ZCARD` of a missing key on a server that has just started. -/
theorem zcard_missing_panics : Reachable (MemoryStore.new : MemoryStore Int) ∧
    SmallNumbers [utf8 "ZCARD",utf8 "k"] ∧
    dispatch (World.plain 0) [utf8 "ZCARD",utf8 "k"] (MemoryStore.new : MemoryStore Int)=
      .error .nilDereference :=
  ⟨.new,by decide,rfl⟩

end GoRedis
