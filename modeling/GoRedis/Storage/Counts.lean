import GoRedis.Storage.NoEmpty
import GoRedis.Storage.Remains
import GoRedis.Storage.ScoreUpdates
import GoRedis.Storage.Versions
/-!
# Counting loops

`HSet`, `HDel`, `SAdd`, `SRem`, `ZAdd` and `ZRem` count in their loops what they put in or take
out. The counter and the size of the collection change together.
-/
namespace GoRedis
variable {F : Type}

theorem Map.size_erase {V : Type} {m : Map V} {x : Bytes} (hx : x ∈ m) :
    (m.erase x).size+1=m.size := by
  have hne : m.size ≠ 0 := by
    rw [ne_eq,← Std.ExtTreeMap.eq_empty_iff_size_eq_zero]
    rintro rfl
    exact Std.ExtTreeMap.not_mem_empty hx
  rw [Std.ExtTreeMap.size_erase,if_pos (by simpa using hx)]
  omega

theorem KeySet.size_erase {st : KeySet} {x : Bytes} (hx : x ∈ st) :
    (st.erase x).size+1=st.size := by
  have hne : st.size ≠ 0 := by
    rw [ne_eq,← Std.ExtTreeSet.eq_empty_iff_size_eq_zero]
    rintro rfl
    exact Std.ExtTreeSet.not_mem_empty hx
  rw [Std.ExtTreeSet.size_erase,if_pos (by simpa using hx)]
  omega

theorem foldl_hDelField_size (fields : List Bytes) (acc : Nat × Map Bytes) :
    (fields.foldl hDelField acc).1+(fields.foldl hDelField acc).2.size=acc.1+acc.2.size := by
  apply Loops.foldl_constant (fun acc : Nat × Map Bytes => acc.1+acc.2.size)
  intro acc f
  rw [hDelField]
  split_ifs with hf
  · have := Map.size_erase hf
    dsimp only
    omega
  · rfl

theorem foldl_zRemMember_size (members : List Bytes) (acc : Int × Map F) :
    (members.foldl zRemMember acc).1+(members.foldl zRemMember acc).2.size=acc.1+acc.2.size := by
  apply Loops.foldl_constant (fun acc : Int × Map F => acc.1+acc.2.size)
  intro acc x
  rw [zRemMember]
  split_ifs with hx
  · have := Map.size_erase hx
    dsimp only
    omega
  · rfl

theorem foldl_hSetField_size (fields : List (Bytes × Bytes)) (acc : Nat × Map Bytes) :
    ((fields.foldl hSetField acc).1:Int)-(fields.foldl hSetField acc).2.size=acc.1-acc.2.size := by
  apply Loops.foldl_constant (fun acc : Nat × Map Bytes => (acc.1:Int)-acc.2.size)
  intro acc p
  rw [hSetField,Std.ExtTreeMap.size_insert]
  by_cases hp : p.1 ∈ acc.2
  · rw [if_pos hp,if_pos (by simpa using hp)]
  · rw [if_neg hp,if_neg (by simpa using hp)]
    push_cast
    omega

namespace MemoryStore

theorem foldl_sRemMember_size (members : List Bytes) (acc : Nat × KeySet) :
    (members.foldl sRemMember acc).1+(members.foldl sRemMember acc).2.size=acc.1+acc.2.size := by
  apply Loops.foldl_constant (fun acc : Nat × KeySet => acc.1+acc.2.size)
  intro acc x
  rw [sRemMember]
  split_ifs with hx
  · have := KeySet.size_erase hx
    dsimp only
    omega
  · rfl

theorem foldl_sAddMember_size (members : List Bytes) (acc : Nat × KeySet) :
    ((members.foldl sAddMember acc).1:Int)-(members.foldl sAddMember acc).2.size=
      acc.1-acc.2.size := by
  apply Loops.foldl_constant (fun acc : Nat × KeySet => (acc.1:Int)-acc.2.size)
  intro acc x
  rw [sAddMember]
  split_ifs with hx
  · rfl
  · dsimp only
    rw [Std.ExtTreeSet.size_insert,if_neg (by simpa using hx)]
    push_cast
    omega

end MemoryStore

namespace Maps
variable {m : Maps F} {now : Int} {key : Bytes}

/-- How many members a reader finds in the set; none where there is no set. -/
def setSize (m : Maps F) (now : Int) (key : Bytes) : Nat :=
  ((m.getSet now key).toOption.join.map Std.ExtTreeSet.size).getD 0

/-- How many members a reader finds in the sorted set; none where there is no sorted set. -/
def zsetSize (m : Maps F) (now : Int) (key : Bytes) : Nat :=
  ((m.getZSet now key).toOption.join.map Std.ExtTreeMap.size).getD 0

theorem setSize_of_getSet {ost : Option KeySet} (h : m.getSet now key=.ok ost) :
    m.setSize now key=(ost.getD ∅).size := by
  rw [setSize,h]
  cases ost <;> rfl

theorem zsetSize_of_getZSet {oz : Option (Map F)} (h : m.getZSet now key=.ok oz) :
    m.zsetSize now key=(oz.getD ∅).size := by
  rw [zsetSize,h]
  cases oz <;> rfl

theorem setSize_of_absent (h : m.sets[key]?=none) : m.setSize now key=0 := by
  unfold setSize getSet
  split
  · rfl
  · rw [h]
    rfl
  · rfl

theorem zsetSize_of_absent (h : m.zsets[key]?=none) : m.zsetSize now key=0 := by
  unfold zsetSize getZSet
  split
  · rfl
  · rw [h]
    rfl
  · rfl

end Maps

namespace MemoryStore
variable {s s' : MemoryStore F} {now : Int} {key : Bytes}

theorem typeOf_put {v : Value F}
    (hs' : s'.slot=Function.update s.slot key ((s.slot key).setRow (v.into (s.row key))).bump)
    (hv : v.type ≠ .string) (h : s.typeOf now key=none ∨ s.typeOf now key=some v.type)
    (hexp : s.keyExpiredNonStr now key=false) :
    s'.typeOf now key=some v.type ∧ s'.row key=v.into (s.row key) := by
  have hrow : s'.row key=v.into (s.row key) := row_of_slot hs'
  rw [Maps.typeOf_eq_row] at h ⊢
  rw [hrow]
  exact ⟨Row.typeOf_into_own hv h hexp,rfl⟩

theorem setSize_put {st : KeySet} (hguard : s.setGuard now key=true)
    (hexp : s.keyExpiredNonStr now key=false) :
    ((s.putSet key st).bumpVersion key).setSize now key=st.size := by
  have hput := typeOf_put (slot_bumped (slot_putSet s key st)) (by simp [Value.type])
    (of_decide_eq_true hguard) hexp
  exact Maps.setSize_of_getSet
    (Maps.getSet_eq_some_iff.mpr ⟨hput.1,congrArg Row.set hput.2⟩)

theorem zsetSize_put {z : Map F} (hguard : s.zsetGuard now key=true)
    (hexp : s.keyExpiredNonStr now key=false) :
    ((s.putZSet key z).bumpVersion key).zsetSize now key=z.size := by
  have hput := typeOf_put (slot_bumped (slot_putZSet s key z)) (by simp [Value.type])
    (of_decide_eq_true hguard) hexp
  exact Maps.zsetSize_of_getZSet
    (Maps.getZSet_eq_some_iff.mpr ⟨hput.1,congrArg Row.zset hput.2⟩)

theorem setSize_kept {st st' : KeySet} (hst : s.getSet now key=.ok (some st)) :
    ((s.keepSet key st').bumpVersion key).setSize now key=st'.size := by
  have hkept := kept_set s key st'
  have ht := (Maps.getSet_eq_some_iff.mp hst).1
  by_cases hempty : (Value.set st' : Value F).isEmpty=true
  · have hrow := congrArg Row.set hkept.row
    rw [Row.keep,if_pos hempty] at hrow
    rw [Maps.setSize_of_absent hrow,Std.ExtTreeSet.isEmpty_iff.mp hempty]
    rfl
  · have hfound := typeOf_of_rows hkept.rows (Bool.not_eq_true _ ▸ hempty) (by simp [Value.type]) ht
    exact Maps.setSize_of_getSet
      (Maps.getSet_eq_some_iff.mpr ⟨hfound.1,congrArg Row.set hfound.2⟩)

theorem zsetSize_kept {z z' : Map F} (hz : s.getZSet now key=.ok (some z)) :
    ((s.keepZSet key z').bumpVersion key).zsetSize now key=z'.size := by
  have hkept := kept_zset s key z'
  have ht := (Maps.getZSet_eq_some_iff.mp hz).1
  by_cases hempty : (Value.zset z' : Value F).isEmpty=true
  · have hrow := congrArg Row.zset hkept.row
    rw [Row.keep,if_pos hempty] at hrow
    rw [Maps.zsetSize_of_absent hrow,Std.ExtTreeMap.isEmpty_iff.mp hempty]
    rfl
  · have hfound := typeOf_of_rows hkept.rows (Bool.not_eq_true _ ▸ hempty) (by simp [Value.type]) ht
    exact Maps.zsetSize_of_getZSet
      (Maps.getZSet_eq_some_iff.mpr ⟨hfound.1,congrArg Row.zset hfound.2⟩)

theorem sAdd_size {xs : List Bytes} {n : Nat} (hexp : s.keyExpiredNonStr now key=false)
    (h : s.sAdd now key xs=.ok (n,s')) : (n:Int)=s'.setSize now key-s.setSize now key := by
  rw [sAdd] at h
  split_ifs at h with hguard
  cases h
  have hbefore := Maps.setSize_of_getSet
    (Maps.getSet_of_guard (of_decide_eq_true hguard) hexp)
  have hsize := foldl_sAddMember_size xs (0,s.sets.getD key ∅)
  rw [setSize_put hguard hexp,hbefore,← Std.ExtTreeMap.getD_eq_getD_getElem?]
  dsimp only at hsize
  omega

theorem sRem_size {xs : List Bytes} {n : Nat} (h : s.sRem now key xs=.ok (n,s')) :
    (n:Int)=s.setSize now key-s'.setSize now key := by
  rw [sRem] at h
  split at h
  · cases h
  · cases h
    omega
  · rename_i st hst
    cases h
    have hsize := foldl_sRemMember_size xs (0,st)
    rw [setSize_kept hst,Maps.setSize_of_getSet hst,Option.getD_some]
    dsimp only at hsize
    omega

theorem zRem_size {xs : List Bytes} {n : Int} (h : s.zRem now key xs=.ok (n,s')) :
    n=s.zsetSize now key-s'.zsetSize now key := by
  rw [zRem] at h
  split at h
  · cases h
  · cases h
    omega
  · rename_i z hz
    cases h
    have hsize := foldl_zRemMember_size xs (0,z)
    rw [zsetSize_kept hz,Maps.zsetSize_of_getZSet hz,Option.getD_some]
    dsimp only at hsize
    omega

theorem zAdd_size [Float64 F] {ms : List (ZMember F)} {fl : ZAddFlags} {n : Int}
    (hch : fl.ch=false) (hexp : s.keyExpiredNonStr now key=false)
    (h : s.zAdd now key ms fl=.ok (n,s')) : n=s'.zsetSize now key-s.zsetSize now key := by
  rw [zAdd] at h
  split_ifs at h with hguard
  cases h
  have hbefore := Maps.zsetSize_of_getZSet
    (Maps.getZSet_of_guard (of_decide_eq_true hguard) hexp)
  have hsize := foldl_zAddMember_size hch ms (0,s.zsets.getD key ∅)
  rw [zsetSize_put hguard hexp,hbefore,← Std.ExtTreeMap.getD_eq_getD_getElem?]
  dsimp only at hsize
  omega

theorem hLen_of_expiry {m : Maps F} (hexp : m.keyExpiredNonStr now key=false) :
    m.hLen now key=(m.hashes.getD key ∅).size := by
  rw [Maps.hLen,Maps.liveHash,hexp,Std.ExtTreeMap.getD_eq_getD_getElem?]
  cases m.hashes[key]? <;> rfl

theorem hSet_size (fields : Map Bytes) (hexp : s.keyExpiredNonStr now key=false) :
    ((s.hSet key fields).1:Int)=(s.hSet key fields).2.hLen now key-s.hLen now key := by
  have hafter : (s.hSet key fields).2.keyExpiredNonStr now key=false := hexp
  have hsize := foldl_hSetField_size fields.toList (0,s.hashes.getD key ∅)
  have hhash : (s.hSet key fields).2.hashes.getD key ∅=
      (fields.toList.foldl hSetField (0,s.hashes.getD key ∅)).2 := by
    simp [hSet]
  have hcount : (s.hSet key fields).1=
      (fields.toList.foldl hSetField (0,s.hashes.getD key ∅)).1 := rfl
  rw [hLen_of_expiry hexp,hLen_of_expiry hafter,hhash,hcount]
  dsimp only at hsize
  omega

theorem hDel_size (s : MemoryStore F) (now : Int) (key : Bytes) (fields : List Bytes) :
    ((s.hDel now key fields).1:Int)=s.hLen now key-(s.hDel now key fields).2.hLen now key := by
  rw [hDel]
  cases hh : s.liveHash now key with
  | none => simp
  | some h =>
    have hexp : s.keyExpiredNonStr now key=false := by
      by_contra hexp
      simp [Maps.liveHash,hexp] at hh
    have hlen : s.hLen now key=h.size := by
      rw [Maps.hLen,hh]
      rfl
    have hsize := foldl_hDelField_size fields (0,h)
    dsimp only at hsize ⊢
    rw [hlen]
    split_ifs with hempty
    · have hzero : (fields.foldl hDelField (0,h)).2.size=0 := by
        rw [Std.ExtTreeMap.isEmpty_iff.mp hempty]
        rfl
      rw [hLen_of_expiry (by simp [Maps.keyExpiredNonStr,expired])]
      simp only [Std.ExtTreeMap.getD_erase_self]
      have hnone : (∅ : Map Bytes).size=0 := rfl
      omega
    · rw [hLen_of_expiry (by exact hexp)]
      simp only [bumpVersion_toMaps,Std.ExtTreeMap.getD_insert_self]
      omega

theorem typeOf_deleted (s : MemoryStore F) (now : Int) (k k' : Bytes) :
    ((s.deleteKey k).bumpVersion k).typeOf now k'=if k'=k then none else s.typeOf now k' := by
  rw [bumpVersion_toMaps,deleteKey_toMaps,Maps.typeOf_eq_row,Maps.typeOf_eq_row,Maps.row_deleteKey]
  by_cases hk : k'=k
  · rw [if_pos hk,if_pos hk.symm,Row.typeOf_absent]
  · rw [if_neg hk,if_neg (Ne.symm hk)]

theorem typeOf_del (s : MemoryStore F) (now : Int) (keys : List Bytes) (k : Bytes) :
    (s.del now keys).2.typeOf now k=if k ∈ keys then none else s.typeOf now k := by
  induction keys generalizing s with
  | nil => rfl
  | cons k' keys ih =>
    rw [del]
    by_cases hgone : s.typeOf now k'=none
    · rw [if_pos hgone,ih]
      by_cases hk : k=k'
      · subst hk
        simp [hgone]
      · simp [hk]
    · rw [if_neg hgone]
      dsimp only
      rw [ih,typeOf_deleted]
      by_cases hk : k=k' <;> simp [hk]

theorem del_count (s : MemoryStore F) (now : Int) (keys : List Bytes) :
    (s.del now keys).1=(keys.toFinset.filter fun k => s.typeOf now k ≠ none).card := by
  induction keys generalizing s with
  | nil => rfl
  | cons k keys ih =>
    rw [del,List.toFinset_cons,Finset.filter_insert]
    by_cases hk : s.typeOf now k=none
    · rw [if_pos hk,if_neg (not_not.mpr hk)]
      exact ih s
    · -- the key is deleted, so the rest of the loop does not find it again
      rw [if_neg hk,if_pos hk]
      dsimp only
      have hrest : (keys.toFinset.filter fun k' =>
          ((s.deleteKey k).bumpVersion k).typeOf now k' ≠ none)=
          (keys.toFinset.filter fun k' => s.typeOf now k' ≠ none).erase k := by
        ext k'
        rw [Finset.mem_erase,Finset.mem_filter,Finset.mem_filter,typeOf_deleted]
        by_cases hk' : k'=k <;> simp [hk']
      rw [ih,hrest,← Finset.card_insert_of_notMem (Finset.notMem_erase k _)]
      congr 1
      ext k'
      simp only [Finset.mem_insert,Finset.mem_erase]
      tauto

end MemoryStore
end GoRedis
