import GoRedis.Storage.Edits
import GoRedis.Storage.Ranges
/-!
# Index operations of lists

`LRange`, `LIndex`, `LSet` and `LTrim` read the same positions; `LRem` takes out occurrences of a
value from one of the ends.
-/
namespace GoRedis
variable {F : Type} {m : Maps F} {s : MemoryStore F} {now : Int} {key : Bytes}
  {ol : Option (List Bytes)}

theorem clampRange_bounds {start stop : Int} {n : Nat} (hstart : InInt64 start)
    (hstop : InInt64 stop) (hn : InInt64 n) :
    (start < 0 → InInt64 (n+start)) ∧ (stop < 0 → InInt64 (n+stop)) ∧ InInt64 ((n:Int)-1) ∧
      0 ≤ (clampRange start stop n).1 ∧ (clampRange start stop n).2 < n := by
  rw [clampRange_eq]
  unfold InInt64 Slices.first Slices.last at *
  omega

theorem normaliseIndex_eq (i : Int) (n : Nat) : normaliseIndex i n=
    if 0 ≤ Slices.position i n ∧ Slices.position i n < n then some (Slices.position i n).toNat
    else none := by
  have hpos : (if i < 0 then (n:Int)+i else i)=Slices.position i n := rfl
  unfold normaliseIndex
  dsimp only
  rw [hpos]
  split_ifs with hout hin hin
  · omega
  · rfl
  · rfl
  · omega

theorem Maps.lRange_eq (hl : m.getList now key=.ok ol) (start stop : Int) :
    m.lRange now key start stop=.ok (Slices.range start stop (ol.getD [])) := by
  simp only [lRange,hl,Except.map]
  by_cases hnil : ol.getD []=[]
  · rw [if_pos hnil,hnil]
    rfl
  · rw [if_neg hnil,slice_clampRange]

theorem Maps.lIndex_eq (hl : m.getList now key=.ok ol) (i : Int) :
    ∃ v : Option Bytes, m.lIndex now key i=.ok v ∧ Slices.range i i (ol.getD [])=v.toList := by
  simp only [lIndex,hl,Except.map,normaliseIndex_eq,Slices.range_self]
  refine ⟨_,rfl,?_⟩
  by_cases hpos : 0 ≤ Slices.position i (ol.getD []).length
  · by_cases hlt : Slices.position i (ol.getD []).length < (ol.getD []).length
    · rw [if_pos hpos,if_pos ⟨hpos,hlt⟩]
      rfl
    · rw [if_pos hpos,if_neg (fun h => hlt h.2),List.getElem?_eq_none (by omega)]
      rfl
  · rw [if_neg hpos,if_neg (fun h => hpos h.1)]
    rfl

namespace Row
variable {r : Row F}

theorem of_typeOf_list (h : r.typeOf now=some .list) :
    ¬(r.string.filter fun e => !expired now e.expiresAt).isSome ∧ expired now r.expiry=false ∧
      r.hash=none := by
  refine ⟨fun hstr => ?_,not_expired_of_typeOf h nofun,?_⟩
  · rw [typeOf,if_pos hstr] at h
    cases h
  · rw [← Option.not_isSome_iff_eq_none]
    intro hhash
    unfold typeOf at h
    split_ifs at h <;> cases h

theorem typeOf_list (h : r.typeOf now=some .list) (l : List Bytes) :
    ({ r with list := some l } : Row F).typeOf now=some .list := by
  obtain ⟨hstr,hexp,hhash⟩ := of_typeOf_list h
  simp only [typeOf,if_neg hstr,hexp,hhash]
  rfl

theorem typeOf_drop_list (h : r.typeOf now=some .list) : (r.drop .list).typeOf now=
    if r.set.isSome then some .set else if r.zset.isSome then some .zset else none := by
  obtain ⟨hstr,hexp,hhash⟩ := of_typeOf_list h
  simp only [drop,typeOf,if_neg hstr,hhash]
  rfl

end Row

namespace MemoryStore

theorem lTrim_eq (ht : s.typeOf now key=some .list) (start stop : Int) :
    s.lTrim now key start stop=
      .ok ((s.keepList key (Slices.range start stop (s.lists.getD key []))).bumpVersion key) := by
  rw [lTrim,ht]
  dsimp only
  rw [keepList]
  have hcut := slice_clampRange start stop (s.lists.getD key [])
  have hnil : Slices.range start stop (s.lists.getD key [])=[] ↔ _ := Slices.range_eq_nil_iff
  rw [clampRange_eq] at hcut ⊢
  split_ifs with hempty hrange hrange
  · rfl
  · exact absurd (hnil.mpr hempty) hrange
  · exact absurd (hnil.mp hrange) hempty
  · rw [if_neg hempty] at hcut
    rw [hcut]

theorem row_putList_bumped (s : MemoryStore F) (key : Bytes) (l : List Bytes) :
    ((s.putList key l).bumpVersion key).toMaps.row key=
      { s.toMaps.row key with list := some l } := row_of_slot (slot_bumped (slot_putList s key l))

theorem row_dropList_bumped (s : MemoryStore F) (key : Bytes) :
    ((s.dropList key).bumpVersion key).toMaps.row key=(s.toMaps.row key).drop .list :=
  row_of_slot (slot_bumped (slot_dropList s key))

theorem slot_keepList_of_ne {k : Bytes} (h : k ≠ key) (l : List Bytes) :
    ((s.keepList key l).bumpVersion key).slot k=s.slot k := by
  unfold keepList
  split_ifs
  · rw [slot_bumped (slot_dropList s key),Function.update_of_ne h]
  · rw [slot_bumped (slot_putList s key l),Function.update_of_ne h]

theorem getList_putList (ht : s.typeOf now key=some .list) (l : List Bytes) :
    ((s.putList key l).bumpVersion key).getList now key=.ok (some l) := by
  rw [Maps.typeOf_eq_row] at ht
  have hrow := row_putList_bumped s key l
  have hlist : ((s.putList key l).bumpVersion key).lists[key]?=some l := congrArg Row.list hrow
  rw [Maps.getList,Maps.typeOf_eq_row,hrow,Row.typeOf_list ht,hlist]

theorem typeOf_dropList (ht : s.typeOf now key=some .list) :
    ((s.dropList key).bumpVersion key).typeOf now key=
      if key ∈ s.sets then some .set else if key ∈ s.zsets then some .zset else none := by
  rw [Maps.typeOf_eq_row] at ht
  rw [Maps.typeOf_eq_row,row_dropList_bumped,Row.typeOf_drop_list ht]
  simp only [Std.ExtTreeMap.mem_iff_isSome_getElem?]
  rfl

theorem lSet_ok {i : Int} {v : Bytes} {s' : MemoryStore F} (h : s.lSet now key i v=.ok s') :
    s.typeOf now key=some .list ∧ 0 ≤ Slices.position i (s.lists.getD key []).length ∧
      Slices.position i (s.lists.getD key []).length < (s.lists.getD key []).length ∧
      s'=(s.putList key ((s.lists.getD key []).set
        (Slices.position i (s.lists.getD key []).length).toNat v)).bumpVersion key := by
  rw [lSet] at h
  rcases ht : s.typeOf now key with _ | t
  · rw [ht] at h
    cases h
  · by_cases hlist : t=.list
    · subst hlist
      rw [ht] at h
      dsimp only at h
      rw [normaliseIndex_eq] at h
      by_cases hin : 0 ≤ Slices.position i (s.lists.getD key []).length ∧
          Slices.position i (s.lists.getD key []).length < (s.lists.getD key []).length
      · rw [if_pos hin] at h
        cases h
        exact ⟨rfl,hin.1,hin.2,rfl⟩
      · rw [if_neg hin] at h
        cases h
    · have hwrong := lSet_wrongType ht hlist i v
      rw [lSet,ht] at hwrong
      rw [ht,hwrong] at h
      cases h

end MemoryStore

/-- The list without the first `k` occurrences of a value. -/
def eraseFirst (v : Bytes) (k : Nat) (l : List Bytes) : List Bytes := (fun l => l.erase v)^[k] l

@[simp] theorem eraseFirst_zero (v : Bytes) (l : List Bytes) : eraseFirst v 0 l=l := rfl

theorem eraseFirst_cons_self (v : Bytes) (k : Nat) (l : List Bytes) :
    eraseFirst v (k+1) (v::l)=eraseFirst v k l := by
  rw [eraseFirst,Function.iterate_succ_apply,List.erase_cons_head,eraseFirst]

theorem eraseFirst_cons_ne {u v : Bytes} (h : u ≠ v) (k : Nat) (l : List Bytes) :
    eraseFirst v k (u::l)=u::eraseFirst v k l := by
  induction k generalizing l with
  | zero => rfl
  | succ k ih =>
    rw [eraseFirst,Function.iterate_succ_apply,List.erase_cons_tail (by simpa using h)]
    exact ih _

/-- What `LREM` is for: how many occurrences go, and the list without them. -/
def withoutOccurrences (count : Int) (v : Bytes) (l : List Bytes) : Nat × List Bytes :=
  if count=0 then (l.count v,l.filter fun u => u ≠ v)
  else if 0 < count then
    (min count.natAbs (l.count v),eraseFirst v (min count.natAbs (l.count v)) l)
  else
    (min count.natAbs (l.count v),(eraseFirst v (min count.natAbs (l.count v)) l.reverse).reverse)

theorem lRemLoop_bounded (v : Bytes) (bound : Int) (removed : Nat) (l : List Bytes) :
    lRemLoop v (fun r => (r:Int) < bound) removed l=
      (removed+min (bound-removed).toNat (l.count v),
        eraseFirst v (min (bound-removed).toNat (l.count v)) l) := by
  induction l generalizing removed with
  | nil => simp [lRemLoop,eraseFirst]
  | cons u l ih =>
    rw [lRemLoop]
    by_cases hu : u=v
    · subst hu
      rw [List.count_cons_self]
      by_cases hmore : (removed:Int) < bound
      · have hmin : min (bound-removed).toNat (l.count u+1)=
            min (bound-(removed+1:Nat)).toNat (l.count u)+1 := by omega
        rw [if_pos ⟨rfl,by simpa using hmore⟩,ih,hmin,eraseFirst_cons_self]
        congr 1
        omega
      · have hfull : (bound-removed).toNat=0 := by omega
        rw [if_neg (by simp [hmore]),ih,hfull]
        simp
    · rw [if_neg (fun h => hu h.1),ih,List.count_cons_of_ne hu]
      dsimp only
      rw [eraseFirst_cons_ne hu]

theorem lRemLoop_all (v : Bytes) (removed : Nat) (l : List Bytes) :
    lRemLoop v (fun _ => true) removed l=(removed+l.count v,l.filter fun u => u ≠ v) := by
  induction l generalizing removed with
  | nil => simp [lRemLoop]
  | cons u l ih =>
    rw [lRemLoop]
    by_cases hu : u=v
    · subst hu
      rw [if_pos ⟨rfl,rfl⟩,ih,List.count_cons_self,List.filter_cons_of_neg (by simp)]
      congr 1
      omega
    · rw [if_neg (fun h => hu h.1),ih,List.count_cons_of_ne hu,
        List.filter_cons_of_pos (by simpa using hu)]

theorem lRemSplit_eq {count : Int} (hc : InInt64 count) (hmin : count ≠ -2^63) (v : Bytes)
    (l : List Bytes) : lRemSplit l count v=withoutOccurrences count v l := by
  unfold lRemSplit withoutOccurrences
  by_cases hzero : count=0
  · subst hzero
    simp only [le_refl,if_true,true_or,decide_true,lRemLoop_all,Nat.zero_add]
  · rw [if_neg hzero]
    by_cases hpos : 0 < count
    · have hneg : ¬count < 0 := by omega
      have hmore : (fun removed : Nat => decide (count=0 ∨ (removed:Int) < count))=
          fun removed : Nat => decide ((removed:Int) < count) := by
        funext removed
        simp [hzero]
      have habs : (count-(0:Nat)).toNat=count.natAbs := by omega
      rw [if_pos hpos,if_pos hpos.le,if_neg hneg,hmore,lRemLoop_bounded,habs,Nat.zero_add]
    · have hneg : count < 0 := by omega
      have habs : wrap64 (-count)=-count := by
        apply wrap64_of_inInt64
        unfold InInt64 at *
        omega
      have hbound : (-count-(0:Nat)).toNat=count.natAbs := by omega
      rw [if_neg hpos,if_neg (by omega),if_pos hneg,habs,lRemLoop_bounded,hbound,Nat.zero_add,
        List.count_reverse]

theorem lRemSplit_least (v : Bytes) (l : List Bytes) : lRemSplit l (-2^63) v=(0,l) := by
  have habs : wrap64 (-(-2^63))=-2^63 := by decide
  have hbound : (-2^63-(0:Nat):Int).toNat=0 := by decide
  unfold lRemSplit
  rw [if_neg (by decide),if_pos (by decide),habs,lRemLoop_bounded,hbound]
  simp

theorem filter_ne_of_notMem {v : Bytes} {l : List Bytes} (h : v ∉ l) :
    (l.filter fun u => u ≠ v)=l := by
  rw [List.filter_eq_self]
  intro u hu
  have hne : u ≠ v := fun huv => h (huv ▸ hu)
  simpa using hne

theorem withoutOccurrences_of_notMem {v : Bytes} {l : List Bytes} (h : v ∉ l) (count : Int) :
    withoutOccurrences count v l=(0,l) := by
  have hzero : l.count v=0 := List.count_eq_zero.mpr h
  unfold withoutOccurrences
  rw [hzero,filter_ne_of_notMem h]
  split_ifs <;> simp

theorem lRemSplit_eq_iff {count : Int} (hc : InInt64 count) (v : Bytes) (l : List Bytes) :
    lRemSplit l count v=withoutOccurrences count v l ↔ count ≠ -2^63 ∨ v ∉ l := by
  by_cases hmin : count=-2^63
  · subst hmin
    rw [lRemSplit_least,or_iff_right (by simp)]
    constructor
    · intro h
      have hnone : 0=min (-2^63:Int).natAbs (l.count v) := congrArg Prod.fst h
      rw [← List.count_eq_zero]
      omega
    · intro hv
      exact (withoutOccurrences_of_notMem hv _).symm
  · exact iff_of_true (lRemSplit_eq hc hmin v l) (.inl hmin)

theorem lRemSplit_none {count : Int} (hc : InInt64 count) {v : Bytes} {l : List Bytes}
    (h : (lRemSplit l count v).1=0) : (lRemSplit l count v).2=l := by
  by_cases hmin : count=-2^63
  · rw [hmin,lRemSplit_least]
  · rw [lRemSplit_eq hc hmin] at h ⊢
    unfold withoutOccurrences at h ⊢
    split_ifs at h ⊢ with hzero hpos
    · exact filter_ne_of_notMem (List.count_eq_zero.mp h)
    · dsimp only at h ⊢
      rw [h,eraseFirst_zero]
    · dsimp only at h ⊢
      rw [h,eraseFirst_zero,List.reverse_reverse]

theorem withoutOccurrences_reverse (count : Int) (v : Bytes) (l : List Bytes) :
    withoutOccurrences (-count) v l=((withoutOccurrences count v l.reverse).1,
      (withoutOccurrences count v l.reverse).2.reverse) := by
  unfold withoutOccurrences
  rw [List.count_reverse,Int.natAbs_neg]
  by_cases hzero : count=0
  · subst hzero
    simp [List.filter_reverse]
  · rw [if_neg (by omega),if_neg hzero]
    by_cases hpos : 0 < count
    · rw [if_neg (by omega),if_pos hpos]
    · rw [if_pos (by omega),if_neg hpos,List.reverse_reverse,List.reverse_reverse]

end GoRedis
