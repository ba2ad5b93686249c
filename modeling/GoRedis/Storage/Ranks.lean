import GoRedis.Lib.Ranking
import GoRedis.Storage.Lists
import GoRedis.Storage.Typed
/-!
# The order of a sorted set

`sort.Slice` is handed a comparison that is a strict total order on members, so there is one
list it can produce; ranks are places in that list.
-/
namespace GoRedis
variable {F : Type} {z : Map F} {now : Int} {key x : Bytes}

theorem zMembers_map_member (z : Map F) : (zMembers z).map ZMember.member=z.keys := by
  rw [zMembers,List.map_map,← Std.ExtTreeMap.map_fst_toList_eq_keys]
  rfl

variable [Float64 F]

instance : IsStrictTotalOrder (ZMember F) zLess where
  irrefl a h := by
    rcases h with h | ⟨_,h⟩
    · exact lt_irrefl _ h
    · simp at h
  trans a b c hab hbc := by
    rcases hab with hab | ⟨hab,hab'⟩
    · rcases hbc with hbc | ⟨hbc,_⟩
      · exact .inl (hab.trans hbc)
      · exact .inl (hbc ▸ hab)
    · rcases hbc with hbc | ⟨hbc,hbc'⟩
      · exact .inl (hab ▸ hbc)
      · exact .inr ⟨hab.trans hbc,Std.TransCmp.lt_trans hab' hbc'⟩
  trichotomous a b hab hba := by
    obtain ⟨m,sc⟩ := a
    obtain ⟨m',sc'⟩ := b
    simp only [zLess,not_or,not_lt,not_and] at hab hba
    have hscore : sc=sc' := le_antisymm hba.1 hab.1
    subst hscore
    have hgt := hba.2 rfl
    rw [← Std.OrientedCmp.gt_iff_lt] at hgt
    cases hcmp : compare m m' with
    | lt => exact absurd hcmp (hab.2 rfl)
    | eq => rw [(compare_eq_iff m m').mp hcmp]
    | gt => exact absurd hcmp hgt

theorem sortedMembers_perm (z : Map F) : (sortedMembers z).Perm (zMembers z) :=
  List.perm_insertionSort _ _

theorem sortedMembers_keys_nodup (z : Map F) : ((sortedMembers z).map ZMember.member).Nodup := by
  rw [((sortedMembers_perm z).map _).nodup_iff,zMembers_map_member]
  exact Std.ExtTreeMap.nodup_keys

theorem sortedMembers_strict (z : Map F) : (sortedMembers z).Pairwise zLess := by
  apply Ranking.pairwise_sort
  apply List.Nodup.of_map ZMember.member
  rw [zMembers_map_member]
  exact Std.ExtTreeMap.nodup_keys

theorem sortedMembers_unique {l : List (ZMember F)} (hperm : l.Perm (zMembers z))
    (hsorted : l.Pairwise fun a b => ¬zLess b a) : l=sortedMembers z := by
  have hstrict := (sortedMembers_strict z).imp fun {a b} (h : zLess a b) => asymm h
  refine List.Perm.eq_of_pairwise ?_ hsorted hstrict (hperm.trans (sortedMembers_perm z).symm)
  intro a b _ _ hab hba
  exact (trichotomous_of zLess a b).resolve_left hba |>.resolve_right hab

theorem length_sortedMembers (z : Map F) : (sortedMembers z).length=z.size := by
  rw [(sortedMembers_perm z).length_eq,zMembers,List.length_map,Std.ExtTreeMap.length_toList]

theorem mem_of_mem_sortedMembers {e : ZMember F} (h : e ∈ sortedMembers z) : e.member ∈ z := by
  have hmem : e.member ∈ (zMembers z).map ZMember.member :=
    List.mem_map_of_mem ((sortedMembers_perm z).mem_iff.mp h)
  rw [zMembers_map_member] at hmem
  exact Std.ExtTreeMap.mem_keys.mp hmem

namespace Maps
variable {m m' : Maps F} {lkey : Bytes}

theorem zRank_eq (hz : m.getZSet now key=.ok (some z)) :
    m.zRank now key x=.ok ((sortedMembers z).findIdx? fun e => e.member=x) := by
  simp only [zRank,hz,Except.map,Option.bind_some]
  by_cases hx : x ∈ z
  · rw [if_pos hx]
  · rw [if_neg hx,eq_comm,Except.ok.injEq,List.findIdx?_eq_none_iff]
    intro e he
    have hne : e.member ≠ x := fun h => hx (h ▸ mem_of_mem_sortedMembers he)
    simpa using hne

theorem zRank_eq_some_iff {i : Nat} (hz : m.getZSet now key=.ok (some z)) :
    m.zRank now key x=.ok (some i) ↔ ∃ e, (sortedMembers z)[i]?=some e ∧ e.member=x := by
  rw [zRank_eq hz,Except.ok.injEq,Ranking.findIdx?_key_iff (sortedMembers_keys_nodup z)]

theorem zRank_of_mem {e : ZMember F} (hz : m.getZSet now key=.ok (some z)) (he : e ∈ zMembers z) :
    m.zRank now key e.member=.ok (some ((zMembers z).countP fun y => zLess y e)) := by
  obtain ⟨i,hi⟩ := List.mem_iff_getElem?.mp ((sortedMembers_perm z).mem_iff.mpr he)
  rw [zRank_eq_some_iff hz,← (sortedMembers_perm z).countP_eq,
    Ranking.countP_lt_eq (sortedMembers_strict z) hi]
  exact ⟨e,hi,rfl⟩

theorem exists_zRank (hz : m.getZSet now key=.ok (some z)) (hx : x ∈ z) :
    ∃ i, m.zRank now key x=.ok (some i) := by
  have hkey : x ∈ (zMembers z).map ZMember.member := by
    rw [zMembers_map_member]
    exact Std.ExtTreeMap.mem_keys.mpr hx
  obtain ⟨e,he,rfl⟩ := List.mem_map.mp hkey
  exact ⟨_,zRank_of_mem hz he⟩

theorem zRevRank_of_zRank {i : Nat} (hz : m.getZSet now key=.ok (some z))
    (h : m.zRank now key x=.ok (some i)) :
    i < z.size ∧ m.zRevRank now key x=.ok (some (z.size-1-i)) := by
  obtain ⟨e,he,hx⟩ := (zRank_eq_some_iff hz).mp h
  have hmem : x ∈ z := hx ▸ mem_of_mem_sortedMembers (List.mem_of_getElem? he)
  rw [zRank_eq hz,Except.ok.injEq] at h
  have hlt : i < (sortedMembers z).length := (List.getElem?_eq_some_iff.mp he).1
  rw [length_sortedMembers] at hlt
  refine ⟨hlt,?_⟩
  simp only [zRevRank,hz,Except.map,Option.bind_some,if_pos hmem,h,Option.map_some,
    length_sortedMembers]

theorem slice_map {α β : Type} (f : α → β) (l : List α) (lo hi : Int) :
    slice (l.map f) lo hi=(slice l lo hi).map f := by
  rw [slice,slice,List.map_take,List.map_drop]

theorem withScores_false (ms : List (ZMember F)) : withScores false ms=ms.map ZMember.member := by
  exact List.flatMap_pure_eq_map ZMember.member ms

theorem zRangeBounds_eq_clampRange (start stop : Int) (n : Nat) :
    zRangeBounds start stop n=clampRange start stop n := rfl

theorem zRange_eq_lRange (hz : m.getZSet now key=.ok (some z))
    (hl : m'.getList now lkey=.ok (some ((sortedMembers z).map ZMember.member))) (start stop : Int) :
    m.zRange now key start stop false false=m'.lRange now lkey start stop := by
  simp only [zRange,lRange,hz,hl,Except.map,Option.getD_some,List.map_eq_nil_iff,List.length_map,
    slice_map,withScores_false]
  rfl

end Maps

/-- The bounds of `ZRange` on `int64`. -/
def zRangeBounds64 (start stop n : Int) : Int × Int :=
  let start := if start < 0 then wrap64 (n+start) else start
  let stop := if stop < 0 then wrap64 (n+stop) else stop
  (if start < 0 then 0 else start,if n ≤ stop then wrap64 (n-1) else stop)

/-- They are those of `clampRange`: a length is added to negative indices only, so no sum leaves
the range. -/
theorem zRangeBounds64_eq_clampRange {start stop : Int} {n : Nat} (hstart : InInt64 start)
    (hstop : InInt64 stop) (hn : InInt64 n) :
    zRangeBounds64 start stop n=clampRange start stop n := by
  have hsum : ∀ i : Int, InInt64 i → (if i < 0 then wrap64 (n+i) else i)=if i < 0 then n+i else i := by
    intro i hi
    split_ifs with hneg
    · apply wrap64_of_inInt64
      unfold InInt64 at *
      omega
    · rfl
  have hlast : wrap64 (n-1)=n-1 := by
    apply wrap64_of_inInt64
    unfold InInt64 at *
    omega
  simp only [zRangeBounds64,clampRange,hsum start hstart,hsum stop hstop,hlast]

end GoRedis
