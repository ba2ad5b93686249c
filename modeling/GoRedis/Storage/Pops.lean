import GoRedis.Storage.Ranks
import GoRedis.Storage.Remains
/-!
# What pops take and leave

A list is cut at one of its ends, of a set some members are drawn, and a sorted set loses the
first or the last of its members in order. What is taken and what is left make up the collection.
-/
namespace GoRedis
variable {F : Type} {s : MemoryStore F} {w : World} {now : Int} {key : Bytes} {count : Int}

namespace MemoryStore
variable {l : List Bytes}

theorem popList_eq (cut : Nat → List Bytes → List Bytes × List Bytes)
    (hl : s.getList now key=.ok (some l)) (hc : 0 ≤ count) :
    popList cut s now key count=.ok (.ok (some (cut (min count.toNat l.length) l).1,
      (s.keepList key (cut (min count.toNat l.length) l).2).bumpVersion key)) := by
  have hmin : (if (l.length:Int) < count then (l.length:Int) else count)=
      (min count.toNat l.length : Nat) := by
    split <;> omega
  simp only [popList,hl]
  rw [hmin,if_neg (by omega),Int.toNat_natCast]

end MemoryStore

namespace MemoryStore
variable {st : KeySet}

theorem sPop_ok (hst : s.getSet w.now key=.ok (some st)) (hc : 0 ≤ count) :
    ∃ popped rest, s.sPop w key count=.ok (.ok (popped,(s.keepSet key rest).bumpVersion key)) ∧
      popped.length=min count.toNat st.size ∧ (popped++rest.toList).Perm st.toList := by
  have hall := w.rangeOrder_perm st.toList
  have hlen : (w.rangeOrder st.toList).length=st.size :=
    hall.length_eq.trans Std.ExtTreeSet.length_toList
  simp only [sPop,hst,hlen]
  by_cases hfew : (st.size:Int) ≤ count
  · rw [if_pos hfew]
    refine ⟨_,∅,rfl,by omega,?_⟩
    have hnone : (∅ : KeySet).toList=[] := rfl
    rwa [hnone,List.append_nil]
  · have hdraw := (w.shuffle_perm (w.rangeOrder st.toList)).trans hall
    have hnodup := hdraw.nodup_iff.mpr st.nodup_toList
    have hsize := hdraw.length_eq.trans Std.ExtTreeSet.length_toList
    rw [if_neg hfew,if_neg (by omega)]
    have hne := KeySet.foldl_erase_ne_empty hdraw (n := count.toNat) (by omega)
    generalize w.shuffle (w.rangeOrder st.toList)=all at *
    refine ⟨all.take count.toNat,(all.take count.toNat).foldl (fun acc x => acc.erase x) st,
      ?_,?_,?_⟩
    · rw [keepSet,if_neg (by simpa using hne)]
    · rw [List.length_take,hsize]
    · -- no member is both drawn and left, and every member is one of them
      have hrest : ∀ x, x ∈ ((all.take count.toNat).foldl (fun acc x => acc.erase x) st).toList ↔
          x ∈ st ∧ x ∉ all.take count.toNat := by
        intro x
        rw [Std.ExtTreeSet.mem_toList,KeySet.mem_foldl_erase]
      rw [List.perm_ext_iff_of_nodup _ st.nodup_toList]
      · intro x
        rw [List.mem_append,hrest,Std.ExtTreeSet.mem_toList]
        have htaken : x ∈ all.take count.toNat → x ∈ st := fun hx =>
          Std.ExtTreeSet.mem_toList.mp (hdraw.mem_iff.mp (List.mem_of_mem_take hx))
        tauto
      · rw [List.nodup_append]
        refine ⟨(List.take_sublist _ _).nodup hnodup,KeySet.nodup_toList _,?_⟩
        intro x hx y hy hxy
        exact ((hrest y).mp hy).2 (hxy ▸ hx)

end MemoryStore

section Scores
variable {z : Map F} {ms : List (ZMember F)} {order : List (ZMember F) → List (ZMember F)}

/-- The sorted set without some of its members. -/
def without (z : Map F) (ms : List (ZMember F)) : Map F :=
  ms.foldl (fun acc m => acc.erase m.member) z

theorem getElem?_without (z : Map F) (ms : List (ZMember F)) (x : Bytes) :
    (without z ms)[x]?=if x ∈ ms.map ZMember.member then none else z[x]? := by
  unfold without
  induction ms generalizing z with
  | nil => rfl
  | cons m ms ih =>
    rw [List.foldl_cons,ih,Map.getElem?_erase,List.map_cons]
    by_cases hm : m.member=x
    · simp [hm]
    · simp [hm,Ne.symm hm]

theorem mem_zMembers {e : ZMember F} : e ∈ zMembers z ↔ z[e.member]?=some e.score := by
  rw [zMembers,List.mem_map,← Std.ExtTreeMap.mem_toList_iff_getElem?_eq_some]
  constructor
  · rintro ⟨p,hp,rfl⟩
    exact hp
  · intro he
    exact ⟨_,he,rfl⟩

theorem zMembers_nodup (z : Map F) : (zMembers z).Nodup := by
  apply List.Nodup.of_map ZMember.member
  rw [zMembers_map_member]
  exact Std.ExtTreeMap.nodup_keys

/-- A pop starts from one of the ends of the order. -/
structure FromEnd (order : List (ZMember F) → List (ZMember F)) : Prop where
  filter : ∀ (p : ZMember F → Bool) l, order (l.filter p)=(order l).filter p
  perm : ∀ l, (order l).Perm l

theorem fromEnd_id : FromEnd (F := F) id := ⟨fun _ _ => rfl,fun _ => .refl _⟩

theorem fromEnd_reverse : FromEnd (F := F) List.reverse :=
  ⟨fun _ _ => List.filter_reverse.symm,fun l => l.reverse_perm⟩

variable [Float64 F]

theorem sortedMembers_inj {z' : Map F} (h : sortedMembers z=sortedMembers z') : z=z' := by
  apply Std.ExtTreeMap.ext_getElem?
  intro x
  apply Option.ext
  intro sc
  have hz : ∀ z : Map F, z[x]?=some sc ↔ ⟨x,sc⟩ ∈ sortedMembers z := by
    intro z
    rw [(sortedMembers_perm z).mem_iff,mem_zMembers]
  rw [hz,hz,h]

theorem sortedMembers_without (z : Map F) (ms : List (ZMember F)) :
    sortedMembers (without z ms)=
      (sortedMembers z).filter fun e => e.member ∉ ms.map ZMember.member := by
  symm
  apply sortedMembers_unique
  · rw [List.perm_ext_iff_of_nodup _ (zMembers_nodup _)]
    · intro e
      rw [List.mem_filter,(sortedMembers_perm z).mem_iff,mem_zMembers,mem_zMembers,
        getElem?_without]
      by_cases he : e.member ∈ ms.map ZMember.member <;> simp [he]
    · exact ((sortedMembers_perm z).nodup_iff.mpr (zMembers_nodup z)).filter _
  · apply ((sortedMembers_strict z).filter _).imp
    intro a b hab
    exact asymm hab

theorem order_without (hord : FromEnd order) (z : Map F) (n : Nat) :
    order (sortedMembers (without z ((order (sortedMembers z)).take n)))=
      (order (sortedMembers z)).drop n := by
  rw [sortedMembers_without,hord.filter]
  have hkeys : ((order (sortedMembers z)).map ZMember.member).Nodup :=
    ((hord.perm _).map _).nodup_iff.mpr (sortedMembers_keys_nodup z)
  generalize order (sortedMembers z)=l at *
  have hsplit : l.take n++l.drop n=l := List.take_append_drop n l
  rw [← hsplit,List.map_append,List.nodup_append] at hkeys
  have htaken : ((l.take n).filter fun e => e.member ∉ (l.take n).map ZMember.member)=[] := by
    rw [List.filter_eq_nil_iff]
    intro e he
    have hmem : e.member ∈ (l.take n).map ZMember.member := List.mem_map_of_mem he
    simpa using hmem
  have hleft : ((l.drop n).filter fun e => e.member ∉ (l.take n).map ZMember.member)=l.drop n := by
    rw [List.filter_eq_self]
    intro e he
    have hnot : e.member ∉ (l.take n).map ZMember.member := fun hmem =>
      hkeys.2.2 e.member hmem e.member (List.mem_map_of_mem he) rfl
    simpa using hnot
  conv_lhs => rw [← hsplit,List.filter_append,hsplit,htaken,hleft]
  rfl

theorem perm_without (hord : FromEnd order) (z : Map F) (n : Nat) :
    ((order (sortedMembers z)).take n++
      zMembers (without z ((order (sortedMembers z)).take n))).Perm (zMembers z) := by
  have hrest := (hord.perm (sortedMembers (without z ((order (sortedMembers z)).take n)))).trans
    (sortedMembers_perm _)
  rw [order_without hord] at hrest
  apply (List.Perm.append_left _ hrest.symm).trans
  rw [List.take_append_drop]
  exact (hord.perm _).trans (sortedMembers_perm z)

theorem length_order (hord : FromEnd order) (z : Map F) :
    (order (sortedMembers z)).length=z.size := by
  rw [(hord.perm _).length_eq,length_sortedMembers]

theorem size_without (hord : FromEnd order) (z : Map F) (n : Nat) :
    (without z ((order (sortedMembers z)).take n)).size=z.size-n := by
  rw [← length_order hord,order_without hord,List.length_drop,length_order hord]

theorem MemoryStore.popZSet_eq (hz : s.getZSet now key=.ok (some z))
    (hne : z ≠ ∅) (hc : 0 ≤ count) :
    popZSet order s now key count=.ok (.ok ((order (sortedMembers z)).take count.toNat,
      (s.keepZSet key (without z ((order (sortedMembers z)).take count.toNat))).bumpVersion
        key)) := by
  have hempty : ¬z.isEmpty=true := by simpa using hne
  simp only [popZSet,hz]
  rw [if_neg hempty]
  by_cases hmany : ((order (sortedMembers z)).length:Int) < count
  · rw [if_pos hmany,if_neg (by omega),Int.toNat_natCast,List.take_length,
      List.take_of_length_le (by omega)]
    rfl
  · rw [if_neg hmany,if_neg (by omega)]
    rfl

end Scores
end GoRedis
