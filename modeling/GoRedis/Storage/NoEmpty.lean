import GoRedis.Lib.Loops
import GoRedis.Storage.OneType
/-!
# No empty list, no empty set

An operation that takes the last element of a list or set removes the key. Sorted sets and
hashes are different: `ZAdd` creates its sorted set before it looks at the flags.
-/
namespace GoRedis

theorem slice_clampRange_ne_nil {α : Type} (l : List α) (start stop : Int)
    (h : ¬(clampRange start stop l.length).2 < (clampRange start stop l.length).1) :
    slice l (clampRange start stop l.length).1 (clampRange start stop l.length).2 ≠ [] := by
  intro he
  have hlen := congrArg List.length he
  unfold slice at hlen
  rw [List.length_take,List.length_drop,List.length_nil] at hlen
  unfold clampRange at h hlen
  dsimp only at h hlen
  split_ifs at h hlen <;> omega

variable {F : Type}

/-- No key holds an empty list or an empty set. -/
structure Maps.NoEmpty (m : Maps F) : Prop where
  lists : ∀ k : Bytes, m.lists[k]? ≠ some []
  sets : ∀ k : Bytes, m.sets[k]? ≠ some ∅

namespace Maps

theorem noEmpty_empty : (empty : Maps F).NoEmpty :=
  ⟨fun k => by simp [empty],fun k => by simp [empty]⟩

theorem NoEmpty.shrink {m m' : Maps F} (hm : m.NoEmpty)
    (hl : ∀ (k : Bytes) l, m'.lists[k]?=some l → m.lists[k]?=some l)
    (hs : ∀ (k : Bytes) st, m'.sets[k]?=some st → m.sets[k]?=some st) : m'.NoEmpty :=
  ⟨fun k h => hm.lists k (hl k _ h),fun k h => hm.sets k (hs k _ h)⟩

theorem NoEmpty.deleteKey {m : Maps F} (hm : m.NoEmpty) (k : Bytes) : (m.deleteKey k).NoEmpty := by
  refine hm.shrink ?_ ?_
  all_goals
    intro k' v h
    simp only [Maps.deleteKey,Map.getElem?_erase] at h
    split at h
    · cases h
    · exact h

end Maps

namespace MemoryStore

theorem mem_foldl_sAddMember (l : List Bytes) (acc : Nat × KeySet) (x : Bytes) :
    x ∈ (l.foldl sAddMember acc).2 ↔ x ∈ acc.2 ∨ x ∈ l := by
  apply Loops.foldl_adds (fun (acc : Nat × KeySet) x => x ∈ acc.2)
  intro acc y x
  rw [sAddMember]
  split_ifs with hy
  · refine ⟨.inl,fun h => h.elim id ?_⟩
    rintro rfl
    exact hy
  · rw [Std.ExtTreeSet.mem_insert,compare_eq_iff,eq_comm (a := y)]
    exact or_comm

theorem noEmpty_putList {s : MemoryStore F} (hs : s.NoEmpty) (k : Bytes) {l : List Bytes}
    (hl : l ≠ []) : (s.putList k l).NoEmpty := by
  refine ⟨fun k' h => ?_,hs.sets⟩
  simp only [putList,Map.getElem?_insert] at h
  split at h
  · exact hl (Option.some.inj h)
  · exact hs.lists k' h

theorem noEmpty_dropList {s : MemoryStore F} (hs : s.NoEmpty) (k : Bytes) :
    (s.dropList k).NoEmpty := by
  refine hs.shrink (fun k' l h => ?_) fun _ _ h => h
  simp only [dropList,Map.getElem?_erase] at h
  split at h
  · cases h
  · exact h

theorem noEmpty_keepList {s : MemoryStore F} (hs : s.NoEmpty) (k : Bytes) (l : List Bytes) :
    (s.keepList k l).NoEmpty := by
  unfold keepList
  split
  · exact noEmpty_dropList hs k
  · exact noEmpty_putList hs k ‹_›

theorem noEmpty_putSet {s : MemoryStore F} (hs : s.NoEmpty) (k : Bytes) {st : KeySet}
    (hst : st ≠ ∅) : (s.putSet k st).NoEmpty := by
  refine ⟨hs.lists,fun k' h => ?_⟩
  simp only [putSet,Map.getElem?_insert] at h
  split at h
  · exact hst (Option.some.inj h)
  · exact hs.sets k' h

theorem noEmpty_dropSet {s : MemoryStore F} (hs : s.NoEmpty) (k : Bytes) :
    (s.dropSet k).NoEmpty := by
  refine hs.shrink (fun _ _ h => h) (fun k' st h => ?_)
  simp only [dropSet,Map.getElem?_erase] at h
  split at h
  · cases h
  · exact h

theorem noEmpty_keepSet {s : MemoryStore F} (hs : s.NoEmpty) (k : Bytes) (st : KeySet) :
    (s.keepSet k st).NoEmpty := by
  unfold keepSet
  split
  · exact noEmpty_dropSet hs k
  · exact noEmpty_putSet hs k fun h => by simp_all

theorem noEmpty_deleteExpired {s : MemoryStore F} (hs : s.NoEmpty) (now : Int) :
    (s.deleteExpired now).NoEmpty := by
  refine hs.shrink ?_ ?_
  all_goals
    intro k v h
    simp only [deleteExpired,Std.ExtTreeMap.getElem?_filter'] at h
    exact (Option.filter_eq_some_iff.mp h).1

theorem noEmpty_setAdv {s : MemoryStore F} (hs : s.NoEmpty) (now : Int) (k v : Bytes) (ttl : Int)
    (opts : SetAdvOpts) : (s.setAdv now k v ttl opts).2.2.NoEmpty := by
  rcases s.setAdv_cases now k v ttl opts with ⟨_,hrun⟩ | ⟨_,hrun⟩
  · rw [hrun]
    exact hs
  · rw [hrun]
    exact ⟨(hs.deleteKey k).lists,(hs.deleteKey k).sets⟩

theorem noEmpty_getEx {s : MemoryStore F} (hs : s.NoEmpty) (now : Int) (k : Bytes) (ttl : Int)
    (persist hasTTL : Bool) : (s.getEx now k ttl persist hasTTL).2.NoEmpty := by
  unfold getEx
  split
  · exact hs
  · split_ifs <;> exact ⟨hs.lists,hs.sets⟩

theorem noEmpty_del {s : MemoryStore F} (hs : s.NoEmpty) (now : Int) (ks : List Bytes) :
    (s.del now ks).2.NoEmpty := by
  induction ks generalizing s with
  | nil => exact hs
  | cons k ks ih =>
    rw [del]
    split
    · exact ih hs
    · exact ih (s := (s.deleteKey k).bumpVersion k) (hs.deleteKey k)

theorem noEmpty_expire {s : MemoryStore F} (hs : s.NoEmpty) (now : Int) (k : Bytes) (ttl : Int) :
    (s.expire now k ttl).2.NoEmpty := by
  unfold expire
  split
  · exact ⟨hs.lists,hs.sets⟩
  · split
    · exact hs
    · exact ⟨hs.lists,hs.sets⟩

theorem noEmpty_persist {s : MemoryStore F} (hs : s.NoEmpty) (now : Int) (k : Bytes) :
    (s.persist now k).2.NoEmpty := by
  unfold persist
  split
  · exact ⟨hs.lists,hs.sets⟩
  · split_ifs
    · exact hs
    · exact ⟨hs.lists,hs.sets⟩
    · exact hs

theorem noEmpty_hSet {s : MemoryStore F} (hs : s.NoEmpty) (k : Bytes) (fields : Map Bytes) :
    (s.hSet k fields).2.NoEmpty := ⟨hs.lists,hs.sets⟩

theorem noEmpty_hDel {s : MemoryStore F} (hs : s.NoEmpty) (now : Int) (k : Bytes)
    (fields : List Bytes) : (s.hDel now k fields).2.NoEmpty := by
  unfold hDel
  split
  · exact hs
  · dsimp only
    split <;> exact ⟨hs.lists,hs.sets⟩

theorem noEmpty_rename {s s' : MemoryStore F} {now : Int} {src dst : Bytes} {b : Bool}
    (hs : s.NoEmpty) (h : s.rename now src dst=.ok (b,s')) : s'.NoEmpty := by
  cases ht : s.typeOf now src with
  | none =>
    rw [rename_none ht] at h
    cases h
    exact hs
  | some t =>
    obtain ⟨_,x,rfl,_⟩ := rename_ok ht h
    have hdel : (s.deleteKey dst).NoEmpty := hs.deleteKey dst
    cases t with
    | list =>
      refine ⟨fun k hk => ?_,hdel.sets⟩
      obtain ⟨k',hk'⟩ := Map.getElem?_move (Maps.typeOf_holds ht) hk
      exact hs.lists k' hk'
    | set =>
      refine ⟨hdel.lists,fun k hk => ?_⟩
      obtain ⟨k',hk'⟩ := Map.getElem?_move (Maps.typeOf_holds ht) hk
      exact hs.sets k' hk'
    | _ => exact ⟨hdel.lists,hdel.sets⟩

theorem noEmpty_lPush {s : MemoryStore F} (hs : s.NoEmpty) (now : Int) (k v : Bytes)
    (vs : List Bytes) : (dropError s (s.lPush now k (v::vs))).NoEmpty := by
  unfold lPush
  split
  · exact noEmpty_putList hs k (by simp)
  · exact hs

theorem noEmpty_rPush {s : MemoryStore F} (hs : s.NoEmpty) (now : Int) (k v : Bytes)
    (vs : List Bytes) : (dropError s (s.rPush now k (v::vs))).NoEmpty := by
  unfold rPush
  split
  · exact noEmpty_putList hs k (by simp)
  · exact hs

theorem noEmpty_popList {cut : Nat → List Bytes → List Bytes × List Bytes} {s : MemoryStore F}
    {now : Int} {k : Bytes} {n : Int} {r : Except StoreError (Option (List Bytes) × MemoryStore F)}
    (hs : s.NoEmpty) (h : popList cut s now k n=.ok r) : (dropError s r).NoEmpty := by
  unfold popList at h
  split at h
  · cases h
    exact hs
  · cases h
    exact hs
  · dsimp only at h
    split_ifs at h <;> cases h <;> exact noEmpty_keepList hs k _

theorem noEmpty_lSet {s : MemoryStore F} (hs : s.NoEmpty) (now : Int) (k : Bytes) (i : Int)
    (v : Bytes) : ((s.lSet now k i v).toOption.getD s).NoEmpty := by
  unfold lSet
  split
  · exact hs
  · dsimp only
    split
    · exact hs
    · rename_i j hj
      refine noEmpty_putList hs k ?_
      intro hnil
      rw [List.set_eq_nil_iff] at hnil
      simp only [hnil,normaliseIndex,List.length_nil,Nat.cast_zero] at hj
      split_ifs at hj <;> omega
  · exact hs

theorem noEmpty_lInsert {s : MemoryStore F} (hs : s.NoEmpty) (now : Int) (k : Bytes)
    (before : Bool) (pivot v : Bytes) : (dropError s (s.lInsert now k before pivot v)).NoEmpty := by
  unfold lInsert
  split
  · exact hs
  · dsimp only
    split
    · exact hs
    · exact noEmpty_putList hs k (by simp)
  · exact hs

theorem noEmpty_lRem {s : MemoryStore F} (hs : s.NoEmpty) (now : Int) (k : Bytes) (n : Int)
    (v : Bytes) : (dropError s (s.lRem now k n v)).NoEmpty := by
  unfold lRem
  split
  · exact hs
  · exact hs
  · dsimp only
    split
    · exact hs
    · exact noEmpty_keepList hs k _

theorem noEmpty_lTrim {s : MemoryStore F} (hs : s.NoEmpty) (now : Int) (k : Bytes)
    (start stop : Int) : ((s.lTrim now k start stop).toOption.getD s).NoEmpty := by
  unfold lTrim
  split
  · exact hs
  · dsimp only
    split
    · exact noEmpty_dropList hs k
    · exact noEmpty_putList hs k (slice_clampRange_ne_nil _ start stop ‹_›)
  · exact hs

theorem noEmpty_lMove {s : MemoryStore F} (hs : s.NoEmpty) (now : Int) (src dst : Bytes)
    (srcLeft dstLeft : Bool) : (dropError s (s.lMove now src dst srcLeft dstLeft)).NoEmpty := by
  unfold lMove
  split
  · exact hs
  · split
    · exact hs
    · dsimp only
      split
      · exact hs
      · refine noEmpty_putList (noEmpty_keepList hs src _) dst ?_
        split <;> simp

theorem noEmpty_sAdd {s : MemoryStore F} (hs : s.NoEmpty) (now : Int) (k : Bytes)
    {members : List Bytes} (hm : members ≠ []) : (dropError s (s.sAdd now k members)).NoEmpty := by
  obtain ⟨x,hx⟩ := List.exists_mem_of_ne_nil members hm
  unfold sAdd
  split
  · exact noEmpty_putSet hs k
      (KeySet.ne_empty_of_mem ((mem_foldl_sAddMember members _ x).mpr (.inr hx)))
  · exact hs

theorem noEmpty_sRem {s : MemoryStore F} (hs : s.NoEmpty) (now : Int) (k : Bytes)
    (members : List Bytes) : (dropError s (s.sRem now k members)).NoEmpty := by
  unfold sRem
  split
  · exact hs
  · exact hs
  · exact noEmpty_keepSet hs k _

theorem noEmpty_storeMembers {s : MemoryStore F} (hs : s.NoEmpty) (dst : Bytes)
    (members : Except StoreError (List Bytes)) :
    (dropError s (s.storeMembers dst members)).NoEmpty := by
  unfold storeMembers
  split
  · exact hs
  · rename_i members
    dsimp only
    split
    · exact hs.deleteKey dst
    · rename_i hm
      obtain ⟨x,hx⟩ := List.exists_mem_of_ne_nil members hm
      exact noEmpty_putSet (s := s.deleteKey dst) (hs.deleteKey dst) dst
        (KeySet.ne_empty_of_mem ((KeySet.mem_foldl_insert members ∅ x).mpr (.inr hx)))

theorem noEmpty_sPop {s : MemoryStore F} {w : World} {k : Bytes} {n : Int}
    {r : Except StoreError (List Bytes × MemoryStore F)} (hs : s.NoEmpty)
    (h : s.sPop w k n=.ok r) : (dropError s r).NoEmpty := by
  unfold sPop at h
  split at h
  · cases h
    exact hs
  · cases h
    exact hs
  · rename_i st _
    dsimp only at h
    split_ifs at h with hall hneg
    · cases h
      exact noEmpty_dropSet hs k
    · cases h
      refine noEmpty_putSet hs k (KeySet.foldl_erase_ne_empty
        ((w.shuffle_perm _).trans (w.rangeOrder_perm st.toList)) ?_)
      rw [(w.shuffle_perm _).length_eq]
      omega

theorem noEmpty_sMove {s : MemoryStore F} (hs : s.NoEmpty) (now : Int) (src dst x : Bytes) :
    (dropError s (s.sMove now src dst x)).NoEmpty := by
  unfold sMove
  split
  · exact hs
  · split
    · exact hs
    · split
      · exact hs
      · split
        · exact hs
        · exact noEmpty_putSet (noEmpty_keepSet hs src _) dst
            (KeySet.ne_empty_of_mem (x := x) (by simp))

theorem noEmpty_keepZSet {s : MemoryStore F} (hs : s.NoEmpty) (k : Bytes) (z : Map F) :
    (s.keepZSet k z).NoEmpty := by
  unfold keepZSet
  split <;> exact ⟨hs.lists,hs.sets⟩

theorem noEmpty_zRem {s : MemoryStore F} (hs : s.NoEmpty) (now : Int) (k : Bytes)
    (members : List Bytes) : (dropError s (s.zRem now k members)).NoEmpty := by
  unfold zRem
  split
  · exact hs
  · exact hs
  · exact noEmpty_keepZSet hs k _

section
variable [Float64 F]

theorem noEmpty_zAdd {s : MemoryStore F} (hs : s.NoEmpty) (now : Int) (k : Bytes)
    (members : List (ZMember F)) (fl : ZAddFlags) :
    (dropError s (s.zAdd now k members fl)).NoEmpty := by
  unfold zAdd
  split
  · exact ⟨hs.lists,hs.sets⟩
  · exact hs

theorem noEmpty_zIncrBy {s : MemoryStore F} (hs : s.NoEmpty) (now : Int) (k : Bytes) (incr : F)
    (x : Bytes) : (dropError s (s.zIncrBy now k incr x)).NoEmpty := by
  unfold zIncrBy
  split
  · exact ⟨hs.lists,hs.sets⟩
  · exact hs

theorem noEmpty_popZSet {order : List (ZMember F) → List (ZMember F)} {s : MemoryStore F}
    {now : Int} {k : Bytes} {n : Int} {r : Except StoreError (List (ZMember F) × MemoryStore F)}
    (hs : s.NoEmpty) (h : popZSet order s now k n=.ok r) : (dropError s r).NoEmpty := by
  unfold popZSet at h
  split at h
  · cases h
    exact hs
  · cases h
    exact hs
  · dsimp only at h
    split_ifs at h <;> cases h
    · exact hs
    all_goals exact noEmpty_keepZSet hs k _

omit [Float64 F] in
theorem noEmpty_storeScores {s : MemoryStore F} (hs : s.NoEmpty) (dst : Bytes)
    (scores : Except StoreError (Map F)) : (dropError s (s.storeScores dst scores)).NoEmpty := by
  have hdel := hs.deleteKey dst
  unfold storeScores
  split
  · exact hs
  · dsimp only
    split <;> exact ⟨hdel.lists,hdel.sets⟩

theorem noEmpty_zInterStore {s : MemoryStore F} (hs : s.NoEmpty) (now : Int) (dst : Bytes)
    (keys : List Bytes) (weights : List F) (agg : Bytes) :
    (dropError s (s.zInterStore now dst keys weights agg)).NoEmpty := by
  unfold zInterStore
  split
  · exact hs
  · split
    · exact hs
    · exact noEmpty_storeScores hs dst _

end
end MemoryStore

theorem dropResult_noEmpty {α : Type} {s s' : MemoryStore F}
    {r : Go (Except StoreError (α × MemoryStore F))}
    (hr : ∀ r', r=.ok r' → (dropError s r').NoEmpty) (h : StoreOp.dropResult s r=.ok s') :
    s'.NoEmpty := by
  cases r with
  | error p => cases h
  | ok r' =>
    cases h
    exact hr r' rfl

theorem StoreOp.apply_noEmpty [Float64 F] {w : World} {s s' : MemoryStore F} {op : StoreOp F}
    (hp : op.Proper) (hs : s.NoEmpty) (h : op.apply w s=.ok s') : s'.NoEmpty := by
  have hok : ∀ {u : MemoryStore F}, u.NoEmpty → (.ok u : Go (MemoryStore F))=.ok s' → s'.NoEmpty := by
    rintro u hu ⟨⟩
    exact hu
  cases op with
  | lPop k n => exact dropResult_noEmpty (fun _ => MemoryStore.noEmpty_popList hs) h
  | rPop k n => exact dropResult_noEmpty (fun _ => MemoryStore.noEmpty_popList hs) h
  | sPop k n => exact dropResult_noEmpty (fun _ => MemoryStore.noEmpty_sPop hs) h
  | zPopMin k n => exact dropResult_noEmpty (fun _ => MemoryStore.noEmpty_popZSet hs) h
  | zPopMax k n => exact dropResult_noEmpty (fun _ => MemoryStore.noEmpty_popZSet hs) h
  | rename src dst =>
    simp only [StoreOp.apply] at h
    split at h
    · cases h
    · cases h
      exact MemoryStore.noEmpty_rename hs ‹_›
  | read => exact hok hs h
  | deleteExpired => exact hok (MemoryStore.noEmpty_deleteExpired hs _) h
  | set k v => exact hok ⟨(hs.deleteKey k).lists,(hs.deleteKey k).sets⟩ h
  | setWithTTL k v ttl => exact hok ⟨(hs.deleteKey k).lists,(hs.deleteKey k).sets⟩ h
  | setAdv k v ttl opts => exact hok (MemoryStore.noEmpty_setAdv hs _ _ _ _ _) h
  | getEx k ttl p b => exact hok (MemoryStore.noEmpty_getEx hs _ _ _ _ _) h
  | del ks => exact hok (MemoryStore.noEmpty_del hs _ _) h
  | flush => exact hok Maps.noEmpty_empty h
  | expire k ttl => exact hok (MemoryStore.noEmpty_expire hs _ _ _) h
  | persist k => exact hok (MemoryStore.noEmpty_persist hs _ _) h
  | hSet k fields => exact hok (MemoryStore.noEmpty_hSet hs _ _) h
  | hDel k fields => exact hok (MemoryStore.noEmpty_hDel hs _ _ _) h
  | lPush k v vs => exact hok (MemoryStore.noEmpty_lPush hs _ _ _ _) h
  | rPush k v vs => exact hok (MemoryStore.noEmpty_rPush hs _ _ _ _) h
  | lSet k i v => exact hok (MemoryStore.noEmpty_lSet hs _ _ _ _) h
  | lInsert k before pivot v => exact hok (MemoryStore.noEmpty_lInsert hs _ _ _ _ _) h
  | lRem k n v => exact hok (MemoryStore.noEmpty_lRem hs _ _ _ _) h
  | lTrim k a b => exact hok (MemoryStore.noEmpty_lTrim hs _ _ _ _) h
  | lMove src dst a b => exact hok (MemoryStore.noEmpty_lMove hs _ _ _ _ _) h
  | sAdd k xs => exact hok (MemoryStore.noEmpty_sAdd hs _ _ hp) h
  | sRem k xs => exact hok (MemoryStore.noEmpty_sRem hs _ _ _) h
  | sInterStore dst ks => exact hok (MemoryStore.noEmpty_storeMembers hs dst _) h
  | sUnionStore dst ks => exact hok (MemoryStore.noEmpty_storeMembers hs dst _) h
  | sDiffStore dst ks => exact hok (MemoryStore.noEmpty_storeMembers hs dst _) h
  | sMove src dst x => exact hok (MemoryStore.noEmpty_sMove hs _ _ _ _) h
  | zAdd k ms fl => exact hok (MemoryStore.noEmpty_zAdd hs _ _ _ _) h
  | zRem k xs => exact hok (MemoryStore.noEmpty_zRem hs _ _ _) h
  | zIncrBy k incr x => exact hok (MemoryStore.noEmpty_zIncrBy hs _ _ _ _) h
  | zUnionStore dst ks ws agg => exact hok (MemoryStore.noEmpty_storeScores hs dst _) h
  | zInterStore dst ks ws agg => exact hok (MemoryStore.noEmpty_zInterStore hs _ _ _ _ _) h

end GoRedis
