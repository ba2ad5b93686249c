import GoRedis.Storage.Counts
import GoRedis.Storage.ListRanges
import GoRedis.Storage.Moves
import GoRedis.Storage.Pops
/-!
# When an operation takes a deadline

An operation that takes elements from a collection removes the key together with its deadline once
nothing is left. All other operations on elements leave the deadlines alone.
-/
namespace GoRedis
variable {F : Type} {s s' : MemoryStore F} {w : World} {now count : Int} {key : Bytes} {p q : Prop}
open MemoryStore

theorem Maps.expiry_of_view {m : Maps F} {v : Value F} {T : Option Int}
    (h : m.view now key=some (v,T)) (hv : v.type ≠ .string) :
    m.keyExpiry[key]?=T ∧ m.keyExpiredNonStr now key=false := by
  rw [view,Row.view] at h
  split at h
  · cases h
  · obtain ⟨e,_,heq⟩ := Option.map_eq_some_iff.mp h
    cases heq
    exact absurd rfl hv
  all_goals
    rename_i ht
    obtain ⟨x,_,heq⟩ := Option.map_eq_some_iff.mp h
    cases heq
    exact ⟨rfl,Row.not_expired_of_typeOf ht (by simp)⟩

/-- The deadline of `key` is taken exactly when `p`, and all others stay. -/
structure MemoryStore.Forgets (s s' : MemoryStore F) (key : Bytes) (p : Prop) : Prop where
  gone : p → s'.keyExpiry[key]?=none
  kept : ∀ k, (k=key → ¬p) → s'.keyExpiry[k]?=s.keyExpiry[k]?

namespace MemoryStore

theorem forgets_none (h : s'.keyExpiry=s.keyExpiry) (hp : ¬p) : Forgets s s' key p :=
  ⟨fun h => absurd h hp,fun _ _ => by rw [h]⟩

theorem Forgets.congr (h : Forgets s s' key p) (hpq : p ↔ q) : Forgets s s' key q :=
  ⟨fun hq => h.gone (hpq.mpr hq),fun k hk => h.kept k fun e => mt hpq.mp (hk e)⟩

theorem Kept.forgets {v : Value F} (h : Kept s s' key v) :
    Forgets s s' key (v.isEmpty=true) := by
  have hself : s'.keyExpiry[key]?=if v.isEmpty then none else s.keyExpiry[key]? :=
    (congrArg Row.expiry h.row).trans (Row.expiry_keep v _)
  refine ⟨fun hv => by rw [hself,if_pos hv],fun k hk => ?_⟩
  by_cases he : k=key
  · subst he
    rw [hself,if_neg (hk rfl)]
  · exact congrArg (fun r : Slot F => r.expiry) (h.slot_of_ne he)

/-- A move takes the deadline of its source when nothing is left there, even if what it took comes
back. -/
theorem Moved.forgets {src dst : Bytes} {v : Value F} {put : Row F → Value F}
    (h : Moved s s' src dst v put) : Forgets s s' src (v.isEmpty=true) := by
  have hsrc : s'.keyExpiry[src]?=if v.isEmpty then none else s.keyExpiry[src]? := by
    apply Eq.trans _ (Row.expiry_keep v (s.row src))
    by_cases heq : src=dst
    · exact (congrArg Row.expiry (h.row_self heq)).trans (Row.expiry_into _ _)
    · exact congrArg Row.expiry (h.row_src heq)
  refine ⟨fun hv => by rw [hsrc,if_pos hv],fun k hk => ?_⟩
  by_cases he : k=src
  · subst he
    rw [hsrc,if_neg (hk rfl)]
  · by_cases hd : k=dst
    · subst hd
      exact (congrArg Row.expiry (h.row_dst (Ne.symm he))).trans (Row.expiry_into _ _)
    · exact congrArg (fun r : Slot F => r.expiry) (h.others k he hd)

section Putting
variable (s : MemoryStore F) (now : Int) (key : Bytes)

theorem lPush_keyExpiry (vs : List Bytes) :
    (dropError s (s.lPush now key vs)).keyExpiry=s.keyExpiry := by
  rw [lPush]
  split_ifs <;> rfl

theorem rPush_keyExpiry (vs : List Bytes) :
    (dropError s (s.rPush now key vs)).keyExpiry=s.keyExpiry := by
  rw [rPush]
  split_ifs <;> rfl

theorem lSet_keyExpiry (i : Int) (v : Bytes) :
    ((s.lSet now key i v).toOption.getD s).keyExpiry=s.keyExpiry := by
  rw [lSet]
  split
  · rfl
  · dsimp only
    split <;> rfl
  · rfl

theorem lInsert_keyExpiry (before : Bool) (pivot v : Bytes) :
    (dropError s (s.lInsert now key before pivot v)).keyExpiry=s.keyExpiry := by
  rw [lInsert]
  split
  · rfl
  · dsimp only
    split <;> rfl
  · rfl

theorem sAdd_keyExpiry (xs : List Bytes) :
    (dropError s (s.sAdd now key xs)).keyExpiry=s.keyExpiry := by
  rw [sAdd]
  split_ifs <;> rfl

theorem zAdd_keyExpiry [Float64 F] (ms : List (ZMember F)) (fl : ZAddFlags) :
    (dropError s (s.zAdd now key ms fl)).keyExpiry=s.keyExpiry := by
  rw [zAdd]
  split_ifs <;> rfl

theorem zIncrBy_keyExpiry [Float64 F] (incr : F) (x : Bytes) :
    (dropError s (s.zIncrBy now key incr x)).keyExpiry=s.keyExpiry := by
  rw [zIncrBy]
  split_ifs <;> rfl

end Putting

theorem forgets_hDel (s : MemoryStore F) (now : Int) (key : Bytes) (fields : List Bytes) :
    Forgets s (s.hDel now key fields).2 key
      (∃ h, s.liveHash now key=some h ∧ ∀ f ∈ h, f ∈ fields) := by
  rw [hDel]
  cases hh : s.liveHash now key with
  | none => exact forgets_none rfl (by simp)
  | some h =>
    have hcond : (∀ f ∈ h, f ∈ fields) ↔ ∃ h', some h=some h' ∧ ∀ f ∈ h', f ∈ fields := by simp
    rw [← hcond,← isEmpty_foldl_hDelField]
    dsimp only
    split_ifs with hempty
    · refine ⟨fun _ => Std.ExtTreeMap.getElem?_erase_self,fun k hk => ?_⟩
      have hne : key ≠ k := fun e => hk e.symm hempty
      simp only [Map.getElem?_erase,if_neg hne]
    · exact forgets_none rfl hempty

theorem cutHead_eq_nil_iff {n : Nat} {l : List Bytes} : (cutHead n l).2=[] ↔ l.length ≤ n := by
  rw [cutHead,List.drop_eq_nil_iff]

theorem cutTail_eq_nil_iff {n : Nat} {l : List Bytes} : (cutTail n l).2=[] ↔ l.length ≤ n := by
  rw [cutTail,List.take_eq_nil_iff,← List.length_eq_zero_iff]
  omega

theorem forgets_popList {cut : Nat → List Bytes → List Bytes × List Bytes}
    {r : Except StoreError (Option (List Bytes) × MemoryStore F)}
    (hcut : ∀ n l, (cut n l).2=[] ↔ l.length ≤ n) (hc : 0 ≤ count)
    (h : popList cut s now key count=.ok r) : Forgets s (dropError s r) key
      (∃ l, s.getList now key=.ok (some l) ∧ l.length ≤ count) := by
  cases hl : s.getList now key with
  | error e =>
    rw [popList,hl] at h
    cases h
    exact forgets_none rfl (by simp)
  | ok ol =>
    cases ol with
    | none =>
      rw [popList,hl] at h
      cases h
      exact forgets_none rfl (by simp)
    | some l =>
      rw [popList_eq cut hl hc] at h
      cases h
      apply (kept_list s key _).forgets.congr
      have hempty : ∀ l : List Bytes, (Value.list l : Value F).isEmpty=true ↔ l=[] := by
        simp [Value.isEmpty]
      rw [hempty,hcut]
      have hmin : l.length ≤ min count.toNat l.length ↔ (l.length:Int) ≤ count := by omega
      simp [hmin]

theorem lRemLoop_length (v : Bytes) (more : Nat → Bool) (removed : Nat) (l : List Bytes) :
    (lRemLoop v more removed l).1+(lRemLoop v more removed l).2.length=removed+l.length := by
  induction l generalizing removed with
  | nil => rfl
  | cons u l ih =>
    rw [lRemLoop]
    split_ifs
    · rw [ih,List.length_cons]
      omega
    · have := ih removed
      simp only [List.length_cons]
      omega

theorem lRemSplit_length (l : List Bytes) (count : Int) (v : Bytes) :
    (lRemSplit l count v).1+(lRemSplit l count v).2.length=l.length := by
  unfold lRemSplit
  dsimp only
  generalize (if count < 0 then wrap64 (-count) else count)=abs
  split_ifs
  · rw [lRemLoop_length,Nat.zero_add]
  · rw [List.length_reverse,lRemLoop_length,Nat.zero_add,List.length_reverse]

theorem lRemSplit_empties_iff (hc : InInt64 count) (l : List Bytes) (v : Bytes) :
    (lRemSplit l count v).1 ≠ 0 ∧ (lRemSplit l count v).2=[] ↔
      l ≠ [] ∧ (∀ x ∈ l, x=v) ∧ count ≠ -2^63 ∧ (count=0 ∨ l.length ≤ count.natAbs) := by
  by_cases hmin : count=-2^63
  · rw [hmin,lRemSplit_least]
    simp
  · have hremoved : (lRemSplit l count v).1=
        if count=0 then l.count v else min count.natAbs (l.count v) := by
      rw [lRemSplit_eq hc hmin,withoutOccurrences]
      split_ifs <;> rfl
    have hall : (∀ x ∈ l, x=v) ↔ l.count v=l.length := by
      rw [List.count_eq_length]
      exact forall₂_congr fun x _ => eq_comm
    have hlen := lRemSplit_length l count v
    have hle : l.count v ≤ l.length := List.count_le_length
    rw [hall,← List.length_eq_zero_iff,ne_eq,ne_eq,← List.length_eq_zero_iff]
    split_ifs at hremoved with hzero
    · subst hzero
      omega
    · omega

theorem forgets_lRem {v : Bytes} (hc : InInt64 count) :
    Forgets s (dropError s (s.lRem now key count v)) key
      (∃ l, s.getList now key=.ok (some l) ∧ l ≠ [] ∧ (∀ x ∈ l, x=v) ∧ count ≠ -2^63 ∧
        (count=0 ∨ l.length ≤ count.natAbs)) := by
  rw [lRem]
  cases hl : s.getList now key with
  | error e => exact forgets_none rfl (by simp)
  | ok ol =>
    cases ol with
    | none => exact forgets_none rfl (by simp)
    | some l =>
      have hiff := lRemSplit_empties_iff hc l v
      have hcond : ∀ P : List Bytes → Prop, (∃ l', Except.ok (some l)=
          (.ok (some l') : Except StoreError (Option (List Bytes))) ∧ P l') ↔ P l := by simp
      rw [hcond,← hiff]
      dsimp only
      split_ifs with hnone
      · exact forgets_none rfl fun h => h.1 hnone
      · apply (kept_list s key _).forgets.congr
        simp [Value.isEmpty,hnone]

theorem forgets_lTrim (s : MemoryStore F) (now : Int) (key : Bytes) (start stop : Int) :
    Forgets s ((s.lTrim now key start stop).toOption.getD s) key
      (∃ l, s.getList now key=.ok (some l) ∧ Slices.range start stop l=[]) := by
  by_cases ht : s.typeOf now key=some .list
  · have hsome : (s.lists[key]?).isSome :=
      Row.isSome_of_typeOf (r := s.row key) (by rw [← Maps.typeOf_eq_row,ht])
    obtain ⟨l,hl⟩ := Option.isSome_iff_exists.mp hsome
    rw [lTrim_eq ht,Std.ExtTreeMap.getD_eq_getD_getElem?,hl]
    apply (kept_list s key _).forgets.congr
    simp [Value.isEmpty,Maps.getList_eq_some_iff,ht,hl]
  · have hnone : (s.lTrim now key start stop).toOption.getD s=s := by
      rw [lTrim]
      split
      · rfl
      · exact absurd ‹_› ht
      · rfl
    rw [hnone]
    apply forgets_none rfl
    rintro ⟨l,hl,_⟩
    exact ht (Maps.getList_eq_some_iff.mp hl).1

theorem forgets_lMove (s : MemoryStore F) (now : Int) (src dst : Bytes) (srcLeft dstLeft : Bool) :
    Forgets s (dropError s (s.lMove now src dst srcLeft dstLeft)) src
      ((s.listGuard now src=true ∧ s.listGuard now dst=true) ∧ ∃ x, s.lists[src]?=some [x]) := by
  rcases lMove_cases s now src dst srcLeft dstLeft with
    ⟨hguard,hmove⟩ | ⟨hguard,⟨hnil,hmove⟩ | ⟨x,rest,s',hl,hmove,hmoved⟩⟩
  · rw [hmove]
    exact forgets_none rfl fun h => hguard h.1
  · rw [hmove]
    apply forgets_none rfl
    rintro ⟨_,x,hx⟩
    simp [Std.ExtTreeMap.getD_eq_getD_getElem?,hx] at hnil
  · rw [hmove]
    apply hmoved.forgets.congr
    have hlist : s.lists[src]?=some (attach srcLeft x rest) := by
      rw [Std.ExtTreeMap.getD_eq_getD_getElem?] at hl
      cases hsome : s.lists[src]? with
      | none => exact absurd (hsome ▸ hl).symm (attach_ne_nil srcLeft x rest)
      | some l => rw [← hl,hsome,Option.getD_some]
    have hone : (∃ y, attach srcLeft x rest=[y]) ↔ rest=[] := by
      cases srcLeft <;> cases rest <;> simp [attach]
    simpa [Value.isEmpty,hguard,hlist] using hone.symm

theorem isEmpty_foldl_sRemMember (members : List Bytes) (st : KeySet) :
    (members.foldl sRemMember (0,st)).2.isEmpty=true ↔ ∀ x ∈ st, x ∈ members := by
  have hmem : ∀ x, x ∈ (members.foldl sRemMember (0,st)).2 ↔ x ∈ st ∧ x ∉ members := by
    intro x
    apply Loops.foldl_removes (fun (acc : Nat × KeySet) x => x ∈ acc.2) (s := (0,st))
    · intro acc y hy x
      rw [sRemMember,if_pos hy]
      exact KeySet.mem_erase_iff
    · intro acc y hy
      rw [sRemMember,if_neg hy]
  rw [KeySet.isEmpty_iff_forall]
  simp only [hmem,not_and,not_not]

theorem forgets_sRem (s : MemoryStore F) (now : Int) (key : Bytes) (members : List Bytes) :
    Forgets s (dropError s (s.sRem now key members)) key
      (∃ st, s.getSet now key=.ok (some st) ∧ ∀ x ∈ st, x ∈ members) := by
  rw [sRem]
  cases hst : s.getSet now key with
  | error e => exact forgets_none rfl (by simp)
  | ok ost =>
    cases ost with
    | none => exact forgets_none rfl (by simp)
    | some st =>
      apply (kept_set s key _).forgets.congr
      simp [Value.isEmpty,← isEmpty_foldl_sRemMember]

theorem forgets_sPop {r : Except StoreError (List Bytes × MemoryStore F)} (hc : 0 ≤ count)
    (h : s.sPop w key count=.ok r) : Forgets s (dropError s r) key
      (∃ st, s.getSet w.now key=.ok (some st) ∧ st.size ≤ count) := by
  cases hst : s.getSet w.now key with
  | error e =>
    rw [sPop,hst] at h
    cases h
    exact forgets_none rfl (by simp)
  | ok ost =>
    cases ost with
    | none =>
      rw [sPop,hst] at h
      cases h
      exact forgets_none rfl (by simp)
    | some st =>
      obtain ⟨popped,rest,hpop,hlen,hperm⟩ := sPop_ok hst hc
      rw [hpop] at h
      cases h
      have hsize := hperm.length_eq
      rw [List.length_append,Std.ExtTreeSet.length_toList,Std.ExtTreeSet.length_toList,hlen] at hsize
      have hrest : rest.size=0 ↔ (st.size:Int) ≤ count := by omega
      apply (kept_set s key _).forgets.congr
      simp [Value.isEmpty,Std.ExtTreeSet.eq_empty_iff_size_eq_zero,hrest]

theorem forgets_sMove (s : MemoryStore F) (now : Int) (src dst x : Bytes) :
    Forgets s (dropError s (s.sMove now src dst x)) src
      ((s.setGuard now src=true ∧ s.setGuard now dst=true) ∧
        ∃ st, s.sets[src]?=some st ∧ x ∈ st ∧ ∀ y ∈ st, y=x) := by
  rcases sMove_cases s now src dst x with
    ⟨hguard,hmove⟩ | ⟨hguard,⟨hx,hmove⟩ | ⟨hx,s',hmove,hmoved⟩⟩
  · rw [hmove]
    exact forgets_none rfl fun h => hguard h.1
  · rw [hmove]
    apply forgets_none rfl
    rintro ⟨_,st,hst,hmem,_⟩
    rw [Std.ExtTreeMap.getD_eq_getD_getElem?,hst] at hx
    exact hx hmem
  · rw [hmove]
    apply hmoved.forgets.congr
    rw [Std.ExtTreeMap.getD_eq_getD_getElem?] at hx ⊢
    cases hst : s.sets[src]? with
    | none =>
      rw [hst] at hx
      exact absurd hx Std.ExtTreeSet.not_mem_empty
    | some st =>
      rw [hst] at hx
      have hempty : (st.erase x).isEmpty=true ↔ ∀ y ∈ st, y=x := by
        rw [KeySet.isEmpty_iff_forall]
        simp only [KeySet.mem_erase_iff,ne_eq,not_and,not_not]
      have hcond : (∃ st', some st=some st' ∧ x ∈ st' ∧ ∀ y ∈ st', y=x) ↔ ∀ y ∈ st, y=x := by
        simpa using fun _ => hx
      rw [hcond,← hempty]
      exact (and_iff_right hguard).symm

theorem isEmpty_foldl_zRemMember (members : List Bytes) (z : Map F) :
    (members.foldl zRemMember (0,z)).2.isEmpty=true ↔ ∀ x ∈ z, x ∈ members := by
  have hmem : ∀ x, x ∈ (members.foldl zRemMember (0,z)).2 ↔ x ∈ z ∧ x ∉ members := by
    intro x
    apply Loops.foldl_removes (fun (acc : Int × Map F) x => x ∈ acc.2) (s := (0,z))
    · intro acc y hy x
      rw [zRemMember,if_pos hy]
      exact Map.mem_erase_iff
    · intro acc y hy
      rw [zRemMember,if_neg hy]
  rw [Map.isEmpty_iff_forall]
  simp only [hmem,not_and,not_not]

theorem forgets_zRem (s : MemoryStore F) (now : Int) (key : Bytes) (members : List Bytes) :
    Forgets s (dropError s (s.zRem now key members)) key
      (∃ z, s.getZSet now key=.ok (some z) ∧ ∀ x ∈ z, x ∈ members) := by
  rw [zRem]
  cases hz : s.getZSet now key with
  | error e => exact forgets_none rfl (by simp)
  | ok oz =>
    cases oz with
    | none => exact forgets_none rfl (by simp)
    | some z =>
      apply (kept_zset s key _).forgets.congr
      simp [Value.isEmpty,← isEmpty_foldl_zRemMember]

theorem forgets_popZSet [Float64 F] {order : List (ZMember F) → List (ZMember F)}
    {r : Except StoreError (List (ZMember F) × MemoryStore F)} (hord : FromEnd order)
    (hc : 0 ≤ count) (h : popZSet order s now key count=.ok r) : Forgets s (dropError s r) key
      (∃ z, s.getZSet now key=.ok (some z) ∧ z ≠ ∅ ∧ z.size ≤ count) := by
  cases hz : s.getZSet now key with
  | error e =>
    rw [popZSet,hz] at h
    cases h
    exact forgets_none rfl (by simp)
  | ok oz =>
    cases oz with
    | none =>
      rw [popZSet,hz] at h
      cases h
      exact forgets_none rfl (by simp)
    | some z =>
      by_cases hne : z=∅
      · subst hne
        simp only [popZSet,hz] at h
        cases h
        exact forgets_none rfl (by simp)
      · rw [popZSet_eq hz hne hc] at h
        cases h
        have hsize := size_without hord z count.toNat
        have hnone : z.size-count.toNat=0 ↔ (z.size:Int) ≤ count := by omega
        apply (kept_zset s key _).forgets.congr
        rw [Value.isEmpty,Std.ExtTreeMap.isEmpty_iff,Std.ExtTreeMap.eq_empty_iff_size_eq_zero,
          hsize,hnone]
        simp [hne]

end MemoryStore
end GoRedis
