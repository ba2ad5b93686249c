import GoRedis.Storage.Slots
/-!
# Operations as edits

Every operation of the store, branch by branch: which slot it edits and how.
-/
namespace GoRedis
variable {F : Type}

namespace MemoryStore
open Slot

/-- What the seven maps hold for `k`. -/
def slot (s : MemoryStore F) (k : Bytes) : Slot F := { s.toMaps.row k with version := s.keyVersion[k]? }

@[simp] theorem slot_toRow (s : MemoryStore F) (k : Bytes) : (s.slot k).toRow=s.toMaps.row k := rfl

theorem typeOf_eq_slot (s : MemoryStore F) (now : Int) (k : Bytes) :
    s.typeOf now k=(s.slot k).typeOf now := s.toMaps.typeOf_eq_row now k

theorem version_eq_slot (s : MemoryStore F) (k : Bytes) : s.version k=(s.slot k).version.getD 0 := by
  rw [version,Std.ExtTreeMap.getD_eq_getD_getElem?]
  rfl

theorem ext_slot {s s' : MemoryStore F} (h : s.slot=s'.slot) : s=s' := by
  have hmaps : s.toMaps=s'.toMaps := Maps.ext_row fun k => congrArg Slot.toRow (congrFun h k)
  have hver : s.keyVersion=s'.keyVersion :=
    Std.ExtTreeMap.ext_getElem? fun k => congrArg Slot.version (congrFun h k)
  cases s
  cases s'
  simp_all

theorem slot_eq_update {s s' : MemoryStore F} {k : Bytes} {r : Slot F} (hk : s'.slot k=r)
    (hne : ∀ k', k ≠ k' → s'.slot k'=s.slot k') : s'.slot=Function.update s.slot k r := by
  funext k'
  by_cases h : k'=k
  · subst h
    rw [Function.update_self,hk]
  · rw [Function.update_of_ne h,hne k' (Ne.symm h)]

theorem row_of_slot {s s' : MemoryStore F} {k : Bytes} {r : Slot F}
    (h : s'.slot=Function.update s.slot k r) : s'.row k=r.toRow := by
  have hk := congrFun h k
  rw [Function.update_self] at hk
  exact congrArg Slot.toRow hk

theorem slot_bumpVersion (s : MemoryStore F) (k : Bytes) :
    (s.bumpVersion k).slot=Function.update s.slot k (s.slot k).bump := by
  refine slot_eq_update ?_ fun k' h => ?_
  · simp [slot,bumpVersion,bump,Std.ExtTreeMap.getD_eq_getD_getElem?]
  · simp [slot,bumpVersion,Map.getElem?_insert,h]

theorem slot_deleteKey (s : MemoryStore F) (k : Bytes) :
    (s.deleteKey k).slot=Function.update s.slot k ((s.slot k).setRow .absent) := by
  refine slot_eq_update ?_ fun k' h => ?_
  · simp [slot,setRow,Maps.row_deleteKey,deleteKey]
  · simp [slot,Maps.row_deleteKey,deleteKey,h]

theorem slot_putString (s : MemoryStore F) (k : Bytes) (e : StrEntry) :
    (s.putString k e).slot=
      Function.update s.slot k ((s.slot k).setRow { s.toMaps.row k with string := some e }) := by
  refine slot_eq_update ?_ fun k' h => ?_
  · simp [slot,setRow,Maps.row,putString]
  · simp [slot,Maps.row,putString,Map.getElem?_insert,h]

theorem slot_putList (s : MemoryStore F) (k : Bytes) (l : List Bytes) :
    (s.putList k l).slot=
      Function.update s.slot k ((s.slot k).setRow ((Value.list l).into (s.toMaps.row k))) := by
  refine slot_eq_update ?_ fun k' h => ?_
  · simp [slot,setRow,Value.into,Maps.row,putList]
  · simp [slot,Maps.row,putList,Map.getElem?_insert,h]

theorem slot_putSet (s : MemoryStore F) (k : Bytes) (st : KeySet) :
    (s.putSet k st).slot=
      Function.update s.slot k ((s.slot k).setRow ((Value.set st).into (s.toMaps.row k))) := by
  refine slot_eq_update ?_ fun k' h => ?_
  · simp [slot,setRow,Value.into,Maps.row,putSet]
  · simp [slot,Maps.row,putSet,Map.getElem?_insert,h]

theorem slot_putZSet (s : MemoryStore F) (k : Bytes) (z : Map F) :
    (s.putZSet k z).slot=
      Function.update s.slot k ((s.slot k).setRow ((Value.zset z).into (s.toMaps.row k))) := by
  refine slot_eq_update ?_ fun k' h => ?_
  · simp [slot,setRow,Value.into,Maps.row,putZSet]
  · simp [slot,Maps.row,putZSet,Map.getElem?_insert,h]

theorem slot_dropList (s : MemoryStore F) (k : Bytes) :
    (s.dropList k).slot=
      Function.update s.slot k ((s.slot k).setRow ((s.toMaps.row k).drop .list)) := by
  refine slot_eq_update ?_ fun k' h => ?_
  · simp [slot,setRow,Row.drop,Maps.row,dropList]
  · simp [slot,Maps.row,dropList,Map.getElem?_erase,h]

theorem slot_dropSet (s : MemoryStore F) (k : Bytes) :
    (s.dropSet k).slot=
      Function.update s.slot k ((s.slot k).setRow ((s.toMaps.row k).drop .set)) := by
  refine slot_eq_update ?_ fun k' h => ?_
  · simp [slot,setRow,Row.drop,Maps.row,dropSet]
  · simp [slot,Maps.row,dropSet,Map.getElem?_erase,h]

theorem slot_dropZSet (s : MemoryStore F) (k : Bytes) :
    (s.dropZSet k).slot=
      Function.update s.slot k ((s.slot k).setRow ((s.toMaps.row k).drop .zset)) := by
  refine slot_eq_update ?_ fun k' h => ?_
  · simp [slot,setRow,Row.drop,Maps.row,dropZSet]
  · simp [slot,Maps.row,dropZSet,Map.getElem?_erase,h]

theorem slot_bumped {s u : MemoryStore F} {k : Bytes} {row : Row F}
    (h : u.slot=Function.update s.slot k ((s.slot k).setRow row)) :
    (u.bumpVersion k).slot=Function.update s.slot k ((s.slot k).setRow row).bump := by
  rw [slot_bumpVersion,h,Function.update_self,Function.update_idem]

theorem slot_replaced {s u : MemoryStore F} {k : Bytes} {row : Row F}
    (h : u.slot=Function.update (s.deleteKey k).slot k (((s.deleteKey k).slot k).setRow row)) :
    (u.bumpVersion k).slot=Function.update s.slot k ((s.slot k).setRow row).bump := by
  rw [slot_bumpVersion,h,slot_deleteKey,Function.update_self,Function.update_self,
    Function.update_idem,Function.update_idem]
  rfl

theorem row_deleteKey_self (s : MemoryStore F) (k : Bytes) :
    (s.deleteKey k).toMaps.row k=.absent := by
  rw [deleteKey_toMaps,Maps.row_deleteKey,if_pos rfl]

theorem slot_setString (s : MemoryStore F) (k : Bytes) (e : StrEntry) :
    (((s.deleteKey k).putString k e).bumpVersion k).slot=
      Function.update s.slot k ((s.slot k).setRow { Row.absent with string := some e }).bump := by
  refine slot_replaced ?_
  rw [slot_putString,row_deleteKey_self]

theorem slot_storeSet (s : MemoryStore F) (k : Bytes) (st : KeySet) :
    (((s.deleteKey k).putSet k st).bumpVersion k).slot=
      Function.update s.slot k ((s.slot k).setRow ((Value.set st).into .absent)).bump := by
  refine slot_replaced ?_
  rw [slot_putSet,row_deleteKey_self]

theorem slot_storeZSet (s : MemoryStore F) (k : Bytes) (z : Map F) :
    (((s.deleteKey k).putZSet k z).bumpVersion k).slot=
      Function.update s.slot k ((s.slot k).setRow ((Value.zset z).into .absent)).bump := by
  refine slot_replaced ?_
  rw [slot_putZSet,row_deleteKey_self]

theorem slot_hSet (s : MemoryStore F) (k : Bytes) (fields : Map Bytes) :
    (s.hSet k fields).2.slot=Function.update s.slot k ((s.slot k).setRow { s.toMaps.row k with
      string := none,hash := some (mergeFields (s.hashes.getD k ∅) fields) }).bump := by
  refine slot_eq_update ?_ fun k' h => ?_
  · refine congrArg₂ Slot.mk ((s.row_hSet k fields k).trans (if_pos rfl)) ?_
    simp [hSet,bumpVersion,slot,Std.ExtTreeMap.getD_eq_getD_getElem?]
  · refine congrArg₂ Slot.mk ((s.row_hSet k fields k').trans (if_neg h)) ?_
    simp [hSet,bumpVersion,Map.getElem?_insert,h]

theorem slot_hashes (s : MemoryStore F) (k : Bytes) (h : Map Bytes) :
    ({ s with hashes := s.hashes.insert k h }.bumpVersion k).slot=
      Function.update s.slot k ((s.slot k).setRow ((Value.hash h).into (s.toMaps.row k))).bump := by
  refine slot_bumped (slot_eq_update ?_ fun k' hne => ?_)
  · simp [slot,setRow,Value.into,Maps.row]
  · simp [slot,Maps.row,Map.getElem?_insert,hne]

theorem slot_dropHash (s : MemoryStore F) (k : Bytes) :
    slot { s with
      hashes := s.hashes.erase k
      keyExpiry := s.keyExpiry.erase k
      keyVersion := s.keyVersion.erase k }=
      Function.update s.slot k (s.slot k).forgotten := by
  refine slot_eq_update ?_ fun k' h => ?_
  · simp [slot,forgotten,Row.drop,Maps.row]
  · simp [slot,Maps.row,Map.getElem?_erase,h]

theorem slot_keyExpiry (s : MemoryStore F) (k : Bytes) (d : Int) :
    slot { s with keyExpiry := s.keyExpiry.insert k d }=
      Function.update s.slot k ((s.slot k).setRow { s.toMaps.row k with expiry := some d }) := by
  refine slot_eq_update ?_ fun k' h => ?_
  · simp [slot,setRow,Maps.row]
  · simp [slot,Maps.row,Map.getElem?_insert,h]

theorem slot_keyExpiry_erase (s : MemoryStore F) (k : Bytes) :
    slot { s with keyExpiry := s.keyExpiry.erase k }=
      Function.update s.slot k ((s.slot k).setRow { s.toMaps.row k with expiry := none }) := by
  refine slot_eq_update ?_ fun k' h => ?_
  · simp [slot,setRow,Maps.row]
  · simp [slot,Maps.row,Map.getElem?_erase,h]

theorem contains_stale (s : MemoryStore F) (now : Int) (k : Bytes) :
    (s.keyExpiry.filter fun _ t => t < now).contains k=s.keyExpiredNonStr now k := by
  rw [Maps.keyExpiredNonStr,Std.ExtTreeMap.contains_eq_isSome_getElem?,
    Std.ExtTreeMap.getElem?_filter']
  cases s.keyExpiry[k]? with
  | none => rfl
  | some t => by_cases ht : t < now <;> simp [expired,Option.filter,ht]

theorem slot_deleteExpired (s : MemoryStore F) (now : Int) (k : Bytes) :
    (s.deleteExpired now).slot k=(s.slot k).sweep now := by
  have hstale := contains_stale s now k
  rw [Maps.keyExpiredNonStr] at hstale
  have hkeep : ∀ {V : Type} (m : Map V), (m.filter fun k _ =>
      !(s.keyExpiry.filter fun _ t => t < now).contains k)[k]?=
      if expired now s.keyExpiry[k]? then none else m[k]? := by
    intro V m
    rw [Std.ExtTreeMap.getElem?_filter',hstale]
    cases expired now s.keyExpiry[k]? <;> cases m[k]? <;> rfl
  have hexpiry : (s.keyExpiry.filter fun _ t => !(t < now))[k]?=
      if expired now s.keyExpiry[k]? then none else s.keyExpiry[k]? := by
    rw [Std.ExtTreeMap.getElem?_filter']
    cases s.keyExpiry[k]? with
    | none => rfl
    | some t => by_cases ht : t < now <;> simp [expired,Option.filter,ht]
  have hversion : (s.keyVersion.filter fun k _ =>
      !(s.keyExpiry.filter fun _ t => t < now).contains k &&
        !(s.strings[k]?.any fun e => expired now e.expiresAt))[k]?=
      if expired now s.keyExpiry[k]? ∨ s.strings[k]?.any fun e => expired now e.expiresAt
        then none else s.keyVersion[k]? := by
    rw [Std.ExtTreeMap.getElem?_filter',hstale]
    cases expired now s.keyExpiry[k]? <;>
      cases s.strings[k]?.any fun e => expired now e.expiresAt <;> cases s.keyVersion[k]? <;> rfl
  have hstrings : (s.strings.filter fun _ e => !expired now e.expiresAt)[k]?=
      s.strings[k]?.filter fun e => !expired now e.expiresAt := by
    rw [Std.ExtTreeMap.getElem?_filter']
  simp only [slot,Maps.row,deleteExpired,sweep,hkeep,hexpiry,hversion,hstrings]
  rfl

/-- Edits that count up versions, none of them more than twice. -/
def Edits (now : Int) (fills : Prop) (s s' : MemoryStore F) : Prop :=
  ∃ ks : List Bytes, (∀ k, ks.count k ≤ 2) ∧ Steps now fills ks s.slot s'.slot

variable {now : Int} {fills : Prop} {s s' : MemoryStore F} {k : Bytes}

theorem Edits.refl (s : MemoryStore F) : Edits now fills s s := ⟨[],by simp,.refl _⟩

theorem Edits.one {r : Slot F} (he : Edit now fills (s.slot k) r)
    (hs : s'.slot=Function.update s.slot k r) : Edits now fills s s' := by
  refine ⟨[k],fun k' => (List.count_le_length).trans (by simp),.edit k he ?_⟩
  rw [hs]
  exact .refl _

theorem Edits.two {u : MemoryStore F} {k' : Bytes} {r r' : Slot F}
    (he : Edit now fills (s.slot k) r) (hs : u.slot=Function.update s.slot k r)
    (he' : Edit now fills (u.slot k') r') (hs' : s'.slot=Function.update u.slot k' r') :
    Edits now fills s s' := by
  refine ⟨[k,k'],fun _ => List.count_le_length,.edit k he ?_⟩
  rw [← hs]
  refine .edit k' he' ?_
  rw [hs']
  exact .refl _

theorem Edits.dropError {α : Type} {r : Except StoreError (α × MemoryStore F)}
    (h : ∀ a u, r=.ok (a,u) → Edits now fills s u) : Edits now fills s (dropError s r) := by
  cases r with
  | error e => exact .refl s
  | ok p => exact h p.1 p.2 rfl

theorem noString_of_guard {t : KeyType} (ht : t ≠ .string)
    (h : s.typeOf now k=none ∨ s.typeOf now k=some t) : (s.slot k).NoString now := by
  refine Row.noString_of_typeOf ?_
  rw [slot_toRow,← Maps.typeOf_eq_row]
  rcases h with h | h <;> rw [h]
  · exact (Option.some_ne_none _).symm
  · exact fun he => ht (Option.some.inj he)

theorem edits_setString (e : StrEntry) :
    Edits now fills s (((s.deleteKey k).putString k e).bumpVersion k) :=
  .one (.string _ e) (slot_setString s k e)

theorem edits_setAdv (s : MemoryStore F) (k v : Bytes) (ttl : Int) (opts : SetAdvOpts) :
    Edits now fills s (s.setAdv now k v ttl opts).2.2 := by
  rcases s.setAdv_cases now k v ttl opts with ⟨_,hrun⟩ | ⟨_,hrun⟩
  · rw [hrun]
    exact .refl s
  · rw [hrun]
    exact edits_setString _

theorem steps_del (s : MemoryStore F) (now : Int) (keys : List Bytes) :
    ∃ ks : List Bytes, ks.Nodup ∧ (∀ k ∈ ks, s.typeOf now k ≠ none) ∧
      Steps now fills ks s.slot (s.del now keys).2.slot := by
  induction keys generalizing s with
  | nil => exact ⟨[],List.nodup_nil,by simp,.refl _⟩
  | cons k keys ih =>
    rw [del]
    split
    · exact ih s
    · rename_i hk
      have hslot : ((s.deleteKey k).bumpVersion k).slot=
          Function.update s.slot k ((s.slot k).setRow .absent).bump :=
        slot_bumped (slot_deleteKey s k)
      obtain ⟨ks,hnd,hks,hsteps⟩ := ih ((s.deleteKey k).bumpVersion k)
      have hne : ∀ k' ∈ ks, k' ≠ k := by
        rintro k' hk' rfl
        refine hks k' hk' ?_
        rw [typeOf_eq_slot,hslot,Function.update_self]
        exact Row.typeOf_absent now
      refine ⟨k::ks,List.nodup_cons.mpr ⟨fun h => hne k h rfl,hnd⟩,?_,.edit k (.remove _) ?_⟩
      · intro k' hk'
        rcases List.mem_cons.mp hk' with rfl | hk'
        · exact hk
        · have := hks k' hk'
          rwa [typeOf_eq_slot,hslot,Function.update_of_ne (hne k' hk'),← typeOf_eq_slot] at this
      · rw [← hslot]
        exact hsteps

theorem edits_del (s : MemoryStore F) (now : Int) (keys : List Bytes) :
    Edits now fills s (s.del now keys).2 := by
  obtain ⟨ks,hnd,_,hsteps⟩ := (steps_del s now keys : ∃ ks : List Bytes,
    ks.Nodup ∧ (∀ k ∈ ks, s.typeOf now k ≠ none) ∧ Steps now fills ks s.slot _)
  exact ⟨ks,fun k => (List.nodup_iff_count_le_one.mp hnd k).trans (by decide),hsteps⟩

theorem moveEntry_keyVersion (s : MemoryStore F) (t : KeyType) (src dst : Bytes) :
    (s.moveEntry t src dst).keyVersion=s.keyVersion := by
  cases t <;> rfl

theorem rename_keyVersion {src dst : Bytes} {b : Bool} {t : KeyType}
    (ht : s.typeOf now src=some t) (h : s.rename now src dst=.ok (b,s')) :
    s'.keyVersion=((s.bumpVersion dst).bumpVersion src).keyVersion := by
  obtain ⟨_,x,rfl,_⟩ := rename_ok ht h
  simp only [bumpVersion,moveEntry_keyVersion,deleteKey]

theorem slot_rename {src dst : Bytes} {b : Bool} {t : KeyType} (hne : src ≠ dst)
    (ht : s.typeOf now src=some t) (h : s.rename now src dst=.ok (b,s')) :
    s'.slot=move t src dst s.slot := by
  have hrow := row_renamed hne ht h
  have hver : ∀ k, s'.keyVersion[k]?=(((s.bumpVersion dst).bumpVersion src).slot k).version :=
    fun k => by rw [rename_keyVersion ht h]; rfl
  simp only [slot_bumpVersion] at hver
  funext k
  by_cases hs : k=src
  · subst hs
    rw [move_src]
    refine congrArg₂ Slot.mk ((hrow k).trans (if_pos rfl)) ((hver k).trans ?_)
    rw [Function.update_self,Function.update_of_ne hne]
    rfl
  · by_cases hd : k=dst
    · subst hd
      rw [move_dst hne]
      refine congrArg₂ Slot.mk ((hrow k).trans ?_) ((hver k).trans ?_)
      · rw [if_neg hne,if_pos rfl]
        rfl
      rw [Function.update_of_ne hs,Function.update_self]
      rfl
    · rw [move_of_ne hs hd]
      refine congrArg₂ Slot.mk ((hrow k).trans ?_) ((hver k).trans ?_)
      · rw [if_neg (Ne.symm hs),if_neg (Ne.symm hd)]
      rw [Function.update_of_ne hs,Function.update_of_ne hd]
      rfl

theorem slot_rename_self {b : Bool} {t : KeyType} (ht : s.typeOf now k=some t)
    (h : s.rename now k k=.ok (b,s')) :
    s'.slot=(((s.deleteKey k).bumpVersion k).bumpVersion k).slot := by
  obtain ⟨_,x,rfl,hx⟩ := rename_ok ht h
  funext k'
  by_cases hk : k=k'
  · subst hk
    cases t <;> simp [slot,Maps.row,moveEntry,deleteKey,Maps.deleteKey,bumpVersion,hx]
  · cases t <;> simp [slot,Maps.row,moveEntry,deleteKey,Maps.deleteKey,bumpVersion,hx,hk,
      Map.getElem?_insert,Map.getElem?_erase]

theorem edits_rename_self {b : Bool} {t : KeyType} (ht : s.typeOf now k=some t)
    (h : s.rename now k k=.ok (b,s')) : Edits now fills s s' := by
  have hslot := slot_rename_self ht h
  refine .two (.remove _) (slot_bumped (slot_deleteKey s k))
    (.remove (((s.deleteKey k).bumpVersion k).slot k)) (hslot.trans ?_)
  rw [slot_bumpVersion,slot_bumped (slot_deleteKey s k),Function.update_self]
  rfl

theorem mergeFields_ne_empty {old fields : Map Bytes} (h : fields ≠ ∅ ∨ old ≠ ∅) :
    mergeFields old fields ≠ ∅ := by
  intro he
  have hnone : ∀ k : Bytes, fields[k]?=none ∧ old[k]?=none := by
    intro k
    have := congrArg (fun m : Map Bytes => m[k]?) he
    simp only [mergeFields,Map.getElem?_foldl_toList] at this
    cases hf : fields[k]? <;> simp_all
  rcases h with h | h
  · exact h ((Map.eq_empty_iff _).mpr fun k => (hnone k).1)
  · exact h ((Map.eq_empty_iff _).mpr fun k => (hnone k).2)

theorem edits_hSet (s : MemoryStore F) (k : Bytes) (fields : Map Bytes)
    (hfill : fills → fields ≠ ∅ ∨ s.hashes.getD k ∅ ≠ ∅) :
    Edits now fills s (s.hSet k fields).2 :=
  .one (.putHash _ _ fun hf => mergeFields_ne_empty (hfill hf)) (slot_hSet s k fields)

theorem edits_putList (l : List Bytes) (hs : (s.slot k).NoString now) :
    Edits now fills s ((s.putList k l).bumpVersion k) :=
  .one (.put _ (.list l) (.inr hs) fun _ => trivial) (slot_bumped (slot_putList s k l))

theorem edits_dropList : Edits now fills s ((s.dropList k).bumpVersion k) :=
  .one (.drop _ .list) (slot_bumped (slot_dropList s k))

theorem edits_keepList (l : List Bytes) (hs : (s.slot k).NoString now) :
    Edits now fills s ((s.keepList k l).bumpVersion k) := by
  unfold keepList
  split
  · exact edits_dropList
  · exact edits_putList l hs

theorem noString_of_listGuard (h : s.listGuard now k=true) : (s.slot k).NoString now :=
  noString_of_guard (t := .list) (by decide) (of_decide_eq_true h)

theorem noString_of_getList {l : List Bytes} (h : s.getList now k=.ok (some l)) :
    (s.slot k).NoString now := by
  refine noString_of_guard (t := .list) (by decide) (.inr ?_)
  unfold Maps.getList at h
  split at h <;> simp_all

theorem edits_lPush (s : MemoryStore F) (k : Bytes) (vs : List Bytes) :
    Edits now fills s (dropError s (s.lPush now k vs)) := by
  unfold lPush
  split
  · exact edits_putList _ (noString_of_listGuard ‹_›)
  · exact .refl s

theorem edits_rPush (s : MemoryStore F) (k : Bytes) (vs : List Bytes) :
    Edits now fills s (dropError s (s.rPush now k vs)) := by
  unfold rPush
  split
  · exact edits_putList _ (noString_of_listGuard ‹_›)
  · exact .refl s

theorem edits_popList {cut : Nat → List Bytes → List Bytes × List Bytes} {n : Int}
    {r : Except StoreError (Option (List Bytes) × MemoryStore F)}
    (h : popList cut s now k n=.ok r) : Edits now fills s (dropError s r) := by
  unfold popList at h
  split at h
  · cases h
    exact .refl s
  · cases h
    exact .refl s
  · rename_i l hl
    dsimp only at h
    split_ifs at h <;> cases h
    all_goals exact edits_keepList _ (noString_of_getList hl)

theorem edits_lSet (s : MemoryStore F) (k : Bytes) (i : Int) (v : Bytes) :
    Edits now fills s ((s.lSet now k i v).toOption.getD s) := by
  unfold lSet
  split
  · exact .refl s
  · rename_i ht
    dsimp only
    split
    · exact .refl s
    · exact edits_putList _ (noString_of_guard (t := .list) (by decide) (.inr ht))
  · exact .refl s

theorem edits_lInsert (s : MemoryStore F) (k : Bytes) (before : Bool) (pivot v : Bytes) :
    Edits now fills s (dropError s (s.lInsert now k before pivot v)) := by
  unfold lInsert
  split
  · exact .refl s
  · rename_i ht
    dsimp only
    split
    · exact .refl s
    · exact edits_putList _ (noString_of_guard (t := .list) (by decide) (.inr ht))
  · exact .refl s

theorem edits_lRem (s : MemoryStore F) (k : Bytes) (n : Int) (v : Bytes) :
    Edits now fills s (dropError s (s.lRem now k n v)) := by
  unfold lRem
  split
  · exact .refl s
  · exact .refl s
  · rename_i l hl
    dsimp only
    split
    · exact .refl s
    · exact edits_keepList _ (noString_of_getList hl)

theorem edits_lTrim (s : MemoryStore F) (k : Bytes) (start stop : Int) :
    Edits now fills s ((s.lTrim now k start stop).toOption.getD s) := by
  unfold lTrim
  split
  · exact .refl s
  · rename_i ht
    dsimp only
    split
    · exact edits_dropList
    · exact edits_putList _ (noString_of_guard (t := .list) (by decide) (.inr ht))
  · exact .refl s

theorem edits_lMove (s : MemoryStore F) (src dst : Bytes) (srcLeft dstLeft : Bool) :
    Edits now fills s (dropError s (s.lMove now src dst srcLeft dstLeft)) := by
  unfold lMove
  split
  · exact .refl s
  · rename_i hsrc
    split
    · exact .refl s
    · rename_i hdst
      simp only [Bool.not_eq_true,Bool.not_eq_false] at hsrc hdst
      dsimp only
      split
      · exact .refl s
      · have hs := noString_of_listGuard hsrc
        have hd := noString_of_listGuard hdst
        unfold keepList
        split
        · exact .two (u := (s.dropList src).bumpVersion src) (.drop _ .list)
            (slot_bumped (slot_dropList s src)) (.put _ (.list _) (.inr hd) fun _ => trivial)
            (slot_bumped (slot_putList ((s.dropList src).bumpVersion src) dst _))
        · exact .two (u := (s.putList src _).bumpVersion src)
            (.put _ (.list _) (.inr hs) fun _ => trivial) (slot_bumped (slot_putList s src _))
            (.put _ (.list _) (.inr hd) fun _ => trivial)
            (slot_bumped (slot_putList ((s.putList src _).bumpVersion src) dst _))

theorem edits_putSet (st : KeySet) (hs : (s.slot k).NoString now) :
    Edits now fills s ((s.putSet k st).bumpVersion k) :=
  .one (.put _ (.set st) (.inr hs) fun _ => trivial) (slot_bumped (slot_putSet s k st))

theorem edits_dropSet : Edits now fills s ((s.dropSet k).bumpVersion k) :=
  .one (.drop _ .set) (slot_bumped (slot_dropSet s k))

theorem edits_keepSet (st : KeySet) (hs : (s.slot k).NoString now) :
    Edits now fills s ((s.keepSet k st).bumpVersion k) := by
  unfold keepSet
  split
  · exact edits_dropSet
  · exact edits_putSet st hs

theorem noString_of_setGuard (h : s.setGuard now k=true) : (s.slot k).NoString now :=
  noString_of_guard (t := .set) (by decide) (of_decide_eq_true h)

theorem noString_of_getSet {st : KeySet} (h : s.getSet now k=.ok (some st)) :
    (s.slot k).NoString now := by
  refine noString_of_guard (t := .set) (by decide) (.inr ?_)
  unfold Maps.getSet at h
  split at h <;> simp_all

theorem edits_sAdd (s : MemoryStore F) (k : Bytes) (xs : List Bytes) :
    Edits now fills s (dropError s (s.sAdd now k xs)) := by
  unfold sAdd
  split
  · exact edits_putSet _ (noString_of_setGuard ‹_›)
  · exact .refl s

theorem edits_sRem (s : MemoryStore F) (k : Bytes) (xs : List Bytes) :
    Edits now fills s (dropError s (s.sRem now k xs)) := by
  unfold sRem
  split
  · exact .refl s
  · exact .refl s
  · exact edits_keepSet _ (noString_of_getSet ‹_›)

theorem edits_sPop {w : World} {n : Int} {r : Except StoreError (List Bytes × MemoryStore F)}
    (h : s.sPop w k n=.ok r) : Edits w.now fills s (dropError s r) := by
  unfold sPop at h
  split at h
  · cases h
    exact .refl s
  · cases h
    exact .refl s
  · rename_i st hst
    dsimp only at h
    split_ifs at h <;> cases h
    · exact edits_dropSet
    · exact edits_putSet _ (noString_of_getSet hst)

theorem edits_sMove (s : MemoryStore F) (src dst x : Bytes) :
    Edits now fills s (dropError s (s.sMove now src dst x)) := by
  unfold sMove
  split
  · exact .refl s
  · rename_i hsrc
    split
    · exact .refl s
    · rename_i hdst
      simp only [Bool.not_eq_true,Bool.not_eq_false] at hsrc hdst
      split
      · exact .refl s
      · rename_i st hst
        dsimp only
        split
        · exact .refl s
        · have hs := noString_of_setGuard hsrc
          have hd := noString_of_setGuard hdst
          unfold keepSet
          split
          · exact .two (u := (s.dropSet src).bumpVersion src) (.drop _ .set)
              (slot_bumped (slot_dropSet s src)) (.put _ (.set _) (.inr hd) fun _ => trivial)
              (slot_bumped (slot_putSet ((s.dropSet src).bumpVersion src) dst _))
          · exact .two (u := (s.putSet src _).bumpVersion src)
              (.put _ (.set _) (.inr hs) fun _ => trivial) (slot_bumped (slot_putSet s src _))
              (.put _ (.set _) (.inr hd) fun _ => trivial)
              (slot_bumped (slot_putSet ((s.putSet src _).bumpVersion src) dst _))

theorem edits_putZSet (z : Map F) (hs : (s.slot k).NoString now) (hz : fills → z ≠ ∅) :
    Edits now fills s ((s.putZSet k z).bumpVersion k) :=
  .one (.put _ (.zset z) (.inr hs) hz) (slot_bumped (slot_putZSet s k z))

theorem edits_keepZSet (z : Map F) (hs : (s.slot k).NoString now) :
    Edits now fills s ((s.keepZSet k z).bumpVersion k) := by
  unfold keepZSet
  split
  · exact .one (.drop _ .zset) (slot_bumped (slot_dropZSet s k))
  · rename_i hz
    exact edits_putZSet z hs fun _ he => hz (by rw [he]; rfl)

theorem noString_of_zsetGuard (h : s.zsetGuard now k=true) : (s.slot k).NoString now :=
  noString_of_guard (t := .zset) (by decide) (of_decide_eq_true h)

theorem noString_of_getZSet {z : Map F} (h : s.getZSet now k=.ok (some z)) :
    (s.slot k).NoString now := by
  refine noString_of_guard (t := .zset) (by decide) (.inr ?_)
  unfold Maps.getZSet at h
  split at h <;> simp_all

theorem edits_zRem (s : MemoryStore F) (k : Bytes) (xs : List Bytes) :
    Edits now fills s (dropError s (s.zRem now k xs)) := by
  unfold zRem
  split
  · exact .refl s
  · exact .refl s
  · exact edits_keepZSet _ (noString_of_getZSet ‹_›)

theorem ne_empty_of_mem {z : Map F} {x : Bytes} (h : x ∈ z) : z ≠ ∅ := by
  rintro rfl
  simp at h

section Scores
variable [Float64 F]

theorem mem_zAddMember (fl : ZAddFlags) {acc : Int × Map F} (m : ZMember F) {x : Bytes}
    (h : x ∈ acc.2) : x ∈ (zAddMember fl acc m).2 := by
  unfold zAddMember
  split
  · split_ifs <;> simp [h]
  · split_ifs <;> simp [h]

theorem mem_foldl_zAddMember (fl : ZAddFlags) (ms : List (ZMember F)) {acc : Int × Map F}
    {x : Bytes} (h : x ∈ acc.2) : x ∈ (ms.foldl (zAddMember fl) acc).2 := by
  induction ms generalizing acc with
  | nil => exact h
  | cons m ms ih => exact ih (mem_zAddMember fl m h)

theorem mem_zAddMember_self (fl : ZAddFlags) (acc : Int × Map F) (m : ZMember F)
    (hxx : fl.xx=false) : m.member ∈ (zAddMember fl acc m).2 := by
  unfold zAddMember
  split
  · rename_i old hold
    have hmem : m.member ∈ acc.2 := by
      rw [Std.ExtTreeMap.mem_iff_isSome_getElem?,hold]
      rfl
    split_ifs <;> simp [hmem]
  · simp [hxx]

theorem foldl_zAddMember_xx (fl : ZAddFlags) (ms : List (ZMember F)) (n : Int) (hxx : fl.xx=true) :
    (ms.foldl (zAddMember fl) (n,∅)).2=∅ := by
  induction ms with
  | nil => rfl
  | cons m ms ih =>
    rw [List.foldl_cons]
    simpa [zAddMember,hxx] using ih

theorem foldl_zAddMember_ne_empty {fl : ZAddFlags} {ms : List (ZMember F)} {z : Map F} {n : Int}
    (h : ms ≠ [] ∧ fl.xx=false ∨ z ≠ ∅) : (ms.foldl (zAddMember fl) (n,z)).2 ≠ ∅ := by
  rcases h with ⟨hms,hxx⟩ | hz
  · obtain ⟨m,ms,rfl⟩ := List.exists_cons_of_ne_nil hms
    exact ne_empty_of_mem (mem_foldl_zAddMember fl ms (mem_zAddMember_self fl (n,z) m hxx))
  · obtain ⟨x,hx⟩ : ∃ x, x ∈ z := by
      by_contra hnone
      refine hz ((Map.eq_empty_iff z).mpr fun k => ?_)
      by_contra hk
      exact hnone ⟨k,by rwa [Std.ExtTreeMap.mem_iff_isSome_getElem?,Option.isSome_iff_ne_none]⟩
    have hacc : x ∈ (n,z).2 := hx
    exact ne_empty_of_mem (mem_foldl_zAddMember fl ms hacc)

theorem edits_zAdd (s : MemoryStore F) (k : Bytes) (ms : List (ZMember F)) (fl : ZAddFlags)
    (hfill : fills → ms ≠ [] ∧ fl.xx=false ∨ s.zsets.getD k ∅ ≠ ∅) :
    Edits now fills s (dropError s (s.zAdd now k ms fl)) := by
  unfold zAdd
  split
  · exact edits_putZSet _ (noString_of_zsetGuard ‹_›) fun hf => foldl_zAddMember_ne_empty (hfill hf)
  · exact .refl s

theorem edits_zIncrBy (s : MemoryStore F) (k : Bytes) (incr : F) (x : Bytes) :
    Edits now fills s (dropError s (s.zIncrBy now k incr x)) := by
  unfold zIncrBy
  split
  · exact edits_putZSet _ (noString_of_zsetGuard ‹_›) fun _ => ne_empty_of_mem (x := x) (by simp)
  · exact .refl s

theorem edits_popZSet {order : List (ZMember F) → List (ZMember F)} {n : Int}
    {r : Except StoreError (List (ZMember F) × MemoryStore F)}
    (h : popZSet order s now k n=.ok r) : Edits now fills s (dropError s r) := by
  unfold popZSet at h
  split at h
  · cases h
    exact .refl s
  · cases h
    exact .refl s
  · rename_i z hz
    split at h
    · cases h
      exact .refl s
    · dsimp only at h
      split_ifs at h <;> cases h
      all_goals exact edits_keepZSet _ (noString_of_getZSet hz)

end Scores

end MemoryStore
end GoRedis
