import GoRedis.Lib.Footprint
import GoRedis.Storage.Edits
import GoRedis.Storage.Look
/-!
# Operations and the keys they name

Grafting one store onto another takes all entries of some keys from the first and all others
from the second. Every operation that names only these keys commutes with it.
-/
namespace GoRedis

/-- The entries of `m` for the keys of `K`, those of `n` for all others. -/
def Map.graft {V : Type} (K : List Bytes) (m n : Map V) : Map V :=
  (n.filter fun k _ => k ∉ K) ∪ (m.filter fun k _ => k ∈ K)

namespace Map
variable {V : Type} {K : List Bytes} {m n : Map V} {k : Bytes}

theorem getElem?_graft (K : List Bytes) (m n : Map V) (k : Bytes) :
    (graft K m n)[k]?=if k ∈ K then m[k]? else n[k]? := by
  rw [graft,Std.ExtTreeMap.getElem?_union,Std.ExtTreeMap.getElem?_filter',
    Std.ExtTreeMap.getElem?_filter']
  by_cases hk : k ∈ K <;> cases hm : m[k]? <;> cases hn : n[k]? <;> simp [hk,Option.filter]

@[simp] theorem getElem?_graft_of_mem (hk : k ∈ K) : (graft K m n)[k]?=m[k]? := by
  rw [getElem?_graft,if_pos hk]

@[simp] theorem getD_graft_of_mem (hk : k ∈ K) (v : V) : (graft K m n).getD k v=m.getD k v := by
  rw [Std.ExtTreeMap.getD_eq_getD_getElem?,Std.ExtTreeMap.getD_eq_getD_getElem?,
    getElem?_graft_of_mem hk]

@[simp] theorem mem_graft_of_mem (hk : k ∈ K) : k ∈ graft K m n ↔ k ∈ m := by
  rw [Std.ExtTreeMap.mem_iff_isSome_getElem?,Std.ExtTreeMap.mem_iff_isSome_getElem?,
    getElem?_graft_of_mem hk]

@[simp] theorem insert_graft (hk : k ∈ K) (v : V) :
    (graft K m n).insert k v=graft K (m.insert k v) n := by
  apply Std.ExtTreeMap.ext_getElem?
  intro k'
  simp only [getElem?_graft,getElem?_insert]
  by_cases h : k=k'
  · subst h
    simp [hk]
  · simp [h]

@[simp] theorem erase_graft (hk : k ∈ K) : (graft K m n).erase k=graft K (m.erase k) n := by
  apply Std.ExtTreeMap.ext_getElem?
  intro k'
  simp only [getElem?_graft,getElem?_erase]
  by_cases h : k=k'
  · subst h
    simp [hk]
  · simp [h]

end Map

variable {F : Type} {K : List Bytes} {k : Bytes}

namespace Maps
variable {m n : Maps F}

/-- The six maps grafted one by one. -/
def graft (K : List Bytes) (m n : Maps F) : Maps F where
  strings := m.strings.graft K n.strings
  hashes := m.hashes.graft K n.hashes
  lists := m.lists.graft K n.lists
  sets := m.sets.graft K n.sets
  zsets := m.zsets.graft K n.zsets
  keyExpiry := m.keyExpiry.graft K n.keyExpiry

theorem looks_graft (hk : k ∈ K) (now : Int) : (m.graft K n).Looks m now k := by
  have hexp : (m.graft K n).keyExpiredNonStr now k=m.keyExpiredNonStr now k := by
    simp only [keyExpiredNonStr,graft,Map.getElem?_graft_of_mem hk]
  constructor
  · simp only [liveString,graft,Map.getElem?_graft_of_mem hk]
  all_goals
    simp only [liveHash,live,hexp]
    simp only [graft,Map.getElem?_graft_of_mem hk]

theorem looks_graft_all {ks : List Bytes} (hks : ks ⊆ K) (now : Int) :
    ∀ k ∈ ks, (m.graft K n).Looks m now k := fun _ hk => looks_graft (hks hk) now

@[simp] theorem liveString_graft (hk : k ∈ K) (now : Int) :
    (m.graft K n).liveString now k=m.liveString now k := (looks_graft hk now).string

@[simp] theorem typeOf_graft (hk : k ∈ K) (now : Int) :
    (m.graft K n).typeOf now k=m.typeOf now k := (looks_graft hk now).typeOf

@[simp] theorem get_graft (hk : k ∈ K) (now : Int) : (m.graft K n).get now k=m.get now k :=
  (looks_graft hk now).get

@[simp] theorem ttl_graft (hk : k ∈ K) (now : Int) : (m.graft K n).ttl now k=m.ttl now k := by
  unfold ttl
  rw [typeOf_graft hk]
  simp only [graft,Map.getElem?_graft_of_mem hk]

@[simp] theorem type_graft (hk : k ∈ K) (now : Int) : (m.graft K n).type now k=m.type now k :=
  typeOf_graft hk now

@[simp] theorem liveHash_graft (hk : k ∈ K) (now : Int) :
    (m.graft K n).liveHash now k=m.liveHash now k := (looks_graft hk now).hash

@[simp] theorem hGet_graft (hk : k ∈ K) (now : Int) (f : Bytes) :
    (m.graft K n).hGet now k f=m.hGet now k f := (looks_graft hk now).hGet f

@[simp] theorem getList_graft (hk : k ∈ K) (now : Int) :
    (m.graft K n).getList now k=m.getList now k := (looks_graft hk now).getList

@[simp] theorem getSet_graft (hk : k ∈ K) (now : Int) :
    (m.graft K n).getSet now k=m.getSet now k := (looks_graft hk now).getSet

@[simp] theorem getZSet_graft (hk : k ∈ K) (now : Int) :
    (m.graft K n).getZSet now k=m.getZSet now k := (looks_graft hk now).getZSet

end Maps

namespace MemoryStore
variable {s t : MemoryStore F}

/-- The seven maps grafted one by one. -/
def graft (K : List Bytes) (s t : MemoryStore F) : MemoryStore F where
  toMaps := s.toMaps.graft K t.toMaps
  keyVersion := s.keyVersion.graft K t.keyVersion

@[simp] theorem graft_toMaps (K : List Bytes) (s t : MemoryStore F) :
    (s.graft K t).toMaps=s.toMaps.graft K t.toMaps := rfl

theorem slot_graft (K : List Bytes) (s t : MemoryStore F) (k : Bytes) :
    (s.graft K t).slot k=if k ∈ K then s.slot k else t.slot k := by
  simp only [slot,Maps.row,graft,Maps.graft,Map.getElem?_graft]
  split_ifs <;> rfl

/-- A store seen as the slots of its keys. -/
def cells : Footprint.Cells (MemoryStore F) Bytes (Slot F) where
  cell := slot
  ext := ext_slot
  graft := graft
  graft_of_mem hk := (slot_graft ..).trans (if_pos hk)
  graft_of_notMem hk := (slot_graft ..).trans (if_neg hk)

/-- The outcome of an operation, its store grafted. -/
def grafted {α : Type} (K : List Bytes) (t : MemoryStore F) (r : α × MemoryStore F) :
    α × MemoryStore F := (r.1,r.2.graft K t)

@[simp] theorem bumpVersion_graft (hk : k ∈ K) :
    (s.graft K t).bumpVersion k=(s.bumpVersion k).graft K t := by
  simp only [bumpVersion,graft,Map.getD_graft_of_mem hk,Map.insert_graft hk]

@[simp] theorem deleteKey_graft (hk : k ∈ K) :
    (s.graft K t).deleteKey k=(s.deleteKey k).graft K t := by
  simp only [deleteKey,Maps.deleteKey,graft,Maps.graft,Map.erase_graft hk]

@[simp] theorem putString_graft (hk : k ∈ K) (e : StrEntry) :
    (s.graft K t).putString k e=(s.putString k e).graft K t := by
  simp only [putString,graft,Maps.graft,Map.insert_graft hk]

@[simp] theorem putList_graft (hk : k ∈ K) (l : List Bytes) :
    (s.graft K t).putList k l=(s.putList k l).graft K t := by
  simp only [putList,graft,Maps.graft,Map.insert_graft hk]

@[simp] theorem dropList_graft (hk : k ∈ K) :
    (s.graft K t).dropList k=(s.dropList k).graft K t := by
  simp only [dropList,graft,Maps.graft,Map.erase_graft hk]

@[simp] theorem keepList_graft (hk : k ∈ K) (l : List Bytes) :
    (s.graft K t).keepList k l=(s.keepList k l).graft K t := by
  rw [keepList,dropList_graft hk,putList_graft hk,keepList,apply_ite (graft K · t)]

@[simp] theorem putSet_graft (hk : k ∈ K) (st : KeySet) :
    (s.graft K t).putSet k st=(s.putSet k st).graft K t := by
  simp only [putSet,graft,Maps.graft,Map.insert_graft hk]

@[simp] theorem dropSet_graft (hk : k ∈ K) : (s.graft K t).dropSet k=(s.dropSet k).graft K t := by
  simp only [dropSet,graft,Maps.graft,Map.erase_graft hk]

@[simp] theorem keepSet_graft (hk : k ∈ K) (st : KeySet) :
    (s.graft K t).keepSet k st=(s.keepSet k st).graft K t := by
  rw [keepSet,dropSet_graft hk,putSet_graft hk,keepSet,apply_ite (graft K · t)]

@[simp] theorem putZSet_graft (hk : k ∈ K) (z : Map F) :
    (s.graft K t).putZSet k z=(s.putZSet k z).graft K t := by
  simp only [putZSet,graft,Maps.graft,Map.insert_graft hk]

@[simp] theorem dropZSet_graft (hk : k ∈ K) :
    (s.graft K t).dropZSet k=(s.dropZSet k).graft K t := by
  simp only [dropZSet,graft,Maps.graft,Map.erase_graft hk]

@[simp] theorem keepZSet_graft (hk : k ∈ K) (z : Map F) :
    (s.graft K t).keepZSet k z=(s.keepZSet k z).graft K t := by
  rw [keepZSet,dropZSet_graft hk,putZSet_graft hk,keepZSet,apply_ite (graft K · t)]

@[simp] theorem lists_getD_graft (hk : k ∈ K) (l : List Bytes) :
    (s.graft K t).lists.getD k l=s.lists.getD k l := Map.getD_graft_of_mem hk l

@[simp] theorem sets_getD_graft (hk : k ∈ K) (st : KeySet) :
    (s.graft K t).sets.getD k st=s.sets.getD k st := Map.getD_graft_of_mem hk st

@[simp] theorem zsets_getD_graft (hk : k ∈ K) (z : Map F) :
    (s.graft K t).zsets.getD k z=s.zsets.getD k z := Map.getD_graft_of_mem hk z

@[simp] theorem set_graft (hk : k ∈ K) (v : Bytes) :
    (s.graft K t).set k v=(s.set k v).graft K t := by
  rw [set,deleteKey_graft hk,putString_graft hk,bumpVersion_graft hk,set]

@[simp] theorem setWithTTL_graft (hk : k ∈ K) (now : Int) (v : Bytes) (ttl : Int) :
    (s.graft K t).setWithTTL now k v ttl=(s.setWithTTL now k v ttl).graft K t := by
  rw [setWithTTL,deleteKey_graft hk,putString_graft hk,bumpVersion_graft hk,setWithTTL]

@[simp] theorem setAdv_graft (hk : k ∈ K) (now : Int) (v : Bytes) (ttl : Int) (opts : SetAdvOpts) :
    (s.graft K t).setAdv now k v ttl opts=
      ((s.setAdv now k v ttl opts).1,grafted K t (s.setAdv now k v ttl opts).2) := by
  have hstr : (s.graft K t).strings[k]?=s.strings[k]? := Map.getElem?_graft_of_mem hk
  unfold setAdv
  dsimp only
  rw [graft_toMaps,Maps.get_graft hk,← graft_toMaps,hstr,deleteKey_graft hk,putString_graft hk,
    bumpVersion_graft hk]
  split_ifs <;> rfl

@[simp] theorem getEx_graft (hk : k ∈ K) (now ttl : Int) (persist hasTTL : Bool) :
    (s.graft K t).getEx now k ttl persist hasTTL=
      grafted K t (s.getEx now k ttl persist hasTTL) := by
  unfold getEx
  rw [graft_toMaps,Maps.liveString_graft hk]
  cases s.liveString now k with
  | none => rfl
  | some e =>
    dsimp only
    rw [putString_graft hk,putString_graft hk]
    split_ifs <;> rfl

@[simp] theorem del_graft {ks : List Bytes} (hks : ks ⊆ K) (now : Int) :
    (s.graft K t).del now ks=grafted K t (s.del now ks) := by
  induction ks generalizing s with
  | nil => rfl
  | cons k ks ih =>
    rw [List.cons_subset] at hks
    rw [del,graft_toMaps,Maps.typeOf_graft hks.1,ih hks.2,deleteKey_graft hks.1,
      bumpVersion_graft hks.1,ih hks.2,del]
    split_ifs <;> rfl

@[simp] theorem expire_graft (hk : k ∈ K) (now ttl : Int) :
    (s.graft K t).expire now k ttl=grafted K t (s.expire now k ttl) := by
  unfold expire
  rw [graft_toMaps,Maps.liveString_graft hk,Maps.typeOf_graft hk]
  cases s.liveString now k with
  | some e =>
    dsimp only
    rw [putString_graft hk]
    rfl
  | none =>
    dsimp only
    split_ifs
    · rfl
    · simp only [grafted,graft,Maps.graft,Map.insert_graft hk]

@[simp] theorem persist_graft (hk : k ∈ K) (now : Int) :
    (s.graft K t).persist now k=grafted K t (s.persist now k) := by
  unfold persist
  rw [graft_toMaps,Maps.liveString_graft hk,Maps.typeOf_graft hk]
  cases (s.liveString now k).filter fun e => e.expiresAt.isSome with
  | some e =>
    dsimp only
    rw [putString_graft hk]
    rfl
  | none =>
    simp only [Maps.graft,Map.mem_graft_of_mem hk]
    split_ifs
    · rfl
    · simp only [grafted,graft,Maps.graft,Map.erase_graft hk]
    · rfl

@[simp] theorem moveEntry_graft {src dst : Bytes} (hsrc : src ∈ K) (hdst : dst ∈ K) (ty : KeyType) :
    (s.graft K t).moveEntry ty src dst=(s.moveEntry ty src dst).graft K t := by
  cases ty <;> simp only [moveEntry,graft,Maps.graft,Map.getD_graft_of_mem hsrc,
    Map.insert_graft hdst,Map.erase_graft hsrc]

@[simp] theorem rename_graft {src dst : Bytes} (hsrc : src ∈ K) (hdst : dst ∈ K) (now : Int) :
    (s.graft K t).rename now src dst=(s.rename now src dst).map (grafted K t) := by
  have hexp : ∀ u : MemoryStore F, (u.graft K t).keyExpiry[src]?=u.keyExpiry[src]? :=
    fun u => Map.getElem?_graft_of_mem hsrc
  have hmem : ∀ u : MemoryStore F, src ∉ (u.graft K t).zsets ↔ src ∉ u.zsets :=
    fun u => not_congr (Map.mem_graft_of_mem hsrc)
  unfold rename
  rw [graft_toMaps,Maps.typeOf_graft hsrc]
  cases s.typeOf now src with
  | none => rfl
  | some ty =>
    dsimp only
    simp only [deleteKey_graft hdst,hmem,moveEntry_graft hsrc hdst,hexp]
    split_ifs
    · rfl
    · cases ((s.deleteKey dst).moveEntry ty src dst).keyExpiry[src]? with
      | none =>
        simp only [Except.map,grafted,graft,Maps.graft,bumpVersion,Map.erase_graft hdst,
          Map.getD_graft_of_mem hdst,Map.insert_graft hdst,Map.getD_graft_of_mem hsrc,
          Map.insert_graft hsrc]
      | some exp =>
        simp only [Except.map,grafted,graft,Maps.graft,bumpVersion,Map.erase_graft hsrc,
          Map.getD_graft_of_mem hdst,Map.insert_graft hdst,Map.getD_graft_of_mem hsrc,
          Map.insert_graft hsrc]

@[simp] theorem hSet_graft (hk : k ∈ K) (fields : Map Bytes) :
    (s.graft K t).hSet k fields=grafted K t (s.hSet k fields) := by
  simp only [hSet,grafted,graft,Maps.graft,bumpVersion,Map.getD_graft_of_mem hk,
    Map.erase_graft hk,Map.insert_graft hk]

@[simp] theorem hDel_graft (hk : k ∈ K) (now : Int) (fields : List Bytes) :
    (s.graft K t).hDel now k fields=grafted K t (s.hDel now k fields) := by
  unfold hDel
  rw [graft_toMaps,Maps.liveHash_graft hk]
  cases s.liveHash now k with
  | none => rfl
  | some h =>
    dsimp only
    split_ifs
    · simp only [grafted,graft,Maps.graft,Map.erase_graft hk]
    · simp only [grafted,graft,Maps.graft,bumpVersion,Map.getD_graft_of_mem hk,
        Map.insert_graft hk]

@[simp] theorem listGuard_graft (hk : k ∈ K) (now : Int) :
    (s.graft K t).listGuard now k=s.listGuard now k := by
  simp only [listGuard,graft_toMaps,Maps.typeOf_graft hk]

@[simp] theorem lPush_graft (hk : k ∈ K) (now : Int) (vs : List Bytes) :
    (s.graft K t).lPush now k vs=(s.lPush now k vs).map (grafted K t) := by
  unfold lPush
  dsimp only
  rw [listGuard_graft hk,lists_getD_graft hk,putList_graft hk,bumpVersion_graft hk]
  split <;> rfl

@[simp] theorem rPush_graft (hk : k ∈ K) (now : Int) (vs : List Bytes) :
    (s.graft K t).rPush now k vs=(s.rPush now k vs).map (grafted K t) := by
  unfold rPush
  dsimp only
  rw [listGuard_graft hk,lists_getD_graft hk,putList_graft hk,bumpVersion_graft hk]
  split <;> rfl

@[simp] theorem popList_graft (hk : k ∈ K) (cut : Nat → List Bytes → List Bytes × List Bytes)
    (now count : Int) :
    popList cut (s.graft K t) now k count=
      (popList cut s now k count).map (Except.map (grafted K t)) := by
  unfold popList
  rw [graft_toMaps,Maps.getList_graft hk]
  rcases s.getList now k with e | _ | l
  · rfl
  · rfl
  · dsimp only
    rw [keepList_graft hk,bumpVersion_graft hk]
    split_ifs <;> rfl

@[simp] theorem lSet_graft (hk : k ∈ K) (now i : Int) (v : Bytes) :
    (s.graft K t).lSet now k i v=(s.lSet now k i v).map (graft K · t) := by
  unfold lSet
  rw [graft_toMaps,Maps.typeOf_graft hk,← graft_toMaps,lists_getD_graft hk]
  split
  · rfl
  · dsimp only
    split
    · rfl
    · rw [putList_graft hk,bumpVersion_graft hk]
      rfl
  · rfl

@[simp] theorem lInsert_graft (hk : k ∈ K) (now : Int) (before : Bool) (pivot v : Bytes) :
    (s.graft K t).lInsert now k before pivot v=
      (s.lInsert now k before pivot v).map (grafted K t) := by
  unfold lInsert
  rw [graft_toMaps,Maps.typeOf_graft hk,← graft_toMaps,lists_getD_graft hk]
  split
  · rfl
  · dsimp only
    split
    · rfl
    · rw [putList_graft hk,bumpVersion_graft hk]
      rfl
  · rfl

@[simp] theorem lRem_graft (hk : k ∈ K) (now count : Int) (v : Bytes) :
    (s.graft K t).lRem now k count v=(s.lRem now k count v).map (grafted K t) := by
  unfold lRem
  rw [graft_toMaps,Maps.getList_graft hk]
  rcases s.getList now k with e | _ | l
  · rfl
  · rfl
  · dsimp only
    rw [keepList_graft hk,bumpVersion_graft hk]
    split_ifs <;> rfl

@[simp] theorem lTrim_graft (hk : k ∈ K) (now start stop : Int) :
    (s.graft K t).lTrim now k start stop=(s.lTrim now k start stop).map (graft K · t) := by
  unfold lTrim
  rw [graft_toMaps,Maps.typeOf_graft hk,← graft_toMaps,lists_getD_graft hk]
  split
  · rfl
  · dsimp only
    rw [dropList_graft hk,putList_graft hk,bumpVersion_graft hk,bumpVersion_graft hk]
    split_ifs <;> rfl
  · rfl

@[simp] theorem lMove_graft {src dst : Bytes} (hsrc : src ∈ K) (hdst : dst ∈ K) (now : Int)
    (srcLeft dstLeft : Bool) :
    (s.graft K t).lMove now src dst srcLeft dstLeft=
      (s.lMove now src dst srcLeft dstLeft).map (grafted K t) := by
  unfold lMove
  dsimp only
  rw [listGuard_graft hsrc,listGuard_graft hdst,lists_getD_graft hsrc,keepList_graft hsrc,
    lists_getD_graft hdst,putList_graft hdst,bumpVersion_graft hsrc,bumpVersion_graft hdst]
  split_ifs <;> rfl

@[simp] theorem setGuard_graft (hk : k ∈ K) (now : Int) :
    (s.graft K t).setGuard now k=s.setGuard now k := by
  simp only [setGuard,graft_toMaps,Maps.typeOf_graft hk]

@[simp] theorem sAdd_graft (hk : k ∈ K) (now : Int) (xs : List Bytes) :
    (s.graft K t).sAdd now k xs=(s.sAdd now k xs).map (grafted K t) := by
  unfold sAdd
  dsimp only
  rw [setGuard_graft hk,sets_getD_graft hk,putSet_graft hk,bumpVersion_graft hk]
  split <;> rfl

@[simp] theorem sRem_graft (hk : k ∈ K) (now : Int) (xs : List Bytes) :
    (s.graft K t).sRem now k xs=(s.sRem now k xs).map (grafted K t) := by
  unfold sRem
  rw [graft_toMaps,Maps.getSet_graft hk]
  rcases s.getSet now k with e | _ | st
  · rfl
  · rfl
  · dsimp only
    rw [keepSet_graft hk,bumpVersion_graft hk]
    rfl

@[simp] theorem storeMembers_graft (hk : k ∈ K) (members : Except StoreError (List Bytes)) :
    (s.graft K t).storeMembers k members=(s.storeMembers k members).map (grafted K t) := by
  unfold storeMembers
  cases members with
  | error e => rfl
  | ok xs =>
    dsimp only
    rw [deleteKey_graft hk,putSet_graft hk,bumpVersion_graft hk]
    split_ifs <;> rfl

@[simp] theorem sInterStore_graft {ks : List Bytes} (hk : k ∈ K) (hks : ks ⊆ K) (w : World) :
    (s.graft K t).sInterStore w k ks=(s.sInterStore w k ks).map (grafted K t) := by
  rw [sInterStore,graft_toMaps,Maps.Looks.setInter (Maps.looks_graft_all hks _),
    storeMembers_graft hk,sInterStore]

@[simp] theorem sUnionStore_graft {ks : List Bytes} (hk : k ∈ K) (hks : ks ⊆ K) (w : World) :
    (s.graft K t).sUnionStore w k ks=(s.sUnionStore w k ks).map (grafted K t) := by
  rw [sUnionStore,graft_toMaps,Maps.Looks.setUnion (Maps.looks_graft_all hks _),
    storeMembers_graft hk,sUnionStore]

@[simp] theorem sDiffStore_graft {ks : List Bytes} (hk : k ∈ K) (hks : ks ⊆ K) (w : World) :
    (s.graft K t).sDiffStore w k ks=(s.sDiffStore w k ks).map (grafted K t) := by
  rw [sDiffStore,graft_toMaps,Maps.Looks.setDiff (Maps.looks_graft_all hks _),
    storeMembers_graft hk,sDiffStore]

@[simp] theorem sPop_graft (hk : k ∈ K) (w : World) (count : Int) :
    (s.graft K t).sPop w k count=(s.sPop w k count).map (Except.map (grafted K t)) := by
  unfold sPop
  rw [graft_toMaps,Maps.getSet_graft hk]
  rcases s.getSet w.now k with e | _ | st
  · rfl
  · rfl
  · dsimp only
    rw [dropSet_graft hk,putSet_graft hk,bumpVersion_graft hk,bumpVersion_graft hk]
    split_ifs <;> rfl

@[simp] theorem sMove_graft {src dst : Bytes} (hsrc : src ∈ K) (hdst : dst ∈ K) (now : Int) (x : Bytes) :
    (s.graft K t).sMove now src dst x=(s.sMove now src dst x).map (grafted K t) := by
  have hset : (s.graft K t).sets[src]?=s.sets[src]? := Map.getElem?_graft_of_mem hsrc
  unfold sMove
  rw [setGuard_graft hsrc,setGuard_graft hdst,hset]
  cases s.sets[src]? with
  | none => split_ifs <;> rfl
  | some st =>
    dsimp only
    rw [keepSet_graft hsrc,sets_getD_graft hdst,putSet_graft hdst,bumpVersion_graft hsrc,
      bumpVersion_graft hdst]
    split_ifs <;> rfl

@[simp] theorem zsetGuard_graft (hk : k ∈ K) (now : Int) :
    (s.graft K t).zsetGuard now k=s.zsetGuard now k := by
  simp only [zsetGuard,graft_toMaps,Maps.typeOf_graft hk]

@[simp] theorem zRem_graft (hk : k ∈ K) (now : Int) (xs : List Bytes) :
    (s.graft K t).zRem now k xs=(s.zRem now k xs).map (grafted K t) := by
  unfold zRem
  rw [graft_toMaps,Maps.getZSet_graft hk]
  rcases s.getZSet now k with e | _ | z
  · rfl
  · rfl
  · dsimp only
    rw [keepZSet_graft hk,bumpVersion_graft hk]
    rfl

@[simp] theorem storeScores_graft (hk : k ∈ K) (scores : Except StoreError (Map F)) :
    (s.graft K t).storeScores k scores=(s.storeScores k scores).map (grafted K t) := by
  unfold storeScores
  cases scores with
  | error e => rfl
  | ok z =>
    dsimp only
    rw [deleteKey_graft hk,putZSet_graft hk,bumpVersion_graft hk]
    split_ifs <;> rfl

section Scores
variable [Float64 F]

@[simp] theorem zAdd_graft (hk : k ∈ K) (now : Int) (ms : List (ZMember F)) (fl : ZAddFlags) :
    (s.graft K t).zAdd now k ms fl=(s.zAdd now k ms fl).map (grafted K t) := by
  unfold zAdd
  dsimp only
  rw [zsetGuard_graft hk,zsets_getD_graft hk,putZSet_graft hk,bumpVersion_graft hk]
  split <;> rfl

@[simp] theorem zIncrBy_graft (hk : k ∈ K) (now : Int) (incr : F) (x : Bytes) :
    (s.graft K t).zIncrBy now k incr x=(s.zIncrBy now k incr x).map (grafted K t) := by
  unfold zIncrBy
  dsimp only
  rw [zsetGuard_graft hk,zsets_getD_graft hk,putZSet_graft hk,bumpVersion_graft hk]
  split <;> rfl

@[simp] theorem popZSet_graft (hk : k ∈ K) (order : List (ZMember F) → List (ZMember F))
    (now count : Int) :
    popZSet order (s.graft K t) now k count=
      (popZSet order s now k count).map (Except.map (grafted K t)) := by
  unfold popZSet
  rw [graft_toMaps,Maps.getZSet_graft hk]
  rcases s.getZSet now k with e | _ | z
  · rfl
  · rfl
  · dsimp only
    rw [keepZSet_graft hk,bumpVersion_graft hk]
    split_ifs <;> rfl

@[simp] theorem zUnionStore_graft {ks : List Bytes} (hk : k ∈ K) (hks : ks ⊆ K) (now : Int)
    (weights : List F) (agg : Bytes) :
    (s.graft K t).zUnionStore now k ks weights agg=
      (s.zUnionStore now k ks weights agg).map (grafted K t) := by
  rw [zUnionStore,graft_toMaps,Maps.Looks.zUnionLoop (Maps.looks_graft_all hks _),
    storeScores_graft hk,zUnionStore]

@[simp] theorem zInterStore_graft {ks : List Bytes} (hk : k ∈ K) (hks : ks ⊆ K) (now : Int)
    (weights : List F) (agg : Bytes) :
    (s.graft K t).zInterStore now k ks weights agg=
      (s.zInterStore now k ks weights agg).map (grafted K t) := by
  unfold zInterStore
  cases ks with
  | nil => rfl
  | cons k' ks =>
    rw [List.cons_subset] at hks
    dsimp only
    rw [graft_toMaps,Maps.getZSet_graft hks.1]
    cases s.getZSet now k' with
    | error e => rfl
    | ok first =>
      dsimp only
      rw [Maps.Looks.zInterLoop (Maps.looks_graft_all hks.2 _),storeScores_graft hk]

end Scores
end MemoryStore
end GoRedis
