import GoRedis.Storage.Edits
/-!
# What is left of a collection

An operation that takes elements away stores what is left of the collection, or removes the entry
together with the key's deadline when nothing is. What the other maps hold for the key stays.
-/
namespace GoRedis
variable {F : Type}

namespace Value

/-- The type of the value, which is the map that holds it. -/
def type : Value F → KeyType
  | .string _ => .string
  | .hash _ => .hash
  | .list _ => .list
  | .set _ => .set
  | .zset _ => .zset

/-- A collection without an element. -/
def isEmpty : Value F → Bool
  | .string _ => false
  | .hash h => h.isEmpty
  | .list l => l.isEmpty
  | .set st => st.isEmpty
  | .zset z => z.isEmpty

end Value

namespace Row
variable {r : Row F} {v : Value F} {now : Int}

/-- The row with what is left of a collection. -/
def keep (v : Value F) (r : Row F) : Row F := if v.isEmpty then r.drop v.type else v.into r

theorem expiry_into (v : Value F) (r : Row F) : (v.into r).expiry=r.expiry := by cases v <;> rfl

theorem expiry_drop (t : KeyType) (r : Row F) : (r.drop t).expiry=none := by cases t <;> rfl

theorem expiry_keep (v : Value F) (r : Row F) :
    (r.keep v).expiry=if v.isEmpty then none else r.expiry := by
  unfold keep
  split_ifs
  · exact expiry_drop _ _
  · exact expiry_into v r

theorem keep_keep {v' : Value F} (hv : v.isEmpty=false) (ht : v.type=v'.type) (r : Row F) :
    (r.keep v).keep v'=r.keep v' := by
  have hinto : r.keep v=v.into r := by
    rw [keep,hv]
    rfl
  rw [hinto]
  unfold keep
  cases v <;> cases v' <;> cases ht <;> rfl

/-- The first of the collections that are there, in the order of `typeOf`. -/
def firstOf (hash list set zset : Bool) : Option KeyType :=
  if hash then some .hash
  else if list then some .list
  else if set then some .set
  else if zset then some .zset
  else none

/-- The type of a key that has neither a live string nor a passed deadline. -/
def collectionType (r : Row F) : Option KeyType :=
  firstOf r.hash.isSome r.list.isSome r.set.isSome r.zset.isSome

theorem typeOf_eq_collectionType (hs : r.NoString now) (hexp : expired now r.expiry=false) :
    r.typeOf now=r.collectionType := by
  have hstr : ¬(r.string.filter fun e => !expired now e.expiresAt).isSome := by
    cases hr : r.string with
    | none => simp
    | some e => simp [Option.filter,hs e hr]
  rw [typeOf,if_neg hstr,hexp]
  rfl

theorem typeOf_eq_none_iff (hs : r.NoString now) (hexp : expired now r.expiry=false) :
    r.typeOf now=none ↔ ¬r.Collection := by
  rw [typeOf_eq_collectionType hs hexp]
  unfold collectionType Collection
  generalize r.hash.isSome=a,r.list.isSome=b,r.set.isSome=c,r.zset.isSome=d
  clear * -
  decide +revert

theorem noString_drop {t : KeyType} (hs : r.NoString now) : (r.drop t).NoString now := by
  intro e he
  cases t with
  | string => cases he
  | _ => exact hs e he

theorem view_drop_eq_none_iff {t : KeyType} (hs : r.NoString now) :
    (r.drop t).view now=none ↔ ¬(r.drop t).Collection := by
  rw [view_eq_none_iff]
  apply typeOf_eq_none_iff (noString_drop hs)
  rw [expiry_drop]
  rfl

theorem noString_into (v : Value F) (hs : r.NoString now) : (v.into r).NoString now := by
  cases v <;> exact hs

theorem typeOf_into_own (hv : v.type ≠ .string) (h : r.typeOf now=none ∨ r.typeOf now=some v.type)
    (hexp : expired now r.expiry=false) : (v.into r).typeOf now=some v.type := by
  have hs : r.NoString now := by
    apply noString_of_typeOf
    rcases h with h | h
    · rw [h]
      simp
    · rw [h]
      simpa using hv
  rw [typeOf_eq_collectionType hs hexp] at h
  rw [typeOf_eq_collectionType (noString_into v hs) (by rwa [expiry_into])]
  unfold collectionType at h ⊢
  cases v with
  | string => exact absurd rfl hv
  | _ =>
    simp only [Value.into,Value.type,Option.isSome_some] at h ⊢
    revert h
    generalize r.hash.isSome=a,r.list.isSome=b,r.set.isSome=c,r.zset.isSome=d
    clear * -
    decide +revert

theorem view_into_own (hv : v.type ≠ .string) (h : r.typeOf now=none ∨ r.typeOf now=some v.type)
    (hexp : expired now r.expiry=false) : (v.into r).view now=some (v,r.expiry) := by
  rw [view,typeOf_into_own hv h hexp]
  cases v with
  | string => exact absurd rfl hv
  | _ => rfl

/-- A collection that is written where one of its type was, or where what is left of that one
is. -/
theorem typeOf_into_keep {v' : Value F} (hv : v.type ≠ .string) (ht : v.type=v'.type)
    (h : r.typeOf now=some v.type) : (v'.into (r.keep v)).typeOf now=some v'.type := by
  have hexp := not_expired_of_typeOf h hv
  by_cases hempty : v.isEmpty=true
  · have hs : r.NoString now := noString_of_typeOf (by rw [h]; simpa using hv)
    rw [typeOf_eq_collectionType hs hexp] at h
    rw [keep,if_pos hempty,typeOf_eq_collectionType (noString_into v' (noString_drop hs))
      (by rw [expiry_into,expiry_drop]; rfl)]
    unfold collectionType at h ⊢
    cases v <;> cases v' <;> cases ht <;>
      simp only [drop,Value.into,Value.type,Option.isSome_some] at h hv ⊢
    · exact absurd rfl hv
    all_goals
      revert h
      generalize r.hash.isSome=a,r.list.isSome=b,r.set.isSome=c,r.zset.isSome=d
      clear * -
      decide +revert
  · have hinto : v'.into (r.keep v)=v'.into r := by
      rw [keep,if_neg hempty]
      cases v <;> cases v' <;> cases ht <;> rfl
    rw [hinto]
    exact typeOf_into_own (ht ▸ hv) (.inr (ht ▸ h)) hexp

end Row

namespace Maps
variable {m : Maps F} {now : Int} {k : Bytes}

theorem getList_eq_some_iff {l : List Bytes} :
    m.getList now k=.ok (some l) ↔ m.typeOf now k=some .list ∧ m.lists[k]?=some l := by
  unfold getList
  split <;> simp_all

theorem getSet_eq_some_iff {st : KeySet} :
    m.getSet now k=.ok (some st) ↔ m.typeOf now k=some .set ∧ m.sets[k]?=some st := by
  unfold getSet
  split <;> simp_all

theorem getZSet_eq_some_iff {z : Map F} :
    m.getZSet now k=.ok (some z) ↔ m.typeOf now k=some .zset ∧ m.zsets[k]?=some z := by
  unfold getZSet
  split <;> simp_all

theorem not_collection_of_typeOf (h : m.typeOf now k=none) (hexp : m.keyExpiredNonStr now k=false) :
    ¬(m.row k).Collection := by
  rw [typeOf_eq_row] at h
  have hs : (m.row k).NoString now := Row.noString_of_typeOf (by rw [h]; simp)
  exact (Row.typeOf_eq_none_iff hs hexp).mp h

theorem getList_of_guard (h : m.typeOf now k=none ∨ m.typeOf now k=some .list)
    (hexp : m.keyExpiredNonStr now k=false) : m.getList now k=.ok m.lists[k]? := by
  rcases h with h | h
  · have hnone : ¬(m.lists[k]?).isSome := fun hl =>
      not_collection_of_typeOf h hexp (.inr (.inl hl))
    rw [getList,h,Option.not_isSome_iff_eq_none.mp hnone]
  · rw [getList,h]

theorem getSet_of_guard (h : m.typeOf now k=none ∨ m.typeOf now k=some .set)
    (hexp : m.keyExpiredNonStr now k=false) : m.getSet now k=.ok m.sets[k]? := by
  rcases h with h | h
  · have hnone : ¬(m.sets[k]?).isSome := fun hst =>
      not_collection_of_typeOf h hexp (.inr (.inr (.inl hst)))
    rw [getSet,h,Option.not_isSome_iff_eq_none.mp hnone]
  · rw [getSet,h]

theorem getZSet_of_guard (h : m.typeOf now k=none ∨ m.typeOf now k=some .zset)
    (hexp : m.keyExpiredNonStr now k=false) : m.getZSet now k=.ok m.zsets[k]? := by
  rcases h with h | h
  · have hnone : ¬(m.zsets[k]?).isSome := fun hz =>
      not_collection_of_typeOf h hexp (.inr (.inr (.inr hz)))
    rw [getZSet,h,Option.not_isSome_iff_eq_none.mp hnone]
  · rw [getZSet,h]

end Maps

namespace MemoryStore
variable {s s' : MemoryStore F} {k : Bytes}

theorem slot_keepList (s : MemoryStore F) (k : Bytes) (l : List Bytes) :
    (s.keepList k l).slot=
      Function.update s.slot k ((s.slot k).setRow ((s.row k).keep (.list l))) := by
  unfold keepList Row.keep
  cases l with
  | nil => exact slot_dropList s k
  | cons x l => exact slot_putList s k (x::l)

theorem slot_keepSet (s : MemoryStore F) (k : Bytes) (st : KeySet) :
    (s.keepSet k st).slot=
      Function.update s.slot k ((s.slot k).setRow ((s.row k).keep (.set st))) := by
  unfold keepSet Row.keep Value.isEmpty
  split_ifs
  · exact slot_dropSet s k
  · exact slot_putSet s k st

theorem slot_keepZSet (s : MemoryStore F) (k : Bytes) (z : Map F) :
    (s.keepZSet k z).slot=
      Function.update s.slot k ((s.slot k).setRow ((s.row k).keep (.zset z))) := by
  unfold keepZSet Row.keep Value.isEmpty
  split_ifs
  · exact slot_dropZSet s k
  · exact slot_putZSet s k z

/-- The store has kept `v` of the collection under `k`, and nothing else has changed. -/
def Kept (s s' : MemoryStore F) (k : Bytes) (v : Value F) : Prop :=
  s'.slot=Function.update s.slot k ((s.slot k).setRow ((s.row k).keep v)).bump

theorem kept_list (s : MemoryStore F) (k : Bytes) (l : List Bytes) :
    Kept s ((s.keepList k l).bumpVersion k) k (.list l) := slot_bumped (slot_keepList s k l)

theorem kept_set (s : MemoryStore F) (k : Bytes) (st : KeySet) :
    Kept s ((s.keepSet k st).bumpVersion k) k (.set st) := slot_bumped (slot_keepSet s k st)

theorem kept_zset (s : MemoryStore F) (k : Bytes) (z : Map F) :
    Kept s ((s.keepZSet k z).bumpVersion k) k (.zset z) := slot_bumped (slot_keepZSet s k z)

theorem Kept.rows {v : Value F} (h : Kept s s' k v) :
    s'.row=Function.update s.row k ((s.row k).keep v) := by
  funext k'
  have hslot := congrArg Slot.toRow (congrFun h k')
  by_cases hk : k'=k
  · subst hk
    rwa [Function.update_self] at hslot ⊢
  · rwa [Function.update_of_ne hk] at hslot ⊢

theorem Kept.row {v : Value F} (h : Kept s s' k v) : s'.row k=(s.row k).keep v := row_of_slot h

theorem Kept.slot_of_ne {v : Value F} (h : Kept s s' k v) {k' : Bytes} (hne : k' ≠ k) :
    s'.slot k'=s.slot k' := by
  rw [h,Function.update_of_ne hne]

theorem Kept.lists_getD {l : List Bytes} (h : Kept s s' k (.list l)) :
    s'.lists.getD k []=l := by
  have hrow : s'.lists[k]?=((s.row k).keep (.list l)).list := congrArg Row.list h.row
  rw [Std.ExtTreeMap.getD_eq_getD_getElem?,hrow]
  cases l <;> rfl

theorem Kept.zsets_getD {z : Map F} (h : Kept s s' k (.zset z)) : s'.zsets.getD k ∅=z := by
  have hrow : s'.zsets[k]?=((s.row k).keep (.zset z)).zset := congrArg Row.zset h.row
  rw [Std.ExtTreeMap.getD_eq_getD_getElem?,hrow,Row.keep]
  split_ifs with hempty
  · exact (Std.ExtTreeMap.isEmpty_iff.mp hempty).symm
  · rfl

theorem Kept.toMaps_eq {u : MemoryStore F} {v : Value F} (h : Kept s s' k v)
    (hu : u.row=Function.update s.row k ((s.row k).keep v)) : s'.toMaps=u.toMaps := by
  apply Maps.ext_row
  intro k'
  rw [h.rows,hu]

theorem Kept.rows_again {u : MemoryStore F} {v v' : Value F} (h : Kept u s' k v')
    (hu : u.row=Function.update s.row k ((s.row k).keep v)) (hv : v.isEmpty=false)
    (ht : v.type=v'.type) : s'.row=Function.update s.row k ((s.row k).keep v') := by
  rw [h.rows,hu,Function.update_self,Function.update_idem,Row.keep_keep hv ht]

theorem typeOf_of_rows {v : Value F} {now : Int}
    (hs : s'.row=Function.update s.row k ((s.row k).keep v)) (hempty : v.isEmpty=false)
    (hv : v.type ≠ .string) (ht : s.typeOf now k=some v.type) :
    s'.typeOf now k=some v.type ∧ s'.row k=v.into (s.row k) := by
  have hrow : s'.row k=v.into (s.row k) := by
    rw [hs,Function.update_self,Row.keep,hempty]
    rfl
  rw [Maps.typeOf_eq_row] at ht ⊢
  rw [hrow]
  exact ⟨Row.typeOf_into_own hv (.inr ht) (Row.not_expired_of_typeOf ht hv),rfl⟩

/-- What a client sees after elements were taken from `k`: the others under the old deadline, or
neither the key nor its deadline when there are none. No other key is touched. -/
def Leaves (now : Int) (s s' : MemoryStore F) (k : Bytes) (v : Value F) : Prop :=
  s'.view now k=(if v.isEmpty then none else some (v,s.keyExpiry[k]?)) ∧
    (v.isEmpty → s'.keyExpiry[k]?=none) ∧ ∀ k', k' ≠ k → s'.slot k'=s.slot k'

theorem Kept.leaves_iff {v : Value F} {now : Int} (h : Kept s s' k v) (hv : v.type ≠ .string)
    (ht : s.typeOf now k=some v.type) :
    Leaves now s s' k v ↔ v.isEmpty=false ∨ ¬((s.row k).drop v.type).Collection := by
  rw [Maps.typeOf_eq_row] at ht
  have hs : (s.row k).NoString now := by
    apply Row.noString_of_typeOf
    rw [ht]
    simpa using hv
  have hother : ∀ k', k' ≠ k → s'.slot k'=s.slot k' := fun _ hne => h.slot_of_ne hne
  have hexpiry : s'.keyExpiry[k]?=if v.isEmpty then none else s.keyExpiry[k]? :=
    (congrArg Row.expiry h.row).trans (Row.expiry_keep v _)
  rw [Leaves,Maps.view,h.row,Row.keep,hexpiry]
  by_cases hempty : v.isEmpty=true
  · simp only [hempty,if_true,Row.view_drop_eq_none_iff hs]
    simpa using fun _ => hother
  · simp only [hempty]
    have hview := Row.view_into_own hv (.inr ht) (Row.not_expired_of_typeOf ht hv)
    simpa using ⟨hview,hother⟩

end MemoryStore
end GoRedis
