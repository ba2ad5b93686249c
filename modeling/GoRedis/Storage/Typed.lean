import GoRedis.Storage.Look
/-!
# Operations on a key of another type

Every reader asks `typeOf` or one of the maps. The lemmas say what each of them finds at a key
whose type is known.
-/
namespace GoRedis
variable {F : Type} {now : Int} {k : Bytes}

namespace Maps
variable {m : Maps F} {t : KeyType}

theorem get_isSome_iff (m : Maps F) (now : Int) (k : Bytes) :
    (m.get now k).isSome ↔ m.typeOf now k=some .string := by
  rw [get,Option.isSome_map,typeOf_eq_live]
  split_ifs with h <;> simp [h]

theorem get_eq_none (h : m.typeOf now k ≠ some .string) : m.get now k=none := by
  have hsome := fun hs => h ((get_isSome_iff m now k).mp hs)
  exact Option.not_isSome_iff_eq_none.mp hsome

theorem getList_wrongType (h : m.typeOf now k=some t) (ht : t ≠ .list) :
    m.getList now k=.error .wrongType := by
  rw [getList,h]
  cases t <;> first | rfl | exact absurd rfl ht

theorem getSet_wrongType (h : m.typeOf now k=some t) (ht : t ≠ .set) :
    m.getSet now k=.error .wrongType := by
  rw [getSet,h]
  cases t <;> first | rfl | exact absurd rfl ht

theorem getZSet_wrongType (h : m.typeOf now k=some t) (ht : t ≠ .zset) :
    m.getZSet now k=.error .wrongType := by
  rw [getZSet,h]
  cases t <;> first | rfl | exact absurd rfl ht

theorem typeOf_of_getZSet {oz : Option (Map F)} (h : m.getZSet now k=.ok oz) :
    m.typeOf now k=none ∨ m.typeOf now k=some .zset := by
  cases ht : m.typeOf now k with
  | none => exact .inl rfl
  | some t =>
    by_cases hz : t=.zset
    · exact .inr (congrArg some hz)
    · rw [getZSet_wrongType ht hz] at h
      cases h

end Maps

namespace MemoryStore
variable {s : MemoryStore F} {t : KeyType}

theorem listGuard_wrongType (h : s.typeOf now k=some t) (ht : t ≠ .list) :
    s.listGuard now k=false := by
  simp [listGuard,h,ht]

theorem lSet_wrongType (h : s.typeOf now k=some t) (ht : t ≠ .list) (i : Int) (v : Bytes) :
    s.lSet now k i v=.error .wrongType := by
  rw [lSet,h]
  cases t <;> first | rfl | exact absurd rfl ht

theorem lInsert_wrongType (h : s.typeOf now k=some t) (ht : t ≠ .list) (before : Bool)
    (pivot v : Bytes) : s.lInsert now k before pivot v=.error .wrongType := by
  rw [lInsert,h]
  cases t <;> first | rfl | exact absurd rfl ht

theorem lTrim_wrongType (h : s.typeOf now k=some t) (ht : t ≠ .list) (start stop : Int) :
    s.lTrim now k start stop=.error .wrongType := by
  rw [lTrim,h]
  cases t <;> first | rfl | exact absurd rfl ht

theorem setGuard_wrongType (h : s.typeOf now k=some t) (ht : t ≠ .set) :
    s.setGuard now k=false := by
  simp [setGuard,h,ht]

theorem zsetGuard_wrongType (h : s.typeOf now k=some t) (ht : t ≠ .zset) :
    s.zsetGuard now k=false := by
  simp [zsetGuard,h,ht]

theorem get_set (s : MemoryStore F) (now : Int) (k v : Bytes) :
    (s.set k v).get now k=some v := by
  simp [set,putString,bumpVersion,Maps.get,Maps.liveString,expired]

theorem hGet_hSet (s : MemoryStore F) (hexp : s.keyExpiredNonStr now k=false) (f v : Bytes) :
    (s.hSet k ((∅ : Map Bytes).insert f v)).2.hGet now k f=some v := by
  have hfield : (mergeFields (s.hashes.getD k ∅) ((∅ : Map Bytes).insert f v))[f]?=some v := by
    rw [mergeFields,Map.getElem?_foldl_toList,Map.getElem?_insert,if_pos rfl]
    rfl
  have hlive : (s.hSet k ((∅ : Map Bytes).insert f v)).2.liveHash now k=
      some (mergeFields (s.hashes.getD k ∅) ((∅ : Map Bytes).insert f v)) := by
    have hexp' : (s.hSet k ((∅ : Map Bytes).insert f v)).2.keyExpiredNonStr now k=false := by
      rw [hSet_toMaps]
      exact hexp
    rw [Maps.liveHash,hexp',hSet_toMaps]
    exact (Map.getElem?_insert _ _ _ _).trans (if_pos rfl)
  rw [Maps.hGet,hlive]
  exact hfield

end MemoryStore
end GoRedis
