import GoRedis.Storage.Hashes
/-!
# What a client can see of a key

The maps are looked at key by key: a row is what all of them hold for one key. Everything
the store does with a key is a function of its row and the clock, and what a client can see
of it is its type, its contents and its deadline.
-/
namespace GoRedis

/-- What the six maps hold for one key. -/
structure Row (F : Type) where
  string : Option StrEntry
  hash : Option (Map Bytes)
  list : Option (List Bytes)
  set : Option KeySet
  zset : Option (Map F)
  expiry : Option Int
  deriving DecidableEq

/-- The contents of a key. -/
inductive Value (F : Type)
  | string (v : Bytes)
  | hash (h : Map Bytes)
  | list (l : List Bytes)
  | set (st : KeySet)
  | zset (z : Map F)
  deriving DecidableEq

namespace Row
variable {F : Type}

/-- The row of a key that is in no map. -/
def absent : Row F := ⟨none,none,none,none,none,none⟩

/-- `typeOf` on a row. -/
def typeOf (r : Row F) (now : Int) : Option KeyType :=
  if (r.string.filter fun e => !expired now e.expiresAt).isSome then some .string
  else if expired now r.expiry then none
  else if r.hash.isSome then some .hash
  else if r.list.isSome then some .list
  else if r.set.isSome then some .set
  else if r.zset.isSome then some .zset
  else none

/-- The contents and the deadline a client sees, or nothing. -/
def view (r : Row F) (now : Int) : Option (Value F × Option Int) :=
  match r.typeOf now with
  | none => none
  | some .string => r.string.map fun e => (.string e.value,e.expiresAt)
  | some .hash => r.hash.map fun h => (.hash h,r.expiry)
  | some .list => r.list.map fun l => (.list l,r.expiry)
  | some .set => r.set.map fun st => (.set st,r.expiry)
  | some .zset => r.zset.map fun z => (.zset z,r.expiry)

@[simp] theorem typeOf_absent (now : Int) : (absent : Row F).typeOf now=none := by
  simp [absent,typeOf,expired]

@[simp] theorem view_absent (now : Int) : (absent : Row F).view now=none := by simp [view]

theorem typeOf_eq_string_iff (r : Row F) (now : Int) :
    r.typeOf now=some .string ↔ ∃ e, r.string=some e ∧ expired now e.expiresAt=false := by
  unfold typeOf
  by_cases hlive : (r.string.filter fun e => !expired now e.expiresAt).isSome
  · rw [if_pos hlive]
    obtain ⟨e,he⟩ := Option.isSome_iff_exists.mp hlive
    obtain ⟨hstr,hexp⟩ := Option.filter_eq_some_iff.mp he
    exact iff_of_true rfl ⟨e,hstr,by simpa using hexp⟩
  · rw [if_neg hlive]
    apply iff_of_false
    · split_ifs <;> simp
    · rintro ⟨e,he,hexp⟩
      simp [he,Option.filter,hexp] at hlive

theorem not_expired_of_typeOf {r : Row F} {now : Int} {t : KeyType} (h : r.typeOf now=some t)
    (ht : t ≠ .string) : expired now r.expiry=false := by
  unfold typeOf at h
  split_ifs at h <;> simp_all

theorem isSome_of_typeOf {r : Row F} {now : Int} {t : KeyType} (h : r.typeOf now=some t) :
    match t with
    | .string => r.string.isSome
    | .hash => r.hash.isSome
    | .list => r.list.isSome
    | .set => r.set.isSome
    | .zset => r.zset.isSome := by
  unfold typeOf at h
  split_ifs at h with hstr hexp hhash hlist hset hzset
  · cases h
    obtain ⟨e,he⟩ := Option.isSome_iff_exists.mp hstr
    simp [(Option.filter_eq_some_iff.mp he).1]
  · cases h
    exact hhash
  · cases h
    exact hlist
  · cases h
    exact hset
  · cases h
    exact hzset

theorem view_eq_none_iff (r : Row F) (now : Int) : r.view now=none ↔ r.typeOf now=none := by
  rw [view]
  cases ht : r.typeOf now with
  | none => simp
  | some t =>
    have hsome := isSome_of_typeOf ht
    cases t <;> simpa [Option.isSome_iff_ne_none] using hsome

end Row

namespace Maps
variable {F : Type}

/-- What the maps hold for `k`. -/
def row (m : Maps F) (k : Bytes) : Row F :=
  ⟨m.strings[k]?,m.hashes[k]?,m.lists[k]?,m.sets[k]?,m.zsets[k]?,m.keyExpiry[k]?⟩

/-- The contents and the deadline of `k` at an instant. -/
def view (m : Maps F) (now : Int) (k : Bytes) : Option (Value F × Option Int) :=
  (m.row k).view now

theorem ext_row {m m' : Maps F} (h : ∀ k, m.row k=m'.row k) : m=m' := by
  obtain ⟨a,b,c,d,e,f⟩ := m
  obtain ⟨a',b',c',d',e',f'⟩ := m'
  simp only [row,Row.mk.injEq] at h
  congr 1 <;> apply Std.ExtTreeMap.ext_getElem? <;> intro k <;> simp [h k]

theorem typeOf_eq_row (m : Maps F) (now : Int) (k : Bytes) :
    m.typeOf now k=(m.row k).typeOf now := by
  unfold typeOf Row.typeOf row liveString keyExpiredNonStr
  simp only [Std.ExtTreeMap.mem_iff_isSome_getElem?]
  cases expired now m.keyExpiry[k]? <;> simp

theorem view_of_string {m : Maps F} {now : Int} {k : Bytes} (h : m.typeOf now k=some .string) :
    ∃ e, m.strings[k]?=some e ∧ m.get now k=some e.value ∧
      m.view now k=some (.string e.value,e.expiresAt) := by
  rw [typeOf_eq_row] at h
  obtain ⟨e,he,hexp⟩ := (Row.typeOf_eq_string_iff _ _).mp h
  have he' : m.strings[k]?=some e := he
  refine ⟨e,he',?_,?_⟩
  · simp [get,liveString,he',Option.filter,hexp]
  · rw [view,Row.view,h]
    simp only [he,Option.map_some]

theorem view_of_hash {m : Maps F} {now : Int} {k : Bytes} (h : m.typeOf now k=some .hash) :
    ∃ f, m.hashes[k]?=some f ∧ m.liveHash now k=some f ∧
      m.view now k=some (.hash f,m.keyExpiry[k]?) ∧ expired now m.keyExpiry[k]?=false := by
  rw [typeOf_eq_row] at h
  obtain ⟨f,hf⟩ := Option.isSome_iff_exists.mp (Row.isSome_of_typeOf h)
  have hf' : m.hashes[k]?=some f := hf
  have hexp : expired now m.keyExpiry[k]?=false := Row.not_expired_of_typeOf h (by decide)
  refine ⟨f,hf',?_,?_,hexp⟩
  · simp [liveHash,keyExpiredNonStr,hexp,hf']
  · rw [view,Row.view,h]
    simp only [hf,Option.map_some]
    rfl

theorem row_deleteKey (m : Maps F) (k k' : Bytes) :
    (m.deleteKey k).row k'=if k=k' then .absent else m.row k' := by
  unfold row deleteKey Row.absent
  simp only [Map.getElem?_erase]
  split <;> rfl

end Maps

namespace Row
variable {F : Type}

/-- The row of a key set to a value without a deadline. -/
def ofString (v : Bytes) : Row F := { absent with string := some ⟨v,none⟩ }

/-- The part of a row that `Rename` moves. -/
def only (t : KeyType) (r : Row F) : Row F :=
  match t with
  | .string => ⟨r.string,none,none,none,none,r.expiry⟩
  | .hash => ⟨none,r.hash,none,none,none,r.expiry⟩
  | .list => ⟨none,none,r.list,none,none,r.expiry⟩
  | .set => ⟨none,none,none,r.set,none,r.expiry⟩
  | .zset => ⟨none,none,none,none,r.zset,r.expiry⟩

/-- The entry of that type and the deadline beside it are gone. -/
def drop (t : KeyType) (r : Row F) : Row F :=
  match t with
  | .string => { r with string := none,expiry := none }
  | .hash => { r with hash := none,expiry := none }
  | .list => { r with list := none,expiry := none }
  | .set => { r with set := none,expiry := none }
  | .zset => { r with zset := none,expiry := none }

theorem typeOf_only {r : Row F} {t : KeyType} {now : Int} (h : r.typeOf now=some t) :
    (r.only t).typeOf now=some t := by
  have hsome := isSome_of_typeOf h
  cases t with
  | string =>
    obtain ⟨e,he,hexp⟩ := (typeOf_eq_string_iff r now).mp h
    exact (typeOf_eq_string_iff _ now).mpr ⟨e,he,hexp⟩
  | _ =>
    have hexp := not_expired_of_typeOf h (by decide)
    simp [only,typeOf,hexp,hsome]

theorem view_only {r : Row F} {t : KeyType} {now : Int} (h : r.typeOf now=some t) :
    (r.only t).view now=r.view now := by
  rw [view,view,typeOf_only h,h]
  cases t <;> rfl

end Row

namespace MemoryStore
variable {F : Type}

theorem row_set (s : MemoryStore F) (k v k' : Bytes) :
    (s.set k v).row k'=if k=k' then .ofString v else s.row k' := by
  change (Maps.row { s.toMaps.deleteKey k with
    strings := (s.toMaps.deleteKey k).strings.insert k ⟨v,none⟩ } k')=_
  unfold Maps.row Maps.deleteKey
  simp only [Map.getElem?_insert,Map.getElem?_erase]
  split <;> rfl

theorem row_hSet (s : MemoryStore F) (k : Bytes) (fields : Map Bytes) (k' : Bytes) :
    (s.hSet k fields).2.row k'=if k=k' then
      { s.row k' with string := none,hash := some (mergeFields (s.hashes.getD k ∅) fields) }
    else s.row k' := by
  rw [hSet_toMaps]
  unfold Maps.row
  simp only [Map.getElem?_insert,Map.getElem?_erase]
  split <;> rfl

theorem row_del_of_ne (s : MemoryStore F) (now : Int) (k : Bytes) {k' : Bytes} (h : k ≠ k') :
    (s.del now [k]).2.row k'=s.row k' := by
  rw [del]
  split
  · rfl
  · simp only [del]
    rw [bumpVersion_toMaps,deleteKey_toMaps,Maps.row_deleteKey,if_neg h]

theorem view_del_self (s : MemoryStore F) (now : Int) (k : Bytes) :
    (s.del now [k]).2.view now k=none := by
  rw [del]
  split
  · rename_i h
    rw [Maps.typeOf_eq_row] at h
    exact (Row.view_eq_none_iff _ _).mpr h
  · simp only [del]
    rw [bumpVersion_toMaps,deleteKey_toMaps,Maps.view,Maps.row_deleteKey,if_pos rfl,
      Row.view_absent]

theorem row_renamed {s s' : MemoryStore F} {now : Int} {src dst : Bytes} {b : Bool}
    {t : KeyType} (hne : src ≠ dst) (ht : s.typeOf now src=some t)
    (h : s.rename now src dst=.ok (b,s')) (k : Bytes) :
    s'.row k=
      if src=k then (s.row src).drop t else if dst=k then (s.row src).only t else s.row k := by
  have hsome := Row.isSome_of_typeOf (r := s.row src) (by rw [← Maps.typeOf_eq_row,ht])
  obtain ⟨rfl,x,rfl,hx⟩ := rename_ok ht h
  cases t
  all_goals
    obtain ⟨v,hv⟩ := Option.isSome_iff_exists.mp hsome
    simp only [Maps.row] at hv
    simp only [Maps.row,bumpVersion,moveEntry,deleteKey,Maps.deleteKey,hx,
      Map.getElem?_moved hne hv,Map.getElem?_erase,Row.only,Row.drop]
    by_cases hs : src=k
    · subst hs
      simp only [if_true,if_neg hne.symm]
    · by_cases hd : dst=k
      · simp only [if_neg hs,if_pos hd]
      · simp only [if_neg hs,if_neg hd]

theorem row_rename {s s' : MemoryStore F} {now : Int} {src dst : Bytes} {b : Bool}
    {t : KeyType} (hne : src ≠ dst) (ht : s.typeOf now src=some t)
    (h : s.rename now src dst=.ok (b,s')) :
    b=true ∧ s'.row dst=(s.row src).only t ∧ ∀ k, src ≠ k → dst ≠ k → s'.row k=s.row k := by
  refine ⟨(rename_ok ht h).1,?_,fun k hs hd => ?_⟩
  · rw [row_renamed hne ht h,if_neg hne,if_pos rfl]
  · rw [row_renamed hne ht h,if_neg hs,if_neg hd]

end MemoryStore
end GoRedis
