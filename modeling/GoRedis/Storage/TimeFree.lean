import GoRedis.Storage.SetAlgebra
/-!
# Stores without deadlines

While no key has a deadline the clock decides nothing: an operation without an expiry does
the same to equal maps at every instant. Neither does the order in which Go visits a map,
for it only decides in which order members are collected.
-/
namespace GoRedis
variable {F : Type}

/-- No key has a deadline. -/
structure Maps.TimeFree (m : Maps F) : Prop where
  expiry : m.keyExpiry=∅
  strings : ∀ (k : Bytes) e, m.strings[k]?=some e → e.expiresAt=none

namespace Maps.TimeFree
variable {m : Maps F}

theorem empty : (Maps.empty : Maps F).TimeFree :=
  ⟨rfl,fun k e h => by simp [Maps.empty] at h⟩

theorem liveString (h : m.TimeFree) (now : Int) (k : Bytes) :
    m.liveString now k=m.strings[k]? := by
  unfold Maps.liveString
  cases he : m.strings[k]? with
  | none => rfl
  | some e => simp [Option.filter,h.strings k e he,expired]

theorem keyExpiredNonStr (h : m.TimeFree) (now : Int) (k : Bytes) :
    m.keyExpiredNonStr now k=false := by simp [Maps.keyExpiredNonStr,h.expiry,expired]

theorem typeOf (h : m.TimeFree) (now now' : Int) (k : Bytes) :
    m.typeOf now k=m.typeOf now' k := by
  unfold Maps.typeOf
  rw [h.liveString now,h.liveString now',h.keyExpiredNonStr now,h.keyExpiredNonStr now']

theorem get (h : m.TimeFree) (now now' : Int) (k : Bytes) : m.get now k=m.get now' k := by
  unfold Maps.get
  rw [h.liveString now,h.liveString now']

theorem liveHash (h : m.TimeFree) (now now' : Int) (k : Bytes) :
    m.liveHash now k=m.liveHash now' k := by
  unfold Maps.liveHash
  rw [h.keyExpiredNonStr now,h.keyExpiredNonStr now']

theorem getList (h : m.TimeFree) (now now' : Int) (k : Bytes) :
    m.getList now k=m.getList now' k := by
  unfold Maps.getList
  rw [h.typeOf now now']

theorem getSet (h : m.TimeFree) (now now' : Int) (k : Bytes) :
    m.getSet now k=m.getSet now' k := by
  unfold Maps.getSet
  rw [h.typeOf now now']

theorem getZSet (h : m.TimeFree) (now now' : Int) (k : Bytes) :
    m.getZSet now k=m.getZSet now' k := by
  unfold Maps.getZSet
  rw [h.typeOf now now']

theorem deleteKey (h : m.TimeFree) (k : Bytes) : (m.deleteKey k).TimeFree := by
  refine ⟨?_,fun k' e he => ?_⟩
  · simp only [Maps.deleteKey,h.expiry]
    rfl
  · simp only [Maps.deleteKey,Map.getElem?_erase] at he
    split at he
    · cases he
    · exact h.strings k' e he

end Maps.TimeFree

/-- Two stores with the same maps, none of whose keys has a deadline. -/
structure Same (s r : MemoryStore F) : Prop where
  maps : s.toMaps=r.toMaps
  free : s.TimeFree

/-- A change of the store that does the same to the same maps at any two instants. -/
def Timeless (eff : World → MemoryStore F → MemoryStore F) : Prop :=
  ∀ w w' s r, Same s r → Same (eff w s) (eff w' r)

namespace Same
variable {s r : MemoryStore F}

theorem typeOf (h : Same s r) (now now' : Int) (k : Bytes) :
    s.typeOf now k=r.typeOf now' k := by
  rw [← h.maps,h.free.typeOf now now']

theorem type (h : Same s r) (now now' : Int) (k : Bytes) : s.type now k=r.type now' k :=
  h.typeOf now now' k

theorem get (h : Same s r) (now now' : Int) (k : Bytes) : s.get now k=r.get now' k := by
  rw [← h.maps,h.free.get now now']

theorem liveHash (h : Same s r) (now now' : Int) (k : Bytes) :
    s.liveHash now k=r.liveHash now' k := by
  rw [← h.maps,h.free.liveHash now now']

theorem getList (h : Same s r) (now now' : Int) (k : Bytes) :
    s.getList now k=r.getList now' k := by
  rw [← h.maps,h.free.getList now now']

theorem getSet (h : Same s r) (now now' : Int) (k : Bytes) :
    s.getSet now k=r.getSet now' k := by
  rw [← h.maps,h.free.getSet now now']

theorem getZSet (h : Same s r) (now now' : Int) (k : Bytes) :
    s.getZSet now k=r.getZSet now' k := by
  rw [← h.maps,h.free.getZSet now now']

theorem deleteExpired (h : Same s r) (now : Int) : Same (s.deleteExpired now) r := by
  have hstale : (∅ : Map Int).filter (fun _ t => decide (t < now))=∅ := by
    rw [Map.eq_empty_iff]
    simp
  have hall : ∀ {α : Type} (o : Option α), o.filter (fun _ => true)=o := by
    intro α o
    cases o <;> rfl
  have hmaps : (s.deleteExpired now).toMaps=s.toMaps := by
    apply Maps.ext_row
    intro k
    have hstr : (s.strings[k]?.filter fun e => !expired now e.expiresAt)=s.strings[k]? :=
      h.free.liveString now k
    simp only [Maps.row,MemoryStore.deleteExpired,h.free.expiry,hstale,
      Std.ExtTreeMap.getElem?_filter',hstr]
    simp [hall]
  exact ⟨hmaps.trans h.maps,hmaps ▸ h.free⟩

theorem bumpVersion (h : Same s r) (k : Bytes) : Same (s.bumpVersion k) (r.bumpVersion k) :=
  ⟨h.maps,h.free⟩

theorem deleteKey (h : Same s r) (k : Bytes) : Same (s.deleteKey k) (r.deleteKey k) :=
  ⟨congrArg (Maps.deleteKey · k) h.maps,h.free.deleteKey k⟩

theorem change {f : Maps F → Maps F} {s' r' : MemoryStore F} (h : Same s r)
    (hs : s'.toMaps=f s.toMaps) (hr : r'.toMaps=f r.toMaps)
    (hexp : (f s.toMaps).keyExpiry=∅)
    (hstr : ∀ (k : Bytes) e, (f s.toMaps).strings[k]?=some e → e.expiresAt=none) :
    Same s' r' := by
  refine ⟨by rw [hs,hr,h.maps],?_⟩
  rw [hs]
  exact ⟨hexp,hstr⟩

theorem putString (h : Same s r) (k v : Bytes) :
    Same (s.putString k ⟨v,none⟩) (r.putString k ⟨v,none⟩) := by
  refine h.change (f := fun m => { m with strings := m.strings.insert k ⟨v,none⟩ }) rfl rfl
    h.free.expiry fun k' e he => ?_
  simp only [Map.getElem?_insert] at he
  split at he
  · cases he
    rfl
  · exact h.free.strings k' e he

theorem putList (h : Same s r) (k : Bytes) (l : List Bytes) :
    Same (s.putList k l) (r.putList k l) :=
  h.change (f := fun m => { m with lists := m.lists.insert k l }) rfl rfl h.free.expiry
    h.free.strings

theorem dropList (h : Same s r) (k : Bytes) : Same (s.dropList k) (r.dropList k) :=
  h.change (f := fun m => { m with lists := m.lists.erase k,keyExpiry := m.keyExpiry.erase k })
    rfl rfl (by simp [h.free.expiry]) h.free.strings

theorem keepList (h : Same s r) (k : Bytes) (l : List Bytes) :
    Same (s.keepList k l) (r.keepList k l) := by
  unfold MemoryStore.keepList
  split
  · exact h.dropList k
  · exact h.putList k l

theorem putSet (h : Same s r) (k : Bytes) (st : KeySet) : Same (s.putSet k st) (r.putSet k st) :=
  h.change (f := fun m => { m with sets := m.sets.insert k st }) rfl rfl h.free.expiry
    h.free.strings

theorem dropSet (h : Same s r) (k : Bytes) : Same (s.dropSet k) (r.dropSet k) :=
  h.change (f := fun m => { m with sets := m.sets.erase k,keyExpiry := m.keyExpiry.erase k })
    rfl rfl (by simp [h.free.expiry]) h.free.strings

theorem keepSet (h : Same s r) (k : Bytes) (st : KeySet) :
    Same (s.keepSet k st) (r.keepSet k st) := by
  unfold MemoryStore.keepSet
  split
  · exact h.dropSet k
  · exact h.putSet k st

theorem putZSet (h : Same s r) (k : Bytes) (z : Map F) : Same (s.putZSet k z) (r.putZSet k z) :=
  h.change (f := fun m => { m with zsets := m.zsets.insert k z }) rfl rfl h.free.expiry
    h.free.strings

theorem dropZSet (h : Same s r) (k : Bytes) : Same (s.dropZSet k) (r.dropZSet k) :=
  h.change (f := fun m => { m with zsets := m.zsets.erase k,keyExpiry := m.keyExpiry.erase k })
    rfl rfl (by simp [h.free.expiry]) h.free.strings

theorem keepZSet (h : Same s r) (k : Bytes) (z : Map F) :
    Same (s.keepZSet k z) (r.keepZSet k z) := by
  unfold MemoryStore.keepZSet
  split
  · exact h.dropZSet k
  · exact h.putZSet k z

theorem set (h : Same s r) (k v : Bytes) : Same (s.set k v) (r.set k v) :=
  ((h.deleteKey k).putString k v).bumpVersion k

theorem del (h : Same s r) (now now' : Int) (ks : List Bytes) :
    Same (s.del now ks).2 (r.del now' ks).2 := by
  induction ks generalizing s r with
  | nil => exact h
  | cons k ks ih =>
    rw [MemoryStore.del,MemoryStore.del,h.typeOf now now']
    split
    · exact ih h
    · exact ih ((h.deleteKey k).bumpVersion k)

theorem flush (_ : Same s r) : Same s.flush r.flush := ⟨rfl,.empty⟩

theorem hSet (h : Same s r) (k : Bytes) (fields : Map Bytes) :
    Same (s.hSet k fields).2 (r.hSet k fields).2 := by
  refine h.change (f := fun m => { m with
    strings := m.strings.erase k
    hashes := m.hashes.insert k (MemoryStore.mergeFields (m.hashes.getD k ∅) fields) })
    (MemoryStore.hSet_toMaps s k fields) (MemoryStore.hSet_toMaps r k fields) h.free.expiry
    fun k' e he => ?_
  simp only [Map.getElem?_erase] at he
  split at he
  · cases he
  · exact h.free.strings k' e he

theorem hDel (h : Same s r) (now now' : Int) (k : Bytes) (fields : List Bytes) :
    Same (s.hDel now k fields).2 (r.hDel now' k fields).2 := by
  unfold MemoryStore.hDel
  rw [h.liveHash now now']
  split
  · exact h
  · dsimp only
    split
    · exact h.change
        (f := fun m => { m with hashes := m.hashes.erase k,keyExpiry := m.keyExpiry.erase k })
        rfl rfl (by simp [h.free.expiry]) h.free.strings
    · exact h.change (f := fun m => { m with hashes := m.hashes.insert k _ }) rfl rfl
        h.free.expiry h.free.strings

theorem listGuard (h : Same s r) (now now' : Int) (k : Bytes) :
    s.listGuard now k=r.listGuard now' k := by
  unfold MemoryStore.listGuard
  rw [h.typeOf now now']

theorem lPush (h : Same s r) (now now' : Int) (k : Bytes) (vs : List Bytes) :
    Same (dropError s (s.lPush now k vs)) (dropError r (r.lPush now' k vs)) := by
  unfold MemoryStore.lPush
  rw [h.listGuard now now',h.maps]
  split
  · exact (h.putList k _).bumpVersion k
  · exact h

theorem rPush (h : Same s r) (now now' : Int) (k : Bytes) (vs : List Bytes) :
    Same (dropError s (s.rPush now k vs)) (dropError r (r.rPush now' k vs)) := by
  unfold MemoryStore.rPush
  rw [h.listGuard now now',h.maps]
  split
  · exact (h.putList k _).bumpVersion k
  · exact h

theorem popList (h : Same s r) (cut : Nat → List Bytes → List Bytes × List Bytes)
    (now now' : Int) (k : Bytes) (n : Int) :
    Same ((StoreOp.dropResult s (MemoryStore.popList cut s now k n)).toOption.getD s)
      ((StoreOp.dropResult r (MemoryStore.popList cut r now' k n)).toOption.getD r) := by
  unfold MemoryStore.popList
  rw [h.getList now now']
  split
  · exact h
  · exact h
  · rename_i l _
    dsimp only
    generalize (if (l.length:Int) < n then (l.length:Int) else n)=count
    split
    · exact h
    · exact (h.keepList k _).bumpVersion k

theorem lSet (h : Same s r) (now now' : Int) (k : Bytes) (i : Int) (v : Bytes) :
    Same ((s.lSet now k i v).toOption.getD s) ((r.lSet now' k i v).toOption.getD r) := by
  unfold MemoryStore.lSet
  rw [h.typeOf now now',h.maps]
  split
  · exact h
  · dsimp only
    split
    · exact h
    · exact (h.putList k _).bumpVersion k
  · exact h

theorem lInsert (h : Same s r) (now now' : Int) (k : Bytes) (before : Bool) (pivot v : Bytes) :
    Same (dropError s (s.lInsert now k before pivot v))
      (dropError r (r.lInsert now' k before pivot v)) := by
  unfold MemoryStore.lInsert
  rw [h.typeOf now now',h.maps]
  split
  · exact h
  · dsimp only
    split
    · exact h
    · exact (h.putList k _).bumpVersion k
  · exact h

theorem lRem (h : Same s r) (now now' : Int) (k : Bytes) (n : Int) (v : Bytes) :
    Same (dropError s (s.lRem now k n v)) (dropError r (r.lRem now' k n v)) := by
  unfold MemoryStore.lRem
  rw [h.getList now now']
  split
  · exact h
  · exact h
  · dsimp only
    split
    · exact h
    · exact (h.keepList k _).bumpVersion k

theorem lTrim (h : Same s r) (now now' : Int) (k : Bytes) (start stop : Int) :
    Same ((s.lTrim now k start stop).toOption.getD s)
      ((r.lTrim now' k start stop).toOption.getD r) := by
  unfold MemoryStore.lTrim
  rw [h.typeOf now now',h.maps]
  split
  · exact h
  · dsimp only
    split
    · exact (h.dropList k).bumpVersion k
    · exact (h.putList k _).bumpVersion k
  · exact h

theorem lMove (h : Same s r) (now now' : Int) (src dst : Bytes) (a b : Bool) :
    Same (dropError s (s.lMove now src dst a b)) (dropError r (r.lMove now' src dst a b)) := by
  unfold MemoryStore.lMove
  rw [h.listGuard now now',h.listGuard now now',h.maps]
  split
  · exact h
  · split
    · exact h
    · dsimp only
      split
      · exact h
      · have hkeep := h.keepList src (MemoryStore.takeEnd a (r.lists.getD src [])).2
        rw [hkeep.maps]
        exact ((hkeep.putList dst _).bumpVersion src).bumpVersion dst

theorem setGuard (h : Same s r) (now now' : Int) (k : Bytes) :
    s.setGuard now k=r.setGuard now' k := by
  unfold MemoryStore.setGuard
  rw [h.typeOf now now']

theorem sAdd (h : Same s r) (now now' : Int) (k : Bytes) (xs : List Bytes) :
    Same (dropError s (s.sAdd now k xs)) (dropError r (r.sAdd now' k xs)) := by
  unfold MemoryStore.sAdd
  rw [h.setGuard now now',h.maps]
  split
  · exact (h.putSet k _).bumpVersion k
  · exact h

theorem sRem (h : Same s r) (now now' : Int) (k : Bytes) (xs : List Bytes) :
    Same (dropError s (s.sRem now k xs)) (dropError r (r.sRem now' k xs)) := by
  unfold MemoryStore.sRem
  rw [h.getSet now now']
  split
  · exact h
  · exact h
  · exact (h.keepSet k _).bumpVersion k

theorem sMove (h : Same s r) (now now' : Int) (src dst x : Bytes) :
    Same (dropError s (s.sMove now src dst x)) (dropError r (r.sMove now' src dst x)) := by
  unfold MemoryStore.sMove
  rw [h.setGuard now now',h.setGuard now now',h.maps]
  split
  · exact h
  · split
    · exact h
    · split
      · exact h
      · rename_i st _
        split
        · exact h
        · dsimp only
          have hkeep := h.keepSet src (st.erase x)
          rw [hkeep.maps]
          exact ((hkeep.putSet dst _).bumpVersion src).bumpVersion dst

end Same

/-- Two results of a set operation: both failed, or both collected the same members. -/
def SameMembers : Except StoreError (List Bytes) → Except StoreError (List Bytes) → Prop
  | .ok xs,.ok ys => ∀ x, x ∈ xs ↔ x ∈ ys
  | .error _,.error _ => True
  | _,_ => False

theorem Maps.TimeFree.members {m : Maps F} (h : m.TimeFree) (w w' : World) (op : SetOp)
    (ks : List Bytes) : SameMembers (op.members m w ks) (op.members m w' ks) := by
  rcases op.members_alike (fun j => h.typeOf w.now w'.now j) ks with
    ⟨hrun,hrun'⟩ | ⟨xs,ys,hrun,hrun',hperm⟩
  · rw [hrun,hrun']
    trivial
  · rw [hrun,hrun']
    exact fun x => hperm.mem_iff

namespace Same
variable {s r : MemoryStore F}

theorem storeMembers (h : Same s r) (dst : Bytes) {a b : Except StoreError (List Bytes)}
    (hab : SameMembers a b) :
    Same (dropError s (s.storeMembers dst a)) (dropError r (r.storeMembers dst b)) := by
  cases a with
  | error e =>
    cases b with
    | error e' => exact h
    | ok ys => exact hab.elim
  | ok xs =>
    cases b with
    | error e' => exact hab.elim
    | ok ys =>
      have hnil : xs=[] ↔ ys=[] := by
        simp only [List.eq_nil_iff_forall_not_mem]
        exact forall_congr' fun x => not_congr (hab x)
      have hset : xs.foldl (fun acc x => acc.insert x) (∅ : KeySet)=
          ys.foldl (fun acc x => acc.insert x) ∅ := by
        apply Std.ExtTreeSet.ext_mem
        intro x
        rw [KeySet.mem_foldl_insert,KeySet.mem_foldl_insert,hab x]
      unfold MemoryStore.storeMembers
      simp only [hnil,hset]
      split
      · exact h.deleteKey dst
      · exact ((h.deleteKey dst).putSet dst _).bumpVersion dst

theorem storeOp (h : Same s r) (w w' : World) (op : SetOp) (dst : Bytes) (ks : List Bytes) :
    Same (dropError s (s.storeMembers dst (op.members s.toMaps w ks)))
      (dropError r (r.storeMembers dst (op.members r.toMaps w' ks))) := by
  apply h.storeMembers dst
  rw [← h.maps]
  exact h.free.members w w' op ks

theorem zsetGuard (h : Same s r) (now now' : Int) (k : Bytes) :
    s.zsetGuard now k=r.zsetGuard now' k := by
  unfold MemoryStore.zsetGuard
  rw [h.typeOf now now']

theorem zRem (h : Same s r) (now now' : Int) (k : Bytes) (xs : List Bytes) :
    Same (dropError s (s.zRem now k xs)) (dropError r (r.zRem now' k xs)) := by
  unfold MemoryStore.zRem
  rw [h.getZSet now now']
  split
  · exact h
  · exact h
  · exact (h.keepZSet k _).bumpVersion k

theorem storeScores (h : Same s r) (dst : Bytes) (scores : Except StoreError (Map F)) :
    Same (dropError s (s.storeScores dst scores)) (dropError r (r.storeScores dst scores)) := by
  unfold MemoryStore.storeScores
  split
  · exact h
  · dsimp only
    split
    · exact h.deleteKey dst
    · exact ((h.deleteKey dst).putZSet dst _).bumpVersion dst

variable [Float64 F]

theorem zAdd (h : Same s r) (now now' : Int) (k : Bytes) (ms : List (ZMember F))
    (fl : ZAddFlags) :
    Same (dropError s (s.zAdd now k ms fl)) (dropError r (r.zAdd now' k ms fl)) := by
  unfold MemoryStore.zAdd
  rw [h.zsetGuard now now',h.maps]
  split
  · exact (h.putZSet k _).bumpVersion k
  · exact h

theorem zIncrBy (h : Same s r) (now now' : Int) (k : Bytes) (incr : F) (x : Bytes) :
    Same (dropError s (s.zIncrBy now k incr x)) (dropError r (r.zIncrBy now' k incr x)) := by
  unfold MemoryStore.zIncrBy
  rw [h.zsetGuard now now',h.maps]
  split
  · exact (h.putZSet k _).bumpVersion k
  · exact h

theorem popZSet (h : Same s r) (order : List (ZMember F) → List (ZMember F)) (now now' : Int)
    (k : Bytes) (n : Int) :
    Same ((StoreOp.dropResult s (MemoryStore.popZSet order s now k n)).toOption.getD s)
      ((StoreOp.dropResult r (MemoryStore.popZSet order r now' k n)).toOption.getD r) := by
  unfold MemoryStore.popZSet
  rw [h.getZSet now now']
  split
  · exact h
  · exact h
  · rename_i z _
    split
    · exact h
    · dsimp only
      generalize (if ((order (sortedMembers z)).length:Int) < n
        then ((order (sortedMembers z)).length:Int) else n)=count
      split
      · exact h
      · exact (h.keepZSet k _).bumpVersion k

end Same

section
variable [Float64 F] {m : Maps F}

theorem Maps.TimeFree.zUnionLoop (h : m.TimeFree) (now now' : Int) (agg : Bytes)
    (ks : List Bytes) (weights : List F) (scores : Map F) :
    m.zUnionLoop now agg ks weights scores=m.zUnionLoop now' agg ks weights scores := by
  induction ks generalizing weights scores with
  | nil => rfl
  | cons k ks ih =>
    rw [Maps.zUnionLoop,Maps.zUnionLoop,h.getZSet now now']
    simp only [ih]

theorem Maps.TimeFree.zInterLoop (h : m.TimeFree) (now now' : Int) (agg : Bytes)
    (ks : List Bytes) (weights : List F) (scores : Map F) :
    m.zInterLoop now agg ks weights scores=m.zInterLoop now' agg ks weights scores := by
  induction ks generalizing weights scores with
  | nil => rfl
  | cons k ks ih =>
    rw [Maps.zInterLoop,Maps.zInterLoop,h.getZSet now now']
    simp only [ih]

variable {s r : MemoryStore F}

theorem Same.zUnionStore (h : Same s r) (now now' : Int) (dst : Bytes) (ks : List Bytes)
    (weights : List F) (agg : Bytes) :
    Same (dropError s (s.zUnionStore now dst ks weights agg))
      (dropError r (r.zUnionStore now' dst ks weights agg)) := by
  unfold MemoryStore.zUnionStore
  rw [h.free.zUnionLoop now now',h.maps]
  exact h.storeScores dst _

theorem Same.zInterStore (h : Same s r) (now now' : Int) (dst : Bytes) (ks : List Bytes)
    (weights : List F) (agg : Bytes) :
    Same (dropError s (s.zInterStore now dst ks weights agg))
      (dropError r (r.zInterStore now' dst ks weights agg)) := by
  unfold MemoryStore.zInterStore
  split
  · exact h
  · rw [h.getZSet now now']
    split
    · exact h
    · dsimp only
      rw [h.free.zInterLoop now now',h.maps]
      exact h.storeScores dst _

end
end GoRedis
