import GoRedis.Storage.Operations
/-!
# One key, one type

A key is meant to live in at most one of the five type maps. Most operations see to it by
`deleteKey`; `HSet` clears the string map only, and the operations that ask `typeOf` first
do not see an entry whose deadline has passed but which the sweep has not removed yet.
-/
namespace GoRedis
variable {F : Type}

namespace Maps

/-- The key is present in the map of that type, expired or not. -/
def Holds (m : Maps F) (t : KeyType) (k : Bytes) : Prop :=
  match t with
  | .string => k ∈ m.strings
  | .hash => k ∈ m.hashes
  | .list => k ∈ m.lists
  | .set => k ∈ m.sets
  | .zset => k ∈ m.zsets

instance (m : Maps F) (t : KeyType) (k : Bytes) : Decidable (m.Holds t k) := by
  cases t <;> exact inferInstanceAs (Decidable (_ ∈ _))

/-- Every key is present in at most one type map. -/
def OneType (m : Maps F) : Prop := ∀ k t t', m.Holds t k → m.Holds t' k → t=t'

/-- Nothing is in `m'` that was not in `m`. -/
def Shrinks (m m' : Maps F) : Prop := ∀ t k, m'.Holds t k → m.Holds t k

/-- `m'` has the key in the map of type `t`; otherwise it may only have lost entries, none of
them one of this key in another map. -/
structure Puts (m m' : Maps F) (t : KeyType) (k : Bytes) : Prop where
  holds : m'.Holds t k
  only : ∀ t' k', m'.Holds t' k' → t'=t ∧ k=k' ∨ m.Holds t' k'
  keeps : ∀ t', t' ≠ t → m.Holds t' k → m'.Holds t' k

theorem Shrinks.refl (m : Maps F) : Shrinks m m := fun _ _ h => h

theorem Shrinks.trans {a b c : Maps F} (h : Shrinks a b) (h' : Shrinks b c) : Shrinks a c :=
  fun t k hk => h t k (h' t k hk)

theorem OneType.shrink {m m' : Maps F} (hm : m.OneType) (h : Shrinks m m') : m'.OneType :=
  fun k t t' ht ht' => hm k t t' (h t k ht) (h t' k ht')

theorem OneType.gain {m m' : Maps F} {t : KeyType} {k : Bytes} (hm : m.OneType)
    (honly : ∀ t' k', m'.Holds t' k' → t'=t ∧ k=k' ∨ m.Holds t' k')
    (hk : ∀ t', m.Holds t' k → t'=t) : m'.OneType := by
  intro k' t₁ t₂ h₁ h₂
  rcases honly t₁ k' h₁ with ⟨rfl,rfl⟩ | h₁
  · rcases honly t₂ _ h₂ with ⟨rfl,_⟩ | h₂
    · rfl
    · exact (hk t₂ h₂).symm
  · rcases honly t₂ k' h₂ with ⟨rfl,rfl⟩ | h₂
    · exact hk t₁ h₁
    · exact hm k' t₁ t₂ h₁ h₂

theorem OneType.puts_iff {m m' : Maps F} {t : KeyType} {k : Bytes} (hm : m.OneType)
    (h : Puts m m' t k) : m'.OneType ↔ ∀ t', m.Holds t' k → t'=t := by
  constructor
  · intro hm' t' ht'
    by_contra hne
    exact hne (hm' k t' t (h.keeps t' hne ht') h.holds)
  · exact hm.gain h.only

theorem Puts.shrinks {m m' : Maps F} {t : KeyType} {k : Bytes} (h : Puts m m' t k)
    (hk : m.Holds t k) : Shrinks m m' := by
  intro t' k' h'
  rcases h.only t' k' h' with ⟨rfl,rfl⟩ | h'
  · exact hk
  · exact h'

theorem holds_deleteKey (m : Maps F) (k k' : Bytes) (t : KeyType) :
    (m.deleteKey k).Holds t k' ↔ k ≠ k' ∧ m.Holds t k' := by
  cases t <;> simp [Holds,deleteKey,Std.ExtTreeMap.mem_erase]

theorem shrinks_deleteKey (m : Maps F) (k : Bytes) : Shrinks m (m.deleteKey k) :=
  fun t k' h => ((holds_deleteKey m k k' t).mp h).2

theorem OneType.replace {m m' : Maps F} {t : KeyType} {k : Bytes} (hm : m.OneType)
    (h : Puts (m.deleteKey k) m' t k) : m'.OneType := by
  refine ((hm.shrink (shrinks_deleteKey m k)).puts_iff h).mpr fun t' ht' => ?_
  exact absurd rfl ((holds_deleteKey m k k t').mp ht').1

theorem typeOf_holds {m : Maps F} {now : Int} {k : Bytes} {t : KeyType}
    (h : m.typeOf now k=some t) : m.Holds t k := by
  unfold typeOf at h
  split_ifs at h with h₁ h₂ h₃ h₄ h₅
  · cases h
    obtain ⟨e,he⟩ := Option.isSome_iff_exists.mp h₁
    have hmem := (Option.filter_eq_some_iff.mp he).1
    change k ∈ m.strings
    rw [Std.ExtTreeMap.mem_iff_isSome_getElem?,hmem]
    rfl
  all_goals
    cases h
    first | exact h₂.1 | exact h₃.1 | exact h₄.1 | exact h₅.1

end Maps

namespace MemoryStore
open Maps

theorem puts_putString (s : MemoryStore F) (k : Bytes) (e : StrEntry) :
    Puts s.toMaps (s.putString k e).toMaps .string k where
  holds := by simp [Holds,putString]
  only t' k' h := by cases t' <;> simp_all [Holds,putString]
  keeps t' hne h := by cases t' <;> simp_all [Holds,putString]

theorem puts_putList (s : MemoryStore F) (k : Bytes) (l : List Bytes) :
    Puts s.toMaps (s.putList k l).toMaps .list k where
  holds := by simp [Holds,putList]
  only t' k' h := by cases t' <;> simp_all [Holds,putList]
  keeps t' hne h := by cases t' <;> simp_all [Holds,putList]

theorem puts_putSet (s : MemoryStore F) (k : Bytes) (st : KeySet) :
    Puts s.toMaps (s.putSet k st).toMaps .set k where
  holds := by simp [Holds,putSet]
  only t' k' h := by cases t' <;> simp_all [Holds,putSet]
  keeps t' hne h := by cases t' <;> simp_all [Holds,putSet]

theorem puts_putZSet (s : MemoryStore F) (k : Bytes) (z : Map F) :
    Puts s.toMaps (s.putZSet k z).toMaps .zset k where
  holds := by simp [Holds,putZSet]
  only t' k' h := by cases t' <;> simp_all [Holds,putZSet]
  keeps t' hne h := by cases t' <;> simp_all [Holds,putZSet]

theorem shrinks_dropList (s : MemoryStore F) (k : Bytes) :
    Shrinks s.toMaps (s.dropList k).toMaps := by
  intro t k' h
  cases t <;> simp_all [Holds,dropList,Std.ExtTreeMap.mem_erase]

theorem shrinks_dropSet (s : MemoryStore F) (k : Bytes) :
    Shrinks s.toMaps (s.dropSet k).toMaps := by
  intro t k' h
  cases t <;> simp_all [Holds,dropSet,Std.ExtTreeMap.mem_erase]

theorem shrinks_dropZSet (s : MemoryStore F) (k : Bytes) :
    Shrinks s.toMaps (s.dropZSet k).toMaps := by
  intro t k' h
  cases t <;> simp_all [Holds,dropZSet,Std.ExtTreeMap.mem_erase]

theorem shrinks_keepList {s : MemoryStore F} {k : Bytes} (h : s.Holds .list k) (l : List Bytes) :
    Shrinks s.toMaps (s.keepList k l).toMaps := by
  unfold keepList
  split
  · exact shrinks_dropList s k
  · exact (puts_putList s k l).shrinks h

theorem shrinks_keepSet {s : MemoryStore F} {k : Bytes} (h : s.Holds .set k) (st : KeySet) :
    Shrinks s.toMaps (s.keepSet k st).toMaps := by
  unfold keepSet
  split
  · exact shrinks_dropSet s k
  · exact (puts_putSet s k st).shrinks h

theorem shrinks_keepZSet {s : MemoryStore F} {k : Bytes} (h : s.Holds .zset k) (z : Map F) :
    Shrinks s.toMaps (s.keepZSet k z).toMaps := by
  unfold keepZSet
  split
  · exact shrinks_dropZSet s k
  · exact (puts_putZSet s k z).shrinks h

theorem liveString_holds {m : Maps F} {now : Int} {k : Bytes} {e : StrEntry}
    (h : m.liveString now k=some e) : m.Holds .string k := by
  have hmem := (Option.filter_eq_some_iff.mp h).1
  change k ∈ m.strings
  rw [Std.ExtTreeMap.mem_iff_isSome_getElem?,hmem]
  rfl

theorem liveHash_holds {m : Maps F} {now : Int} {k : Bytes} {h : Map Bytes}
    (hl : m.liveHash now k=some h) : m.Holds .hash k := by
  unfold liveHash at hl
  split at hl
  · cases hl
  · change k ∈ m.hashes
    rw [Std.ExtTreeMap.mem_iff_isSome_getElem?,hl]
    rfl

theorem getList_holds {m : Maps F} {now : Int} {k : Bytes} {l : List Bytes}
    (h : m.getList now k=.ok (some l)) : m.Holds .list k := by
  unfold getList at h
  split at h
  · cases h
  · exact typeOf_holds ‹_›
  · cases h

theorem getSet_holds {m : Maps F} {now : Int} {k : Bytes} {st : KeySet}
    (h : m.getSet now k=.ok (some st)) : m.Holds .set k := by
  unfold getSet at h
  split at h
  · cases h
  · exact typeOf_holds ‹_›
  · cases h

theorem getZSet_holds {m : Maps F} {now : Int} {k : Bytes} {z : Map F}
    (h : m.getZSet now k=.ok (some z)) : m.Holds .zset k := by
  unfold getZSet at h
  split at h
  · cases h
  · exact typeOf_holds ‹_›
  · cases h

theorem shrinks_getEx (s : MemoryStore F) (now : Int) (k : Bytes) (ttl : Int) (p h : Bool) :
    Shrinks s.toMaps (s.getEx now k ttl p h).2.toMaps := by
  unfold getEx
  split
  · exact .refl _
  · have hk := liveString_holds ‹s.liveString now k=some _›
    split_ifs
    · exact (puts_putString s k _).shrinks hk
    · exact (puts_putString s k _).shrinks hk
    · exact .refl _

theorem shrinks_del (s : MemoryStore F) (now : Int) (ks : List Bytes) :
    Shrinks s.toMaps (s.del now ks).2.toMaps := by
  induction ks generalizing s with
  | nil => exact .refl _
  | cons k ks ih =>
    rw [del]
    split
    · exact ih s
    · exact (shrinks_deleteKey s.toMaps k).trans (ih ((s.deleteKey k).bumpVersion k))

theorem shrinks_expire (s : MemoryStore F) (now : Int) (k : Bytes) (ttl : Int) :
    Shrinks s.toMaps (s.expire now k ttl).2.toMaps := by
  unfold expire
  split
  · exact (puts_putString s k _).shrinks (liveString_holds ‹_›)
  · split
    · exact .refl _
    · exact .refl _

theorem shrinks_persist (s : MemoryStore F) (now : Int) (k : Bytes) :
    Shrinks s.toMaps (s.persist now k).2.toMaps := by
  unfold persist
  split
  · rename_i e he
    exact (puts_putString s k _).shrinks (liveString_holds (Option.filter_eq_some_iff.mp he).1)
  · split_ifs <;> exact .refl _

theorem shrinks_hDel (s : MemoryStore F) (now : Int) (k : Bytes) (fs : List Bytes) :
    Shrinks s.toMaps (s.hDel now k fs).2.toMaps := by
  unfold hDel
  split
  · exact .refl _
  · have hk := liveHash_holds ‹s.liveHash now k=some _›
    dsimp only
    split
    · intro t k' h
      cases t <;> simp_all [Holds,Std.ExtTreeMap.mem_erase]
    · intro t k' h
      cases t <;> simp_all [Holds,bumpVersion]
      rcases h with rfl | h
      · exact hk
      · exact h

theorem shrinks_popList {cut : Nat → List Bytes → List Bytes × List Bytes} {s : MemoryStore F}
    {now : Int} {k : Bytes} {n : Int} {r : Except StoreError (Option (List Bytes) × MemoryStore F)}
    (h : popList cut s now k n=.ok r) : Shrinks s.toMaps (dropError s r).toMaps := by
  unfold popList at h
  split at h
  · cases h
    exact .refl _
  · cases h
    exact .refl _
  · dsimp only at h
    split_ifs at h <;> cases h <;> exact shrinks_keepList (getList_holds ‹_›) _

theorem shrinks_lSet (s : MemoryStore F) (now : Int) (k : Bytes) (i : Int) (v : Bytes) :
    Shrinks s.toMaps ((s.lSet now k i v).toOption.getD s).toMaps := by
  unfold lSet
  split
  · exact .refl _
  · dsimp only
    split
    · exact .refl _
    · exact (puts_putList s k _).shrinks (typeOf_holds ‹_›)
  · exact .refl _

theorem shrinks_lInsert (s : MemoryStore F) (now : Int) (k : Bytes) (before : Bool)
    (pivot v : Bytes) : Shrinks s.toMaps (dropError s (s.lInsert now k before pivot v)).toMaps := by
  unfold lInsert
  split
  · exact .refl _
  · dsimp only
    split
    · exact .refl _
    · exact (puts_putList s k _).shrinks (typeOf_holds ‹_›)
  · exact .refl _

theorem shrinks_lRem (s : MemoryStore F) (now : Int) (k : Bytes) (n : Int) (v : Bytes) :
    Shrinks s.toMaps (dropError s (s.lRem now k n v)).toMaps := by
  unfold lRem
  split
  · exact .refl _
  · exact .refl _
  · dsimp only
    split
    · exact .refl _
    · exact shrinks_keepList (getList_holds ‹_›) _

theorem shrinks_lTrim (s : MemoryStore F) (now : Int) (k : Bytes) (a b : Int) :
    Shrinks s.toMaps ((s.lTrim now k a b).toOption.getD s).toMaps := by
  unfold lTrim
  split
  · exact .refl _
  · dsimp only
    split
    · exact shrinks_dropList s k
    · exact (puts_putList s k _).shrinks (typeOf_holds ‹_›)
  · exact .refl _

theorem shrinks_sRem (s : MemoryStore F) (now : Int) (k : Bytes) (xs : List Bytes) :
    Shrinks s.toMaps (dropError s (s.sRem now k xs)).toMaps := by
  unfold sRem
  split
  · exact .refl _
  · exact .refl _
  · exact shrinks_keepSet (getSet_holds ‹_›) _

theorem shrinks_sPop {s : MemoryStore F} {w : World} {k : Bytes} {n : Int}
    {r : Except StoreError (List Bytes × MemoryStore F)} (h : s.sPop w k n=.ok r) :
    Shrinks s.toMaps (dropError s r).toMaps := by
  unfold sPop at h
  split at h
  · cases h
    exact .refl _
  · cases h
    exact .refl _
  · dsimp only at h
    split_ifs at h
    · cases h
      exact shrinks_dropSet s k
    · cases h
      exact (puts_putSet s k _).shrinks (getSet_holds ‹_›)

theorem shrinks_zRem (s : MemoryStore F) (now : Int) (k : Bytes) (xs : List Bytes) :
    Shrinks s.toMaps (dropError s (s.zRem now k xs)).toMaps := by
  unfold zRem
  split
  · exact .refl _
  · exact .refl _
  · exact shrinks_keepZSet (getZSet_holds ‹_›) _

theorem shrinks_popZSet [Float64 F] {order : List (ZMember F) → List (ZMember F)}
    {s : MemoryStore F} {now : Int} {k : Bytes} {n : Int}
    {r : Except StoreError (List (ZMember F) × MemoryStore F)}
    (h : popZSet order s now k n=.ok r) : Shrinks s.toMaps (dropError s r).toMaps := by
  unfold popZSet at h
  split at h
  · cases h
    exact .refl _
  · cases h
    exact .refl _
  · dsimp only at h
    split_ifs at h
    · cases h
      exact .refl _
    · cases h
      exact shrinks_keepZSet (getZSet_holds ‹_›) _
    · cases h
      exact shrinks_keepZSet (getZSet_holds ‹_›) _

theorem shrinks_deleteExpired (s : MemoryStore F) (now : Int) :
    Shrinks s.toMaps (s.deleteExpired now).toMaps := by
  intro t k h
  cases t <;> exact Std.ExtTreeMap.mem_of_mem_filter h

theorem oneType_set {s : MemoryStore F} (hs : s.OneType) (k v : Bytes) :
    (s.set k v).OneType := hs.replace (puts_putString (s.deleteKey k) k _)

theorem oneType_setWithTTL {s : MemoryStore F} (hs : s.OneType) (now : Int) (k v : Bytes)
    (ttl : Int) : (s.setWithTTL now k v ttl).OneType :=
  hs.replace (puts_putString (s.deleteKey k) k _)

theorem oneType_setAdv {s : MemoryStore F} (hs : s.OneType) (now : Int) (k v : Bytes) (ttl : Int)
    (opts : SetAdvOpts) : (s.setAdv now k v ttl opts).2.2.OneType := by
  rcases s.setAdv_cases now k v ttl opts with ⟨_,hrun⟩ | ⟨_,hrun⟩
  · rw [hrun]
    exact hs
  · rw [hrun]
    exact hs.replace (puts_putString (s.deleteKey k) k _)

theorem oneType_storeMembers {s : MemoryStore F} (hs : s.OneType) (dst : Bytes)
    (members : Except StoreError (List Bytes)) :
    (dropError s (s.storeMembers dst members)).OneType := by
  unfold storeMembers
  split
  · exact hs
  · dsimp only
    split
    · exact hs.shrink (shrinks_deleteKey s.toMaps dst)
    · exact hs.replace (puts_putSet (s.deleteKey dst) dst _)

theorem oneType_storeScores {s : MemoryStore F} (hs : s.OneType) (dst : Bytes)
    (scores : Except StoreError (Map F)) : (dropError s (s.storeScores dst scores)).OneType := by
  unfold storeScores
  split
  · exact hs
  · dsimp only
    split
    · exact hs.shrink (shrinks_deleteKey s.toMaps dst)
    · exact hs.replace (puts_putZSet (s.deleteKey dst) dst _)

theorem oneType_zInterStore [Float64 F] {s : MemoryStore F} (hs : s.OneType) (now : Int)
    (dst : Bytes) (keys : List Bytes) (weights : List F) (agg : Bytes) :
    (dropError s (s.zInterStore now dst keys weights agg)).OneType := by
  unfold zInterStore
  split
  · exact hs
  · split
    · exact hs
    · exact oneType_storeScores hs dst _

theorem moveEntry_only (s : MemoryStore F) (t : KeyType) (src dst : Bytes) (t' : KeyType)
    (k : Bytes) (h : (s.moveEntry t src dst).Holds t' k) : t'=t ∧ dst=k ∨ s.Holds t' k := by
  cases t <;> cases t' <;> simp_all [moveEntry,Holds,Std.ExtTreeMap.mem_erase]

theorem rename_total (s : MemoryStore F) (now : Int) {src dst : Bytes} (hne : src ≠ dst) :
    ∃ r, s.rename now src dst=.ok r := by
  unfold rename
  split
  · exact ⟨_,rfl⟩
  · rename_i t ht
    have hkept : ¬(t=.zset ∧ src ∉ (s.deleteKey dst).zsets) := by
      rintro ⟨rfl,hgone⟩
      apply hgone
      have hmem : src ∈ s.zsets := Maps.typeOf_holds ht
      exact Std.ExtTreeMap.mem_erase.mpr ⟨by simpa using hne.symm,hmem⟩
    dsimp only
    rw [if_neg hkept]
    exact ⟨_,rfl⟩

theorem oneType_rename {s s' : MemoryStore F} (hs : s.OneType) {now : Int} {src dst : Bytes}
    {b : Bool} (h : s.rename now src dst=.ok (b,s')) : s'.OneType := by
  cases ht : s.typeOf now src with
  | none =>
    rw [rename_none ht] at h
    cases h
    exact hs
  | some t =>
    obtain ⟨_,x,rfl,_⟩ := rename_ok ht h
    have hmoved : ((s.deleteKey dst).moveEntry t src dst).OneType := by
      refine (hs.shrink (shrinks_deleteKey s.toMaps dst)).gain
        (moveEntry_only (s.deleteKey dst) t src dst) fun t' ht' => ?_
      exact absurd rfl ((holds_deleteKey s.toMaps dst dst t').mp ht').1
    exact hmoved

theorem oneType_hSet_iff {s : MemoryStore F} (hs : s.OneType) (k : Bytes) (fields : Map Bytes) :
    (s.hSet k fields).2.OneType ↔ ∀ t, s.Holds t k → t=.string ∨ t=.hash := by
  let cleared : MemoryStore F := { s with strings := s.strings.erase k }
  have hcleared : ∀ t k', cleared.Holds t k' ↔ s.Holds t k' ∧ ¬(t=.string ∧ k=k') := by
    intro t k'
    cases t <;> simp [cleared,Holds,Std.ExtTreeMap.mem_erase,and_comm]
  have hputs : Puts cleared.toMaps (s.hSet k fields).2.toMaps .hash k := by
    refine ⟨by simp [hSet,Holds,bumpVersion],fun t' k' h => ?_,fun t' hne h => ?_⟩
    · cases t' <;> simp_all [hSet,Holds,bumpVersion,cleared]
    · cases t' <;> simp_all [hSet,Holds,bumpVersion,cleared]
  rw [(hs.shrink fun t k' h => ((hcleared t k').mp h).1).puts_iff hputs]
  constructor
  · intro h t ht
    by_cases hstr : t=.string
    · exact .inl hstr
    · exact .inr (h t ((hcleared t k).mpr ⟨ht,fun hc => hstr hc.1⟩))
  · intro h t ht
    obtain ⟨ht,hne⟩ := (hcleared t k).mp ht
    exact (h t ht).resolve_left fun hc => hne ⟨hc,rfl⟩

theorem oneType_guarded_iff {α : Type} {s s' : MemoryStore F} (hs : s.OneType) (g : Bool) (a : α)
    (e : StoreError) {t : KeyType} {k : Bytes} (h : Puts s.toMaps s'.toMaps t k) :
    (dropError s (if g then .ok (a,s') else .error e)).OneType ↔
      (g → ∀ t', s.Holds t' k → t'=t) := by
  cases g with
  | false => simpa [dropError] using hs
  | true => simpa [dropError] using hs.puts_iff h

theorem oneType_lPush_iff {s : MemoryStore F} (hs : s.OneType) (now : Int) (k : Bytes)
    (vs : List Bytes) : (dropError s (s.lPush now k vs)).OneType ↔
      (s.listGuard now k → ∀ t, s.Holds t k → t=.list) :=
  oneType_guarded_iff hs _ _ _ (puts_putList s k _)

theorem oneType_rPush_iff {s : MemoryStore F} (hs : s.OneType) (now : Int) (k : Bytes)
    (vs : List Bytes) : (dropError s (s.rPush now k vs)).OneType ↔
      (s.listGuard now k → ∀ t, s.Holds t k → t=.list) :=
  oneType_guarded_iff hs _ _ _ (puts_putList s k _)

theorem oneType_sAdd_iff {s : MemoryStore F} (hs : s.OneType) (now : Int) (k : Bytes)
    (xs : List Bytes) : (dropError s (s.sAdd now k xs)).OneType ↔
      (s.setGuard now k → ∀ t, s.Holds t k → t=.set) :=
  oneType_guarded_iff hs _ _ _ (puts_putSet s k _)

theorem oneType_zAdd_iff [Float64 F] {s : MemoryStore F} (hs : s.OneType) (now : Int) (k : Bytes)
    (ms : List (ZMember F)) (fl : ZAddFlags) : (dropError s (s.zAdd now k ms fl)).OneType ↔
      (s.zsetGuard now k → ∀ t, s.Holds t k → t=.zset) :=
  oneType_guarded_iff hs _ _ _ (puts_putZSet s k _)

theorem oneType_zIncrBy_iff [Float64 F] {s : MemoryStore F} (hs : s.OneType) (now : Int)
    (k : Bytes) (incr : F) (x : Bytes) : (dropError s (s.zIncrBy now k incr x)).OneType ↔
      (s.zsetGuard now k → ∀ t, s.Holds t k → t=.zset) :=
  oneType_guarded_iff hs _ _ _ (puts_putZSet s k _)

theorem keepList_other (s : MemoryStore F) (src : Bytes) (l : List Bytes) (t : KeyType)
    (ht : t ≠ .list) (k : Bytes) : (s.keepList src l).Holds t k ↔ s.Holds t k := by
  unfold keepList
  split <;> cases t <;> simp_all [Holds,dropList,putList]

theorem keepSet_other (s : MemoryStore F) (src : Bytes) (st : KeySet) (t : KeyType)
    (ht : t ≠ .set) (k : Bytes) : (s.keepSet src st).Holds t k ↔ s.Holds t k := by
  unfold keepSet
  split <;> cases t <;> simp_all [Holds,dropSet,putSet]

theorem oneType_lMove_iff {s : MemoryStore F} (hs : s.OneType) (now : Int) (src dst : Bytes)
    (a b : Bool) : (dropError s (s.lMove now src dst a b)).OneType ↔
      (s.listGuard now src → s.listGuard now dst → s.lists.getD src [] ≠ [] →
        ∀ t, s.Holds t dst → t=.list) := by
  unfold lMove
  split
  · simp [dropError, *]
  · split
    · simp [dropError, *]
    · dsimp only
      split
      · simp [dropError, *]
      · rename_i h₁ h₂ hne
        have hsrc : s.Holds .list src := by
          change src ∈ s.lists
          by_contra hmem
          exact hne (Std.ExtTreeMap.getD_eq_fallback hmem)
        let kept := s.keepList src (takeEnd a (s.lists.getD src [])).2
        have hkept : kept.OneType := hs.shrink (shrinks_keepList hsrc _)
        have hput := hkept.puts_iff (puts_putList kept dst
          (if b then (takeEnd a (s.lists.getD src [])).1::kept.lists.getD dst []
            else kept.lists.getD dst []++[(takeEnd a (s.lists.getD src [])).1]))
        refine Iff.trans hput ?_
        simp only [Bool.not_eq_true,Bool.not_eq_false] at h₁ h₂
        constructor
        · intro h _ _ _ t ht
          by_contra hc
          exact hc (h t ((keepList_other s src _ t hc dst).mpr ht))
        · intro h t ht
          by_contra hc
          exact hc (h h₁ h₂ hne t ((keepList_other s src _ t hc dst).mp ht))

theorem oneType_sMove_iff {s : MemoryStore F} (hs : s.OneType) (now : Int) (src dst x : Bytes) :
    (dropError s (s.sMove now src dst x)).OneType ↔
      (s.setGuard now src → s.setGuard now dst → (∃ st, s.sets[src]?=some st ∧ x ∈ st) →
        ∀ t, s.Holds t dst → t=.set) := by
  unfold sMove
  split
  · simp [dropError, *]
  · split
    · simp [dropError, *]
    · rename_i h₁ h₂
      simp only [Bool.not_eq_true,Bool.not_eq_false] at h₁ h₂
      split
      · simp [dropError, *]
      · rename_i st hst
        split
        · simp [dropError, *]
        · rename_i hx
          have hsrc : s.Holds .set src := by
            change src ∈ s.sets
            rw [Std.ExtTreeMap.mem_iff_isSome_getElem?,hst]
            rfl
          let kept := s.keepSet src (st.erase x)
          have hkept : kept.OneType := hs.shrink (shrinks_keepSet hsrc _)
          refine Iff.trans (hkept.puts_iff
            (puts_putSet kept dst ((kept.sets.getD dst ∅).insert x))) ?_
          constructor
          · intro h _ _ _ t ht
            by_contra hc
            exact hc (h t ((keepSet_other s src _ t hc dst).mpr ht))
          · intro h t ht
            by_contra hc
            exact hc (h h₁ h₂ ⟨st,hst,not_not.mp hx⟩ t ((keepSet_other s src _ t hc dst).mp ht))

end MemoryStore

theorem oneType_new : (MemoryStore.new : MemoryStore F).OneType := by
  intro k t t' h
  cases t <;> simp [Maps.Holds,MemoryStore.new,Maps.empty] at h

/-- What a step has to meet to keep every key in one map: `HSet` must not hit a list, set or
sorted set, and an operation that adds to a list, set or sorted set must not hit a key of
another type, be it one whose deadline has passed. -/
def StoreOp.Meets (w : World) (s : MemoryStore F) : StoreOp F → Prop
  | .hSet k _ => ∀ t, s.Holds t k → t=.string ∨ t=.hash
  | .lPush k _ _ | .rPush k _ _ => s.listGuard w.now k → ∀ t, s.Holds t k → t=.list
  | .lMove src dst _ _ => s.listGuard w.now src → s.listGuard w.now dst →
      s.lists.getD src [] ≠ [] → ∀ t, s.Holds t dst → t=.list
  | .sAdd k _ => s.setGuard w.now k → ∀ t, s.Holds t k → t=.set
  | .sMove src dst x => s.setGuard w.now src → s.setGuard w.now dst →
      (∃ st, s.sets[src]?=some st ∧ x ∈ st) → ∀ t, s.Holds t dst → t=.set
  | .zAdd k _ _ | .zIncrBy k _ _ => s.zsetGuard w.now k → ∀ t, s.Holds t k → t=.zset
  | _ => True

theorem dropResult_oneType {α : Type} {s s' : MemoryStore F} (hs : s.OneType)
    {r : Go (Except StoreError (α × MemoryStore F))}
    (hr : ∀ r', r=.ok r' → Maps.Shrinks s.toMaps (dropError s r').toMaps)
    (h : StoreOp.dropResult s r=.ok s') : s'.OneType := by
  cases r with
  | error p => cases h
  | ok r' =>
    cases h
    exact hs.shrink (hr r' rfl)

section Machine
variable [Float64 F]

theorem StoreOp.step_oneType_iff (op : World × StoreOp F) (s : MemoryStore F) (hs : s.OneType) :
    (∀ s', StoreOp.step op s=.ok s' → s'.OneType) ↔ op.2.Meets op.1 s := by
  obtain ⟨w,op⟩ := op
  -- a step that succeeds and keeps the invariant under no condition
  have hkeep : ∀ {u : MemoryStore F}, u.OneType → ((∀ s', (.ok u : Go (MemoryStore F))=.ok s' →
      s'.OneType) ↔ True) := fun hu =>
    ⟨fun _ => trivial,fun _ s' h => by cases h; exact hu⟩
  have hcond : ∀ {u : MemoryStore F} {P : Prop}, (u.OneType ↔ P) →
      ((∀ s', (.ok u : Go (MemoryStore F))=.ok s' → s'.OneType) ↔ P) := fun hu =>
    ⟨fun h => hu.mp (h _ rfl),fun hp s' h => by cases h; exact hu.mpr hp⟩
  cases op with
  | read => exact hkeep hs
  | deleteExpired => exact hkeep (hs.shrink (s.shrinks_deleteExpired w.now))
  | set k v => exact hkeep (MemoryStore.oneType_set hs k v)
  | setWithTTL k v ttl => exact hkeep (MemoryStore.oneType_setWithTTL hs w.now k v ttl)
  | setAdv k v ttl opts => exact hkeep (MemoryStore.oneType_setAdv hs w.now k v ttl opts)
  | getEx k ttl p h => exact hkeep (hs.shrink (s.shrinks_getEx w.now k ttl p h))
  | del ks => exact hkeep (hs.shrink (s.shrinks_del w.now ks))
  | flush => exact hkeep oneType_new
  | expire k ttl => exact hkeep (hs.shrink (s.shrinks_expire w.now k ttl))
  | persist k => exact hkeep (hs.shrink (s.shrinks_persist w.now k))
  | rename src dst =>
    refine ⟨fun _ => trivial,fun _ s' h => ?_⟩
    simp only [StoreOp.step,StoreOp.apply] at h
    split at h
    · cases h
    · cases h
      exact MemoryStore.oneType_rename hs ‹_›
  | hSet k fields => exact hcond (MemoryStore.oneType_hSet_iff hs k fields)
  | hDel k fields => exact hkeep (hs.shrink (s.shrinks_hDel w.now k fields))
  | lPush k v vs => exact hcond (MemoryStore.oneType_lPush_iff hs w.now k (v::vs))
  | rPush k v vs => exact hcond (MemoryStore.oneType_rPush_iff hs w.now k (v::vs))
  | lPop k n => exact ⟨fun _ => trivial,fun _ s' h =>
      dropResult_oneType hs (fun _ => MemoryStore.shrinks_popList) h⟩
  | rPop k n => exact ⟨fun _ => trivial,fun _ s' h =>
      dropResult_oneType hs (fun _ => MemoryStore.shrinks_popList) h⟩
  | lSet k i v => exact hkeep (hs.shrink (s.shrinks_lSet w.now k i v))
  | lInsert k before pivot v => exact hkeep (hs.shrink (s.shrinks_lInsert w.now k before pivot v))
  | lRem k n v => exact hkeep (hs.shrink (s.shrinks_lRem w.now k n v))
  | lTrim k a b => exact hkeep (hs.shrink (s.shrinks_lTrim w.now k a b))
  | lMove src dst a b => exact hcond (MemoryStore.oneType_lMove_iff hs w.now src dst a b)
  | sAdd k xs => exact hcond (MemoryStore.oneType_sAdd_iff hs w.now k xs)
  | sRem k xs => exact hkeep (hs.shrink (s.shrinks_sRem w.now k xs))
  | sInterStore dst ks => exact hkeep (MemoryStore.oneType_storeMembers hs dst _)
  | sUnionStore dst ks => exact hkeep (MemoryStore.oneType_storeMembers hs dst _)
  | sDiffStore dst ks => exact hkeep (MemoryStore.oneType_storeMembers hs dst _)
  | sPop k n => exact ⟨fun _ => trivial,fun _ s' h =>
      dropResult_oneType hs (fun _ => MemoryStore.shrinks_sPop) h⟩
  | sMove src dst x => exact hcond (MemoryStore.oneType_sMove_iff hs w.now src dst x)
  | zAdd k ms fl => exact hcond (MemoryStore.oneType_zAdd_iff hs w.now k ms fl)
  | zRem k xs => exact hkeep (hs.shrink (s.shrinks_zRem w.now k xs))
  | zIncrBy k incr x => exact hcond (MemoryStore.oneType_zIncrBy_iff hs w.now k incr x)
  | zPopMin k n => exact ⟨fun _ => trivial,fun _ s' h =>
      dropResult_oneType hs (fun _ => MemoryStore.shrinks_popZSet) h⟩
  | zPopMax k n => exact ⟨fun _ => trivial,fun _ s' h =>
      dropResult_oneType hs (fun _ => MemoryStore.shrinks_popZSet) h⟩
  | zUnionStore dst ks ws agg => exact hkeep (MemoryStore.oneType_storeScores hs dst _)
  | zInterStore dst ks ws agg =>
    exact hkeep (MemoryStore.oneType_zInterStore hs w.now dst ks ws agg)

/-- Every state that a sequence of operations and sweeps goes through has one type per key
exactly when every step meets its condition. The instants are arbitrary. -/
theorem oneType_run_iff (ops : List (World × StoreOp F)) :
    (∀ pre s, pre <+: ops → Machine.run StoreOp.step pre .new=.ok s → s.OneType) ↔
      Machine.Along StoreOp.step (fun op s => op.2.Meets op.1 s) ops .new :=
  Machine.states_iff_along StoreOp.step_oneType_iff ops .new oneType_new

end Machine

/-- `LPUSH k a`, then `HSET k f v` at the same instant: the key is a list and a hash. -/
theorem oneType_lost_by_hSet :
    ∃ s, Machine.run StoreOp.step [(.plain 0,.lPush [107] [97] []),
        (.plain 0,(.hSet [107] ((∅ : Map Bytes).insert [102] [118]) : StoreOp Int))] .new=.ok s ∧
      ([107] : Bytes) ∈ s.lists ∧ ([107] : Bytes) ∈ s.hashes :=
  ⟨_,rfl,by decide,by decide⟩

end GoRedis
