import GoRedis.Commands.Ranks
import GoRedis.Persistence.Reachable
import GoRedis.Storage.ListRanges
/-!
# `LRANGE`, `LINDEX`, `LLEN`, `LSET`, `LTRIM` and `LREM`
-/
namespace GoRedis
variable {F : Type} [Float64 F] {w : World} {s : MemoryStore F} {key name a b : Bytes}
  {ol : Option (List Bytes)} {start stop i : Int}

theorem answers_lrange_eq (hc : commandOf [name,key,a,b]=some (.read .lrange))
    (ha : parseInt a=some start) (hb : parseInt b=some stop)
    (hl : s.getList w.now key=.ok ol) :
    Answers w [name,key,a,b] s (.bulks (Slices.range start stop (ol.getD []))) := by
  have h := answers_lrange (w := w) (s := s) hc ha hb
  rwa [Maps.lRange_eq hl] at h

theorem answers_lindex {v : Option Bytes} (hc : commandOf [name,key,a]=some (.read .lindex))
    (ha : parseInt a=some i) (hv : s.lIndex w.now key i=.ok v) :
    Answers w [name,key,a] s (optReply v) := by
  rw [Answers,dispatch_read hc]
  simp only [answer,handleLIndex,ha,hv]
  rfl

theorem answers_llen (hc : commandOf [name,key]=some (.read .llen))
    (hl : s.getList w.now key=.ok ol) : Answers w [name,key] s (.integer (ol.getD []).length) := by
  rw [Answers,dispatch_read hc]
  simp only [answer,handleLLen,Maps.lLen,hl]
  rfl

theorem dispatch_ltrim {s' : MemoryStore F} (hc : commandOf [name,key,a,b]=some (.write .ltrim))
    (ha : parseInt a=some start) (hb : parseInt b=some stop)
    (h : s.lTrim w.now key start stop=.ok s') :
    ∃ d, dispatch w [name,key,a,b] s=.ok d ∧ d.resp=okReply ∧ d.store=s' := by
  rw [dispatch_write hc]
  simp only [execute,handleLTrim,ha,hb,h]
  exact ⟨_,rfl,rfl,rfl⟩

theorem lSet_of_dispatch {v : Bytes} {d : Dispatched F}
    (hc : commandOf [name,key,a,v]=some (.write .lset)) (ha : parseInt a=some i)
    (hd : dispatch w [name,key,a,v] s=.ok d) (hok : d.resp=okReply) :
    s.lSet w.now key i v=.ok d.store := by
  rw [dispatch_write hc] at hd
  simp only [execute,handleLSet,ha] at hd
  cases h : s.lSet w.now key i v with
  | error e =>
    rw [h] at hd
    cases hd
    cases hok
  | ok s' =>
    rw [h] at hd
    cases hd
    rfl

omit [Float64 F] in
theorem getD_of_getList (hl : s.getList w.now key=.ok ol)
    (ht : s.typeOf w.now key=some .list) : s.lists.getD key []=ol.getD [] := by
  rw [Maps.getList,ht] at hl
  cases hl
  exact Std.ExtTreeMap.getD_eq_getD_getElem?

section Trim
variable {name' a' b' : Bytes}

theorem answers_lrange_all (hc : commandOf [name,key,a,b]=some (.read .lrange))
    (ha : parseInt a=some 0) (hb : parseInt b=some (-1)) (hl : s.getList w.now key=.ok ol) :
    Answers w [name,key,a,b] s (.bulks (ol.getD [])) := by
  have h := answers_lrange_eq hc ha hb hl
  rwa [Slices.range_all] at h

theorem emptied_list_iff (ht : s.typeOf w.now key=some .list)
    (hc : commandOf [name,key,a,b]=some (.read .lrange)) (ha : parseInt a=some 0)
    (hb : parseInt b=some (-1)) :
    Answers w [name,key,a,b] ((s.dropList key).bumpVersion key) (.bulks []) ∧
      ((s.dropList key).bumpVersion key).typeOf w.now key=none ↔
    key ∉ s.sets ∧ key ∉ s.zsets := by
  have htype := MemoryStore.typeOf_dropList ht
  constructor
  · intro h
    have hgone := h.2
    rw [htype] at hgone
    split_ifs at hgone with hset hzset
    exact ⟨hset,hzset⟩
  · intro h
    rw [if_neg h.1,if_neg h.2] at htype
    have hget : ((s.dropList key).bumpVersion key).getList w.now key=.ok none := by
      rw [Maps.getList,htype]
    exact ⟨answers_lrange_all hc ha hb hget,htype⟩

/-- What `LTRIM` leaves is what `LRANGE` has shown, and the key is gone when that is empty, exactly
when the range has an element, there is no list, or the list hides no other collection. -/
theorem ltrim_iff (hl : s.getList w.now key=.ok ol)
    (hc : commandOf [name,key,a,b]=some (.write .ltrim))
    (hc' : commandOf [name',key,a',b']=some (.read .lrange)) (ha : parseInt a=some start)
    (hb : parseInt b=some stop) (ha' : parseInt a'=some 0) (hb' : parseInt b'=some (-1)) :
    (∃ d, dispatch w [name,key,a,b] s=.ok d ∧ d.resp=okReply ∧
      Answers w [name',key,a',b'] d.store (.bulks (Slices.range start stop (ol.getD []))) ∧
      (d.store.typeOf w.now key=none ↔ Slices.range start stop (ol.getD [])=[])) ↔
    Slices.first start (ol.getD []).length ≤ Slices.last stop (ol.getD []).length ∨
      s.typeOf w.now key=none ∨ key ∉ s.sets ∧ key ∉ s.zsets := by
  rcases ht : s.typeOf w.now key with _ | t
  · -- no list: nothing happens
    have hnone : ol=none := by
      rw [Maps.getList,ht] at hl
      cases hl
      rfl
    subst hnone
    have htrim : s.lTrim w.now key start stop=.ok s := by rw [MemoryStore.lTrim,ht]
    obtain ⟨d,hd,hresp,hstore⟩ := dispatch_ltrim hc ha hb htrim
    refine iff_of_true ⟨d,hd,hresp,?_,?_⟩ (.inr (.inl rfl))
    · rw [hstore]
      exact answers_lrange_all hc' ha' hb' hl
    · rw [hstore,ht]
      exact iff_of_true rfl rfl
  · have hlist : t=.list := by
      by_contra hne
      rw [Maps.getList_wrongType ht hne] at hl
      cases hl
    subst hlist
    have hkeep := MemoryStore.lTrim_eq ht start stop
    rw [getD_of_getList hl ht,MemoryStore.keepList] at hkeep
    obtain ⟨d,hd,hresp,hstore⟩ := dispatch_ltrim hc ha hb hkeep
    simp only [hd,Except.ok.injEq,exists_eq_left',hresp,true_and,reduceCtorEq,false_or]
    by_cases hempty : Slices.range start stop (ol.getD [])=[]
    · rw [if_pos hempty] at hstore
      rw [hstore,hempty,or_iff_right (not_le.mpr (Slices.range_eq_nil_iff.mp hempty)),
        iff_true_right rfl]
      exact emptied_list_iff ht hc' ha' hb'
    · rw [if_neg hempty] at hstore
      have hget := MemoryStore.getList_putList ht (Slices.range start stop (ol.getD []))
      rw [← hstore] at hget
      have hsome : d.store.typeOf w.now key ≠ none := by
        intro hnone
        rw [Maps.getList,hnone] at hget
        cases hget
      have hle := not_lt.mp fun h => hempty (Slices.range_eq_nil_iff.mpr h)
      have hall := answers_lrange_all hc' ha' hb' hget
      exact iff_of_true ⟨hall,iff_of_false hsome hempty⟩ (.inl hle)

end Trim

/-- The index operations of a list agree; `LTRIM` does so under the condition of what it may
uncover. -/
theorem list_ranges_iff (w : World) (s : MemoryStore F) (key : Bytes) (ol : Option (List Bytes))
    (hl : s.getList w.now key=.ok ol) :
    (∀ name a b start stop, commandOf [name,key,a,b]=some (.read .lrange) →
      parseInt a=some start → parseInt b=some stop →
      Answers w [name,key,a,b] s (.bulks (Slices.range start stop (ol.getD []))) ∧
      (InInt64 (ol.getD []).length →
        (start < 0 → InInt64 ((ol.getD []).length+start)) ∧
        (stop < 0 → InInt64 ((ol.getD []).length+stop)) ∧ InInt64 ((ol.getD []).length-1) ∧
        0 ≤ (clampRange start stop (ol.getD []).length).1 ∧
        (clampRange start stop (ol.getD []).length).2 < (ol.getD []).length)) ∧
    (∀ name name' c i, commandOf [name,key,c]=some (.read .lindex) →
      commandOf [name',key,c,c]=some (.read .lrange) → parseInt c=some i →
      (∀ x, Answers w [name,key,c] s (.bulkString x) ↔
        Answers w [name',key,c,c] s (.bulks [x])) ∧
      (Answers w [name,key,c] s .nullBulkString ↔ Answers w [name',key,c,c] s (.bulks []))) ∧
    (∀ name name' a b, commandOf [name,key]=some (.read .llen) →
      commandOf [name',key,a,b]=some (.read .lrange) → parseInt a=some 0 →
      parseInt b=some (-1) →
      ∃ xs, Answers w [name',key,a,b] s (.bulks xs) ∧
        Answers w [name,key] s (.integer xs.length)) ∧
    (∀ name c v i d, commandOf [name,key,c,v]=some (.write .lset) → parseInt c=some i →
      dispatch w [name,key,c,v] s=.ok d → d.resp=okReply →
      ∃ p : Nat, Slices.position i (ol.getD []).length=p ∧ p < (ol.getD []).length ∧
        d.store.getList w.now key=.ok (some ((ol.getD []).set p v)) ∧
        ∀ k, k ≠ key → d.store.slot k=s.slot k) ∧
    ∀ name name' a b a' b' start stop, commandOf [name,key,a,b]=some (.write .ltrim) →
      commandOf [name',key,a',b']=some (.read .lrange) → parseInt a=some start →
      parseInt b=some stop → parseInt a'=some 0 → parseInt b'=some (-1) →
      ((∃ d, dispatch w [name,key,a,b] s=.ok d ∧ d.resp=okReply ∧
        Answers w [name',key,a',b'] d.store (.bulks (Slices.range start stop (ol.getD []))) ∧
        (d.store.typeOf w.now key=none ↔ Slices.range start stop (ol.getD [])=[])) ↔
      Slices.first start (ol.getD []).length ≤ Slices.last stop (ol.getD []).length ∨
        s.typeOf w.now key=none ∨ key ∉ s.sets ∧ key ∉ s.zsets) := by
  refine ⟨?_,?_,?_,?_,?_⟩
  · intro name a b start stop hc ha hb
    exact ⟨answers_lrange_eq hc ha hb hl,
      clampRange_bounds (parseInt_inInt64 ha) (parseInt_inInt64 hb)⟩
  · intro name name' c i hc hc' hi
    obtain ⟨v,hv,hrange⟩ := Maps.lIndex_eq hl i
    have hindex := answers_lindex hc hi hv
    have hself := answers_lrange_eq hc' hi hi hl
    rw [hrange] at hself
    simp only [hindex.iff_eq,hself.bulks_iff]
    cases v <;> simp [optReply]
  · intro name name' a b hc hc' ha hb
    exact ⟨_,answers_lrange_all hc' ha hb hl,answers_llen hc hl⟩
  · intro name c v i d hc hi hd hok
    obtain ⟨ht,hpos,hlt,hstore⟩ := MemoryStore.lSet_ok (lSet_of_dispatch hc hi hd hok)
    rw [getD_of_getList hl ht] at hpos hlt hstore
    refine ⟨(Slices.position i (ol.getD []).length).toNat,by omega,by omega,?_,?_⟩
    · rw [hstore]
      exact MemoryStore.getList_putList ht _
    · intro k hk
      rw [hstore,MemoryStore.slot_bumped (MemoryStore.slot_putList s key _),
        Function.update_of_ne hk]
  · intro name name' a b a' b' start stop hc hc' ha hb ha' hb'
    exact ltrim_iff hl hc hc' ha hb ha' hb'

/-- Trimmed to its last two elements, a list of three keeps them. -/
theorem list_ranges_tail :
    let s : MemoryStore Int := MemoryStore.new.putList (utf8 "l") [utf8 "a",utf8 "b",utf8 "c"]
    ∃ d, dispatch (World.plain 0) [utf8 "LTRIM",utf8 "l",utf8 "-2",utf8 "9"] s=.ok d ∧
      Answers (World.plain 0) [utf8 "LRANGE",utf8 "l",utf8 "0",utf8 "-1"] d.store
        (.bulks [utf8 "b",utf8 "c"]) := by
  intro s
  obtain ⟨d,hd,_,hrange,_⟩ := ((list_ranges_iff (World.plain 0) s (utf8 "l")
    (some [utf8 "a",utf8 "b",utf8 "c"]) (by decide)).2.2.2.2 (utf8 "LTRIM") (utf8 "LRANGE")
    (utf8 "-2") (utf8 "9") (utf8 "0") (utf8 "-1") (-2) 9 (by decide) (by decide) (by decide)
    (by decide) (by decide) (by decide)).mpr (.inl (by decide))
  exact ⟨d,hd,hrange.bulks_iff.mpr (by decide)⟩

/-- A list that outlived its deadline is seen again beside a sorted set, when the last member of a
set under the same key is moved away; trimmed to nothing it uncovers the sorted set. -/
theorem list_ranges_uncovered :
    ∃ (s : MemoryStore Int) (d : Dispatched Int), Reachable s ∧
      s.getList 2000000 (utf8 "k")=.ok (some [utf8 "a"]) ∧
      dispatch (World.plain 2000000) [utf8 "LTRIM",utf8 "k",utf8 "1",utf8 "0"] s=.ok d ∧
      d.resp=okReply ∧ d.store.typeOf 2000000 (utf8 "k")=some .zset ∧
      Answers (World.plain 2000000) [utf8 "LRANGE",utf8 "k",utf8 "0",utf8 "-1"] d.store
        (.error StoreError.wrongType.text) := by
  have hpush : Reachable (F := Int) _ :=
    .dispatch (World.plain 0) [utf8 "RPUSH",utf8 "k",utf8 "a"] .new rfl
  have hexpire : Reachable (F := Int) _ :=
    .dispatch (World.plain 0) [utf8 "PEXPIRE",utf8 "k",utf8 "1"] hpush rfl
  have hset : Reachable (F := Int) _ :=
    .dispatch (World.plain 2000000) [utf8 "SADD",utf8 "k",utf8 "x"] hexpire rfl
  have hzset : Reachable (F := Int) _ :=
    .dispatch (World.plain 2000000) [utf8 "ZADD",utf8 "k",utf8 "1",utf8 "m"] hset rfl
  have hmove : Reachable (F := Int) _ :=
    .dispatch (World.plain 2000000) [utf8 "SMOVE",utf8 "k",utf8 "d",utf8 "x"] hzset rfl
  exact ⟨_,_,hmove,rfl,rfl,rfl,rfl,rfl⟩

/-- The request replies with a number, leaves a list under `key` and touches no other key. -/
def LeavesList (w : World) (args : List Bytes) (s : MemoryStore F) (key : Bytes)
    (r : Nat × List Bytes) : Prop :=
  ∃ d, dispatch w args s=.ok d ∧ d.resp=.integer r.1 ∧ d.store.lists.getD key []=r.2 ∧
    ∀ k, k ≠ key → d.store.slot k=s.slot k

theorem LeavesList.iff_eq {args : List Bytes} {r r' : Nat × List Bytes}
    (h : LeavesList w args s key r) : LeavesList w args s key r' ↔ r=r' := by
  constructor
  · rintro ⟨d',hd',hresp',hlist',_⟩
    obtain ⟨d,hd,hresp,hlist,_⟩ := h
    rw [hd] at hd'
    cases hd'
    have hnum : r.1=r'.1 := by
      have hint := Response.integer.inj (hresp.symm.trans hresp')
      omega
    exact Prod.ext hnum (hlist.symm.trans hlist')
  · rintro rfl
    exact h

omit [Float64 F] in
theorem getD_keepList (s : MemoryStore F) (key : Bytes) (l : List Bytes) :
    ((s.keepList key l).bumpVersion key).lists.getD key []=l := by
  unfold MemoryStore.keepList
  split_ifs with hnil
  · simp [MemoryStore.dropList,hnil]
  · simp [MemoryStore.putList]

theorem leavesList_lrem {n v : Bytes} {c : Int} {l : List Bytes}
    (hc : commandOf [name,key,n,v]=some (.write .lrem)) (hn : parseInt n=some c)
    (ht : s.typeOf w.now key=some .list) (hl : s.lists[key]?=some l) :
    LeavesList w [name,key,n,v] s key (lRemSplit l c v) := by
  have hget : s.getList w.now key=.ok (some l) := by rw [Maps.getList,ht,hl]
  rw [LeavesList,dispatch_write hc]
  simp only [execute,handleLRem,hn,MemoryStore.lRem,hget]
  by_cases hnone : (lRemSplit l c v).1=0
  · rw [if_pos hnone]
    refine ⟨_,rfl,?_,?_,fun k _ => rfl⟩
    · rw [hnone]
      rfl
    · rw [lRemSplit_none (parseInt_inInt64 hn) hnone]
      exact getD_of_getList hget ht
  · rw [if_neg hnone]
    exact ⟨_,rfl,rfl,getD_keepList s key _,fun k hk => MemoryStore.slot_keepList_of_ne hk _⟩

/-- `LREM` takes out the occurrences that are asked for, exactly when the count is not the least
`int64` or there is nothing to take out; from the other end of the reversed list it does the
same. -/
theorem lrem_occurrences_iff (w : World) (s : MemoryStore F) (key : Bytes) (l : List Bytes)
    (ht : s.typeOf w.now key=some .list) (hl : s.lists[key]?=some l) :
    (∀ name n v c, commandOf [name,key,n,v]=some (.write .lrem) → parseInt n=some c →
      (LeavesList w [name,key,n,v] s key (withoutOccurrences c v l) ↔ c ≠ -2^63 ∨ v ∉ l)) ∧
    ∀ (w' : World) (s' : MemoryStore F) key' name name' n n' v c r,
      commandOf [name,key,n,v]=some (.write .lrem) →
      commandOf [name',key',n',v]=some (.write .lrem) → parseInt n=some (-c) →
      parseInt n'=some c → s'.typeOf w'.now key'=some .list →
      s'.lists[key']?=some l.reverse →
      LeavesList w' [name',key',n',v] s' key' r →
      LeavesList w [name,key,n,v] s key (r.1,r.2.reverse) := by
  constructor
  · intro name n v c hc hn
    rw [(leavesList_lrem hc hn ht hl).iff_eq,lRemSplit_eq_iff (parseInt_inInt64 hn)]
  · intro w' s' key' name name' n n' v c r hc hc' hn hn' ht' hl' hr
    have hin := parseInt_inInt64 hn
    have hin' := parseInt_inInt64 hn'
    have hleast : c ≠ -2^63 ∧ -c ≠ -2^63 := by
      unfold InInt64 at hin hin'
      omega
    rw [(leavesList_lrem hc' hn' ht' hl').iff_eq,lRemSplit_eq hin' hleast.1] at hr
    rw [(leavesList_lrem hc hn ht hl).iff_eq,lRemSplit_eq hin hleast.2,
      withoutOccurrences_reverse,hr]

/-- The last of two occurrences. -/
theorem lrem_occurrences_last :
    LeavesList (F := Int) (World.plain 0) [utf8 "LREM",utf8 "l",utf8 "-1",utf8 "a"]
      (MemoryStore.new.putList (utf8 "l") [utf8 "a",utf8 "b",utf8 "a"]) (utf8 "l")
      (1,[utf8 "a",utf8 "b"]) := by
  have hlast := ((lrem_occurrences_iff (World.plain 0) (MemoryStore.new.putList (F := Int)
    (utf8 "l") [utf8 "a",utf8 "b",utf8 "a"]) (utf8 "l") [utf8 "a",utf8 "b",utf8 "a"] (by decide)
    (by decide)).1 (utf8 "LREM") (utf8 "-1") (utf8 "a") (-1) (by decide) (by decide)).mpr
    (.inl (by decide))
  have hspec : withoutOccurrences (-1) (utf8 "a") [utf8 "a",utf8 "b",utf8 "a"]=
      (1,[utf8 "a",utf8 "b"]) := by decide
  rwa [hspec] at hlast

/-- The least count removes nothing of two occurrences. -/
theorem lrem_occurrences_least :
    ∃ s : MemoryStore Int, Reachable s ∧ s.getList 0 (utf8 "l")=.ok (some [utf8 "a",utf8 "a"]) ∧
      LeavesList (World.plain 0) [utf8 "LREM",utf8 "l",utf8 "-9223372036854775808",utf8 "a"] s
        (utf8 "l") (0,[utf8 "a",utf8 "a"]) ∧
      withoutOccurrences (-9223372036854775808) (utf8 "a") [utf8 "a",utf8 "a"]=(2,[]) := by
  refine ⟨_,.dispatch (World.plain 0) [utf8 "RPUSH",utf8 "l",utf8 "a",utf8 "a"] .new rfl,rfl,
    ⟨_,rfl,rfl,rfl,fun k _ => rfl⟩,by decide⟩

end GoRedis
