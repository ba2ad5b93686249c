import GoRedis.Commands.ListRanges
import GoRedis.Lib.Journal
import GoRedis.Storage.Pops
/-!
# `LPOP`, `RPOP`, `SPOP`, `ZPOPMIN` and `ZPOPMAX`

What one of them replies and what it leaves are the collection it has found. A pop of several
elements is compared with as many pops of one.
-/
namespace GoRedis
variable {F : Type} [Float64 F] {w : World} {s : MemoryStore F} {args : List Bytes} {key : Bytes}
  {count : Int} {withCount : Bool}
open MemoryStore

/-- `LPOP` or `RPOP`. -/
def listPop (left : Bool) : WriteCommand := if left then .lpop else .rpop

/-- `ZPOPMAX` or `ZPOPMIN`. -/
def zsetPop (max : Bool) : WriteCommand := if max then .zpopmax else .zpopmin

/-- How a list is cut by `LPOP` or `RPOP`. -/
def cutAt (left : Bool) : Nat → List Bytes → List Bytes × List Bytes :=
  if left then cutHead else cutTail

/-- The order in which `ZPOPMAX` or `ZPOPMIN` takes the members. -/
def popOrder (max : Bool) (z : Map F) : List (ZMember F) :=
  if max then (sortedMembers z).reverse else sortedMembers z

section Requests
variable {l : List Bytes} {st : KeySet} {z : Map F}

theorem dispatch_listPop {left : Bool} (hc : commandOf args=some (.write (listPop left)))
    (hargs : PopArgs args key count withCount) (hl : s.getList w.now key=.ok (some l)) :
    ∃ d, dispatch w args s=.ok d ∧
      d.resp=popReply withCount (some (cutAt left (min count.toNat l.length) l).1) ∧
      Kept s d.store key (.list (cutAt left (min count.toNat l.length) l).2) := by
  have hexec : execute w (listPop left) args s=
      .ok (popReply withCount (some (cutAt left (min count.toNat l.length) l).1),
        (s.keepList key (cutAt left (min count.toNat l.length) l).2).bumpVersion key) := by
    cases left with
    | true =>
      change handlePop "LPOP" (popList cutHead) w args s=_
      rw [handlePop_of_popArgs hargs,popList_eq _ hl hargs.nonneg]
      rfl
    | false =>
      change handlePop "RPOP" (popList cutTail) w args s=_
      rw [handlePop_of_popArgs hargs,popList_eq _ hl hargs.nonneg]
      rfl
  obtain ⟨d,hd,hresp,hstore⟩ := dispatch_of_execute hc hexec
  refine ⟨d,hd,hresp,?_⟩
  rw [hstore]
  exact kept_list s key _

theorem dispatch_spop (hc : commandOf args=some (.write .spop))
    (hargs : PopArgs args key count withCount) (hst : s.getSet w.now key=.ok (some st)) :
    ∃ d popped rest, dispatch w args s=.ok d ∧ d.resp=membersReply withCount popped ∧
      popped.length=min count.toNat st.size ∧ (popped++rest.toList).Perm st.toList ∧
      Kept s d.store key (.set rest) := by
  obtain ⟨popped,rest,hpop,hlen,hperm⟩ := sPop_ok hst hargs.nonneg
  have hexec : execute w .spop args s=
      .ok (membersReply withCount popped,(s.keepSet key rest).bumpVersion key) := by
    change handleSPop w args s=_
    rw [handleSPop_of_popArgs hargs,hpop]
    rfl
  obtain ⟨d,hd,hresp,hstore⟩ := dispatch_of_execute hc hexec
  refine ⟨d,popped,rest,hd,hresp,hlen,hperm,?_⟩
  rw [hstore]
  exact kept_set s key rest

theorem execute_zsetPop (max : Bool) (hargs : PopArgs args key count withCount) (w : World)
    (s : MemoryStore F) :
    execute w (zsetPop max) args s=
      (popZSet (if max then List.reverse else id) s w.now key count).map
        (commit s fun ms => .bulks (withScores true ms)) := by
  cases max with
  | true => exact handleZPop_of_popArgs hargs "ZPOPMAX" _ w s
  | false => exact handleZPop_of_popArgs hargs "ZPOPMIN" _ w s

theorem popOrder_eq (max : Bool) (z : Map F) :
    popOrder max z=(if max then List.reverse else id) (sortedMembers z) := by
  cases max <;> rfl

omit [Float64 F] in
theorem fromEnd_popOrder (max : Bool) :
    FromEnd (F := F) (if max then List.reverse else id) := by
  cases max with
  | true => exact fromEnd_reverse
  | false => exact fromEnd_id

theorem dispatch_zsetPop {max : Bool} (hc : commandOf args=some (.write (zsetPop max)))
    (hargs : PopArgs args key count withCount) (hz : s.getZSet w.now key=.ok (some z))
    (hne : z ≠ ∅) :
    ∃ d, dispatch w args s=.ok d ∧
      d.resp=.bulks (withScores true ((popOrder max z).take count.toNat)) ∧
      Kept s d.store key (.zset (without z ((popOrder max z).take count.toNat))) := by
  have hexec := execute_zsetPop max hargs w s
  rw [popZSet_eq hz hne hargs.nonneg,← popOrder_eq] at hexec
  obtain ⟨d,hd,hresp,hstore⟩ := dispatch_of_execute hc hexec
  refine ⟨d,hd,hresp,?_⟩
  rw [hstore]
  exact kept_zset s key _

theorem dispatch_zsetPop_empty {max : Bool} (hc : commandOf args=some (.write (zsetPop max)))
    (hargs : PopArgs args key count withCount) (hz : s.getZSet w.now key=.ok (some ∅)) :
    ∃ d, dispatch w args s=.ok d ∧ d.resp=.bulks [] ∧ d.store=s := by
  have hexec := execute_zsetPop max hargs w s
  have hpop : popZSet (if max then List.reverse else id) s w.now key count=.ok (.ok ([],s)) := by
    simp only [popZSet,hz]
    rfl
  rw [hpop] at hexec
  exact dispatch_of_execute hc hexec

theorem cutAt_eq_iff (left : Bool) {n : Nat} (hn : n ≤ l.length) (popped rest : List Bytes) :
    (popped.length=n ∧ l=if left then popped++rest else rest++popped) ↔
      cutAt left n l=(popped,rest) := by
  cases left with
  | true =>
    constructor
    · rintro ⟨rfl,rfl⟩
      simp [cutAt,cutHead]
    · intro h
      obtain ⟨rfl,rfl⟩ := Prod.mk.inj h
      simp [hn]
  | false =>
    constructor
    · rintro ⟨rfl,rfl⟩
      simp [cutAt,cutTail]
    · intro h
      obtain ⟨rfl,rfl⟩ := Prod.mk.inj h
      simp
      omega

end Requests

section Conserve
variable {l : List Bytes} {st : KeySet} {z : Map F}

omit [Float64 F] in
theorem cutAt_isEmpty (left : Bool) (hc : 0 ≤ count) :
    (Value.list (cutAt left (min count.toNat l.length) l).2 : Value F).isEmpty=false ↔
      count < l.length := by
  rw [Value.isEmpty,List.isEmpty_eq_false_iff,← List.length_pos_iff]
  cases left with
  | true =>
    simp only [cutAt,cutHead,if_true,List.length_drop]
    omega
  | false =>
    simp only [cutAt,cutTail,Bool.false_eq_true,if_false,List.length_take]
    omega

theorem listPop_conserves_iff {left : Bool} (hc : commandOf args=some (.write (listPop left)))
    (hargs : PopArgs args key count withCount) (hl : s.getList w.now key=.ok (some l)) :
    (∃ d popped rest, dispatch w args s=.ok d ∧ d.resp=popReply withCount (some popped) ∧
      popped.length=min count.toNat l.length ∧
      (l=if left then popped++rest else rest++popped) ∧
      Leaves w.now s d.store key (.list rest)) ↔
    count < l.length ∨ ¬((s.row key).drop .list).Collection := by
  obtain ⟨d,hd,hresp,hkept⟩ := dispatch_listPop hc hargs hl
  have hn : min count.toNat l.length ≤ l.length := min_le_right _ _
  have hiff := hkept.leaves_iff (by simp [Value.type]) (Maps.getList_eq_some_iff.mp hl).1
  rw [cutAt_isEmpty left hargs.nonneg] at hiff
  constructor
  · rintro ⟨d',popped,rest,hd',_,hlen,hjoin,hleaves⟩
    rw [hd] at hd'
    cases hd'
    rw [(cutAt_eq_iff left hn popped rest).mp ⟨hlen,hjoin⟩] at hiff
    exact hiff.mp hleaves
  · intro h
    have hcut := (cutAt_eq_iff left hn _ _).mpr (Prod.eta (cutAt left (min count.toNat l.length) l)).symm
    exact ⟨d,_,_,hd,hresp,hcut.1,hcut.2,hiff.mpr h⟩

theorem spop_conserves_iff (hc : commandOf args=some (.write .spop))
    (hargs : PopArgs args key count withCount) (hst : s.getSet w.now key=.ok (some st)) :
    (∃ d popped rest, dispatch w args s=.ok d ∧ d.resp=membersReply withCount popped ∧
      popped.length=min count.toNat st.size ∧ (popped++rest.toList).Perm st.toList ∧
      Leaves w.now s d.store key (.set rest)) ↔
    count < st.size ∨ ¬((s.row key).drop .set).Collection := by
  obtain ⟨d,popped,rest,hd,hresp,hlen,hperm,hkept⟩ := dispatch_spop hc hargs hst
  have hpos := hargs.nonneg
  -- sizes alone tell whether something is left
  have hleft : ∀ (popped : List Bytes) (rest : KeySet), popped.length=min count.toNat st.size →
      (popped++rest.toList).Perm st.toList →
      ((Value.set rest : Value F).isEmpty=false ↔ count < st.size) := by
    intro popped rest hlen hperm
    have hsize := hperm.length_eq
    rw [List.length_append,Std.ExtTreeSet.length_toList,Std.ExtTreeSet.length_toList] at hsize
    rw [Value.isEmpty,Std.ExtTreeSet.isEmpty_eq_size_beq_zero,beq_eq_false_iff_ne]
    omega
  have hiff := hkept.leaves_iff (by simp [Value.type]) (Maps.getSet_eq_some_iff.mp hst).1
  rw [hleft popped rest hlen hperm] at hiff
  constructor
  · rintro ⟨d',popped',rest',hd',_,hlen',hperm',hleaves⟩
    rw [hd] at hd'
    cases hd'
    by_cases hlt : count < st.size
    · exact .inl hlt
    · have hempty : rest=∅ ∧ rest'=∅ := by
        have hnone := mt (hleft popped rest hlen hperm).mp hlt
        have hnone' := mt (hleft popped' rest' hlen' hperm').mp hlt
        simpa [Value.isEmpty] using And.intro hnone hnone'
      rw [hempty.1,← hempty.2] at hiff
      exact hiff.mp hleaves
  · intro h
    exact ⟨d,popped,rest,hd,hresp,hlen,hperm,hiff.mpr h⟩

theorem zsetPop_conserves_iff {max : Bool} (hc : commandOf args=some (.write (zsetPop max)))
    (hargs : PopArgs args key count withCount) (hz : s.getZSet w.now key=.ok (some z)) :
    (∃ d popped rest, dispatch w args s=.ok d ∧ d.resp=.bulks (withScores true popped) ∧
      popped.length=min count.toNat z.size ∧ (popped++zMembers rest).Perm (zMembers z) ∧
      Leaves w.now s d.store key (.zset rest)) ↔ z ≠ ∅ := by
  obtain ⟨ht,hzset⟩ := Maps.getZSet_eq_some_iff.mp hz
  constructor
  · -- an empty sorted set stays where it is
    rintro ⟨d,popped,rest,hd,_,_,hperm,hview,_⟩ rfl
    obtain ⟨d',hd',_,hstore⟩ := dispatch_zsetPop_empty hc hargs hz
    rw [hd] at hd'
    cases hd'
    have hnil : popped++zMembers rest=[] := hperm.eq_nil
    have hrest : rest=∅ := by
      rw [Std.ExtTreeMap.eq_empty_iff_size_eq_zero,← Std.ExtTreeMap.length_toList]
      have hmembers := (List.append_eq_nil_iff.mp hnil).2
      rw [zMembers,List.map_eq_nil_iff] at hmembers
      rw [hmembers]
      rfl
    have hempty : (Value.zset rest).isEmpty=true := Std.ExtTreeMap.isEmpty_iff.mpr hrest
    rw [if_pos hempty,hstore,Maps.view,Row.view_eq_none_iff,← Maps.typeOf_eq_row,ht] at hview
    cases hview
  · intro hne
    obtain ⟨d,hd,hresp,hkept⟩ := dispatch_zsetPop hc hargs hz hne
    have hord := fromEnd_popOrder (F := F) max
    refine ⟨d,_,without z ((popOrder max z).take count.toNat),hd,hresp,?_,?_,?_⟩
    · rw [List.length_take,popOrder_eq,length_order hord]
    · rw [popOrder_eq]
      exact perm_without hord z _
    · rw [hkept.leaves_iff (by simp [Value.type]) ht]
      right
      -- nothing comes before a sorted set in `typeOf` that it could have hidden
      rw [Maps.typeOf_eq_row] at ht
      unfold Row.typeOf at ht
      simp only [Row.Collection,Row.drop,Value.type]
      split_ifs at ht <;> simp_all

end Conserve

/-- What a pop takes and what it leaves are the collection, and the key is gone with its deadline
when nothing is left: for a list or a set exactly when an element is left or the key is in no
further map, for a sorted set exactly when it was not empty before. -/
theorem pops_conserve_iff (w : World) (s : MemoryStore F) (args : List Bytes) (key : Bytes)
    (count : Int) (withCount : Bool) (hargs : PopArgs args key count withCount) :
    (∀ left l, commandOf args=some (.write (listPop left)) →
      s.getList w.now key=.ok (some l) →
      ((∃ d popped rest, dispatch w args s=.ok d ∧ d.resp=popReply withCount (some popped) ∧
        popped.length=min count.toNat l.length ∧
        (l=if left then popped++rest else rest++popped) ∧
        Leaves w.now s d.store key (.list rest)) ↔
      count < l.length ∨ ¬((s.row key).drop .list).Collection)) ∧
    (∀ st, commandOf args=some (.write .spop) → s.getSet w.now key=.ok (some st) →
      ((∃ d popped rest, dispatch w args s=.ok d ∧ d.resp=membersReply withCount popped ∧
        popped.length=min count.toNat st.size ∧ (popped++rest.toList).Perm st.toList ∧
        Leaves w.now s d.store key (.set rest)) ↔
      count < st.size ∨ ¬((s.row key).drop .set).Collection)) ∧
    ∀ max z, commandOf args=some (.write (zsetPop max)) → s.getZSet w.now key=.ok (some z) →
      ((∃ d popped rest, dispatch w args s=.ok d ∧ d.resp=.bulks (withScores true popped) ∧
        popped.length=min count.toNat z.size ∧ (popped++zMembers rest).Perm (zMembers z) ∧
        Leaves w.now s d.store key (.zset rest)) ↔ z ≠ ∅) := by
  refine ⟨?_,?_,?_⟩
  · intro left l hc hl
    exact listPop_conserves_iff hc hargs hl
  · intro st hc hst
    exact spop_conserves_iff hc hargs hst
  · intro max z hc hz
    exact zsetPop_conserves_iff hc hargs hz

/-- Two of three elements are popped from the head. -/
theorem pops_conserve_pair :
    let s : MemoryStore Int := MemoryStore.new.putList (utf8 "l") [utf8 "a",utf8 "b",utf8 "c"]
    ∃ d popped rest, dispatch (World.plain 0) [utf8 "LPOP",utf8 "l",utf8 "2"] s=.ok d ∧
      d.resp=popReply true (some popped) ∧ popped.length=2 ∧
      [utf8 "a",utf8 "b",utf8 "c"]=popped++rest ∧ Leaves 0 s d.store (utf8 "l") (.list rest) := by
  intro s
  have hargs : PopArgs [utf8 "LPOP",utf8 "l",utf8 "2"] (utf8 "l") 2 true :=
    .counted (by decide) (by decide)
  exact ((pops_conserve_iff (World.plain 0) s _ (utf8 "l") 2 true hargs).1 true
    [utf8 "a",utf8 "b",utf8 "c"] (by decide) (by decide)).mpr (.inl (by decide))

/-- The last element of a list that hides a sorted set is popped, and the key is still there; so
is the key of an empty sorted set that is popped. -/
theorem pops_keep_key :
    (∃ (s : MemoryStore Int) (d : Dispatched Int), Reachable s ∧
      s.getList 2000000 (utf8 "k")=.ok (some [utf8 "a"]) ∧
      dispatch (World.plain 2000000) [utf8 "LPOP",utf8 "k"] s=.ok d ∧
      d.resp=.bulkString (utf8 "a") ∧ d.store.typeOf 2000000 (utf8 "k")=some .zset) ∧
    ∃ (s : MemoryStore Int) (d : Dispatched Int), Reachable s ∧
      s.getZSet 0 (utf8 "z")=.ok (some ∅) ∧
      dispatch (World.plain 0) [utf8 "ZPOPMIN",utf8 "z"] s=.ok d ∧ d.resp=.bulks [] ∧
      d.store.typeOf 0 (utf8 "z")=some .zset := by
  have hpush : Reachable (F := Int) _ :=
    .dispatch (World.plain 0) [utf8 "RPUSH",utf8 "k",utf8 "a"] .new rfl
  have hexpire : Reachable (F := Int) _ :=
    .dispatch (World.plain 0) [utf8 "PEXPIRE",utf8 "k",utf8 "1"] hpush rfl
  have hset : Reachable (F := Int) _ :=
    .dispatch (World.plain 2000000) [utf8 "SADD",utf8 "k",utf8 "x"] hexpire rfl
  have hzset : Reachable (F := Int) _ :=
    .dispatch (World.plain 2000000) [utf8 "ZADD",utf8 "k",utf8 "1",utf8 "m"] hset rfl
  have hmove : Reachable (F := Int) _ :=
    .dispatch (World.plain 2000000) [utf8 "SMOVE",utf8 "k",utf8 "d",utf8 "x"] hzset rfl
  have hempty : Reachable (F := Int) _ :=
    .dispatch (World.plain 0) [utf8 "ZADD",utf8 "z",utf8 "XX",utf8 "1",utf8 "a"] .new rfl
  exact ⟨⟨_,_,hmove,rfl,rfl,rfl,rfl⟩,_,_,hempty,rfl,rfl,rfl,rfl⟩

/-- The same request again and again, each time in another world: the store at the end and the
replies. -/
def successive (args : List Bytes) (ws : List World) (s : MemoryStore F) :
    Go (MemoryStore F × List Response) :=
  Journal.run (fun w s => (dispatch w args s).map fun d => (d.store,[d.resp])) ws s

/-- The elements of a list in the order in which they are popped. -/
def listQueue (left : Bool) (l : List Bytes) : List Bytes := if left then l else l.reverse

section Batch
variable {l : List Bytes} {z : Map F} {name name' cnt : Bytes} {n : Nat} {ws : List World}

@[simp] theorem listQueue_listQueue (left : Bool) (l : List Bytes) :
    listQueue left (listQueue left l)=l := by
  cases left <;> simp [listQueue]

theorem length_listQueue (left : Bool) (l : List Bytes) :
    (listQueue left l).length=l.length := by
  cases left <;> simp [listQueue]

theorem cutAt_one (left : Bool) (x : Bytes) (q : List Bytes) :
    cutAt left (min (1:Int).toNat (listQueue left (x::q)).length) (listQueue left (x::q))=
      ([x],listQueue left q) := by
  cases left <;> simp [cutAt,cutHead,cutTail,listQueue]

theorem cutAt_queue (left : Bool) (n : Nat) (l : List Bytes) :
    (cutAt left n l).2=listQueue left ((listQueue left l).drop n) := by
  cases left with
  | true => rfl
  | false => simp [cutAt,cutTail,listQueue,List.drop_reverse]

theorem listPop_step {left : Bool} {u : MemoryStore F} {x : Bytes} {q : List Bytes}
    (hc : commandOf [name,key]=some (.write (listPop left)))
    (ht : s.typeOf w.now key=some .list)
    (hu : u.row=Function.update s.row key ((s.row key).keep (.list (listQueue left (x::q))))) :
    ∃ d, dispatch w [name,key] u=.ok d ∧ d.resp=.bulkString x ∧
      d.store.row=Function.update s.row key ((s.row key).keep (.list (listQueue left q))) := by
  have hne : (Value.list (listQueue left (x::q)) : Value F).isEmpty=false := by
    cases left <;> simp [Value.isEmpty,listQueue]
  obtain ⟨htype,hrow⟩ := typeOf_of_rows hu hne (by simp [Value.type]) ht
  have hl : u.getList w.now key=.ok (some (listQueue left (x::q))) :=
    Maps.getList_eq_some_iff.mpr ⟨htype,congrArg Row.list hrow⟩
  obtain ⟨d,hd,hresp,hkept⟩ := dispatch_listPop hc .one hl
  rw [cutAt_one] at hresp hkept
  exact ⟨d,hd,hresp,hkept.rows_again hu hne rfl⟩

theorem successive_listPop {left : Bool} (hc : commandOf [name,key]=some (.write (listPop left)))
    (hl : s.lists[key]?=some l) (hne : l ≠ []) (hlen : ws.length=n) (hn : n ≤ l.length)
    (hws : ∀ w ∈ ws, s.typeOf w.now key=some .list) :
    ∃ s', successive [name,key] ws s=
        .ok (s',((listQueue left l).take n).map Response.bulkString) ∧
      s'.row=Function.update s.row key
        ((s.row key).keep (.list (listQueue left ((listQueue left l).drop n)))) := by
  have hstart : s.row=Function.update s.row key
      ((s.row key).keep (.list (listQueue left ((listQueue left l).take n++
        (listQueue left l).drop n)))) := by
    have hrow : (s.row key).list=some l := hl
    rw [List.take_append_drop,listQueue_listQueue,eq_comm,Function.update_eq_self_iff,Row.keep,
      if_neg (by simpa [Value.isEmpty] using hne),Value.into,← hrow]
  apply Journal.run_takes (fun (u : MemoryStore F) q => u.row=Function.update s.row key
    ((s.row key).keep (.list (listQueue left q)))) _ _ hstart
  · intro w hw u x q hu
    obtain ⟨d,hd,hresp,hrow⟩ := listPop_step hc (hws w hw) hu
    refine ⟨d.store,?_,hrow⟩
    rw [hd,← hresp]
    rfl
  · rw [List.length_take,length_listQueue]
    omega

/-- `LPOP` with a count does what as many `LPOP`s do. `RPOP` with a count replies with the
elements in the order of the list, so it does exactly when these read the same backwards. -/
theorem batch_list_pops_iff (w : World) (s : MemoryStore F) (key : Bytes) (l : List Bytes)
    (hl : s.getList w.now key=.ok (some l)) (n : Nat) (hn : n ≤ l.length) (ws : List World)
    (hlen : ws.length=n) (hws : ∀ w ∈ ws, s.typeOf w.now key=some .list) (left : Bool)
    (name name' cnt : Bytes) (hc : commandOf [name,key,cnt]=some (.write (listPop left)))
    (hc' : commandOf [name',key]=some (.write (listPop left))) (hcnt : parseInt cnt=some n) :
    (∃ d s' rs, dispatch w [name,key,cnt] s=.ok d ∧
      successive [name',key] ws s=.ok (s',rs) ∧ d.resp=.array rs ∧
      d.store.lists.getD key []=s'.lists.getD key [] ∧ (l ≠ [] → d.store.toMaps=s'.toMaps)) ↔
    left=true ∨ (l.drop (l.length-n)).reverse=l.drop (l.length-n) := by
  have hmin : min (n:Int).toNat l.length=n := by omega
  obtain ⟨d,hd,hresp,hkept⟩ := dispatch_listPop hc (.counted hcnt (by omega)) hl
  rw [hmin] at hresp hkept
  obtain ⟨ht,hlist⟩ := Maps.getList_eq_some_iff.mp hl
  by_cases hne : l=[]
  · -- nothing to pop, and no request on the other side
    subst hne
    have hzero : n=0 := Nat.le_zero.mp hn
    subst hzero
    rw [List.eq_nil_of_length_eq_zero hlen]
    refine iff_of_true ⟨d,s,[],hd,rfl,?_,?_,fun h => absurd rfl h⟩ (.inr rfl)
    · rw [hresp]
      cases left <;> rfl
    · rw [hkept.lists_getD,getD_of_getList hl ht]
      cases left <;> rfl
  · obtain ⟨s',hrun,hrows⟩ := successive_listPop hc' hlist hne hlen hn hws
    rw [← cutAt_queue] at hrows
    have hmaps := hkept.toMaps_eq hrows
    have hreply : d.resp=.array (((listQueue left l).take n).map Response.bulkString) ↔
        (cutAt left n l).1=(listQueue left l).take n := by
      rw [hresp]
      exact bulks_inj
    have hiff : (cutAt left n l).1=(listQueue left l).take n ↔
        left=true ∨ (l.drop (l.length-n)).reverse=l.drop (l.length-n) := by
      cases left with
      | true => simp [cutAt,cutHead,listQueue]
      | false =>
        simp only [cutAt,cutTail,listQueue,Bool.false_eq_true,if_false,false_or,
          List.take_reverse]
        exact eq_comm
    rw [← hiff,← hreply]
    constructor
    · rintro ⟨d',u,rs,hd',hrun',heq,_,_⟩
      rw [hd] at hd'
      rw [hrun] at hrun'
      cases hd'
      cases hrun'
      exact heq
    · intro heq
      exact ⟨d,s',_,hd,hrun,heq,by rw [hmaps],fun _ => hmaps⟩

/-- Two `LPOP`s and `LPOP` with the count 2. -/
theorem batch_list_pops_two :
    let s : MemoryStore Int := MemoryStore.new.putList (utf8 "l") [utf8 "a",utf8 "b",utf8 "c"]
    ∃ d s' rs, dispatch (World.plain 0) [utf8 "LPOP",utf8 "l",utf8 "2"] s=.ok d ∧
      successive [utf8 "LPOP",utf8 "l"] [World.plain 1,World.plain 2] s=.ok (s',rs) ∧
      d.resp=.array rs ∧ d.store.toMaps=s'.toMaps := by
  intro s
  obtain ⟨d,s',rs,hd,hrun,hresp,_,hmaps⟩ := (batch_list_pops_iff (World.plain 0) s (utf8 "l")
    [utf8 "a",utf8 "b",utf8 "c"] (by decide) 2 (by decide) [World.plain 1,World.plain 2] rfl
    (by decide) true (utf8 "LPOP") (utf8 "LPOP") (utf8 "2") (by decide) (by decide)
    (by decide)).mpr (.inl rfl)
  exact ⟨d,s',rs,hd,hrun,hresp,hmaps (by decide)⟩

/-- `RPOP` with the count 2 replies with the last element last; two `RPOP`s reply with it first. -/
theorem batch_list_pops_tail :
    ∃ (s : MemoryStore Int) (d : Dispatched Int) (s' : MemoryStore Int), Reachable s ∧
      s.getList 0 (utf8 "l")=.ok (some [utf8 "a",utf8 "b"]) ∧
      dispatch (World.plain 0) [utf8 "RPOP",utf8 "l",utf8 "2"] s=.ok d ∧
      d.resp=.bulks [utf8 "a",utf8 "b"] ∧
      successive [utf8 "RPOP",utf8 "l"] [World.plain 0,World.plain 0] s=
        .ok (s',[.bulkString (utf8 "b"),.bulkString (utf8 "a")]) := by
  refine ⟨_,_,_,.dispatch (World.plain 0) [utf8 "RPUSH",utf8 "l",utf8 "a",utf8 "b"] .new rfl,rfl,
    rfl,rfl,rfl⟩

theorem popOrder_inj {max : Bool} {z' : Map F} (h : popOrder max z=popOrder max z') : z=z' := by
  apply sortedMembers_inj
  cases max with
  | true => exact List.reverse_injective h
  | false => exact h

theorem popOrder_without (max : Bool) (z : Map F) (n : Nat) :
    popOrder max (without z ((popOrder max z).take n))=(popOrder max z).drop n := by
  rw [popOrder_eq max z,popOrder_eq]
  exact order_without (fromEnd_popOrder max) z n

theorem ne_empty_of_popOrder {max : Bool} {e : ZMember F} {q : List (ZMember F)}
    (h : popOrder max z=e::q) : z ≠ ∅ := by
  have hsize := length_order (fromEnd_popOrder max) z
  rw [← popOrder_eq,h,List.length_cons] at hsize
  rw [ne_eq,Std.ExtTreeMap.eq_empty_iff_size_eq_zero]
  omega

theorem zsetPop_step {max : Bool} {u : MemoryStore F} {e : ZMember F} {q : List (ZMember F)}
    (hc : commandOf [name,key]=some (.write (zsetPop max)))
    (ht : s.typeOf w.now key=some .zset)
    (hu : u.row=Function.update s.row key ((s.row key).keep (.zset z)))
    (hq : popOrder max z=e::q) :
    ∃ d z', dispatch w [name,key] u=.ok d ∧ d.resp=.bulks (withScores true [e]) ∧
      popOrder max z'=q ∧ d.store.row=Function.update s.row key ((s.row key).keep (.zset z')) := by
  have hne := ne_empty_of_popOrder hq
  have hempty : (Value.zset z).isEmpty=false := by simpa [Value.isEmpty] using hne
  obtain ⟨htype,hrow⟩ := typeOf_of_rows hu hempty (by simp [Value.type]) ht
  have hz : u.getZSet w.now key=.ok (some z) :=
    Maps.getZSet_eq_some_iff.mpr ⟨htype,congrArg Row.zset hrow⟩
  obtain ⟨d,hd,hresp,hkept⟩ := dispatch_zsetPop hc .one hz hne
  refine ⟨d,_,hd,?_,?_,hkept.rows_again hu hempty rfl⟩
  · rw [hresp,hq]
    rfl
  · rw [popOrder_without,hq]
    rfl

theorem successive_zsetPop {max : Bool} (hc : commandOf [name,key]=some (.write (zsetPop max)))
    (hz : s.zsets[key]?=some z) (hne : z ≠ ∅) (hlen : ws.length=n) (hn : n ≤ z.size)
    (hws : ∀ w ∈ ws, s.typeOf w.now key=some .zset) :
    ∃ s', successive [name,key] ws s=
        .ok (s',((popOrder max z).take n).map fun e => .bulks (withScores true [e])) ∧
      s'.row=Function.update s.row key
        ((s.row key).keep (.zset (without z ((popOrder max z).take n)))) := by
  have hstart : ∃ z', popOrder max z'=(popOrder max z).take n++(popOrder max z).drop n ∧
      s.row=Function.update s.row key ((s.row key).keep (.zset z')) := by
    refine ⟨z,(List.take_append_drop _ _).symm,?_⟩
    have hrow : (s.row key).zset=some z := hz
    rw [eq_comm,Function.update_eq_self_iff,Row.keep,
      if_neg (by simpa [Value.isEmpty] using hne),Value.into,← hrow]
  have hcount : ws.length=((popOrder max z).take n).length := by
    rw [List.length_take,popOrder_eq,length_order (fromEnd_popOrder max)]
    omega
  have hstep : ∀ w ∈ ws, ∀ (u : MemoryStore F) (e : ZMember F) q,
      (∃ z', popOrder max z'=e::q ∧
        u.row=Function.update s.row key ((s.row key).keep (.zset z'))) →
      ∃ u', ((dispatch w [name,key] u).map fun d => (d.store,[d.resp]))=
          .ok (u',[Response.bulks (withScores true [e])]) ∧
        ∃ z', popOrder max z'=q ∧
          u'.row=Function.update s.row key ((s.row key).keep (.zset z')) := by
    rintro w hw u e q ⟨z',hq,hu⟩
    obtain ⟨d,z'',hd,hresp,hq',hrow⟩ := zsetPop_step hc (hws w hw) hu hq
    refine ⟨d.store,?_,z'',hq',hrow⟩
    rw [hd,← hresp]
    rfl
  obtain ⟨s',hrun,z',hz',hrows⟩ := Journal.run_takes (fun (u : MemoryStore F) q =>
    ∃ z', popOrder max z'=q ∧ u.row=Function.update s.row key ((s.row key).keep (.zset z')))
    hstep hcount hstart
  refine ⟨s',hrun,?_⟩
  rw [← popOrder_without] at hz'
  rw [hrows,popOrder_inj hz']

theorem flatMap_elems_pops (ms : List (ZMember F)) :
    (ms.map fun e => Response.bulks (withScores true [e])).flatMap Response.elems=
      (withScores true ms).map Response.bulkString := by
  induction ms with
  | nil => rfl
  | cons e ms ih =>
    rw [List.map_cons,List.flatMap_cons,ih,Response.elems_bulks,← List.map_append]
    rfl

theorem pairwise_popOrder (max : Bool) (z : Map F) :
    (popOrder max z).Pairwise fun a b => if max then zLess b a else zLess a b := by
  cases max with
  | true =>
    simp only [popOrder,if_true,List.pairwise_reverse]
    exact sortedMembers_strict z
  | false => exact sortedMembers_strict z

/-- `ZPOPMIN` with a count takes the first members in ascending order and `ZPOPMAX` the first in
descending order, as so many pops of one member do; all that is left lies behind them. -/
theorem batch_zset_pops (w : World) (s : MemoryStore F) (key : Bytes) (z : Map F)
    (hz : s.getZSet w.now key=.ok (some z)) (n : Nat) (hn : n ≤ z.size) (ws : List World)
    (hlen : ws.length=n) (hws : ∀ w ∈ ws, s.typeOf w.now key=some .zset) (max : Bool)
    (name name' cnt : Bytes) (hc : commandOf [name,key,cnt]=some (.write (zsetPop max)))
    (hc' : commandOf [name',key]=some (.write (zsetPop max))) (hcnt : parseInt cnt=some n) :
    ∃ (sorted : List (ZMember F)) (d : Dispatched F) (s' : MemoryStore F) (rs : List Response),
      sorted.Perm (zMembers z) ∧ sorted.Pairwise zLess ∧
      dispatch w [name,key,cnt] s=.ok d ∧ successive [name',key] ws s=.ok (s',rs) ∧
      d.resp=.bulks (withScores true ((if max then sorted.reverse else sorted).take n)) ∧
      d.resp=.array (rs.flatMap Response.elems) ∧ d.store.toMaps=s'.toMaps ∧
      ∀ e ∈ zMembers (d.store.zsets.getD key ∅),
        ∀ p ∈ (if max then sorted.reverse else sorted).take n,
          if max then zLess e p else zLess p e := by
  have hargs : PopArgs [name,key,cnt] key n true := .counted hcnt (by omega)
  obtain ⟨ht,hzset⟩ := Maps.getZSet_eq_some_iff.mp hz
  refine ⟨sortedMembers z,?_⟩
  have horder : (if max then (sortedMembers z).reverse else sortedMembers z)=popOrder max z := rfl
  rw [horder]
  by_cases hne : z=∅
  · -- nothing to pop, and no request on the other side
    subst hne
    have hzero : n=0 := Nat.le_zero.mp hn
    subst hzero
    obtain ⟨d,hd,hresp,hstore⟩ := dispatch_zsetPop_empty hc hargs hz
    rw [List.eq_nil_of_length_eq_zero hlen]
    refine ⟨d,s,[],sortedMembers_perm _,sortedMembers_strict _,hd,rfl,hresp,hresp,?_,?_⟩
    · rw [hstore]
    · intro e _ p hp
      cases hp
  · obtain ⟨d,hd,hresp,hkept⟩ := dispatch_zsetPop hc hargs hz hne
    obtain ⟨s',hrun,hrows⟩ := successive_zsetPop hc' hzset hne hlen hn hws
    rw [Int.toNat_natCast] at hresp hkept
    refine ⟨d,s',_,sortedMembers_perm z,sortedMembers_strict z,hd,hrun,hresp,?_,
      hkept.toMaps_eq hrows,?_⟩
    · rw [hresp,flatMap_elems_pops]
      rfl
    · intro e he p hp
      rw [hkept.zsets_getD] at he
      have hleft : e ∈ (popOrder max z).drop n := by
        rw [← popOrder_without,popOrder_eq,((fromEnd_popOrder max).perm _).mem_iff,
          (sortedMembers_perm _).mem_iff]
        exact he
      have hpair := pairwise_popOrder max z
      rw [← List.take_append_drop n (popOrder max z),List.pairwise_append] at hpair
      exact hpair.2.2 p hp e hleft

/-- Two members of three are popped, from either side. -/
theorem batch_zset_pops_two :
    let z : Map Int := (((∅ : Map Int).insert (utf8 "a") 3).insert (utf8 "b") 1).insert (utf8 "c") 2
    let s : MemoryStore Int := MemoryStore.new.putZSet (utf8 "z") z
    ∃ (sorted : List (ZMember Int)) (d : Dispatched Int) (s' : MemoryStore Int)
      (rs : List Response), sorted.Perm (zMembers z) ∧ sorted.Pairwise zLess ∧
      dispatch (World.plain 0) [utf8 "ZPOPMAX",utf8 "z",utf8 "2"] s=.ok d ∧
      successive [utf8 "ZPOPMAX",utf8 "z"] [World.plain 1,World.plain 2] s=.ok (s',rs) ∧
      d.resp=.bulks (withScores true (sorted.reverse.take 2)) ∧
      d.resp=.array (rs.flatMap Response.elems) ∧ d.store.toMaps=s'.toMaps := by
  intro z s
  obtain ⟨sorted,d,s',rs,hperm,hpair,hd,hrun,hresp,hrs,hmaps,_⟩ := batch_zset_pops (World.plain 0)
    s (utf8 "z") z (by decide) 2 (by decide) [World.plain 1,World.plain 2] rfl (by decide) true
    (utf8 "ZPOPMAX") (utf8 "ZPOPMAX") (utf8 "2") (by decide) (by decide) (by decide)
  exact ⟨sorted,d,s',rs,hperm,hpair,hd,hrun,hresp,hrs,hmaps⟩

end Batch
end GoRedis
