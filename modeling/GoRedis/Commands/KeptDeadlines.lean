import GoRedis.Commands.Counters
import GoRedis.Commands.Moves
import GoRedis.Persistence.Reachable
import GoRedis.Persistence.Refinement
import GoRedis.Storage.KeptDeadlines
/-!
# Deadlines and updates in place

An update of a string writes the key anew, and with that it has no deadline. An update of a
collection keeps the deadline, except where the last element is taken out on the way.
-/
namespace GoRedis
variable {F : Type} [Float64 F] {w : World} {s : MemoryStore F} {args : List Bytes}
  {key k : Bytes} {c : WriteCommand} {p : Response × MemoryStore F}
open MemoryStore

/-- The commands that update a string. -/
def stringUpdates : List WriteCommand := [.incr,.incrby,.decr,.decrby,.incrbyfloat,.append]

theorem set_of_stringUpdate (hupd : c ∈ stringUpdates) (h : execute w c args s=.ok p)
    (he : p.1.isError=false) : ∃ v, p.2=s.set (args.getD 1 []) v := by
  simp only [stringUpdates,List.mem_cons,List.not_mem_nil,or_false] at hupd
  have hp : p=(p.1,p.2) := rfl
  rcases hupd with rfl | rfl | rfl | rfl | rfl | rfl
  · exact ⟨_,handleStep_done ((Except.ok.inj h).trans hp) he⟩
  · exact ⟨_,handleStepBy_done ((Except.ok.inj h).trans hp) he⟩
  · exact ⟨_,handleStep_done ((Except.ok.inj h).trans hp) he⟩
  · exact ⟨_,handleStepBy_done ((Except.ok.inj h).trans hp) he⟩
  · exact ⟨_,handleIncrByFloat_done ((Except.ok.inj h).trans hp) he⟩
  · have h := Except.ok.inj h
    unfold handleAppend at h
    split at h
    · exact ⟨_,congrArg Prod.snd h.symm⟩
    · rw [← h] at he
      cases he

theorem view_of_stringUpdate {name : Bytes} {rest : List Bytes} {d : Dispatched F}
    (hupd : c ∈ stringUpdates) (hc : commandOf (name::key::rest)=some (.write c))
    (hd : dispatch w (name::key::rest) s=.ok d) (he : d.resp.isError=false) :
    ∃ v, d.store.view w.now key=some (.string v,none) := by
  obtain ⟨v,hset⟩ := set_of_stringUpdate hupd (execute_of_dispatch hc hd) he
  have hset : d.store=s.set key v := hset
  refine ⟨v,?_⟩
  rw [hset,Maps.view,row_set,if_pos rfl]
  rfl

/-- An update in place keeps the deadline of a string exactly when there is none. -/
theorem string_update_deadline_iff (w : World) (s : MemoryStore F) (name key : Bytes)
    (rest : List Bytes) (v : Bytes) (T : Option Int) (c : WriteCommand) (d : Dispatched F)
    (hv : s.view w.now key=some (.string v,T)) (hupd : c ∈ stringUpdates)
    (hc : commandOf (name::key::rest)=some (.write c))
    (hd : dispatch w (name::key::rest) s=.ok d) (he : d.resp.isError=false) :
    (d.store.view w.now key).map Prod.snd=(s.view w.now key).map Prod.snd ↔ T=none := by
  obtain ⟨v',hview⟩ := view_of_stringUpdate hupd hc hd he
  rw [hview,hv,Option.map_some,Option.map_some,Option.some_inj,eq_comm]

theorem dispatch_incr_one {s : MemoryStore F} (hget : s.get 0 (utf8 "k")=some (utf8 "1")) :
    ∃ d, dispatch (World.plain 0) [utf8 "INCR",utf8 "k"] s=.ok d ∧ d.resp=.integer 2 := by
  obtain ⟨d,hd,hresp,_⟩ := dispatch_of_execute (w := World.plain 0) (s := s)
    (by decide : commandOf [utf8 "INCR",utf8 "k"]=some (.write .incr)) rfl
  have hone : parseInt (utf8 "1")=some 1 := by decide
  have hexact := incrBy_exact (w := World.plain 0) (d := 1) (.inr ⟨_,hget,hone⟩) (by decide)
  rw [Exact,if_pos (by decide)] at hexact
  exact ⟨d,hd,hresp.trans (congrArg Prod.fst hexact)⟩

/-- A counter without a deadline has none after `INCR`. -/
theorem string_update_deadline_none :
    let s : MemoryStore Int := MemoryStore.new.set (utf8 "k") (utf8 "1")
    ∃ d, dispatch (World.plain 0) [utf8 "INCR",utf8 "k"] s=.ok d ∧ d.resp=.integer 2 ∧
      (d.store.view 0 (utf8 "k")).map Prod.snd=(s.view 0 (utf8 "k")).map Prod.snd := by
  intro s
  obtain ⟨d,hd,hresp⟩ := dispatch_incr_one (s := s) rfl
  have he : d.resp.isError=false := by
    rw [hresp]
    rfl
  exact ⟨d,hd,hresp,(string_update_deadline_iff (World.plain 0) s (utf8 "INCR") (utf8 "k") []
    (utf8 "1") none .incr d rfl (by decide) (by decide) hd he).mpr rfl⟩

/-- `INCR` takes the deadline of a counter. -/
theorem string_update_deadline_lost :
    ∃ (s : MemoryStore Int) (d : Dispatched Int), Reachable s ∧
      s.view 0 (utf8 "k")=some (.string (utf8 "1"),some 1000000) ∧
      dispatch (World.plain 0) [utf8 "INCR",utf8 "k"] s=.ok d ∧ d.resp=.integer 2 ∧
      (d.store.view 0 (utf8 "k")).map Prod.snd=some none := by
  have hset : Reachable (F := Int) _ :=
    .dispatch (World.plain 0) [utf8 "SET",utf8 "k",utf8 "1"] .new rfl
  obtain ⟨s,hs,hview,hget⟩ : ∃ s : MemoryStore Int, Reachable s ∧
      s.view 0 (utf8 "k")=some (.string (utf8 "1"),some 1000000) ∧
      s.get 0 (utf8 "k")=some (utf8 "1") :=
    ⟨_,.dispatch (World.plain 0) [utf8 "PEXPIRE",utf8 "k",utf8 "1"] hset rfl,rfl,rfl⟩
  obtain ⟨d,hd,hresp⟩ := dispatch_incr_one hget
  have he : d.resp.isError=false := by
    rw [hresp]
    rfl
  obtain ⟨v,hafter⟩ := view_of_stringUpdate (c := .incr) (by decide) (by decide) hd he
  exact ⟨s,d,hs,hview,hd,hresp,congrArg (Option.map Prod.snd) hafter⟩

/-- The commands that put elements into collections or change them. -/
def puttingCommands : List WriteCommand :=
  [.hset,.hincrby,.hincrbyfloat,.lpush,.rpush,.lpushx,.rpushx,.lset,.linsert,.sadd,.zadd,.zincrby]

/-- The commands that take elements out of collections. -/
def takingCommands : List WriteCommand :=
  [.hdel,.lpop,.rpop,.lrem,.ltrim,.lmove,.rpoplpush,.srem,.spop,.smove,.zrem,.zpopmin,.zpopmax]

/-- The command takes out the last element of the collection under `k`, as the maps are before. -/
inductive TakesLast (now : Int) (m : Maps F) (k : Bytes) : WriteCommand → List Bytes → Prop
  | hdel {name f : Bytes} {fs : List Bytes} {h : Map Bytes} (hh : m.liveHash now k=some h)
      (hall : ∀ x ∈ h, x ∈ f::fs) : TakesLast now m k .hdel (name::k::f::fs)
  | lpop {args l : List Bytes} {count : Int} {withCount : Bool}
      (hargs : PopArgs args k count withCount) (hl : m.getList now k=.ok (some l))
      (hfew : l.length ≤ count) : TakesLast now m k .lpop args
  | rpop {args l : List Bytes} {count : Int} {withCount : Bool}
      (hargs : PopArgs args k count withCount) (hl : m.getList now k=.ok (some l))
      (hfew : l.length ≤ count) : TakesLast now m k .rpop args
  | lrem {name n v : Bytes} {l : List Bytes} {count : Int} (hn : parseInt n=some count)
      (hl : m.getList now k=.ok (some l)) (hne : l ≠ []) (hall : ∀ x ∈ l, x=v)
      (hmin : count ≠ -2^63) (hmany : count=0 ∨ l.length ≤ count.natAbs) :
      TakesLast now m k .lrem [name,k,n,v]
  | ltrim {name a b : Bytes} {l : List Bytes} {start stop : Int} (ha : parseInt a=some start)
      (hb : parseInt b=some stop) (hl : m.getList now k=.ok (some l))
      (hnone : Slices.range start stop l=[]) : TakesLast now m k .ltrim [name,k,a,b]
  | move {c : WriteCommand} {args : List Bytes} {dst x : Bytes} {srcLeft dstLeft : Bool}
      (hargs : MoveArgs c args k dst srcLeft dstLeft) (hl : m.getList now k=.ok (some [x]))
      (hdst : m.typeOf now dst=none ∨ m.typeOf now dst=some .list) : TakesLast now m k c args
  | srem {name x : Bytes} {xs : List Bytes} {st : KeySet} (hst : m.getSet now k=.ok (some st))
      (hall : ∀ y ∈ st, y ∈ x::xs) : TakesLast now m k .srem (name::k::x::xs)
  | spop {args : List Bytes} {st : KeySet} {count : Int} {withCount : Bool}
      (hargs : PopArgs args k count withCount) (hst : m.getSet now k=.ok (some st))
      (hfew : st.size ≤ count) : TakesLast now m k .spop args
  | smove {name dst x : Bytes} {st : KeySet} (hst : m.getSet now k=.ok (some st)) (hx : x ∈ st)
      (hall : ∀ y ∈ st, y=x) (hdst : m.typeOf now dst=none ∨ m.typeOf now dst=some .set) :
      TakesLast now m k .smove [name,k,dst,x]
  | zrem {name x : Bytes} {xs : List Bytes} {z : Map F} (hz : m.getZSet now k=.ok (some z))
      (hall : ∀ y ∈ z, y ∈ x::xs) : TakesLast now m k .zrem (name::k::x::xs)
  | zpopmin {args : List Bytes} {z : Map F} {count : Int} {withCount : Bool}
      (hargs : PopArgs args k count withCount) (hz : m.getZSet now k=.ok (some z)) (hne : z ≠ ∅)
      (hfew : z.size ≤ count) : TakesLast now m k .zpopmin args
  | zpopmax {args : List Bytes} {z : Map F} {count : Int} {withCount : Bool}
      (hargs : PopArgs args k count withCount) (hz : m.getZSet now k=.ok (some z)) (hne : z ≠ ∅)
      (hfew : z.size ≤ count) : TakesLast now m k .zpopmax args

section
omit [Float64 F]

theorem commit_store {α : Type} (s : MemoryStore F) (f : α → Response)
    (res : Except StoreError (α × MemoryStore F)) : (commit s f res).2=dropError s res := by
  cases res <;> rfl

theorem commit_store_map (s : MemoryStore F) (f : Unit → Response)
    (res : Except StoreError (MemoryStore F)) :
    (commit s f (res.map fun s' => ((),s'))).2=res.toOption.getD s := by
  cases res <;> rfl

theorem ok_of_map_commit {α : Type} {f : α → Response}
    {res : Go (Except StoreError (α × MemoryStore F))} (h : res.map (commit s f)=.ok p) :
    ∃ r, res=.ok r ∧ p.2=dropError s r := by
  cases res with
  | error e => cases h
  | ok r =>
    cases h
    exact ⟨r,rfl,commit_store s f r⟩

end

section
omit [Float64 F]

theorem handlePush_keyExpiry {push : Push F} (name : String)
    (hpush : ∀ key vs, (dropError s (push s w.now key vs)).keyExpiry=s.keyExpiry) :
    (handlePush name push w args s).2.keyExpiry=s.keyExpiry := by
  unfold handlePush
  split
  · rw [commit_store,hpush]
  · rfl

theorem handlePushX_keyExpiry {push : Push F} (name : String)
    (hpush : ∀ key vs, (dropError s (push s w.now key vs)).keyExpiry=s.keyExpiry) :
    (handlePushX name push w args s).2.keyExpiry=s.keyExpiry := by
  unfold handlePushX
  split
  · split_ifs
    · rfl
    · rw [commit_store,hpush]
  · rfl

end

theorem keyExpiry_of_putting (hput : c ∈ puttingCommands) (h : execute w c args s=.ok p) :
    p.2.keyExpiry=s.keyExpiry := by
  simp only [puttingCommands,List.mem_cons,List.not_mem_nil,or_false] at hput
  rcases hput with rfl | rfl | rfl | rfl | rfl | rfl | rfl | rfl | rfl | rfl | rfl | rfl <;>
    obtain rfl := Except.ok.inj h
  · unfold handleHSet
    split_ifs <;> rfl
  · unfold handleHIncrBy
    repeat' split
    all_goals rfl
  · unfold handleHIncrByFloat
    repeat' split
    all_goals rfl
  · exact handlePush_keyExpiry _ (lPush_keyExpiry s w.now)
  · exact handlePush_keyExpiry _ (rPush_keyExpiry s w.now)
  · exact handlePushX_keyExpiry _ (lPush_keyExpiry s w.now)
  · exact handlePushX_keyExpiry _ (rPush_keyExpiry s w.now)
  · unfold handleLSet
    split
    · split
      · rfl
      · rw [commit_store_map,lSet_keyExpiry]
    · rfl
  · unfold handleLInsert
    split
    · split
      · rfl
      · rw [commit_store,lInsert_keyExpiry]
    · rfl
  · unfold handleSAdd
    split
    · rw [commit_store,sAdd_keyExpiry]
    · rfl
  · rcases handleZAdd_cases w args s with ⟨_,key,rest,ms,_,_,_,_,hadd⟩ | ⟨hsame,_⟩
    · rw [hadd,zAdd_keyExpiry]
    · rw [hsame]
  · unfold handleZIncrBy
    split
    · split
      · rfl
      · rw [commit_store,zIncrBy_keyExpiry]
    · rfl

section
omit [Float64 F]

theorem forgets_pop {cut : Nat → List Bytes → List Bytes × List Bytes} {count : Int}
    {withCount : Bool} (hcut : ∀ n l, (cut n l).2=[] ↔ l.length ≤ n) (name : String)
    (hargs : PopArgs args key count withCount)
    (h : handlePop name (popList cut) w args s=.ok p) :
    Forgets s p.2 key (∃ l, s.getList w.now key=.ok (some l) ∧ l.length ≤ count) := by
  rw [handlePop_of_popArgs hargs] at h
  obtain ⟨r,hr,hp⟩ := ok_of_map_commit h
  rw [hp]
  exact forgets_popList hcut hargs.nonneg hr

theorem forgets_spop {count : Int} {withCount : Bool} (hargs : PopArgs args key count withCount)
    (h : handleSPop w args s=.ok p) :
    Forgets s p.2 key (∃ st, s.getSet w.now key=.ok (some st) ∧ st.size ≤ count) := by
  rw [handleSPop_of_popArgs hargs] at h
  obtain ⟨r,hr,hp⟩ := ok_of_map_commit h
  rw [hp]
  exact forgets_sPop hargs.nonneg hr

end

theorem forgets_zpop {order : List (ZMember F) → List (ZMember F)} {count : Int}
    {withCount : Bool} (hord : FromEnd order) (name : String)
    (hargs : PopArgs args key count withCount)
    (h : handleZPop name (popZSet order) w args s=.ok p) :
    Forgets s p.2 key
      (∃ z, s.getZSet w.now key=.ok (some z) ∧ z ≠ ∅ ∧ z.size ≤ count) := by
  rw [handleZPop_of_popArgs hargs] at h
  obtain ⟨r,hr,hp⟩ := ok_of_map_commit h
  rw [hp]
  exact forgets_popZSet hord hargs.nonneg hr

theorem forgets_move {src dst : Bytes} {srcLeft dstLeft : Bool}
    (hargs : MoveArgs c args src dst srcLeft dstLeft) (h : execute w c args s=.ok p) :
    Forgets s p.2 src ((s.listGuard w.now src=true ∧ s.listGuard w.now dst=true) ∧
      ∃ x, s.lists[src]?=some [x]) := by
  rw [execute_listMove hargs] at h
  obtain rfl := Except.ok.inj h
  rw [commit_store]
  exact forgets_lMove s w.now src dst srcLeft dstLeft

theorem forgets_smove {src dst x name : Bytes} (h : execute w .smove [name,src,dst,x] s=.ok p) :
    Forgets s p.2 src ((s.setGuard w.now src=true ∧ s.setGuard w.now dst=true) ∧
      ∃ st, s.sets[src]?=some st ∧ x ∈ st ∧ ∀ y ∈ st, y=x) := by
  have h : commit s boolReply (s.sMove w.now src dst x)=p := Except.ok.inj h
  rw [← h,commit_store]
  exact forgets_sMove s w.now src dst x

theorem TakesLast.gone (ht : TakesLast w.now s.toMaps k c args) (h : execute w c args s=.ok p) :
    p.2.keyExpiry[k]?=none := by
  cases ht with
  | hdel hh hall =>
    obtain rfl := Except.ok.inj h
    rw [handleHDel]
    exact (forgets_hDel s w.now k _).gone ⟨_,hh,hall⟩
  | lpop hargs hl hfew =>
    exact (forgets_pop (fun _ _ => cutHead_eq_nil_iff) "LPOP" hargs h).gone ⟨_,hl,hfew⟩
  | rpop hargs hl hfew =>
    exact (forgets_pop (fun _ _ => cutTail_eq_nil_iff) "RPOP" hargs h).gone ⟨_,hl,hfew⟩
  | lrem hn hl hne hall hmin hmany =>
    have h := Except.ok.inj h
    simp only [handleLRem,hn] at h
    rw [← h,commit_store]
    exact (forgets_lRem (parseInt_inInt64 hn)).gone ⟨_,hl,hne,hall,hmin,hmany⟩
  | ltrim ha hb hl hnone =>
    have h := Except.ok.inj h
    simp only [handleLTrim,ha,hb] at h
    rw [← h,commit_store_map]
    exact (forgets_lTrim s w.now k _ _).gone ⟨_,hl,hnone⟩
  | move hargs hl hdst =>
    obtain ⟨htype,hlist⟩ := Maps.getList_eq_some_iff.mp hl
    exact (forgets_move hargs h).gone
      ⟨⟨decide_eq_true (.inr htype),decide_eq_true hdst⟩,_,hlist⟩
  | srem hst hall =>
    obtain rfl := Except.ok.inj h
    rw [handleSRem,commit_store]
    exact (forgets_sRem s w.now k _).gone ⟨_,hst,hall⟩
  | spop hargs hst hfew => exact (forgets_spop hargs h).gone ⟨_,hst,hfew⟩
  | smove hst hx hall hdst =>
    obtain ⟨htype,hset⟩ := Maps.getSet_eq_some_iff.mp hst
    exact (forgets_smove h).gone
      ⟨⟨decide_eq_true (.inr htype),decide_eq_true hdst⟩,_,hset,hx,hall⟩
  | zrem hz hall =>
    obtain rfl := Except.ok.inj h
    rw [handleZRem,commit_store]
    exact (forgets_zRem s w.now k _).gone ⟨_,hz,hall⟩
  | zpopmin hargs hz hne hfew =>
    exact (forgets_zpop fromEnd_id "ZPOPMIN" hargs h).gone ⟨_,hz,hne,hfew⟩
  | zpopmax hargs hz hne hfew =>
    exact (forgets_zpop fromEnd_reverse "ZPOPMAX" hargs h).gone ⟨_,hz,hne,hfew⟩

omit [Float64 F] in
theorem MemoryStore.Forgets.kept_or {s' : MemoryStore F} {q t : Prop} (h : Forgets s s' key q)
    (ht : k=key → q → t) : s'.keyExpiry[k]?=s.keyExpiry[k]? ∨ t := by
  by_cases hkq : k=key ∧ q
  · exact .inr (ht hkq.1 hkq.2)
  · exact .inl (h.kept k fun he hq => hkq ⟨he,hq⟩)

theorem move_kept_or {src dst : Bytes} {srcLeft dstLeft : Bool}
    (hargs : MoveArgs c args src dst srcLeft dstLeft) (hexp : s.keyExpiredNonStr w.now k=false)
    (h : execute w c args s=.ok p) :
    p.2.keyExpiry[k]?=s.keyExpiry[k]? ∨ TakesLast w.now s.toMaps k c args := by
  apply (forgets_move hargs h).kept_or
  rintro rfl ⟨⟨hsrc,hdst⟩,x,hx⟩
  have hl := Maps.getList_of_guard (of_decide_eq_true hsrc) hexp
  rw [hx] at hl
  exact .move hargs hl (of_decide_eq_true hdst)

omit [Float64 F] in
theorem listPop_kept_or {cut : Nat → List Bytes → List Bytes × List Bytes} {t : Prop}
    (hcut : ∀ n l, (cut n l).2=[] ↔ l.length ≤ n) (name : String)
    (h : handlePop name (popList cut) w args s=.ok p)
    (ht : ∀ {count : Int} {withCount : Bool} {l : List Bytes}, PopArgs args k count withCount →
      s.getList w.now k=.ok (some l) → l.length ≤ count → t) :
    p.2.keyExpiry[k]?=s.keyExpiry[k]? ∨ t := by
  rcases handlePop_cases name (popList cut) w args with ⟨r,_,heq⟩ | ⟨key,count,withCount,hargs,_⟩
  · cases (heq s).symm.trans h
    exact .inl rfl
  · apply (forgets_pop hcut name hargs h).kept_or
    rintro rfl ⟨l,hl,hfew⟩
    exact ht hargs hl hfew

theorem zsetPop_kept_or {order : List (ZMember F) → List (ZMember F)} {t : Prop}
    (hord : FromEnd order) (name : String) (h : handleZPop name (popZSet order) w args s=.ok p)
    (ht : ∀ {count : Int} {withCount : Bool} {z : Map F}, PopArgs args k count withCount →
      s.getZSet w.now k=.ok (some z) → z ≠ ∅ → z.size ≤ count → t) :
    p.2.keyExpiry[k]?=s.keyExpiry[k]? ∨ t := by
  rcases handleZPop_cases name (popZSet order) w args with
    ⟨r,_,heq⟩ | ⟨key,count,withCount,hargs,_⟩
  · cases (heq s).symm.trans h
    exact .inl rfl
  · apply (forgets_zpop hord name hargs h).kept_or
    rintro rfl ⟨z,hz,hne,hfew⟩
    exact ht hargs hz hne hfew

theorem kept_or_takesLast (htake : c ∈ takingCommands)
    (hexp : s.keyExpiredNonStr w.now k=false) (h : execute w c args s=.ok p) :
    p.2.keyExpiry[k]?=s.keyExpiry[k]? ∨ TakesLast w.now s.toMaps k c args := by
  simp only [takingCommands,List.mem_cons,List.not_mem_nil,or_false] at htake
  rcases htake with rfl | rfl | rfl | rfl | rfl | rfl | rfl | rfl | rfl | rfl | rfl | rfl | rfl
  · obtain rfl := Except.ok.inj h
    unfold handleHDel
    split
    · apply (forgets_hDel s w.now _ _).kept_or
      rintro rfl ⟨hash,hh,hall⟩
      exact .hdel hh hall
    · exact .inl rfl
  · exact listPop_kept_or (fun _ _ => cutHead_eq_nil_iff) "LPOP" h .lpop
  · exact listPop_kept_or (fun _ _ => cutTail_eq_nil_iff) "RPOP" h .rpop
  · obtain rfl := Except.ok.inj h
    unfold handleLRem
    split
    · split
      · exact .inl rfl
      · rename_i hn
        rw [commit_store]
        apply (forgets_lRem (parseInt_inInt64 hn)).kept_or
        rintro rfl ⟨l,hl,hne,hall,hmin,hmany⟩
        exact .lrem hn hl hne hall hmin hmany
    · exact .inl rfl
  · obtain rfl := Except.ok.inj h
    unfold handleLTrim
    split
    · split
      · rename_i ha hb
        rw [commit_store_map]
        apply (forgets_lTrim s w.now _ _ _).kept_or
        rintro rfl ⟨l,hl,hnone⟩
        exact .ltrim ha hb hl hnone
      · exact .inl rfl
    · exact .inl rfl
  · have hp := Except.ok.inj h
    unfold handleLMove at hp
    split at hp
    · split at hp
      · rename_i ha hb
        exact move_kept_or (.lmove ha hb) hexp h
      · rw [← hp]
        exact .inl rfl
    · rw [← hp]
      exact .inl rfl
  · have hp := Except.ok.inj h
    unfold handleRPopLPush at hp
    split at hp
    · exact move_kept_or .rpoplpush hexp h
    · rw [← hp]
      exact .inl rfl
  · obtain rfl := Except.ok.inj h
    unfold handleSRem
    split
    · rw [commit_store]
      apply (forgets_sRem s w.now _ _).kept_or
      rintro rfl ⟨st,hst,hall⟩
      exact .srem hst hall
    · exact .inl rfl
  · rcases handleSPop_cases w args with ⟨r,_,heq⟩ | ⟨key,count,withCount,hargs,_⟩
    · cases (heq s).symm.trans h
      exact .inl rfl
    · apply (forgets_spop hargs h).kept_or
      rintro rfl ⟨st,hst,hfew⟩
      exact .spop hargs hst hfew
  · have hp := Except.ok.inj h
    unfold handleSMove at hp
    split at hp
    · apply (forgets_smove h).kept_or
      rintro rfl ⟨⟨hsrc,hdst⟩,st,hst,hx,hall⟩
      have hread := Maps.getSet_of_guard (of_decide_eq_true hsrc) hexp
      rw [hst] at hread
      exact .smove hread hx hall (of_decide_eq_true hdst)
    · rw [← hp]
      exact .inl rfl
  · obtain rfl := Except.ok.inj h
    unfold handleZRem
    split
    · rw [commit_store]
      apply (forgets_zRem s w.now _ _).kept_or
      rintro rfl ⟨z,hz,hall⟩
      exact .zrem hz hall
    · exact .inl rfl
  · exact zsetPop_kept_or fromEnd_id "ZPOPMIN" h .zpopmin
  · exact zsetPop_kept_or fromEnd_reverse "ZPOPMAX" h .zpopmax

/-- An element-level command after which a key is a collection leaves its deadline as it was,
exactly when it does not take out the last element on the way. -/
theorem collection_deadline_iff (w : World) (s : MemoryStore F) (k : Bytes) (v v' : Value F)
    (T : Int) (T' : Option Int) (c : WriteCommand) (args : List Bytes) (d : Dispatched F)
    (hv : s.view w.now k=some (v,some T)) (hcoll : v.type ≠ .string)
    (hcmd : c ∈ puttingCommands++takingCommands) (hc : commandOf args=some (.write c))
    (hd : dispatch w args s=.ok d) (hv' : d.store.view w.now k=some (v',T'))
    (hcoll' : v'.type ≠ .string) : T'=some T ↔ ¬TakesLast w.now s.toMaps k c args := by
  have hexec := execute_of_dispatch hc hd
  obtain ⟨hbefore,hexp⟩ := Maps.expiry_of_view hv hcoll
  obtain ⟨hafter,_⟩ := Maps.expiry_of_view hv' hcoll'
  constructor
  · rintro rfl ht
    have hgone : d.store.keyExpiry[k]?=none := ht.gone hexec
    rw [hafter] at hgone
    cases hgone
  · intro hno
    have hkept : d.store.keyExpiry[k]?=s.keyExpiry[k]? := by
      rcases List.mem_append.mp hcmd with hput | htake
      · have hall : d.store.keyExpiry=s.keyExpiry := keyExpiry_of_putting hput hexec
        rw [hall]
      · exact (kept_or_takesLast htake hexp hexec).resolve_right hno
    rw [← hafter,hkept,hbefore]

/-- A list that is turned round in place keeps its deadline. -/
theorem collection_deadline_rotation :
    let s : MemoryStore Int :=
      ((MemoryStore.new.putList (utf8 "k") [utf8 "a",utf8 "b"]).expire 0 (utf8 "k") 9).2
    ∃ d T, dispatch (World.plain 0) [utf8 "LMOVE",utf8 "k",utf8 "k",utf8 "LEFT",utf8 "RIGHT"] s=
        .ok d ∧ s.view 0 (utf8 "k")=some (.list [utf8 "a",utf8 "b"],some 9) ∧
      d.store.view 0 (utf8 "k")=some (.list [utf8 "b",utf8 "a"],T) ∧ T=some 9 := by
  intro s
  have hno : ¬TakesLast 0 s.toMaps (utf8 "k") .lmove
      [utf8 "LMOVE",utf8 "k",utf8 "k",utf8 "LEFT",utf8 "RIGHT"] := by
    intro h
    cases h with
    | move hargs hl hdst =>
      have htwo : s.getList 0 (utf8 "k")=.ok (some [utf8 "a",utf8 "b"]) := rfl
      cases htwo.symm.trans hl
  have hkept := (collection_deadline_iff (World.plain 0) s (utf8 "k")
    (.list [utf8 "a",utf8 "b"]) (.list [utf8 "b",utf8 "a"]) 9 _ .lmove
    [utf8 "LMOVE",utf8 "k",utf8 "k",utf8 "LEFT",utf8 "RIGHT"] _ rfl (by simp [Value.type])
    (by decide) (by decide) rfl rfl (by simp [Value.type])).mpr hno
  exact ⟨_,_,rfl,rfl,rfl,hkept⟩

/-- A list of one element that is turned round in place loses its deadline. -/
theorem collection_deadline_single :
    ∃ (s : MemoryStore Int) (d : Dispatched Int), Reachable s ∧
      s.view 0 (utf8 "k")=some (.list [utf8 "a"],some 1000000) ∧
      dispatch (World.plain 0) [utf8 "LMOVE",utf8 "k",utf8 "k",utf8 "LEFT",utf8 "RIGHT"] s=.ok d ∧
      d.resp=.bulkString (utf8 "a") ∧
      d.store.view 0 (utf8 "k")=some (.list [utf8 "a"],none) := by
  have hpush : Reachable (F := Int) _ :=
    .dispatch (World.plain 0) [utf8 "RPUSH",utf8 "k",utf8 "a"] .new rfl
  have hexpire : Reachable (F := Int) _ :=
    .dispatch (World.plain 0) [utf8 "PEXPIRE",utf8 "k",utf8 "1"] hpush rfl
  exact ⟨_,_,hexpire,rfl,rfl,rfl,rfl⟩

end GoRedis
