import GoRedis.Commands.Ranks
import GoRedis.Commands.WeightedStores
import GoRedis.Persistence.Echo
import GoRedis.Persistence.Reachable
import GoRedis.Storage.PlainStores
/-!
# Records that do not determine their effect

`ZUNIONSTORE` and `ZINTERSTORE` are logged with their options, which replay does not look at; `SPOP`
is logged without the members it drew, and replay draws again.
-/
namespace GoRedis
variable {F : Type} [Float64 F] {w w' : World} {s : MemoryStore F} {op : ZSetOp}
  {name dst n word : Bytes} {ks opts : List Bytes} {weights : List F}

section Typed
variable {m : Maps F} {now : Int} {k : Bytes}

theorem Maps.typeOf_of_zUnionLoop {scores r : Map F}
    (h : m.zUnionLoop now word ks weights scores=.ok r) :
    ∀ k ∈ ks, m.typeOf now k=none ∨ m.typeOf now k=some .zset := by
  induction ks generalizing weights scores with
  | nil => simp
  | cons k ks ih =>
    cases hz : m.getZSet now k with
    | error e => simp [zUnionLoop,hz] at h
    | ok oz =>
      refine List.forall_mem_cons.mpr ⟨typeOf_of_getZSet hz,?_⟩
      cases oz <;> simp only [zUnionLoop,hz] at h <;> exact ih h

theorem Maps.typeOf_of_zInterLoop {scores r : Map F}
    (h : m.zInterLoop now word ks weights scores=.ok r) :
    ∀ k ∈ ks, m.typeOf now k=none ∨ m.typeOf now k=some .zset := by
  induction ks generalizing weights scores with
  | nil => simp
  | cons k ks ih =>
    cases hz : m.getZSet now k with
    | error e => simp [zInterLoop,hz] at h
    | ok oz =>
      simp only [zInterLoop,hz] at h
      exact List.forall_mem_cons.mpr ⟨typeOf_of_getZSet hz,ih h⟩

omit [Float64 F] in
theorem MemoryStore.storeScores_isOk {scores : Except StoreError (Map F)}
    {p : Nat × MemoryStore F} (h : s.storeScores dst scores=.ok p) : ∃ r, scores=.ok r := by
  cases scores with
  | error e => cases h
  | ok r => exact ⟨r,rfl⟩

theorem ZSetOp.typeOf_of_run {p : Nat × MemoryStore F}
    (h : op.run s now dst ks weights word=.ok p) :
    ∀ k ∈ ks, s.typeOf now k=none ∨ s.typeOf now k=some .zset := by
  cases op with
  | union =>
    obtain ⟨r,hr⟩ := MemoryStore.storeScores_isOk h
    exact Maps.typeOf_of_zUnionLoop hr
  | inter =>
    cases ks with
    | nil => simp
    | cons k ks =>
      cases hz : s.getZSet now k with
      | error e => simp [run,MemoryStore.zInterStore,hz] at h
      | ok oz =>
        rw [run,zInterStore_eq hz] at h
        obtain ⟨r,hr⟩ := MemoryStore.storeScores_isOk h
        exact List.forall_mem_cons.mpr ⟨Maps.typeOf_of_getZSet hz,Maps.typeOf_of_zInterLoop hr⟩

omit [Float64 F] in
theorem Maps.zsetAt_congr {now' : Int} (h : m.typeOf now' k=m.typeOf now k) :
    m.zsetAt now' k=m.zsetAt now k := by
  rw [zsetAt,zsetAt,getZSet,getZSet,h]

theorem ZSetOp.score_congr {now' : Int} {agg : Aggregate} {srcs : List (Bytes × F)} {x : Bytes}
    (h : ∀ k ∈ srcs.map Prod.fst, m.zsetAt now' k=m.zsetAt now k) :
    op.score agg m now' srcs x=op.score agg m now srcs x := by
  have hkeep : op.Keeps (m.zsetAt now') (srcs.map Prod.fst) x ↔
      op.Keeps (m.zsetAt now) (srcs.map Prod.fst) x := by
    cases op with
    | union => exact exists_congr fun k => and_congr_right fun hk => by rw [h k hk]
    | inter => exact forall₂_congr fun k hk => by rw [h k hk]
  have hvalues : m.weighted now' srcs x=m.weighted now srcs x := by
    apply List.filterMap_congr
    intro p hp
    rw [h p.1 (List.mem_map_of_mem hp)]
  unfold score
  rw [hvalues]
  simp only [hkeep]

end Typed

theorem StoreRequest.replay (h : StoreRequest op name dst n ks opts weights word) (w' : World)
    (s : MemoryStore F) : applyCommand w' (name::dst::n::(ks++opts)) s=
      done (dropError s (op.run s w'.now dst ks [] (utf8 "SUM"))) := by
  obtain ⟨k,ks',hks⟩ := List.exists_cons_of_ne_nil h.keys
  have hzstore : ∀ (shape invalid : String) (run : ZStore F),
      replayZStore shape invalid run w' (name::dst::n::(ks++opts)) s=
        done (dropError s (run s w'.now dst ks [] (utf8 "SUM"))) := by
    intro shape invalid run
    have htake : (ks++opts).take ks.length=ks := List.take_left
    have hcons : ks++opts=k::(ks'++opts) := by rw [hks,List.cons_append]
    rw [hcons] at htake ⊢
    unfold replayZStore
    dsimp only
    rw [h.numkeys]
    dsimp only
    rw [h.wrap_numkeys,if_neg,if_neg (by omega),Int.toNat_natCast,htake]
    simp only [List.length_cons,List.length_append]
    rw [hks,List.length_cons]
    omega
  rw [applyCommand_of_lookup h.command]
  cases op with
  | union => exact hzstore _ _ _
  | inter => exact hzstore _ _ _

theorem scoresRow_inj {a b : Map F} :
    (if a=∅ then (Row.absent : Row F) else { (Row.absent : Row F) with zset := some a })=
      (if b=∅ then .absent else { (Row.absent : Row F) with zset := some b }) ↔ a=b := by
  constructor
  · intro h
    have hzset : ∀ c : Map F, ((if c=∅ then (Row.absent : Row F) else
        { (Row.absent : Row F) with zset := some c }).zset).getD ∅=c := by
      intro c
      split_ifs with hc
      · exact hc.symm
      · rfl
    rw [← hzset a,h,hzset]
  · rintro rfl
    rfl

/-- The command and the replay of its record, on stores with the same sorted sets, leave the same
destination if they agree on the scores. -/
theorem StoreRequest.live_replay [ExactArithmetic F]
    (h : StoreRequest op name dst n ks opts weights word) (w w' : World)
    (hks : ∀ k ∈ ks, s.typeOf w.now k=none ∨ s.typeOf w.now k=some .zset)
    (hsame : ∀ k ∈ ks, s.typeOf w'.now k=s.typeOf w.now k) :
    ∃ (d : Dispatched F) (s' : MemoryStore F) (live redo : Map F),
      dispatch w (name::dst::n::(ks++opts)) s=.ok d ∧ d.resp.isError=false ∧
      d.records=[name::dst::n::(ks++opts)] ∧
      applyCommand w' (name::dst::n::(ks++opts)) s=done s' ∧
      (∀ x : Bytes, live[x]?=
        op.score (Aggregate.ofWord word) s.toMaps w.now (sources ks weights) x) ∧
      (∀ x : Bytes, redo[x]?=op.score .sum s.toMaps w.now (plain (sources ks weights)) x) ∧
      (s'.toMaps.row dst=d.store.toMaps.row dst ↔ redo=live) := by
  have hks' : ∀ k ∈ ks, s.typeOf w'.now k=none ∨ s.typeOf w'.now k=some .zset := by
    intro k hk
    rw [hsame k hk]
    exact hks k hk
  obtain ⟨d,live,hd,hlive,hstore,hresp,hrecords⟩ := h.stores w hks
  obtain ⟨redo,hrun',hredo⟩ := op.run_eq dst (utf8 "SUM") ([] : List F) hks' h.keys
  obtain ⟨s₁,hstore₁,hrow,_⟩ := ZSetOp.storeScores_ok s dst live
  obtain ⟨s₂,hstore₂,hrow',_⟩ := ZSetOp.storeScores_ok s dst redo
  have hs₁ : d.store=s₁ := congrArg Prod.snd (Except.ok.inj (hstore.symm.trans hstore₁))
  refine ⟨d,s₂,live,redo,hd,?_,hrecords,?_,hlive,fun x => ?_,?_⟩
  · rw [hresp]
    rfl
  · rw [h.replay,hrun',hstore₂]
    rfl
  · have hword : Aggregate.ofWord (utf8 "SUM")=.sum := by decide
    rw [hredo,hword,← sources_nil]
    apply ZSetOp.score_congr
    rw [map_fst_sources]
    exact fun k hk => Maps.zsetAt_congr (hsame k hk)
  · rw [hs₁,hrow,hrow',scoresRow_inj]

/-- The record of a weighted store leaves on every store what the command has left if and only if
its weights and its aggregate make no difference. -/
theorem weighted_store_replays_iff [ExactArithmetic F] (op : ZSetOp) (name dst n : Bytes)
    (ks opts : List Bytes) (weights : List F) (word : Bytes)
    (hreq : StoreRequest op name dst n ks opts weights word) :
    (∀ (w w' : World) (s : MemoryStore F) (d : Dispatched F),
      dispatch w (name::dst::n::(ks++opts)) s=.ok d → d.resp.isError=false →
      (∀ k ∈ ks, s.typeOf w'.now k=s.typeOf w.now k) →
      d.records=[name::dst::n::(ks++opts)] ∧
      ∃ s', applyCommand w' (name::dst::n::(ks++opts)) s=done s' ∧
        s'.toMaps.row dst=d.store.toMaps.row dst) ↔
    (Aggregate.ofWord word).Harmless (sources ks weights) := by
  constructor
  · intro h
    have hne : sources ks weights ≠ [] := by
      intro hnil
      apply hreq.keys
      rw [← map_fst_sources ks weights,hnil]
      rfl
    apply harmless_of_probe hne
    intro f
    have htyped : ∀ k ∈ ks, (probe f ks).typeOf 0 k=none ∨ (probe f ks).typeOf 0 k=some .zset :=
      fun k hk => .inr (typeOf_probe 0 hk)
    obtain ⟨d,s',live,redo,hd,herr,_,happly,hlive,hredo,hrow⟩ :=
      hreq.live_replay (World.plain 0) (World.plain 0) htyped fun _ _ => rfl
    obtain ⟨_,s'',happly',hrow'⟩ := h _ (World.plain 0) _ d hd herr fun _ _ => rfl
    have hs : s''=s' := Except.ok.inj (Except.ok.inj (happly'.symm.trans happly))
    rw [hs] at hrow'
    have hscore := congrArg (fun z : Map F => z[([] : Bytes)]?) (hrow.mp hrow')
    have hkeys := map_fst_sources ks weights
    have hkeys' := (map_fst_plain (sources ks weights)).trans hkeys
    rw [hlive,hredo,score_probe op _ f _ hkeys' hreq.keys,
      score_probe op _ f _ hkeys hreq.keys] at hscore
    exact hscore.symm
  · intro hharm w w' s d hd herr hsame
    obtain ⟨d₀,hd₀,hcommit,_⟩ := hreq.dispatch_eq w s
    cases hd₀.symm.trans hd
    cases hrun : op.run s w.now dst ks weights word with
    | error e =>
      rw [hrun,commit_error] at hcommit
      have hresp : d.resp=.error e.text := congrArg Prod.fst hcommit
      rw [hresp] at herr
      cases herr
    | ok p =>
      obtain ⟨d₁,s',live,redo,hd₁,_,hrecords,happly,hlive,hredo,hrow⟩ :=
        hreq.live_replay w w' (ZSetOp.typeOf_of_run hrun) hsame
      cases hd₁.symm.trans hd
      refine ⟨hrecords,s',happly,hrow.mpr (Map.ext_scores fun x => ?_)⟩
      rw [hlive,hredo,score_plain op hharm]

/-- A key listed twice, with weights 0 and 2. -/
theorem weighted_store_replays_twice :
    ∃ (d : Dispatched Int) (s' : MemoryStore Int),
      dispatch (World.plain 0) [utf8 "ZUNIONSTORE",utf8 "d",utf8 "2",utf8 "a",utf8 "a",
        utf8 "WEIGHTS",utf8 "0",utf8 "2"]
        (MemoryStore.new.putZSet (utf8 "a") ((∅ : Map Int).insert (utf8 "x") 7))=.ok d ∧
      d.resp=.integer 1 ∧
      applyCommand (World.plain 5) [utf8 "ZUNIONSTORE",utf8 "d",utf8 "2",utf8 "a",utf8 "a",
        utf8 "WEIGHTS",utf8 "0",utf8 "2"]
        (MemoryStore.new.putZSet (utf8 "a") ((∅ : Map Int).insert (utf8 "x") 7))=done s' ∧
      s'.toMaps.row (utf8 "d")=d.store.toMaps.row (utf8 "d") := by
  have hreq : StoreRequest (F := Int) .union (utf8 "ZUNIONSTORE") (utf8 "d") (utf8 "2")
      [utf8 "a",utf8 "a"] [utf8 "WEIGHTS",utf8 "0",utf8 "2"] [0,2] (utf8 "SUM") :=
    ⟨by decide,by decide,by decide,by decide,rfl⟩
  have hharm : (Aggregate.ofWord (utf8 "SUM")).Harmless
      (sources [utf8 "a",utf8 "a"] [(0:Int),2]) := by
    intro k
    by_cases hk : utf8 "a"=k <;> simp [sources,hk]
  obtain ⟨d,hd,hcommit,_⟩ := hreq.dispatch_eq (World.plain 0)
    (MemoryStore.new.putZSet (utf8 "a") ((∅ : Map Int).insert (utf8 "x") 7))
  have hresp : d.resp=.integer 1 := congrArg Prod.fst hcommit
  obtain ⟨_,s',hs',hrow⟩ := (weighted_store_replays_iff .union (utf8 "ZUNIONSTORE") (utf8 "d")
    (utf8 "2") [utf8 "a",utf8 "a"] [utf8 "WEIGHTS",utf8 "0",utf8 "2"] [(0:Int),2] (utf8 "SUM")
    hreq).mpr hharm (World.plain 0) (World.plain 5) _ d hd (by rw [hresp]; rfl) fun _ _ => rfl
  exact ⟨d,s',hd,hresp,hs',hrow⟩

/-- A weight of 2 is lost. -/
theorem weighted_store_loses_weight :
    ∃ (s s' : MemoryStore Int) (d : Dispatched Int), Reachable s ∧
      dispatch (World.plain 0) [utf8 "ZUNIONSTORE",utf8 "d",utf8 "1",utf8 "a",utf8 "WEIGHTS",
        utf8 "2"] s=.ok d ∧
      d.records=[[utf8 "ZUNIONSTORE",utf8 "d",utf8 "1",utf8 "a",utf8 "WEIGHTS",utf8 "2"]] ∧
      applyCommand (World.plain 0) [utf8 "ZUNIONSTORE",utf8 "d",utf8 "1",utf8 "a",utf8 "WEIGHTS",
        utf8 "2"] s=done s' ∧
      d.store.zScore 0 (utf8 "d") (utf8 "x")=.ok (some 2) ∧
      s'.zScore 0 (utf8 "d") (utf8 "x")=.ok (some 1) := by
  have hadd : Reachable (F := Int) _ :=
    .dispatch (World.plain 0) [utf8 "ZADD",utf8 "a",utf8 "1",utf8 "x"] .new rfl
  have hreq : StoreRequest (F := Int) .union (utf8 "ZUNIONSTORE") (utf8 "d") (utf8 "1") [utf8 "a"]
      [utf8 "WEIGHTS",utf8 "2"] [2] (utf8 "SUM") := ⟨by decide,by decide,by decide,by decide,rfl⟩
  obtain ⟨d,hd,hcommit,hrecords⟩ := hreq.dispatch_eq (World.plain 0) _
  have hresp := congrArg Prod.fst hcommit
  have hstore := congrArg Prod.snd hcommit
  refine ⟨_,_,d,hadd,hd,?_,hreq.replay (World.plain 0) _,?_,?_⟩
  · rw [hrecords,show d.resp=_ from hresp]
    rfl
  · rw [show d.store=_ from hstore]
    rfl
  · rfl

section Pop
variable {args : List Bytes} {key : Bytes} {count : Int} {withCount : Bool} {st : KeySet}

/-- What a draw takes. -/
def drawn (w : World) (st : KeySet) (count : Int) : List Bytes :=
  (w.shuffle (w.rangeOrder st.toList)).take count.toNat

/-- What is left of a set after a draw; a set that is drawn as a whole is removed. -/
def undrawn (w : World) (st : KeySet) (count : Int) : Option KeySet :=
  if st.size ≤ count then none
  else some ((drawn w st count).foldl (fun acc x => acc.erase x) st)

omit [Float64 F] in
theorem MemoryStore.sPop_eq (h : s.getSet w.now key=.ok (some st)) (hcount : 0 ≤ count) :
    ∃ l s', s.sPop w key count=.ok (.ok (l,s')) ∧ s'.sets[key]?=undrawn w st count ∧
      l.length=min st.size count.toNat := by
  have hlen : (w.rangeOrder st.toList).length=st.size :=
    (w.rangeOrder_perm _).length_eq.trans Std.ExtTreeSet.length_toList
  have hshuffle : (w.shuffle (w.rangeOrder st.toList)).length=st.size :=
    (w.shuffle_perm _).length_eq.trans hlen
  simp only [sPop,h,hlen,undrawn]
  split_ifs with hall hneg
  · refine ⟨_,_,rfl,?_,?_⟩
    · simp [dropSet]
    · omega
  · omega
  · refine ⟨_,_,rfl,?_,?_⟩
    · simp [putSet,drawn]
    · rw [List.length_take,hshuffle,min_comm]

theorem spop_live_replay (w w' : World) (hname : commandOf args=some (.write .spop))
    (hargs : PopArgs args key count withCount) (hset : s.getSet w.now key=.ok (some st))
    (hset' : s.getSet w'.now key=.ok (some st)) :
    ∃ (d : Dispatched F) (s' : MemoryStore F), dispatch w args s=.ok d ∧
      (st ≠ ∅ → d.records=[args]) ∧ d.store.sets[key]?=undrawn w st count ∧
      applyCommand w' args s=done s' ∧ s'.sets[key]?=undrawn w' st count := by
  obtain ⟨l,s₁,hpop,hleft,hlen⟩ := MemoryStore.sPop_eq hset hargs.nonneg
  obtain ⟨l',s₂,hpop',hleft',_⟩ := MemoryStore.sPop_eq hset' hargs.nonneg
  have hrun : execute w .spop args s=.ok (membersReply withCount l,s₁) := by
    rw [execute,handleSPop_of_popArgs hargs,hpop]
    rfl
  have hreplay : applyCommand w' args s=done s₂ := by
    cases args with
    | nil => cases hname
    | cons name rest =>
      rw [applyCommand_of_lookup hname,applyWrite,replayPop_of_popArgs hargs,hpop']
      rfl
  refine ⟨_,s₂,(dispatch_write hname w s).trans (by rw [hrun]; rfl),?_,hleft,hreplay,hleft'⟩
  intro hne
  have hnull : (membersReply withCount l).isNullBulk=false := by
    cases withCount with
    | true => rfl
    | false =>
      have hsize : st.size ≠ 0 := fun h => hne (Std.ExtTreeSet.eq_empty_iff_size_eq_zero.mpr h)
      have hone : l.length=1 := by
        rw [hlen,hargs.eq_one]
        omega
      obtain ⟨x,rfl⟩ := List.length_eq_one_iff.mp hone
      rfl
  dsimp only
  rw [membersReply_isError,appendToAOF,hnull]
  rfl

/-- Plain surroundings in which a shuffle moves the first element to the end. -/
def World.rotating (now : Int) : World :=
  { World.plain now with
    shuffle := fun l => l.rotate 1
    shuffle_perm := fun l => List.rotate_perm l 1 }

theorem undrawn_rotating (hpos : 0 < count) (hlt : count < st.size) (now now' : Int) :
    undrawn (World.plain now) st count ≠ undrawn (World.rotating now') st count := by
  have hlen : st.toList.length=st.size := Std.ExtTreeSet.length_toList
  have hnodup := KeySet.nodup_toList st
  cases hl : st.toList with
  | nil =>
    rw [hl,List.length_nil] at hlen
    omega
  | cons a t =>
    rw [hl] at hlen hnodup
    rw [List.length_cons] at hlen
    have ha : a ∈ st := by
      rw [← Std.ExtTreeSet.mem_toList,hl]
      exact List.mem_cons_self
    have hfirst : a ∈ drawn (World.plain now) st count := by
      have hcount : count.toNat=(count.toNat-1)+1 := by omega
      have hdrawn : drawn (World.plain now) st count=(st.toList).take count.toNat := rfl
      rw [hdrawn,hl,hcount,List.take_succ_cons]
      exact List.mem_cons_self
    have hlast : a ∉ drawn (World.rotating now') st count := by
      have hdrawn : drawn (World.rotating now') st count=
          (st.toList.rotate 1).take count.toNat := rfl
      rw [hdrawn,hl,List.rotate_cons_succ,List.rotate_zero,List.take_append_of_le_length (by omega)]
      exact fun h => (List.nodup_cons.mp hnodup).1 (List.mem_of_mem_take h)
    intro heq
    rw [undrawn,undrawn,if_neg (by omega),if_neg (by omega),Option.some.injEq] at heq
    have hmem := (KeySet.mem_foldl_erase (drawn (World.rotating now') st count) st a).mpr ⟨ha,hlast⟩
    rw [← heq,KeySet.mem_foldl_erase] at hmem
    exact hmem.2 hfirst

/-- Two draws from a set leave the same whatever the shuffles if and only if they take nothing or
everything. -/
theorem spop_replays_iff (s : MemoryStore F) (args : List Bytes) (key : Bytes) (count : Int)
    (withCount : Bool) (st : KeySet) (now now' : Int)
    (hname : commandOf args=some (.write .spop)) (hargs : PopArgs args key count withCount)
    (hset : s.getSet now key=.ok (some st)) (hset' : s.getSet now' key=.ok (some st)) :
    (∀ (w w' : World) (d : Dispatched F), w.now=now → w'.now=now' → dispatch w args s=.ok d →
      (st ≠ ∅ → d.records=[args]) ∧
      ∃ s', applyCommand w' args s=done s' ∧ s'.sets[key]?=d.store.sets[key]?) ↔
    count=0 ∨ st.size ≤ count := by
  constructor
  · intro h
    by_contra hcon
    have hpos := hargs.nonneg
    obtain ⟨d,s',hd,_,hleft,hreplay,hleft'⟩ :=
      spop_live_replay (World.plain now) (World.rotating now') hname hargs hset hset'
    obtain ⟨_,s'',hreplay',hsame⟩ := h (World.plain now) (World.rotating now') d rfl rfl hd
    have hs : s''=s' := Except.ok.inj (Except.ok.inj (hreplay'.symm.trans hreplay))
    rw [hs,hleft,hleft'] at hsame
    exact undrawn_rotating (by omega) (by omega) now now' hsame.symm
  · intro hcount w w' d hw hw' hd
    subst hw hw'
    obtain ⟨d₀,s',hd₀,hrecords,hleft,hreplay,hleft'⟩ :=
      spop_live_replay w w' hname hargs hset hset'
    cases hd₀.symm.trans hd
    refine ⟨hrecords,s',hreplay,?_⟩
    rw [hleft,hleft']
    unfold undrawn drawn
    rcases hcount with rfl | hall
    · rfl
    · rw [if_pos hall,if_pos hall]

/-- More members are asked for than there are. -/
theorem spop_replays_all :
    ∃ (d : Dispatched Int) (s' : MemoryStore Int),
      dispatch (World.plain 0) [utf8 "SPOP",utf8 "s",utf8 "5"] (MemoryStore.new.putSet (utf8 "s")
        (((∅ : KeySet).insert (utf8 "a")).insert (utf8 "b")))=.ok d ∧
      applyCommand (World.rotating 7) [utf8 "SPOP",utf8 "s",utf8 "5"]
        (MemoryStore.new.putSet (utf8 "s")
          (((∅ : KeySet).insert (utf8 "a")).insert (utf8 "b")))=done s' ∧
      s'.sets[utf8 "s"]?=d.store.sets[utf8 "s"]? := by
  have hargs : PopArgs [utf8 "SPOP",utf8 "s",utf8 "5"] (utf8 "s") 5 true :=
    .counted (by decide) (by decide)
  obtain ⟨_,s',hs',hset⟩ := (spop_replays_iff (F := Int)
    (MemoryStore.new.putSet (utf8 "s") (((∅ : KeySet).insert (utf8 "a")).insert (utf8 "b")))
    [utf8 "SPOP",utf8 "s",utf8 "5"] (utf8 "s") 5 true
    (((∅ : KeySet).insert (utf8 "a")).insert (utf8 "b")) 0 7 (by decide) hargs rfl rfl).mpr
    (.inr (by decide)) (World.plain 0) (World.rotating 7) _ rfl rfl rfl
  exact ⟨_,s',rfl,hs',hset⟩

/-- One of two members is drawn, and the other one in replay. -/
theorem spop_draws_again :
    ∃ (s s' : MemoryStore Int) (d : Dispatched Int), Reachable s ∧
      dispatch (World.plain 0) [utf8 "SPOP",utf8 "s"] s=.ok d ∧
      d.records=[[utf8 "SPOP",utf8 "s"]] ∧
      applyCommand (World.rotating 0) [utf8 "SPOP",utf8 "s"] s=done s' ∧
      Answers (World.plain 0) [utf8 "SMEMBERS",utf8 "s"] d.store (.bulks [utf8 "b"]) ∧
      Answers (World.plain 0) [utf8 "SMEMBERS",utf8 "s"] s' (.bulks [utf8 "a"]) := by
  have hadd : Reachable (F := Int) _ :=
    .dispatch (World.plain 0) [utf8 "SADD",utf8 "s",utf8 "a",utf8 "b"] .new rfl
  exact ⟨_,_,_,hadd,rfl,rfl,rfl,rfl,rfl⟩

end Pop
end GoRedis
