import GoRedis.Commands.Router
import GoRedis.Storage.WeightedStores
/-!
# `ZUNIONSTORE` and `ZINTERSTORE`
-/
namespace GoRedis
variable {F : Type} [Float64 F] {w : World} {s : MemoryStore F} {op : ZSetOp}
  {name dst n word : Bytes} {ks opts : List Bytes} {weights : List F}

/-- The command of the operation. -/
def ZSetOp.command : ZSetOp → WriteCommand
  | union => .zunionstore
  | inter => .zinterstore

/-- The request names a destination, its keys and options the option loop reads. -/
structure StoreRequest (op : ZSetOp) (name dst n : Bytes) (ks opts : List Bytes) (weights : List F)
    (word : Bytes) : Prop where
  command : commandOf (name::dst::n::(ks++opts))=some (.write op.command)
  number : parseInt n=some (ks.length:Int)
  keys : ks ≠ []
  /-- The length of a slice is an `int`. -/
  size : InInt64 (name::dst::n::(ks++opts)).length
  options : zstoreOptions ks.length 0 opts (List.replicate ks.length 1) (utf8 "SUM")=
    .ok (weights,word)

namespace StoreRequest

theorem numkeys (h : StoreRequest op name dst n ks opts weights word) :
    (parseInt n).filter (fun n => 1 ≤ n)=some (ks.length:Int) := by
  have hone : 1 ≤ (ks.length:Int) := by
    have hpos := List.length_pos_of_ne_nil h.keys
    omega
  rw [h.number]
  simp [Option.filter,hone]

theorem wrap_numkeys (h : StoreRequest op name dst n ks opts weights word) :
    wrap64 (3+ks.length)=3+ks.length := by
  have hsize := h.size
  apply wrap64_of_inInt64
  simp only [List.length_cons,List.length_append] at hsize
  unfold InInt64 at *
  omega

theorem of_handle {title : String} {run : ZStore F} {args : List Bytes}
    {p : Response × MemoryStore F} (hc : commandOf args=some (.write op.command))
    (hsize : InInt64 args.length) (hrun : handleZSetStore title run w args s=.ok p)
    (he : p.1.isError=false) : ∃ name dst n ks opts, ∃ (weights : List F) (word : Bytes),
      args=name::dst::n::(ks++opts) ∧ StoreRequest op name dst n ks opts weights word := by
  unfold handleZSetStore at hrun
  split at hrun
  · rename_i name dst num a rest
    split at hrun
    · cases hrun
      cases he
    · rename_i numkeys hnum
      obtain ⟨hparse,hpos⟩ := Option.filter_eq_some_iff.mp hnum
      have hone : 1 ≤ numkeys := by simpa using hpos
      have hint := parseInt_inInt64 hparse
      split_ifs at hrun with hshort hwrap
      · cases hrun
        cases he
      · dsimp only at hrun
        split at hrun
        · rename_i hopts
          cases hrun
          rw [zstoreOptions_error hopts] at he
          cases he
        · rename_i weights word hopts
          -- a sum that wraps is negative, so it is the exact one and there are enough arguments
          have hlen : numkeys.toNat ≤ (a::rest).length := by
            unfold wrap64 at hshort hwrap
            unfold InInt64 at hint
            simp only [List.length_cons] at hshort ⊢
            omega
          have htake : ((a::rest).take numkeys.toNat).length=numkeys.toNat := by
            rw [List.length_take,min_eq_left hlen]
          have hargs : (a::rest).take numkeys.toNat++(a::rest).drop numkeys.toNat=a::rest :=
            List.take_append_drop _ _
          refine ⟨name,dst,num,(a::rest).take numkeys.toNat,(a::rest).drop numkeys.toNat,weights,
            word,by rw [hargs],?_⟩
          constructor
          · rw [hargs]
            exact hc
          · rw [htake,Int.toNat_of_nonneg (by omega)]
            exact hparse
          · rw [← List.length_pos_iff,htake]
            omega
          · rw [hargs]
            exact hsize
          · rw [htake]
            exact hopts
  · cases hrun
    cases he

theorem handle (h : StoreRequest op name dst n ks opts weights word) (title : String)
    (run : ZStore F) (w : World) (s : MemoryStore F) :
    handleZSetStore title run w (name::dst::n::(ks++opts)) s=
      .ok (commit s (fun n : Nat => .integer n) (run s w.now dst ks weights word)) := by
  obtain ⟨k,ks',hks⟩ := List.exists_cons_of_ne_nil h.keys
  have hopts := h.options
  have hdrop : (ks++opts).drop ks.length=opts := List.drop_left
  have htake : (ks++opts).take ks.length=ks := List.take_left
  have hcons : ks++opts=k::(ks'++opts) := by rw [hks,List.cons_append]
  rw [hcons] at hdrop htake ⊢
  unfold handleZSetStore
  dsimp only
  rw [h.numkeys]
  dsimp only
  rw [h.wrap_numkeys,if_neg,if_neg (by omega),Int.toNat_natCast,hdrop,hopts,htake]
  simp only [List.length_cons,List.length_append]
  rw [hks,List.length_cons]
  omega

theorem dispatch_eq (h : StoreRequest op name dst n ks opts weights word) (w : World)
    (s : MemoryStore F) :
    ∃ d, dispatch w (name::dst::n::(ks++opts)) s=.ok d ∧
      (d.resp,d.store)=commit s (fun n : Nat => .integer n)
        (op.run s w.now dst ks weights word) ∧
      d.records=if d.resp.isError then [] else [name::dst::n::(ks++opts)] := by
  rw [dispatch_write h.command]
  cases op with
  | union =>
    have hrun : execute w (ZSetOp.union).command (name::dst::n::(ks++opts)) s=
        .ok (commit s (fun n : Nat => .integer n) (ZSetOp.union.run s w.now dst ks weights word)) :=
      h.handle _ _ w s
    rw [hrun]
    exact ⟨_,rfl,rfl,rfl⟩
  | inter =>
    have hrun : execute w (ZSetOp.inter).command (name::dst::n::(ks++opts)) s=
        .ok (commit s (fun n : Nat => .integer n) (ZSetOp.inter.run s w.now dst ks weights word)) :=
      h.handle _ _ w s
    rw [hrun]
    exact ⟨_,rfl,rfl,rfl⟩

theorem stores [ExactArithmetic F] (h : StoreRequest op name dst n ks opts weights word) (w : World)
    (hks : ∀ k ∈ ks, s.typeOf w.now k=none ∨ s.typeOf w.now k=some .zset) :
    ∃ (d : Dispatched F) (scores : Map F), dispatch w (name::dst::n::(ks++opts)) s=.ok d ∧
      (∀ x : Bytes, scores[x]?=
        op.score (Aggregate.ofWord word) s.toMaps w.now (sources ks weights) x) ∧
      s.storeScores dst (.ok scores)=.ok (scores.size,d.store) ∧ d.resp=.integer scores.size ∧
      d.records=[name::dst::n::(ks++opts)] := by
  obtain ⟨scores,hrun,hscores⟩ := op.run_eq dst word weights hks h.keys
  obtain ⟨s',hstore,_,_⟩ := ZSetOp.storeScores_ok s dst scores
  obtain ⟨d,hd,hcommit,hrecords⟩ := h.dispatch_eq w s
  rw [hrun,hstore] at hcommit
  have hresp : d.resp=.integer scores.size := congrArg Prod.fst hcommit
  have hs' : d.store=s' := congrArg Prod.snd hcommit
  refine ⟨d,scores,hd,hscores,?_,hresp,?_⟩
  · rw [hs',hstore]
  · rw [hrecords,hresp]
    rfl

end StoreRequest

omit [Float64 F] in
theorem Map.ext_scores {z z' : Map F} (h : ∀ x : Bytes, z[x]?=z'[x]?) : z=z' :=
  Std.ExtTreeMap.ext_getElem? fun {x} => h x

/-- The destination holds the members of some, or of all, of the listed keys with the aggregates of
their weighted scores, or is removed when there are none; the reply is their number, and the order
of the keys does not matter. -/
theorem weighted_store_exact [ExactArithmetic F] (w : World) (s : MemoryStore F) (op : ZSetOp)
    (name dst n : Bytes) (ks opts : List Bytes) (weights : List F) (word : Bytes)
    (hreq : StoreRequest op name dst n ks opts weights word)
    (hks : ∀ k ∈ ks, s.typeOf w.now k=none ∨ s.typeOf w.now k=some .zset) :
    ∃ (d : Dispatched F) (scores : Map F), dispatch w (name::dst::n::(ks++opts)) s=.ok d ∧
      (∀ x : Bytes, scores[x]?=
        op.score (Aggregate.ofWord word) s.toMaps w.now (sources ks weights) x) ∧
      d.resp=.integer scores.size ∧
      d.store.toMaps.row dst=
        (if scores=∅ then .absent else { (Row.absent : Row F) with zset := some scores }) ∧
      (∀ j, j ≠ dst → d.store.slot j=s.slot j) ∧
      ∀ name' n' ks' opts' (weights' : List F) word',
        StoreRequest op name' dst n' ks' opts' weights' word' →
        Aggregate.ofWord word'=Aggregate.ofWord word →
        (sources ks' weights').Perm (sources ks weights) →
        ∃ d', dispatch w (name'::dst::n'::(ks'++opts')) s=.ok d' ∧ d'.resp=d.resp ∧
          d'.store=d.store := by
  obtain ⟨d,scores,hd,hscores,hstore,hresp,_⟩ := hreq.stores w hks
  obtain ⟨s',hstore',hrow,hothers⟩ := ZSetOp.storeScores_ok s dst scores
  have hs' : d.store=s' := congrArg Prod.snd (Except.ok.inj (hstore.symm.trans hstore'))
  refine ⟨d,scores,hd,hscores,hresp,hs' ▸ hrow,hs' ▸ hothers,?_⟩
  intro name' n' ks' opts' weights' word' hreq' hword hperm
  have hks' : ∀ k ∈ ks', s.typeOf w.now k=none ∨ s.typeOf w.now k=some .zset := by
    intro k hk
    apply hks
    rw [← map_fst_sources ks' weights'] at hk
    rw [← map_fst_sources ks weights]
    exact (hperm.map Prod.fst).mem_iff.mp hk
  obtain ⟨d',scores',hd',hscores',hstore'',hresp',_⟩ := hreq'.stores w hks'
  have hsame : scores'=scores := by
    apply Map.ext_scores
    intro x
    rw [hscores,hscores',hword,op.score_perm _ hperm]
  subst hsame
  have hboth := Except.ok.inj (hstore''.symm.trans hstore)
  exact ⟨d',hd',hresp'.trans hresp.symm,congrArg Prod.snd hboth⟩

/-- A key listed twice, with weights 2 and 3, stored over itself. -/
theorem weighted_store_exact_twice :
    ∃ (d : Dispatched Int) (scores : Map Int), dispatch (World.plain 0) [utf8 "ZUNIONSTORE",
        utf8 "z",utf8 "2",utf8 "z",utf8 "z",utf8 "WEIGHTS",utf8 "2",utf8 "3"]
        (MemoryStore.new.putZSet (utf8 "z") ((∅ : Map Int).insert (utf8 "a") 7))=.ok d ∧
      d.store.zsets[utf8 "z"]?=some scores ∧ scores[utf8 "a"]?=some 35 := by
  obtain ⟨d,scores,hd,hscores,_,hrow,_⟩ := weighted_store_exact (World.plain 0)
    (MemoryStore.new.putZSet (utf8 "z") ((∅ : Map Int).insert (utf8 "a") 7)) .union
    (utf8 "ZUNIONSTORE") (utf8 "z") (utf8 "2") [utf8 "z",utf8 "z"]
    [utf8 "WEIGHTS",utf8 "2",utf8 "3"] [2,3] (utf8 "SUM")
    ⟨by decide,by decide,by decide,by decide,rfl⟩ (by decide)
  have ha : scores[utf8 "a"]?=some 35 := (hscores (utf8 "a")).trans (by decide)
  have hne : scores ≠ ∅ := by
    rintro rfl
    simp at ha
  rw [if_neg hne] at hrow
  exact ⟨d,scores,hd,congrArg Row.zset hrow,ha⟩

end GoRedis
