import GoRedis.Persistence.Unlogged
import GoRedis.Storage.TimeFree
/-!
# Records that repeat the request

Most commands are logged as they came, and `applyCommand` has a case for each of them that
was written apart from the handler. Here the two are compared: whenever the handler did not
reply with an error, both run the same change of the store, the handler on the live store
and replay on whatever store it has got so far.
-/
namespace GoRedis
variable {F : Type}

/-- The handler took `s` to `s'` by a change that `redo` makes to every store; without
deadlines it is the same change at every instant. -/
def Echo (w : World) (s s' : MemoryStore F) (redo : World → MemoryStore F → Applied F) : Prop :=
  ∃ eff, s'=eff w s ∧ (∀ w' r, redo w' r=done (eff w' r)) ∧ Timeless eff

theorem commit_snd {α : Type} (s : MemoryStore F) (f : α → Response)
    (r : Except StoreError (α × MemoryStore F)) : (commit s f r).2=dropError s r := by
  cases r <;> rfl

theorem Echo.of_commit {α : Type} {w : World} {s s' : MemoryStore F} {resp : Response}
    {f : α → Response} {redo : World → MemoryStore F → Applied F}
    (op : World → MemoryStore F → Except StoreError (α × MemoryStore F))
    (hrun : commit s f (op w s)=(resp,s'))
    (hredo : ∀ w' r, redo w' r=done (dropError r (op w' r)))
    (hop : Timeless fun w s => dropError s (op w s)) : Echo w s s' redo := by
  refine ⟨fun w s => dropError s (op w s),?_,hredo,hop⟩
  change s'=dropError s (op w s)
  rw [← commit_snd s f,hrun]

section
variable {w : World} {args : List Bytes} {s s' : MemoryStore F} {resp : Response}

theorem handleDel_echo [Float64 F] (hrun : handleDel w args s=(resp,s'))
    (he : resp.isError=false) : Echo w s s' fun w' r => applyWrite w' .del args r := by
  unfold handleDel at hrun
  split at hrun
  · rename_i key keys
    refine ⟨fun w s => (s.del w.now (key::keys)).2,congrArg Prod.snd hrun.symm,fun _ _ => rfl,?_⟩
    exact fun w w' s r h => h.del w.now w'.now _
  · cases hrun
    cases he

theorem msetLoop_same {s r : MemoryStore F} (h : Same s r) (args : List Bytes) :
    Same (msetLoop s args) (msetLoop r args) := by
  fun_induction msetLoop s args generalizing r with
  | case1 s k v rest ih =>
    rw [msetLoop]
    exact ih (h.set k v)
  | case2 s args hne =>
    rwa [msetLoop.eq_2 _ _ hne]

theorem handleMSet_echo [Float64 F] (hrun : handleMSet args s=(resp,s'))
    (he : resp.isError=false) : Echo w s s' fun w' r => applyWrite w' .mset args r := by
  unfold handleMSet at hrun
  split at hrun
  · cases hrun
    cases he
  · rename_i hlen
    refine ⟨fun _ s => msetLoop s args.tail,congrArg Prod.snd hrun.symm,fun w' r => ?_,?_⟩
    · simp only [applyWrite,if_neg hlen]
    · exact fun _ _ _ _ h => msetLoop_same h args.tail

theorem handleAppend_echo [Float64 F] (hrun : handleAppend w args s=(resp,s'))
    (he : resp.isError=false) : Echo w s s' fun w' r => applyWrite w' .append args r := by
  unfold handleAppend at hrun
  split at hrun
  · rename_i key value
    refine ⟨fun w s => s.set key ((s.get w.now key).getD []++value),congrArg Prod.snd hrun.symm,
      fun _ _ => rfl,fun w w' s r h => ?_⟩
    dsimp only
    rw [h.get w.now w'.now]
    exact h.set key _
  · cases hrun
    cases he

theorem Same.persist {s r : MemoryStore F} (h : Same s r) (now now' : Int) (k : Bytes) :
    Same (s.persist now k).2 (r.persist now' k).2 := by
  have hkeep : ∀ {u : MemoryStore F} (t : Int), u.TimeFree → (u.persist t k).2=u := by
    intro u t hu
    unfold MemoryStore.persist
    rw [hu.liveString]
    split
    · rename_i e hfil
      obtain ⟨hget,hsome⟩ := Option.filter_eq_some_iff.mp hfil
      simp [hu.strings k e hget] at hsome
    · split_ifs with h₁ h₂
      · rfl
      · simp [hu.expiry] at h₂
      · rfl
  rw [hkeep now h.free,hkeep now' (h.maps ▸ h.free)]
  exact h

theorem handlePersist_echo [Float64 F] (hrun : handlePersist w args s=(resp,s'))
    (he : resp.isError=false) : Echo w s s' fun w' r => applyWrite w' .persist args r := by
  unfold handlePersist at hrun
  split at hrun
  · rename_i key
    exact ⟨fun w s => (s.persist w.now key).2,congrArg Prod.snd hrun.symm,fun _ _ => rfl,
      fun w w' s r h => h.persist w.now w'.now key⟩
  · cases hrun
    cases he

theorem handleHSet_echo [Float64 F] (hrun : handleHSet args s=(resp,s'))
    (he : resp.isError=false) : Echo w s s' fun w' r => applyWrite w' .hset args r := by
  unfold handleHSet at hrun
  split at hrun
  · rename_i hshape
    refine ⟨fun _ s => (s.hSet (args.getD 1 []) (pairsMap ∅ (args.drop 2))).2,
      congrArg Prod.snd hrun.symm,fun w' r => ?_,fun _ _ _ _ h => h.hSet _ _⟩
    simp only [applyWrite,if_pos hshape]
  · cases hrun
    cases he

theorem handleHDel_echo [Float64 F] (hrun : handleHDel w args s=(resp,s'))
    (he : resp.isError=false) : Echo w s s' fun w' r => applyWrite w' .hdel args r := by
  unfold handleHDel at hrun
  split at hrun
  · rename_i key field fields
    exact ⟨fun w s => (s.hDel w.now key (field::fields)).2,congrArg Prod.snd hrun.symm,
      fun _ _ => rfl,fun w w' s r h => h.hDel w.now w'.now key _⟩
  · cases hrun
    cases he

theorem handleFlush_echo {name : String} (hrun : handleFlush name args s=(resp,s'))
    (he : resp.isError=false) : Echo w s s' fun _ r => done r.flush := by
  unfold handleFlush at hrun
  split at hrun
  · cases hrun
    cases he
  · exact ⟨fun _ s => s.flush,congrArg Prod.snd hrun.symm,fun _ _ => rfl,fun _ _ _ _ h => h.flush⟩

theorem handlePush_echo {name : String} {push : Push F} (text : String)
    (hpush : ∀ k vs, Timeless fun w s => dropError s (push s w.now k vs))
    (hrun : handlePush name push w args s=(resp,s')) (he : resp.isError=false) :
    Echo w s s' fun w' r => replayPush text push w' args r := by
  unfold handlePush at hrun
  split at hrun
  · exact .of_commit (fun w s => push s w.now _ _) hrun (fun _ _ => rfl) (hpush _ _)
  · cases hrun
    cases he

theorem handlePushX_echo {name : String} {push : Push F} (text : String)
    (hpush : ∀ k vs, Timeless fun w s => dropError s (push s w.now k vs))
    (hrun : handlePushX name push w args s=(resp,s')) (he : resp.isError=false) :
    Echo w s s' fun w' r => replayPushX text push w' args r := by
  unfold handlePushX at hrun
  split at hrun
  · rename_i key v vs
    refine ⟨fun w s => if s.type w.now key=some .list then dropError s (push s w.now key (v::vs))
      else s,?_,fun w' r => ?_,fun w w' s r h => ?_⟩
    · dsimp only
      split at hrun
      · rename_i hne
        rw [if_neg hne]
        exact congrArg Prod.snd hrun.symm
      · rename_i heq
        rw [if_pos (not_not.mp heq),← commit_snd,hrun]
    · simp only [replayPushX]
      split <;> rfl
    · dsimp only
      rw [h.type w.now w'.now]
      split
      · exact hpush key (v::vs) w w' s r h
      · exact h
  · cases hrun
    cases he

theorem replayPop_of_popArgs {α : Type} {text : String} {key : Bytes} {count : Int}
    {withCount : Bool} (hargs : PopArgs args key count withCount)
    (pop : Bytes → Int → Go (Except StoreError (α × MemoryStore F))) (r : MemoryStore F) :
    replayPop text pop args r=dropErrorGo r (pop key count) := by
  cases hargs with
  | one => rfl
  | counted hn => simp only [replayPop,replayCount,hn,Option.getD_some]

theorem Echo.of_pop {α : Type} {f : α → Response} {text : String}
    (pop : MemoryStore F → World → Bytes → Int → Go (Except StoreError (α × MemoryStore F)))
    {key : Bytes} {n : Int} {withCount : Bool} (hargs : PopArgs args key n withCount)
    (hok : ∀ s w, ∃ a, pop s w key n=.ok a)
    (hpop : Timeless fun w s => (StoreOp.dropResult s (pop s w key n)).toOption.getD s)
    (hrun : (pop s w key n).map (commit s f)=.ok (resp,s')) :
    Echo w s s' fun w' r => replayPop text (pop r w') args r := by
  obtain ⟨a,ha,hcommit⟩ := Go.map_eq_ok.mp hrun
  refine ⟨fun w s => (StoreOp.dropResult s (pop s w key n)).toOption.getD s,?_,fun w' r => ?_,hpop⟩
  · simp only [ha]
    rw [show s'=dropError s a by rw [← commit_snd s f,hcommit]]
    rfl
  · obtain ⟨b,hb⟩ := hok r w'
    simp only [replayPop_of_popArgs hargs,hb]
    rfl

theorem handlePop_echo {name : String} {cut : Nat → List Bytes → List Bytes × List Bytes}
    (text : String) (hrun : handlePop name (MemoryStore.popList cut) w args s=.ok (resp,s'))
    (he : resp.isError=false) :
    Echo w s s' fun w' r => replayPop text (MemoryStore.popList cut r w'.now) args r := by
  obtain ⟨r,hr,heq⟩ | ⟨key,count,withCount,hargs,heq⟩ :=
    handlePop_cases name (MemoryStore.popList cut) w args
  · cases (heq s).symm.trans hrun
    rcases hr with rfl | rfl <;> cases he
  · rw [heq] at hrun
    exact .of_pop (fun s w => MemoryStore.popList cut s w.now) hargs
      (fun s w => MemoryStore.popList_total cut s w.now key hargs.nonneg)
      (fun w w' s r h => h.popList cut _ _ _ _) hrun

theorem handleZPop_echo [Float64 F] {name : String}
    {order : List (ZMember F) → List (ZMember F)} (text : String)
    (hrun : handleZPop name (MemoryStore.popZSet order) w args s=.ok (resp,s'))
    (he : resp.isError=false) :
    Echo w s s' fun w' r => replayPop text (MemoryStore.popZSet order r w'.now) args r := by
  obtain ⟨r,hr,heq⟩ | ⟨key,count,withCount,hargs,heq⟩ :=
    handleZPop_cases name (MemoryStore.popZSet order) w args
  · cases (heq s).symm.trans hrun
    rcases hr with rfl | rfl <;> cases he
  · rw [heq] at hrun
    exact .of_pop (fun s w => MemoryStore.popZSet order s w.now) hargs
      (fun s w => MemoryStore.popZSet_total order s w.now key hargs.nonneg)
      (fun w w' s r h => h.popZSet order _ _ _ _) hrun

theorem handleLSet_echo (hrun : handleLSet w args s=(resp,s')) (he : resp.isError=false) :
    Echo w s s' fun w' r => replayList w' .lset args r := by
  unfold handleLSet at hrun
  split at hrun
  · split at hrun
    · cases hrun
      cases he
    · rename_i key _ value _ idx hidx
      refine .of_commit (fun w s => (s.lSet w.now key idx value).map fun s' => ((),s')) hrun
        (fun w' r => ?_) fun w w' s r h => ?_
      · simp only [replayList,hidx,dropError_map_unit]
      · simp only [dropError_map_unit]
        exact h.lSet _ _ _ _ _
  · cases hrun
    cases he

theorem insertSide_eq {word : Bytes} {before : Bool} (h : insertSide word=some before) :
    (toUpper word=utf8 "BEFORE" : Bool)=before := by
  unfold insertSide at h
  split_ifs at h <;> cases h <;> simp_all

theorem listEnd_eq {word : Bytes} {left : Bool} (h : listEnd word=some left) :
    (toUpper word=utf8 "LEFT" : Bool)=left := by
  unfold listEnd at h
  split_ifs at h <;> cases h <;> simp_all

theorem handleLInsert_echo (hrun : handleLInsert w args s=(resp,s')) (he : resp.isError=false) :
    Echo w s s' fun w' r => replayList w' .linsert args r := by
  unfold handleLInsert at hrun
  split at hrun
  · split at hrun
    · cases hrun
      cases he
    · rename_i key _ pivot value _ before hside
      refine .of_commit (fun w s => s.lInsert w.now key before pivot value) hrun
        (fun w' r => ?_) fun w w' s r h => h.lInsert _ _ _ _ _ _
      simp only [replayList,insertSide_eq hside]
  · cases hrun
    cases he

theorem handleLRem_echo (hrun : handleLRem w args s=(resp,s')) (he : resp.isError=false) :
    Echo w s s' fun w' r => replayList w' .lrem args r := by
  unfold handleLRem at hrun
  split at hrun
  · split at hrun
    · cases hrun
      cases he
    · rename_i key _ value _ count hcount
      refine .of_commit (fun w s => s.lRem w.now key count value) hrun
        (fun w' r => ?_) fun w w' s r h => h.lRem _ _ _ _ _
      simp only [replayList,hcount]
  · cases hrun
    cases he

theorem handleLTrim_echo (hrun : handleLTrim w args s=(resp,s')) (he : resp.isError=false) :
    Echo w s s' fun w' r => replayList w' .ltrim args r := by
  unfold handleLTrim at hrun
  split at hrun
  · split at hrun
    · rename_i key _ _ _ _ start stop hstart hstop
      refine .of_commit (fun w s => (s.lTrim w.now key start stop).map fun s' => ((),s')) hrun
        (fun w' r => ?_) fun w w' s r h => ?_
      · simp only [replayList,hstart,hstop,dropError_map_unit]
      · simp only [dropError_map_unit]
        exact h.lTrim _ _ _ _ _
    · cases hrun
      cases he
  · cases hrun
    cases he

theorem handleLMove_echo (hrun : handleLMove w args s=(resp,s')) (he : resp.isError=false) :
    Echo w s s' fun w' r => replayList w' .lmove args r := by
  unfold handleLMove at hrun
  split at hrun
  · split at hrun
    · rename_i src dst _ _ _ _ srcLeft dstLeft hsrc hdst
      refine .of_commit (fun w s => s.lMove w.now src dst srcLeft dstLeft) hrun
        (fun w' r => ?_) fun w w' s r h => h.lMove _ _ _ _ _ _
      simp only [replayList,listEnd_eq hsrc,listEnd_eq hdst]
    · cases hrun
      cases he
  · cases hrun
    cases he

theorem handleRPopLPush_echo (hrun : handleRPopLPush w args s=(resp,s'))
    (he : resp.isError=false) : Echo w s s' fun w' r => replayList w' .rpoplpush args r := by
  unfold handleRPopLPush at hrun
  split at hrun
  · rename_i src dst
    exact .of_commit (fun w s => s.lMove w.now src dst false true) hrun (fun _ _ => rfl)
      fun w w' s r h => h.lMove _ _ _ _ _ _
  · cases hrun
    cases he

theorem handleSAdd_echo (text : String) (hrun : handleSAdd w args s=(resp,s'))
    (he : resp.isError=false) :
    Echo w s s' fun w' r => replayMany text (r.sAdd w'.now) args r := by
  unfold handleSAdd at hrun
  split at hrun
  · rename_i key x xs
    exact .of_commit (fun w s => s.sAdd w.now key (x::xs)) hrun (fun _ _ => rfl)
      fun w w' s r h => h.sAdd _ _ _ _
  · cases hrun
    cases he

theorem handleSRem_echo (text : String) (hrun : handleSRem w args s=(resp,s'))
    (he : resp.isError=false) :
    Echo w s s' fun w' r => replayMany text (r.sRem w'.now) args r := by
  unfold handleSRem at hrun
  split at hrun
  · rename_i key x xs
    exact .of_commit (fun w s => s.sRem w.now key (x::xs)) hrun (fun _ _ => rfl)
      fun w w' s r h => h.sRem _ _ _ _
  · cases hrun
    cases he

theorem handleSetOpStore_echo {name : String}
    {store : MemoryStore F → World → Bytes → List Bytes → Except StoreError (Nat × MemoryStore F)}
    (text : String) (hstore : ∀ dst ks, Timeless fun w s => dropError s (store s w dst ks))
    (hrun : handleSetOpStore name store w args s=(resp,s')) (he : resp.isError=false) :
    Echo w s s' fun w' r => replayMany text (store r w') args r := by
  unfold handleSetOpStore at hrun
  split at hrun
  · rename_i dst key keys
    exact .of_commit (fun w s => store s w dst (key::keys)) hrun (fun _ _ => rfl)
      (hstore dst (key::keys))
  · cases hrun
    cases he

theorem handleSMove_echo [Float64 F] (hrun : handleSMove w args s=(resp,s'))
    (he : resp.isError=false) : Echo w s s' fun w' r => applyWrite w' .smove args r := by
  unfold handleSMove at hrun
  split at hrun
  · rename_i src dst x
    exact .of_commit (fun w s => s.sMove w.now src dst x) hrun (fun _ _ => rfl)
      fun w w' s r h => h.sMove _ _ _ _ _
  · cases hrun
    cases he

theorem handleZRem_echo (text : String) (hrun : handleZRem w args s=(resp,s'))
    (he : resp.isError=false) :
    Echo w s s' fun w' r => replayMany text (r.zRem w'.now) args r := by
  unfold handleZRem at hrun
  split at hrun
  · rename_i key x xs
    exact .of_commit (fun w s => s.zRem w.now key (x::xs)) hrun (fun _ _ => rfl)
      fun w w' s r h => h.zRem _ _ _ _
  · cases hrun
    cases he

end

/-- The commands that are logged as they came and replayed as they were handled. `SET`, `ZADD`,
`ZINCRBY`, `ZUNIONSTORE` and `ZINTERSTORE` are not among them, for replay reads their
arguments differently, and `SPOP` is not, for it draws lots. -/
def WriteCommand.echoed : WriteCommand → Bool
  | .del | .mset | .append | .persist | .hset | .hdel | .flushdb | .flushall
  | .lpush | .rpush | .lpushx | .rpushx | .lpop | .rpop | .lset | .linsert | .lrem | .ltrim
  | .lmove | .rpoplpush | .sadd | .srem | .sinterstore | .sunionstore | .sdiffstore | .smove
  | .zrem | .zpopmin | .zpopmax => true
  | _ => false

section
variable [Float64 F] {w : World} {c : WriteCommand} {args : List Bytes} {s s' : MemoryStore F}
  {resp : Response}

theorem execute_echo (hc : c.echoed=true) (hrun : execute w c args s=.ok (resp,s'))
    (he : resp.isError=false) : Echo w s s' fun w' r => applyWrite w' c args r := by
  cases c
  case del => exact handleDel_echo (Except.ok.inj hrun) he
  case mset => exact handleMSet_echo (Except.ok.inj hrun) he
  case append => exact handleAppend_echo (Except.ok.inj hrun) he
  case persist => exact handlePersist_echo (Except.ok.inj hrun) he
  case hset => exact handleHSet_echo (Except.ok.inj hrun) he
  case hdel => exact handleHDel_echo (Except.ok.inj hrun) he
  case flushdb => exact handleFlush_echo (Except.ok.inj hrun) he
  case flushall => exact handleFlush_echo (Except.ok.inj hrun) he
  case lpush =>
    exact handlePush_echo _ (fun _ _ _ _ _ _ h => h.lPush _ _ _ _) (Except.ok.inj hrun) he
  case rpush =>
    exact handlePush_echo _ (fun _ _ _ _ _ _ h => h.rPush _ _ _ _) (Except.ok.inj hrun) he
  case lpushx =>
    exact handlePushX_echo _ (fun _ _ _ _ _ _ h => h.lPush _ _ _ _) (Except.ok.inj hrun) he
  case rpushx =>
    exact handlePushX_echo _ (fun _ _ _ _ _ _ h => h.rPush _ _ _ _) (Except.ok.inj hrun) he
  case lpop => exact handlePop_echo _ hrun he
  case rpop => exact handlePop_echo _ hrun he
  case lset => exact handleLSet_echo (Except.ok.inj hrun) he
  case linsert => exact handleLInsert_echo (Except.ok.inj hrun) he
  case lrem => exact handleLRem_echo (Except.ok.inj hrun) he
  case ltrim => exact handleLTrim_echo (Except.ok.inj hrun) he
  case lmove => exact handleLMove_echo (Except.ok.inj hrun) he
  case rpoplpush => exact handleRPopLPush_echo (Except.ok.inj hrun) he
  case sadd => exact handleSAdd_echo _ (Except.ok.inj hrun) he
  case srem => exact handleSRem_echo _ (Except.ok.inj hrun) he
  case sinterstore =>
    exact handleSetOpStore_echo _ (fun _ _ _ _ _ _ h => h.storeOp _ _ .inter _ _)
      (Except.ok.inj hrun) he
  case sunionstore =>
    exact handleSetOpStore_echo _ (fun _ _ _ _ _ _ h => h.storeOp _ _ .union _ _)
      (Except.ok.inj hrun) he
  case sdiffstore =>
    exact handleSetOpStore_echo _ (fun _ _ _ _ _ _ h => h.storeOp _ _ .diff _ _)
      (Except.ok.inj hrun) he
  case smove => exact handleSMove_echo (Except.ok.inj hrun) he
  case zrem => exact handleZRem_echo _ (Except.ok.inj hrun) he
  case zpopmin => exact handleZPop_echo _ hrun he
  case zpopmax => exact handleZPop_echo _ hrun he
  all_goals cases hc

omit [Float64 F] in
theorem appendToAOF_echoed (hc : c.echoed=true) (w : World) (args : List Bytes)
    (resp : Response) (m : Maps F) :
    appendToAOF w c args resp m=[] ∨ appendToAOF w c args resp m=[args] := by
  cases c
  case lpop | rpop | lmove | rpoplpush | lrem | zpopmin | zpopmax =>
    simp only [appendToAOF]
    split <;> simp
  all_goals first | exact .inr rfl | cases hc

end
end GoRedis
