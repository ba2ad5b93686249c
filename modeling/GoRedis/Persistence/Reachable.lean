import GoRedis.Commands.Acts
import GoRedis.Persistence.Replay
import GoRedis.Storage.NoEmpty
/-!
# The stores a server can have

Requests, records replayed at start and background sweeps, in any order and at any instant.
Replay acts on the store through the same interface as the handlers.
-/
namespace GoRedis
variable {F : Type} [Float64 F]

theorem Acts.of_done {w : World} {s u s' : MemoryStore F} (h : done u=.ok (.ok s'))
    (hu : Acts w s u) : Acts w s s' := by
  cases h
  exact hu

theorem Acts.of_refuse {w : World} {s s' : MemoryStore F} {e : ReplayError}
    (h : (refuse e : Applied F)=.ok (.ok s')) : Acts w s s' := by
  cases h

theorem Acts.of_dropErrorGo {α : Type} {w : World} {s s' : MemoryStore F}
    {r : Go (Except StoreError (α × MemoryStore F))} (h : dropErrorGo s r=.ok (.ok s'))
    (op : StoreOp F) (hp : op.Proper) (hop : op.apply w s=StoreOp.dropResult s r) :
    Acts w s s' := by
  cases r with
  | error p => cases h
  | ok r =>
    cases h
    exact .single op hp hop

theorem replayList_acts {w : World} {c : WriteCommand} {args : List Bytes}
    {s s' : MemoryStore F} (h : replayList w c args s=.ok (.ok s')) : Acts w s s' := by
  unfold replayList at h
  split at h
  · split at h
    · exact .of_refuse h
    · exact .of_done h (.single (.lSet _ _ _) trivial rfl)
  · exact .of_refuse h
  · exact .of_done h (.single (.lInsert _ _ _ _) trivial rfl)
  · exact .of_refuse h
  · split at h
    · exact .of_done h (.single (.lTrim _ _ _) trivial rfl)
    · exact .of_refuse h
  · exact .of_refuse h
  · split at h
    · exact .of_refuse h
    · exact .of_done h (.single (.lRem _ _ _) trivial rfl)
  · exact .of_refuse h
  · exact .of_done h (.single (.lMove _ _ _ _) trivial rfl)
  · exact .of_refuse h
  · exact .of_done h (.single (.lMove _ _ _ _) trivial rfl)
  · exact .of_refuse h

theorem replayMany_acts {α : Type} {text : String} {w : World} {s s' : MemoryStore F}
    {act : Bytes → List Bytes → Except StoreError (α × MemoryStore F)} {args : List Bytes}
    (h : replayMany text act args s=.ok (.ok s')) (op : Bytes → List Bytes → StoreOp F)
    (hp : ∀ k x xs, (op k (x::xs)).Proper)
    (hop : ∀ k x xs, (op k (x::xs)).apply w s=.ok (dropError s (act k (x::xs)))) :
    Acts w s s' := by
  unfold replayMany at h
  split at h
  · exact .of_done h (.single _ (hp _ _ _) (hop _ _ _))
  · exact .of_refuse h

theorem replayPop_acts {α : Type} {text : String} {w : World} {s s' : MemoryStore F}
    {pop : Bytes → Int → Go (Except StoreError (α × MemoryStore F))} {args : List Bytes}
    (h : replayPop text pop args s=.ok (.ok s')) (op : Bytes → Int → StoreOp F)
    (hp : ∀ k n, (op k n).Proper)
    (hop : ∀ k n, (op k n).apply w s=StoreOp.dropResult s (pop k n)) : Acts w s s' := by
  unfold replayPop at h
  split at h
  · exact .of_dropErrorGo h _ (hp _ _) (hop _ _)
  · exact .of_refuse h

theorem replayZStore_acts {shape invalid : String} {w : World} {s s' : MemoryStore F}
    {store : ZStore F} {args : List Bytes}
    (h : replayZStore shape invalid store w args s=.ok (.ok s'))
    (op : Bytes → List Bytes → List F → Bytes → StoreOp F)
    (hp : ∀ dst ks ws agg, (op dst ks ws agg).Proper)
    (hop : ∀ dst ks ws agg, (op dst ks ws agg).apply w s=
      .ok (dropError s (store s w.now dst ks ws agg))) : Acts w s s' := by
  unfold replayZStore at h
  split at h
  · split at h
    · exact .of_refuse h
    · split_ifs at h
      · exact .of_refuse h
      · exact .of_done h (.single _ (hp _ _ _ _) (hop _ _ _ _))
  · exact .of_refuse h

theorem replayPush_acts {text : String} {w : World} {s s' : MemoryStore F} {push : Push F}
    {args : List Bytes} (h : replayPush text push w args s=.ok (.ok s'))
    (op : Bytes → Bytes → List Bytes → StoreOp F) (hp : ∀ k v vs, (op k v vs).Proper)
    (hop : ∀ k v vs, (op k v vs).apply w s=.ok (dropError s (push s w.now k (v::vs)))) :
    Acts w s s' := by
  unfold replayPush at h
  split at h
  · exact .of_done h (.single _ (hp _ _ _) (hop _ _ _))
  · exact .of_refuse h

theorem replayPushX_acts {text : String} {w : World} {s s' : MemoryStore F} {push : Push F}
    {args : List Bytes} (h : replayPushX text push w args s=.ok (.ok s'))
    (op : Bytes → Bytes → List Bytes → StoreOp F) (hp : ∀ k v vs, (op k v vs).Proper)
    (hop : ∀ k v vs, (op k v vs).apply w s=.ok (dropError s (push s w.now k (v::vs)))) :
    Acts w s s' := by
  unfold replayPushX at h
  split at h
  · split at h
    · exact .of_done h (.single _ (hp _ _ _) (hop _ _ _))
    · exact .of_done h (.refl w s)
  · exact .of_refuse h

theorem applyWrite_acts {w : World} {c : WriteCommand} {args : List Bytes}
    {s s' : MemoryStore F} (h : applyWrite w c args s=.ok (.ok s')) : Acts w s s' := by
  cases c <;> simp only [applyWrite] at h
  case set =>
    split at h
    · exact .of_done h (.single (.set _ _) trivial rfl)
    · exact .of_refuse h
  case del =>
    split at h
    · exact .of_done h (.single (.del _) trivial rfl)
    · exact .of_refuse h
  case mset =>
    split at h
    · exact .of_refuse h
    · exact .of_done h ((msetLoop_acts w _ s).mono fun _ => StoreOp.Plain.proper)
  case append =>
    split at h
    · exact .of_done h (.single (.set _ _) trivial rfl)
    · exact .of_refuse h
  case pexpireat =>
    unfold replayPExpireAt at h
    split at h
    · split at h
      · exact .of_refuse h
      · dsimp only at h
        split at h
        · exact .of_done h (.single (.del _) trivial rfl)
        · exact .of_done h (.single (.expire _ _) trivial rfl)
    · exact .of_refuse h
  case persist =>
    split at h
    · exact .of_done h (.single (.persist _) trivial rfl)
    · exact .of_refuse h
  case hset =>
    split at h
    · exact .of_done h (.single (.hSet _ _) trivial rfl)
    · exact .of_refuse h
  case hdel =>
    split at h
    · exact .of_done h (.single (.hDel _ _) trivial rfl)
    · exact .of_refuse h
  case lpush => exact replayPush_acts h .lPush (fun _ _ _ => trivial) fun _ _ _ => rfl
  case rpush => exact replayPush_acts h .rPush (fun _ _ _ => trivial) fun _ _ _ => rfl
  case lpushx => exact replayPushX_acts h .lPush (fun _ _ _ => trivial) fun _ _ _ => rfl
  case rpushx => exact replayPushX_acts h .rPush (fun _ _ _ => trivial) fun _ _ _ => rfl
  case lpop => exact replayPop_acts h .lPop (fun _ _ => trivial) fun _ _ => rfl
  case rpop => exact replayPop_acts h .rPop (fun _ _ => trivial) fun _ _ => rfl
  case lset => exact replayList_acts h
  case linsert => exact replayList_acts h
  case lrem => exact replayList_acts h
  case ltrim => exact replayList_acts h
  case lmove => exact replayList_acts h
  case rpoplpush => exact replayList_acts h
  case sadd => exact replayMany_acts h .sAdd (fun _ _ _ => List.cons_ne_nil _ _) fun _ _ _ => rfl
  case srem => exact replayMany_acts h .sRem (fun _ _ _ => trivial) fun _ _ _ => rfl
  case sinterstore =>
    exact replayMany_acts h .sInterStore (fun _ _ _ => trivial) fun _ _ _ => rfl
  case sunionstore =>
    exact replayMany_acts h .sUnionStore (fun _ _ _ => trivial) fun _ _ _ => rfl
  case sdiffstore =>
    exact replayMany_acts h .sDiffStore (fun _ _ _ => trivial) fun _ _ _ => rfl
  case spop => exact replayPop_acts h .sPop (fun _ _ => trivial) fun _ _ => rfl
  case smove =>
    split at h
    · exact .of_done h (.single (.sMove _ _ _) trivial rfl)
    · exact .of_refuse h
  case zadd =>
    unfold replayZAdd at h
    split at h
    · dsimp only at h
      split at h
      · exact .of_refuse h
      · split at h
        · exact .of_refuse h
        · exact .of_done h (.single (.zAdd _ _ _) trivial rfl)
    · exact .of_refuse h
  case zrem => exact replayMany_acts h .zRem (fun _ _ _ => trivial) fun _ _ _ => rfl
  case zincrby =>
    unfold replayZIncrBy at h
    split at h
    · split at h
      · exact .of_refuse h
      · exact .of_done h (.single (.zIncrBy _ _ _) trivial rfl)
    · exact .of_refuse h
  case zpopmin => exact replayPop_acts h .zPopMin (fun _ _ => trivial) fun _ _ => rfl
  case zpopmax => exact replayPop_acts h .zPopMax (fun _ _ => trivial) fun _ _ => rfl
  case zunionstore => exact replayZStore_acts h .zUnionStore (fun _ _ _ _ => trivial) fun _ _ _ _ => rfl
  case zinterstore => exact replayZStore_acts h .zInterStore (fun _ _ _ _ => trivial) fun _ _ _ _ => rfl
  case flushdb => exact .of_done h (.single .flush trivial rfl)
  case flushall => exact .of_done h (.single .flush trivial rfl)
  all_goals exact .of_refuse h

theorem applyCommand_acts {w : World} {args : List Bytes} {s s' : MemoryStore F}
    (h : applyCommand w args s=.ok (.ok s')) : Acts w s s' := by
  unfold applyCommand at h
  split at h
  · exact .of_refuse h
  · split at h
    · exact applyWrite_acts h
    · exact .of_refuse h

/-- What happens to a running server. -/
inductive Event
  | request (w : World) (args : List Bytes)
  | sweep (now : Int)

/-- The server's step: the store and the records that go to the log. -/
def serve (ev : Event) (s : MemoryStore F) : Go (MemoryStore F × List (List Bytes)) :=
  match ev with
  | .request w args => match dispatch w args s with
    | .error p => .error p
    | .ok d => .ok (d.store,d.records)
  | .sweep now => .ok (s.deleteExpired now,[])

theorem serve_request {w : World} {args : List Bytes} {s s' : MemoryStore F}
    {rs : List (List Bytes)} : serve (.request w args) s=.ok (s',rs) ↔
      ∃ d, dispatch w args s=.ok d ∧ d.store=s' ∧ d.records=rs := by
  simp only [serve]
  cases dispatch w args s <;> simp

/-- A store that a server can have: requests, replayed records and sweeps from an empty one. -/
inductive Reachable : MemoryStore F → Prop
  | new : Reachable .new
  | dispatch (w : World) (args : List Bytes) {s : MemoryStore F} {d : Dispatched F} :
      Reachable s → dispatch w args s=.ok d → Reachable d.store
  | replay (w : World) (args : List Bytes) {s s' : MemoryStore F} :
      Reachable s → applyCommand w args s=.ok (.ok s') → Reachable s'
  | sweep {s : MemoryStore F} (now : Int) : Reachable s → Reachable (s.deleteExpired now)

theorem Acts.noEmpty {w : World} {s s' : MemoryStore F} (h : Acts w s s') (hs : s.NoEmpty) :
    s'.NoEmpty :=
  h.invariant (I := fun u => u.NoEmpty) (fun _ hp _ _ hu h => StoreOp.apply_noEmpty hp hu h) hs

theorem Reachable.noEmpty {s : MemoryStore F} (h : Reachable s) : s.NoEmpty := by
  induction h with
  | new => exact Maps.noEmpty_empty
  | dispatch _ _ _ hd ih => exact (dispatch_acts hd).noEmpty ih
  | replay _ _ _ ha ih => exact (applyCommand_acts ha).noEmpty ih
  | sweep now _ ih => exact MemoryStore.noEmpty_deleteExpired ih now

end GoRedis
