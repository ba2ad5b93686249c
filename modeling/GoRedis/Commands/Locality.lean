import GoRedis.Commands.Looks
import GoRedis.Commands.RangeOrder
import GoRedis.Storage.Graft
/-!
# Commands keep to the keys they name

Which arguments of a request are keys is read off the command. A request that looks at no
other part of the keyspace gives the same reply from any two stores that agree on these keys,
changes nothing else, and can be exchanged with a request that names other keys.
-/
namespace GoRedis
open MemoryStore

/-- The keys of the key and value pairs of `MSET`. -/
def pairKeys : List Bytes → List Bytes
  | k::_::rest => k::pairKeys rest
  | _ => []

/-- `ZUNIONSTORE` and `ZINTERSTORE` name the destination and as many keys as they announce. -/
def zstoreKeys (args : List Bytes) : List Bytes :=
  (args.drop 1).take 1++(args.drop 3).take ((parseInt (args.getD 2 [])).getD 0).toNat

/-- The keys a writing request names. -/
def WriteCommand.named (c : WriteCommand) (args : List Bytes) : List Bytes :=
  match c with
  | .flushdb | .flushall => []
  | .del | .sinterstore | .sunionstore | .sdiffstore => args.drop 1
  | .mset => pairKeys (args.drop 1)
  | .rename | .lmove | .rpoplpush | .smove => (args.drop 1).take 2
  | .zunionstore | .zinterstore => zstoreKeys args
  | _ => (args.drop 1).take 1

namespace Command

def named : Command → List Bytes → List Bytes
  | read c => c.named
  | write c => c.named

/-- The commands that look at, or clear, the whole keyspace, and `PUBLISH`. -/
def global : Command → Bool
  | read .keys | read .scan | read .dbsize | read .info | read .publish => true
  | write .flushdb | write .flushall => true
  | _ => false

end Command

/-- The keys a request names. -/
def keysNamed (args : List Bytes) : List Bytes :=
  ((commandOf args).map fun c => c.named args).getD []

/-- The request is for a command that keeps to the keys it names. -/
def KeepsToKeys (args : List Bytes) : Prop := ∀ c, commandOf args=some c → c.global=false

/-- The request lists a map. -/
def Lists (args : List Bytes) : Prop := ∃ c, commandOf args=some c ∧ c.lists=true

/-- The request draws members at random. -/
def Draws (args : List Bytes) : Prop := ∃ c, commandOf args=some c ∧ c.draws=true

variable {F : Type} {K : List Bytes} {m n : Maps F} {s t : MemoryStore F} {w : World}
  {args : List Bytes}

@[simp] theorem grafted_mk {α : Type} (a : α) : grafted K t (a,s)=(a,s.graft K t) := rfl

@[simp] theorem commit_graft {α : Type} (f : α → Response)
    (r : Except StoreError (α × MemoryStore F)) :
    commit (s.graft K t) f (r.map (grafted K t))=grafted K t (commit s f r) := by
  cases r <;> rfl

@[simp] theorem commit_graft_unit (f : Unit → Response) (r : Except StoreError (MemoryStore F)) :
    commit (s.graft K t) f ((r.map (graft K · t)).map fun s' => ((),s'))=
      grafted K t (commit s f (r.map fun s' => ((),s'))) := by
  cases r <;> rfl

theorem handleSet_graft (hK : (args.drop 1).take 1 ⊆ K) :
    handleSet w args (s.graft K t)=grafted K t (handleSet w args s) := by
  unfold handleSet
  split
  · rename_i key value rest
    have hk : key ∈ K := by simpa using hK
    split
    · rfl
    · rw [setAdv_graft hk]
      split_ifs <;> rfl
  · rfl

theorem handleGetEX_graft (hK : (args.drop 1).take 1 ⊆ K) :
    handleGetEX w args (s.graft K t)=grafted K t (handleGetEX w args s) := by
  unfold handleGetEX
  split
  · rename_i key rest
    have hk : key ∈ K := by simpa using hK
    split
    · rfl
    · rw [getEx_graft hk]
      rfl
  · rfl

theorem msetLoop_graft {kvs : List Bytes} (hK : pairKeys kvs ⊆ K) :
    msetLoop (s.graft K t) kvs=(msetLoop s kvs).graft K t := by
  induction kvs using pairKeys.induct generalizing s with
  | case1 k v rest ih =>
    rw [pairKeys,List.cons_subset] at hK
    rw [msetLoop,set_graft hK.1,ih hK.2,msetLoop]
  | case2 kvs h =>
    rcases kvs with _ | ⟨k,_ | ⟨v,rest⟩⟩
    · rfl
    · rfl
    · exact (h k v rest rfl).elim

theorem incrBy_graft {key : Bytes} (hk : key ∈ K) (delta : Int) :
    incrBy w key delta (s.graft K t)=grafted K t (incrBy w key delta s) := by
  unfold incrBy
  rw [graft_toMaps,Maps.get_graft hk]
  split
  · rfl
  · dsimp only
    rw [set_graft hk]
    split_ifs <;> rfl

theorem handleExpireOn_graft (name : String) (instant : Int → Int)
    (hK : (args.drop 1).take 1 ⊆ K) :
    handleExpireOn name instant w args (s.graft K t)=
      grafted K t (handleExpireOn name instant w args s) := by
  unfold handleExpireOn
  split
  · rename_i key n
    have hk : key ∈ K := by simpa using hK
    split
    · rfl
    · dsimp only
      rw [del_graft (by simpa using hk),expire_graft hk]
      split_ifs <;> rfl
  · rfl

theorem handleHSet_graft (hK : (args.drop 1).take 1 ⊆ K) :
    handleHSet args (s.graft K t)=grafted K t (handleHSet args s) := by
  unfold handleHSet
  split
  · rename_i h
    rcases args with _ | ⟨name,_ | ⟨key,rest⟩⟩
    · cases h
    · cases h
    · have hk : key ∈ K := by simpa using hK
      rw [List.getD_cons_succ,List.getD_cons_zero,hSet_graft hk]
      rfl
  · rfl

theorem commitGo_graft {α : Type} (f : α → Response)
    {res res' : Go (Except StoreError (α × MemoryStore F))}
    (h : res'=res.map (Except.map (grafted K t))) :
    res'.map (commit (s.graft K t) f)=(res.map (commit s f)).map (grafted K t) := by
  rw [h]
  cases res with
  | error p => rfl
  | ok r => exact congrArg Except.ok (commit_graft f r)

theorem handlePop_graft {pop : Pop F} (name : String)
    (hpop : ∀ {k}, k ∈ K → ∀ now count, pop (s.graft K t) now k count=
      (pop s now k count).map (Except.map (grafted K t))) (hK : (args.drop 1).take 1 ⊆ K) :
    handlePop name pop w args (s.graft K t)=(handlePop name pop w args s).map (grafted K t) := by
  obtain ⟨r,_,heq⟩ | ⟨key,count,withCount,hargs,heq⟩ := handlePop_cases name pop w args
  · rw [heq,heq]
    rfl
  · rw [heq,heq]
    rw [hargs.named] at hK
    exact commitGo_graft _ (hpop (List.cons_subset.mp hK).1 _ _)

theorem handleSPop_graft (hK : (args.drop 1).take 1 ⊆ K) :
    handleSPop w args (s.graft K t)=(handleSPop w args s).map (grafted K t) := by
  obtain ⟨r,_,heq⟩ | ⟨key,count,withCount,hargs,heq⟩ := handleSPop_cases (F := F) w args
  · rw [heq,heq]
    rfl
  · rw [heq,heq]
    rw [hargs.named] at hK
    exact commitGo_graft _ (sPop_graft (List.cons_subset.mp hK).1 _ _)

theorem handleRename_graft (hK : (args.drop 1).take 2 ⊆ K) :
    handleRename w args (s.graft K t)=(handleRename w args s).map (grafted K t) := by
  unfold handleRename
  split
  · rename_i src dst
    have hk : src ∈ K ∧ dst ∈ K := by simpa using hK
    rw [graft_toMaps,Maps.type_graft hk.1,rename_graft hk.1 hk.2]
    by_cases h : src=dst
    · rw [if_pos h,if_pos h]
      rfl
    · rw [if_neg h,if_neg h]
      cases s.rename w.now src dst <;> rfl
  · rfl

theorem renameRecords_graft (hK : (args.drop 1).take 2 ⊆ K) :
    renameRecords w args (m.graft K n)=renameRecords w args m := by
  unfold renameRecords
  split
  · have hdst := (List.cons_subset.mp (List.cons_subset.mp hK).2).1
    have h := Maps.looks_graft (m := m) (n := n) hdst w.now
    rw [h.type,h.get,h.hGetAll]
  · rfl

theorem appendToAOF_graft {c : WriteCommand} {resp : Response} (hK : c.named args ⊆ K) :
    appendToAOF w c args resp (m.graft K n)=appendToAOF w c args resp m := by
  cases c
  case rename => exact renameRecords_graft hK
  all_goals rfl

section Scores
variable [Float64 F]

theorem handleZPop_graft {pop : ZPop F} (name : String)
    (hpop : ∀ {k}, k ∈ K → ∀ now count, pop (s.graft K t) now k count=
      (pop s now k count).map (Except.map (grafted K t))) (hK : (args.drop 1).take 1 ⊆ K) :
    handleZPop name pop w args (s.graft K t)=
      (handleZPop name pop w args s).map (grafted K t) := by
  obtain ⟨r,_,heq⟩ | ⟨key,count,withCount,hargs,heq⟩ := handleZPop_cases name pop w args
  · rw [heq,heq]
    rfl
  · rw [heq,heq]
    rw [hargs.named] at hK
    exact commitGo_graft _ (hpop (List.cons_subset.mp hK).1 _ _)

theorem handleZSetStore_graft {op : ZStore F} (name : String)
    (hop : ∀ {k ks}, k ∈ K → ks ⊆ K → ∀ now weights agg, op (s.graft K t) now k ks weights agg=
      (op s now k ks weights agg).map (grafted K t)) (hK : zstoreKeys args ⊆ K) :
    handleZSetStore name op w args (s.graft K t)=
      (handleZSetStore name op w args s).map (grafted K t) := by
  unfold handleZSetStore
  split
  · rename_i dst n a rest
    split
    · rfl
    · rename_i numkeys hn
      have hparse : parseInt n=some numkeys := (Option.filter_eq_some_iff.mp hn).1
      have hk : dst ∈ K ∧ (a::rest).take numkeys.toNat ⊆ K := by
        simpa [zstoreKeys,hparse] using hK
      split_ifs
      · rfl
      · rfl
      · dsimp only
        split
        · rfl
        · rw [hop hk.1 hk.2,commit_graft]
          rfl
  · rfl

theorem answer_graft {c : ReadCommand} (hc : (Command.read c).global=false)
    (hK : c.named args ⊆ K) : answer w c args (m.graft K n)=answer w c args m := by
  by_cases ht : c=.ttl ∨ c=.pttl
  · rcases ht with rfl | rfl
    all_goals
      simp only [answer,handleTTL,handlePTTL,handleRemaining]
      split
      · rw [Maps.ttl_graft (List.cons_subset.mp hK).1]
      · rfl
  · apply answer_looks
    · cases c <;> simp_all [Command.global]
    · exact Maps.looks_graft_all hK w.now
    · exact Maps.looks_graft_all hK w.later

theorem execute_graft {c : WriteCommand} (hc : (Command.write c).global=false)
    (hK : c.named args ⊆ K) :
    execute w c args (s.graft K t)=(execute w c args s).map (grafted K t) := by
  cases c
  case flushdb | flushall => cases hc
  case set => exact congrArg Except.ok (handleSet_graft hK)
  case getex => exact congrArg Except.ok (handleGetEX_graft hK)
  case expireat => exact congrArg Except.ok (handleExpireOn_graft _ _ hK)
  case pexpireat => exact congrArg Except.ok (handleExpireOn_graft _ _ hK)
  case hset => exact congrArg Except.ok (handleHSet_graft hK)
  case lpop => exact handlePop_graft _ (fun hk => popList_graft hk _) hK
  case rpop => exact handlePop_graft _ (fun hk => popList_graft hk _) hK
  case spop => exact handleSPop_graft hK
  case zpopmin => exact handleZPop_graft _ (fun hk => popZSet_graft hk _) hK
  case zpopmax => exact handleZPop_graft _ (fun hk => popZSet_graft hk _) hK
  case zunionstore => exact handleZSetStore_graft _ zUnionStore_graft hK
  case zinterstore => exact handleZSetStore_graft _ zInterStore_graft hK
  case rename => exact handleRename_graft hK
  case mset =>
    simp only [execute,handleMSet]
    split_ifs
    · rfl
    · rw [msetLoop_graft (by rwa [← List.drop_one])]
      rfl
  case del =>
    simp only [execute,handleDel]
    split
    · rw [del_graft (by exact hK)]
      rfl
    · rfl
  -- a read decides what is written
  case incr | decr =>
    simp only [execute,handleIncr,handleDecr,handleStep]
    split
    · rw [incrBy_graft (List.cons_subset.mp hK).1]
      rfl
    · rfl
  case incrby | decrby =>
    simp only [execute,handleIncrBy,handleDecrBy,handleStepBy]
    split
    · simp only [incrBy_graft (List.cons_subset.mp hK).1]
      split <;> rfl
    · rfl
  case getset | append =>
    simp only [execute,handleGetSet,handleAppend]
    split
    · have hk := (List.cons_subset.mp hK).1
      simp only [graft_toMaps,Maps.get_graft hk,set_graft hk]
      rfl
    · rfl
  case setnx | getdel =>
    simp only [execute,handleSetNX,handleGetDel]
    split
    · have hk := (List.cons_subset.mp hK).1
      have hks := List.cons_subset.mpr ⟨hk,List.nil_subset K⟩
      rw [graft_toMaps,Maps.get_graft hk]
      simp only [set_graft hk,del_graft hks]
      split <;> rfl
    · rfl
  case incrbyfloat =>
    simp only [execute,handleIncrByFloat]
    split
    · have hk := (List.cons_subset.mp hK).1
      simp only [graft_toMaps,Maps.get_graft hk,set_graft hk]
      split
      · rfl
      · split <;> rfl
    · rfl
  case hincrby | hincrbyfloat =>
    simp only [execute,handleHIncrBy,handleHIncrByFloat]
    split
    · have hk := (List.cons_subset.mp hK).1
      simp only [graft_toMaps,Maps.hGet_graft hk,hSet_graft hk]
      split
      · rfl
      · split <;> rfl
    · rfl
  -- one call of the store
  case persist | hdel =>
    simp only [execute,handlePersist,handleHDel]
    split
    · have hk := (List.cons_subset.mp hK).1
      simp only [persist_graft hk,hDel_graft hk]
      rfl
    · rfl
  case lpush | rpush | sadd | srem | zrem =>
    simp only [execute,handleLPush,handleRPush,handlePush,handleSAdd,handleSRem,handleZRem]
    split
    · have hk := (List.cons_subset.mp hK).1
      simp only [lPush_graft hk,rPush_graft hk,sAdd_graft hk,sRem_graft hk,zRem_graft hk,
        commit_graft]
      rfl
    · rfl
  case rpoplpush | smove =>
    simp only [execute,handleRPopLPush,handleSMove]
    split
    · have hsrc := (List.cons_subset.mp hK).1
      have hdst := (List.cons_subset.mp (List.cons_subset.mp hK).2).1
      simp only [lMove_graft hsrc hdst,sMove_graft hsrc hdst,commit_graft]
      rfl
    · rfl
  case sinterstore | sunionstore | sdiffstore =>
    simp only [execute,handleSInterStore,handleSUnionStore,handleSDiffStore,handleSetOpStore]
    split
    · have hk := List.cons_subset.mp hK
      simp only [sInterStore_graft hk.1 hk.2,sUnionStore_graft hk.1 hk.2,
        sDiffStore_graft hk.1 hk.2,commit_graft]
      rfl
    · rfl
  -- one call of the store once the arguments are read
  case setex | psetex | expire | pexpire =>
    simp only [execute,handleSetEX,handlePSetEX,handleSetTTL,handleExpire,handlePExpire,
      handleExpireIn]
    split
    · have hk := (List.cons_subset.mp hK).1
      simp only [setWithTTL_graft hk,expire_graft hk]
      split <;> rfl
    · rfl
  case lpushx | rpushx | lset | linsert | lrem | ltrim | zincrby =>
    simp only [execute,handleLPushX,handleRPushX,handlePushX,handleLSet,handleLInsert,handleLRem,
      handleLTrim,handleZIncrBy]
    split
    · have hk := (List.cons_subset.mp hK).1
      simp only [graft_toMaps,Maps.type_graft hk,lPush_graft hk,rPush_graft hk,lSet_graft hk,
        lInsert_graft hk,lRem_graft hk,lTrim_graft hk,zIncrBy_graft hk,commit_graft,
        commit_graft_unit]
      split <;> rfl
    · rfl
  case lmove =>
    simp only [execute,handleLMove]
    split
    · have hsrc := (List.cons_subset.mp hK).1
      have hdst := (List.cons_subset.mp (List.cons_subset.mp hK).2).1
      simp only [lMove_graft hsrc hdst,commit_graft]
      split <;> rfl
    · rfl
  case zadd =>
    simp only [execute,handleZAdd]
    split
    · simp only [zAdd_graft (List.cons_subset.mp hK).1,commit_graft]
      split_ifs
      · rfl
      · rfl
      · rfl
      · split <;> rfl
    · rfl

/-- `Dispatch` as an operation of the store that returns the reply and the records. -/
def outcome (w : World) (args : List Bytes) (s : MemoryStore F) :
    Go ((Response × List (List Bytes)) × MemoryStore F) :=
  (dispatch w args s).map fun d => ((d.resp,d.records),d.store)

section Lookup
variable {name : Bytes} {rest : List Bytes}

theorem outcome_unknown (h : lookup (toUpper name)=none) : outcome w (name::rest) s=
    .ok ((.error (utf8 "ERR unknown command '"++name++utf8 "'"),[]),s) := by
  simp only [outcome,dispatch,h]
  rfl

theorem outcome_read {c : ReadCommand} (h : lookup (toUpper name)=some (.read c)) :
    outcome w (name::rest) s=
      (answer w c (name::rest) s.toMaps).map fun resp => ((resp,[]),s) := by
  simp only [outcome,dispatch,h]
  cases answer w c (name::rest) s.toMaps <;> rfl

theorem outcome_write {c : WriteCommand} (h : lookup (toUpper name)=some (.write c)) :
    outcome w (name::rest) s=(execute w c (name::rest) s).map fun r =>
      ((r.1,if r.1.isError then [] else appendToAOF w c (name::rest) r.1 r.2.toMaps),r.2) := by
  simp only [outcome,dispatch,h]
  cases execute w c (name::rest) s <;> rfl

end Lookup

theorem outcome_local (h : KeepsToKeys args) :
    cells.Local (keysNamed args) (outcome (F := F) w args) := by
  intro s t
  show outcome w args (s.graft _ t)=_
  cases args with
  | nil => rfl
  | cons name rest =>
    cases hl : lookup (toUpper name) with
    | none =>
      rw [outcome_unknown hl,outcome_unknown hl]
      rfl
    | some c =>
      have hc : c.global=false := h c hl
      have hnamed : keysNamed (name::rest)=c.named (name::rest) := by simp [keysNamed,commandOf,hl]
      rw [hnamed]
      cases c with
      | read c =>
        have hK : c.named (name::rest) ⊆ (Command.read c).named (name::rest) := fun _ hk => hk
        rw [outcome_read hl,outcome_read hl,graft_toMaps,answer_graft hc hK]
        cases answer w c (name::rest) s.toMaps <;> rfl
      | write c =>
        have hK : c.named (name::rest) ⊆ (Command.write c).named (name::rest) := fun _ hk => hk
        rw [outcome_write hl,outcome_write hl,execute_graft hc hK]
        cases execute w c (name::rest) s with
        | error p => rfl
        | ok r =>
          simp only [Except.map,grafted,graft_toMaps,appendToAOF_graft hK]
          rfl

theorem outcome_of_dispatch {d : Dispatched F} (h : dispatch w args s=.ok d) :
    outcome w args s=.ok ((d.resp,d.records),d.store) := by
  rw [outcome,h]
  rfl

theorem dispatch_frame {d : Dispatched F} (h : KeepsToKeys args) (hd : dispatch w args s=.ok d)
    {k : Bytes} (hk : k ∉ keysNamed args) : d.store.slot k=s.slot k :=
  (outcome_local h).frame (outcome_of_dispatch hd) hk

theorem dispatch_of_outcome {r : Response × List (List Bytes)}
    (h : outcome w args s=.ok (r,t)) :
    dispatch w args s=.ok ⟨r.1,t,r.2⟩ := by
  unfold outcome at h
  cases hd : dispatch w args s with
  | error p =>
    rw [hd] at h
    cases h
  | ok d =>
    rw [hd] at h
    cases h
    rfl

/-- Both panic, or both reply the same, up to order where a map is listed, and leave the same
entries at the keys named. -/
inductive SameEffect (args : List Bytes) : Go (Dispatched F) → Go (Dispatched F) → Prop
  | panic (p : Panic) : SameEffect args (.error p) (.error p)
  | done {d e : Dispatched F} (hresp : d.resp=e.resp ∨ Lists args ∧ d.resp.Reordered e.resp)
      (hstore : ∀ k ∈ keysNamed args, d.store.slot k=e.store.slot k) :
      SameEffect args (.ok d) (.ok e)

theorem dispatch_agree (h : KeepsToKeys args) (hst : ∀ k ∈ keysNamed args, s.slot k=t.slot k) :
    (∃ p, dispatch w args s=.error p ∧ dispatch w args t=.error p) ∨
    ∃ d e, dispatch w args s=.ok d ∧ dispatch w args t=.ok e ∧ d.resp=e.resp ∧
      ∀ k ∈ keysNamed args, d.store.slot k=e.store.slot k := by
  have hagree := (outcome_local (w := w) h).agree hst
  cases hs : dispatch w args s with
  | error p =>
    refine .inl ⟨p,rfl,?_⟩
    rw [outcome,outcome,hs] at hagree
    cases ht : dispatch w args t with
    | error p' =>
      rw [ht] at hagree
      cases hagree
      rfl
    | ok e =>
      rw [ht] at hagree
      cases hagree
  | ok d =>
    rw [outcome_of_dispatch hs] at hagree
    refine .inr ⟨d,_,rfl,dispatch_of_outcome hagree,rfl,?_⟩
    intro k hk
    exact (cells.graft_of_mem hk).symm

theorem dispatch_reorder {order : List Bytes → List Bytes} (ho : ∀ l, (order l).Perm l)
    (h : KeepsToKeys args) (hd : ¬Draws args) (t : MemoryStore F) :
    (∃ p, dispatch w args t=.error p ∧ dispatch (w.reorder order ho) args t=.error p) ∨
    ∃ d e, dispatch w args t=.ok d ∧ dispatch (w.reorder order ho) args t=.ok e ∧
      (d.resp=e.resp ∨ Lists args ∧ d.resp.Reordered e.resp) ∧ d.store=e.store := by
  cases args with
  | nil => exact .inr ⟨_,_,rfl,rfl,.inl rfl,rfl⟩
  | cons name rest =>
    cases hl : lookup (toUpper name) with
    | none =>
      simp only [dispatch,hl]
      exact .inr ⟨_,_,rfl,rfl,.inl rfl,rfl⟩
    | some c =>
      have hglobal : c.global=false := h c hl
      have hdraws : c.draws=false := by
        by_contra hc
        exact hd ⟨c,hl,by simpa using hc⟩
      cases c with
      | read c =>
        simp only [dispatch,hl]
        cases hlists : (Command.read c).lists with
        | true =>
          obtain ⟨r,r',hr,hr',hre⟩ := answer_reorder_lists ho hlists w (name::rest) t.toMaps
          rw [hr,hr']
          refine .inr ⟨_,_,rfl,rfl,.inr ⟨⟨_,hl,hlists⟩,hre.symm⟩,rfl⟩
        | false =>
          have hkeys : Command.read c ≠ .read .keys := by
            intro he
            rw [he] at hglobal
            cases hglobal
          rw [answer_reorder ho hkeys hlists hdraws]
          cases answer w c (name::rest) t.toMaps with
          | error p => exact .inl ⟨p,rfl,rfl⟩
          | ok r => exact .inr ⟨_,_,rfl,rfl,.inl rfl,rfl⟩
      | write c =>
        simp only [dispatch,hl]
        rw [execute_reorder ho hdraws]
        cases execute w c (name::rest) t with
        | error p => exact .inl ⟨p,rfl,rfl⟩
        | ok r => exact .inr ⟨_,_,rfl,rfl,.inl rfl,rfl⟩

/-- Commands keep to the keys they name. -/
theorem commands_local (args : List Bytes) (h : KeepsToKeys args) :
    -- from stores that agree on the keys named the effect is the same
    (∀ (w w' : World) (s t : MemoryStore F), w.SameChoices w' →
      (Draws args → w.rangeOrder=w'.rangeOrder) →
      (∀ k ∈ keysNamed args, s.slot k=t.slot k) →
      SameEffect args (dispatch w args s) (dispatch w' args t)) ∧
    -- every other key is left alone
    (∀ (w : World) (s : MemoryStore F) (d : Dispatched F), dispatch w args s=.ok d →
      ∀ k ∉ keysNamed args, d.store.slot k=s.slot k) ∧
    -- a command that names other keys can be exchanged with it
    (∀ args' : List Bytes, KeepsToKeys args' → (keysNamed args).Disjoint (keysNamed args') →
      ∀ (w w' : World) (s : MemoryStore F) (d e : Dispatched F), dispatch w args s=.ok d →
        dispatch w' args' d.store=.ok e →
        ∃ e' d' : Dispatched F, dispatch w' args' s=.ok e' ∧ dispatch w args e'.store=.ok d' ∧
          e'.resp=e.resp ∧ d'.resp=d.resp ∧ d'.store=e.store) := by
  refine ⟨?_,?_,?_⟩
  · intro w w' s t hw hdraw hst
    have hagree := dispatch_agree (w := w) h hst
    by_cases hd : Draws args
    · rw [hw.eq (hdraw hd)]
      rcases hagree with ⟨p,hs,ht⟩ | ⟨d,e,hs,ht,hresp,hstore⟩
      · rw [hs,ht]
        exact .panic p
      · rw [hs,ht]
        exact .done (.inl hresp) hstore
    · rw [hw.eq_reorder]
      rcases hagree with ⟨p,hs,ht⟩ | ⟨d,e,hs,ht,hresp,hstore⟩
      · rcases dispatch_reorder w'.rangeOrder_perm h hd t with ⟨p',ht',hp⟩ | ⟨_,_,ht',_⟩
        · rw [ht] at ht'
          cases ht'
          rw [hs,hp]
          exact .panic p
        · rw [ht] at ht'
          cases ht'
      · rcases dispatch_reorder w'.rangeOrder_perm h hd t with ⟨_,ht',_⟩ | ⟨_,e',ht',he',hr,hst'⟩
        · rw [ht] at ht'
          cases ht'
        · rw [ht] at ht'
          cases ht'
          rw [hs,he']
          refine .done ?_ ?_
          · rwa [hresp]
          · rwa [← hst']
  · intro w s d hd k hk
    exact (outcome_local h).frame (outcome_of_dispatch hd) hk
  · intro args' h' hdis w w' s d e hd he
    obtain ⟨s₁,h₁,h₂⟩ := (outcome_local h).commute (outcome_local h') hdis
      (outcome_of_dispatch hd) (outcome_of_dispatch he)
    exact ⟨_,_,dispatch_of_outcome h₁,dispatch_of_outcome h₂,rfl,rfl,rfl⟩

end Scores

theorem keepsToKeys_of_command {c : Command} (h : commandOf args=some c) (hc : c.global=false) :
    KeepsToKeys args := by
  intro c' h'
  rw [h] at h'
  cases h'
  exact hc

/-- `RENAME a b` in two stores that differ at `c`, and before and after `SET c x`. -/
theorem commands_local_rename :
    ∃ (s t : MemoryStore Int) (d e : Dispatched Int), s ≠ t ∧
      keysNamed [utf8 "RENAME",[97],[98]]=[[97],[98]] ∧
      dispatch (.plain 0) [utf8 "RENAME",[97],[98]] s=.ok d ∧
      dispatch (.plain 0) [utf8 "SET",[99],[120]] d.store=.ok e ∧
      SameEffect [utf8 "RENAME",[97],[98]] (dispatch (.plain 0) [utf8 "RENAME",[97],[98]] s)
        (dispatch (.plain 0) [utf8 "RENAME",[97],[98]] t) ∧
      d.store.slot [99]=s.slot [99] ∧
      ∃ e' d' : Dispatched Int, dispatch (.plain 0) [utf8 "SET",[99],[120]] s=.ok e' ∧
        dispatch (.plain 0) [utf8 "RENAME",[97],[98]] e'.store=.ok d' ∧
        e'.resp=e.resp ∧ d'.resp=d.resp ∧ d'.store=e.store := by
  have hren : KeepsToKeys [utf8 "RENAME",[97],[98]] := keepsToKeys_of_command rfl rfl
  have hset : KeepsToKeys [utf8 "SET",[99],[120]] := keepsToKeys_of_command rfl rfl
  obtain ⟨hsame,hframe,hcomm⟩ := commands_local (F := Int) [utf8 "RENAME",[97],[98]] hren
  refine ⟨MemoryStore.new.set [97] [118],(MemoryStore.new.set [97] [118]).set [99] [121],_,_,
    by decide,rfl,rfl,rfl,?_,?_,?_⟩
  · refine hsame (.plain 0) (.plain 0) _ _ (.refl _) (fun _ => rfl) ?_
    decide
  · exact hframe (.plain 0) _ _ rfl [99] (by decide)
  · have hdis : ∀ k ∈ keysNamed [utf8 "RENAME",[97],[98]],
        k ∉ keysNamed [utf8 "SET",[99],[120]] := by decide
    exact hcomm [utf8 "SET",[99],[120]] hset (fun k hk hk' => hdis k hk hk') (.plain 0) (.plain 0)
      _ _ _ rfl rfl

end GoRedis
