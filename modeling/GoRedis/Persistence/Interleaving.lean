import GoRedis.Lib.LastWrite
import GoRedis.Lib.Machine
import GoRedis.Lib.TwoPhase
import GoRedis.Persistence.Cut
/-!
# Clients at the same time

`Dispatch` takes the lock of the store for the operation and then, after letting it go, the
lock of the file for the record, so another client can do both in between. Here clients send
`SET key value` and `DEL key`, whose handlers make one call on the store each: a request is two
atomic steps, and a schedule says whose step is next. The server refines the machine that only
keeps the two orders, so what comes of a schedule can be read off the requests alone.
-/
namespace GoRedis
open PrefixCode Journal LastWrite

/-- `SET key value` or `DEL key`. -/
def request (q : Write Bytes Bytes) : List Bytes :=
  match q.value with
  | some v => setRecord q.key v
  | none => delRecord q.key

/-- The cells of a store without deadlines. -/
def plainCells (f : Bytes → Option Bytes) (k : Bytes) : Cell := (f k).map fun v => ⟨v,none⟩

theorem plainCells_injective : Function.Injective plainCells := by
  intro f g h
  funext k
  refine Option.map_injective (f := fun v => (⟨v,none⟩ : StrEntry)) ?_ (congrFun h k)
  intro v v' hv
  exact congrArg StrEntry.value hv

theorem plainCells_update (f : Bytes → Option Bytes) (k : Bytes) (v : Option Bytes) :
    plainCells (Function.update f k v)=
      Function.update (plainCells f) k (v.map fun v => ⟨v,none⟩) := by
  funext k'
  by_cases hk : k'=k
  · subst hk
    simp [plainCells]
  · simp [plainCells,hk]

section
variable {F : Type} [Float64 F] {s : MemoryStore F} {f : Bytes → Option Bytes}

omit [Float64 F] in
theorem holds_del_plain (h : s.HoldsCells (plainCells f)) (now : Int) (k : Bytes) :
    (s.del now [k]).2.HoldsCells (plainCells (Function.update f k none)) := by
  have hbeyond : Cell.Beyond now (plainCells f k) := Cell.beyond_map_plain now (f k)
  have := MemoryStore.holds_del h now k
  rwa [hbeyond.del le_rfl,← Option.map_none (fun v => (⟨v,none⟩ : StrEntry)),
    ← plainCells_update] at this

theorem dispatch_request (h : s.HoldsCells (plainCells f)) (w : World) (q : Write Bytes Bytes) :
    ∃ d, dispatch w (request q) s=.ok d ∧ d.records=[request q] ∧
      d.store.HoldsCells (plainCells (Function.update f q.key q.value)) := by
  obtain ⟨k,v⟩ := q
  cases v with
  | some v =>
    refine ⟨_,rfl,rfl,?_⟩
    rw [plainCells_update]
    exact MemoryStore.holds_set h k v
  | none => exact ⟨_,rfl,rfl,holds_del_plain h w.now k⟩

theorem apply_request (h : s.HoldsCells (plainCells f)) (w : World) (q : Write Bytes Bytes) :
    ∃ s', applyCommand w (request q) s=done s' ∧
      s'.HoldsCells (plainCells (Function.update f q.key q.value)) := by
  obtain ⟨k,v⟩ := q
  cases v with
  | some v =>
    refine ⟨_,applyCommand_set w k v s,?_⟩
    rw [plainCells_update]
    exact MemoryStore.holds_set h k v
  | none => exact ⟨_,applyCommand_del w k s,holds_del_plain h w.now k⟩

theorem redo_requests (world : Nat → World) (qs : List (Write Bytes Bytes)) :
    ∃ r : MemoryStore F, applyAll world (qs.map request) .new=some r ∧
      r.HoldsCells (plainCells (lastWrite qs)) := by
  induction qs using List.reverseRecOn with
  | nil => exact ⟨.new,rfl,MemoryStore.holds_new⟩
  | append_singleton qs q ih =>
    obtain ⟨r,hr,hcells⟩ := ih
    obtain ⟨r',hr',hcells'⟩ := apply_request hcells (world (0+(qs.map request).length)) q
    refine ⟨r',?_,by rwa [lastWrite_concat]⟩
    rw [applyAll] at hr ⊢
    rw [List.map_append,redo_append,hr,Option.bind_some,List.map_singleton]
    simp only [redo,applied_eq_some.mpr hr',Option.bind_some]

end

/-- The server and its clients. -/
structure Shared (I F : Type) where
  store : MemoryStore F
  log : List (List Bytes)
  todo : I → List (Write Bytes Bytes)
  pending : I → List (List Bytes)

section
variable {I F : Type}

/-- Clients with requests to send, and an empty server. -/
def Shared.start (todo : I → List (Write Bytes Bytes)) : Shared I F := ⟨.new,[],todo,fun _ => []⟩

/-- The store is what the executed requests make of it, and the log is the logged ones. -/
structure Shared.Refines (st : Shared I F) (o : TwoPhase.State I (Write Bytes Bytes)) : Prop where
  store : st.store.HoldsCells (plainCells (lastWrite o.executed))
  log : st.log=o.logged.map request
  todo : st.todo=o.todo
  pending : ∀ i, st.pending i=(o.owed i).map request

variable [DecidableEq I] [Float64 F]

/-- The next step of one client: the `Append` it owes, or the store operation of its next
request. -/
def Shared.step (e : I × World) (st : Shared I F) : Go (Shared I F) :=
  match st.pending e.1 with
  | rec::recs =>
    .ok { st with log := st.log++[rec],pending := Function.update st.pending e.1 recs }
  | [] => match st.todo e.1 with
    | [] => .ok st
    | q::qs => match dispatch e.2 (request q) st.store with
      | .error p => .error p
      | .ok d => .ok
        { store := d.store
          log := st.log
          todo := Function.update st.todo e.1 qs
          pending := Function.update st.pending e.1 d.records }

theorem Shared.step_refines {st : Shared I F} {o : TwoPhase.State I (Write Bytes Bytes)}
    (h : st.Refines o) (e : I × World) :
    ∃ st', step e st=.ok st' ∧ st'.Refines (TwoPhase.step o e.1) := by
  obtain ⟨i,w⟩ := e
  have hpend := h.pending i
  unfold step TwoPhase.step
  dsimp only
  cases howed : o.owed i with
  | cons q qs =>
    rw [howed,List.map_cons] at hpend
    rw [hpend]
    refine ⟨_,rfl,h.store,by simp [h.log],h.todo,fun j => ?_⟩
    by_cases hj : j=i
    · subst hj
      simp
    · simpa [hj] using h.pending j
  | nil =>
    rw [howed,List.map_nil] at hpend
    rw [hpend]
    dsimp only
    rw [h.todo]
    cases htodo : o.todo i with
    | nil => exact ⟨st,rfl,h⟩
    | cons q qs =>
      obtain ⟨d,hd,hrec,hstore⟩ := dispatch_request h.store w q
      dsimp only
      rw [hd]
      refine ⟨_,rfl,?_,h.log,rfl,fun j => ?_⟩
      · dsimp only
        rwa [lastWrite_concat]
      · by_cases hj : j=i
        · subst hj
          simp [hrec]
        · simpa [hj] using h.pending j

theorem Shared.run_refines (schedule : List (I × World)) {st : Shared I F}
    {o : TwoPhase.State I (Write Bytes Bytes)} (h : st.Refines o) :
    ∃ st', Machine.run step schedule st=.ok st' ∧
      st'.Refines (TwoPhase.run (schedule.map Prod.fst) o) := by
  induction schedule generalizing st o with
  | nil => exact ⟨st,rfl,h⟩
  | cons e schedule ih =>
    obtain ⟨u,hu,hr⟩ := step_refines h e
    obtain ⟨st',hst',hr'⟩ := ih hr
    exact ⟨st',Machine.run_cons_ok.mpr ⟨u,hu,hst'⟩,hr'⟩

/-- However the clients' steps fall, the log has every request once. Replay gives the live maps
exactly when, for every key, the last of its requests that was logged and the last one that was
executed have the same effect. -/
theorem interleaving_durable_iff (world : Nat → World) (todo : I → List (Write Bytes Bytes))
    (schedule : List (I × World)) (s₀ : MemoryStore F)
    {o : TwoPhase.State I (Write Bytes Bytes)}
    (ho : o=TwoPhase.run (schedule.map Prod.fst) (TwoPhase.start todo)) (hdone : TwoPhase.Finished o)
    (hfit : ∀ q ∈ o.logged, Fits (request q)) :
    ∃ st, Machine.run Shared.step schedule (.start todo : Shared I F)=.ok st ∧
      st.log=o.logged.map request ∧ o.logged.Perm o.executed ∧
      ∃ r, replay world (some (encodeAll st.log)) s₀=.ok r ∧ r.err=none ∧
        (r.store.toMaps=st.store.toMaps ↔ ∀ k, lastWrite o.logged k=lastWrite o.executed k) := by
  have hstart : (Shared.start todo : Shared I F).Refines (TwoPhase.start todo) :=
    ⟨MemoryStore.holds_new,rfl,rfl,fun _ => rfl⟩
  obtain ⟨st,hrun,h⟩ := Shared.run_refines schedule hstart
  subst ho
  obtain ⟨r,hr,hcells⟩ := redo_requests (F := F) world
    (TwoPhase.run (schedule.map Prod.fst) (TwoPhase.start todo)).logged
  have hfit' : ∀ rec ∈ st.log, Fits rec := by
    rw [h.log]
    exact List.forall_mem_map.mpr hfit
  rw [← h.log] at hr
  refine ⟨st,hrun,h.log,TwoPhase.logged_perm_executed _ _ hdone,_,
    replay_log world st.log s₀ r hfit' hr,rfl,?_⟩
  rw [← funext_iff]
  constructor
  · intro hmaps
    have hstore := h.store
    rw [← hmaps] at hstore
    exact plainCells_injective (funext fun k => (hcells.strings k).symm.trans (hstore.strings k))
  · intro hlast
    rw [hlast] at hcells
    exact hcells.unique h.store

end

/-- Two clients, the second between the steps of the first, on different keys. -/
theorem interleaving_durable_two_keys :
    ∃ st, Machine.run (Shared.step (F := Int)) [(false,.plain 0),(true,.plain 0),(true,.plain 0),
        (false,.plain 0)] (.start fun i => if i then [⟨[121],some [98]⟩] else [⟨[120],some [97]⟩])=
        .ok st ∧ st.log=[setRecord [121] [98],setRecord [120] [97]] ∧
      ∃ r, replay (fun _ => .plain 0) (some (encodeAll st.log)) .new=.ok r ∧ r.err=none ∧
        r.store.toMaps=st.store.toMaps := by
  obtain ⟨st,hrun,hlog,_,r,hr,herr,hiff⟩ := interleaving_durable_iff (F := Int) (fun _ => .plain 0)
    (fun i => if i then [⟨[121],some [98]⟩] else [⟨[120],some [97]⟩])
    [(false,.plain 0),(true,.plain 0),(true,.plain 0),(false,.plain 0)] .new rfl
    (by unfold TwoPhase.Finished; decide) (by decide)
  refine ⟨st,hrun,hlog,r,hr,herr,hiff.mpr fun k => ?_⟩
  change lastWrite [⟨[121],some [98]⟩,⟨[120],some [97]⟩] k=
    lastWrite [⟨[120],some [97]⟩,⟨[121],some [98]⟩] k
  by_cases hx : [120]=k
  · subst hx
    rfl
  · by_cases hy : [121]=k
    · subst hy
      rfl
    · simp [lastWrite,hx,hy]

/-- Two clients set one key: the second executes last and appends first, so the live store has
its value and replay that of the first. -/
theorem set_reordered :
    ∃ st r, Machine.run (Shared.step (F := Int)) [(false,.plain 0),(true,.plain 0),
        (true,.plain 0),(false,.plain 0)]
        (.start fun i => if i then [⟨[120],some [98]⟩] else [⟨[120],some [97]⟩])=.ok st ∧
      (∀ i, st.todo i=[] ∧ st.pending i=[]) ∧
      replay (F := Int) (fun _ => .plain 0) (some (encodeAll st.log)) .new=.ok r ∧ r.err=none ∧
      st.store.get 0 [120]=some [98] ∧ r.store.get 0 [120]=some [97] :=
  ⟨_,_,rfl,by decide,rfl,rfl,by decide,by decide⟩

end GoRedis
