import GoRedis.Persistence.Refinement
import GoRedis.Storage.Cells
/-!
# Deadlines and restarts

Deadlines are logged as absolute instants, and replay judges each of them by its own clock: a
recorded deadline that has passed deletes the key, even when a later record moves it. From
then on the key is lapsed for replay, until the next `SET` of it.
-/
namespace GoRedis
open PrefixCode Journal

/-- The keys of the pairs that `MSET` stores. -/
def msetKeys : List Bytes → List Bytes
  | k::_::rest => k::msetKeys rest
  | _ => []

/-- The keys that a record gives a new value without a deadline. -/
def storedKeys : List Bytes → List Bytes
  | [] => []
  | name::rest => match lookup (toUpper name) with
    | some (.write .set) => rest.take 1
    | some (.write .mset) => msetKeys rest
    | _ => []

/-- The key and the deadline of a `PEXPIREAT` record. -/
def recordedDeadline : List Bytes → Option (Bytes × Int)
  | [name,key,n] =>
    if lookup (toUpper name)=some (.write .pexpireat) then
      (parseInt n).map fun ms => (key,unixMilli ms)
    else none
  | _ => none

/-- One record's part in whether `k` is lapsed at `t`. -/
def lapse (t : Int) (k : Bytes) (b : Bool) (rec : List Bytes) : Bool :=
  if k ∈ storedKeys rec then false
  else b || (recordedDeadline rec).any fun d => d.1=k ∧ d.2 ≤ t

/-- Since `k` was last stored the log has a deadline of `k` that is not after `t`. -/
def lapsed (t : Int) (log : List (List Bytes)) (k : Bytes) : Bool := log.foldl (lapse t k) false

theorem msetMarks_cons (b : Bytes → Bool) (key : Bytes) (keys : List Bytes) :
    (fun k => if k ∈ key::keys then false else b k)=
      fun k => if k ∈ keys then false else Function.update b key false k := by
  funext k
  by_cases hk : k=key <;> simp [hk]

/-- A live cell and the one replay has for it at `t`: none when the key is lapsed, and else
the same, not expiring before `t`. -/
def Follows (t : Int) (b : Bool) (c c' : Cell) : Prop :=
  match b with
  | true => c'=none
  | false => c=c' ∧ Cell.Beyond t c'

namespace Follows
variable {t now : Int} {b : Bool} {c c' : Cell}

theorem set (t : Int) (v : Bytes) : Follows t false (some ⟨v,none⟩) (some ⟨v,none⟩) :=
  ⟨rfl,by simp [Cell.Beyond]⟩

theorem del (h : Follows t b c c') (hle : now ≤ t) :
    Follows t b (Cell.del now c) (Cell.del t c') := by
  cases b with
  | true =>
    obtain rfl : c'=none := h
    rfl
  | false =>
    obtain ⟨rfl,hb⟩ := h
    rw [hb.del hle,hb.del le_rfl]
    exact ⟨rfl,Cell.beyond_none t⟩

theorem persist (h : Follows t b c c') (hle : now ≤ t) :
    Follows t b (Cell.persist now c) (Cell.persist t c') := by
  cases b with
  | true =>
    obtain rfl : c'=none := h
    rfl
  | false =>
    obtain ⟨rfl,hb⟩ := h
    rw [hb.persist hle,hb.persist le_rfl]
    exact ⟨rfl,Cell.beyond_map_persist t c⟩

theorem sweep (h : Follows t b c c') (hle : now ≤ t) : Follows t b (Cell.live now c) c' := by
  cases b with
  | true => exact h
  | false =>
    obtain ⟨rfl,hb⟩ := h
    rw [hb.live hle]
    exact ⟨rfl,hb⟩

theorem lapse (h : Follows t b c c') (u : Cell) : Follows t true u (Cell.del t c') := by
  cases b with
  | true =>
    obtain rfl : c'=none := h
    rfl
  | false =>
    obtain ⟨rfl,hb⟩ := h
    exact hb.del le_rfl

theorem expire (h : Follows t b c c') (hle : now ≤ t) {d : Int} (hd : t < d) :
    Follows t b (Cell.expire now (d-now) c) (Cell.expire t (d-t) c') := by
  cases b with
  | true =>
    obtain rfl : c'=none := h
    rfl
  | false =>
    obtain ⟨rfl,hb⟩ := h
    rw [hb.expire hle,hb.expire le_rfl,add_sub_cancel,add_sub_cancel]
    exact ⟨rfl,Cell.beyond_map_expire hd c⟩

end Follows

section
variable {F : Type}

/-- A store and what replay at `t` has rebuilt of it, given the lapsed keys. -/
def Tracks (t : Int) (b : Bytes → Bool) (s r : MemoryStore F) : Prop :=
  ∃ f g, s.HoldsCells f ∧ r.HoldsCells g ∧ ∀ k, Follows t (b k) (f k) (g k)

/-- No key that is seen at `t` is lapsed. -/
def Unlapsed (t : Int) (b : Bytes → Bool) (s : MemoryStore F) : Prop :=
  ∀ k, b k=true → s.view t k=none

/-- What replay at `t` does about the deadline `d` of `k`. -/
def moveDeadline (t : Int) (k : Bytes) (d : Int) (r : MemoryStore F) : MemoryStore F :=
  if d ≤ t then (r.del t [k]).2 else (r.expire t k (d-t)).2

namespace Tracks
variable {t now : Int} {b : Bytes → Bool} {s r : MemoryStore F}

theorem update {s' r' : MemoryStore F} {f g : Bytes → Cell} {k : Bytes} {b' : Bool} {c c' : Cell}
    (hs : s'.HoldsCells (Function.update f k c)) (hr : r'.HoldsCells (Function.update g k c'))
    (h : ∀ k, Follows t (b k) (f k) (g k)) (hk : Follows t b' c c') :
    Tracks t (Function.update b k b') s' r' := by
  refine ⟨_,_,hs,hr,fun k' => ?_⟩
  by_cases he : k'=k
  · subst he
    simpa only [Function.update_self] using hk
  · simpa only [Function.update_of_ne he] using h k'

theorem new (t : Int) : Tracks t (fun _ => false) (.new : MemoryStore F) .new :=
  ⟨_,_,MemoryStore.holds_new,MemoryStore.holds_new,fun _ => ⟨rfl,Cell.beyond_none t⟩⟩

theorem set (h : Tracks t b s r) (k v : Bytes) :
    Tracks t (Function.update b k false) (s.set k v) (r.set k v) := by
  obtain ⟨f,g,hs,hr,hf⟩ := h
  exact update (MemoryStore.holds_set hs k v) (MemoryStore.holds_set hr k v) hf (.set t v)

theorem mset (h : Tracks t b s r) (args : List Bytes) :
    Tracks t (fun k => if k ∈ msetKeys args then false else b k) (msetLoop s args)
      (msetLoop r args) := by
  fun_induction msetKeys args generalizing s r b with
  | case1 key v rest ih =>
    rw [msetMarks_cons,msetLoop,msetLoop]
    exact ih (h.set key v)
  | case2 args hargs =>
    rw [msetLoop.eq_2 s args hargs,msetLoop.eq_2 r args hargs]
    simpa using h

theorem del (h : Tracks t b s r) (hle : now ≤ t) (ks : List Bytes) :
    Tracks t b (s.del now ks).2 (r.del t ks).2 := by
  induction ks generalizing s r with
  | nil => exact h
  | cons k ks ih =>
    rw [MemoryStore.del_cons,MemoryStore.del_cons r]
    apply ih
    obtain ⟨f,g,hs,hr,hf⟩ := h
    have := update (MemoryStore.holds_del hs now k) (MemoryStore.holds_del hr t k) hf
      ((hf k).del hle)
    rwa [Function.update_eq_self] at this

theorem persist (h : Tracks t b s r) (hle : now ≤ t) (k : Bytes) :
    Tracks t b (s.persist now k).2 (r.persist t k).2 := by
  obtain ⟨f,g,hs,hr,hf⟩ := h
  have := update (MemoryStore.holds_persist hs now k) (MemoryStore.holds_persist hr t k) hf
    ((hf k).persist hle)
  rwa [Function.update_eq_self] at this

theorem sweep (h : Tracks t b s r) (hle : now ≤ t) : Tracks t b (s.deleteExpired now) r := by
  obtain ⟨f,g,hs,hr,hf⟩ := h
  exact ⟨_,g,MemoryStore.holds_deleteExpired hs now,hr,fun k => (hf k).sweep hle⟩

theorem expire (h : Tracks t b s r) (hle : now ≤ t) (k : Bytes) (d : Int) :
    Tracks t (Function.update b k (b k || decide (d ≤ t))) (s.expire now k (d-now)).2
      (moveDeadline t k d r) := by
  obtain ⟨f,g,hs,hr,hf⟩ := h
  have hs' := (MemoryStore.holds_expire hs now k (d-now)).2
  unfold moveDeadline
  split
  · rename_i hd
    rw [decide_eq_true hd,Bool.or_true]
    exact update hs' (MemoryStore.holds_del hr t k) hf ((hf k).lapse _)
  · rename_i hd
    rw [decide_eq_false hd,Bool.or_false]
    exact update hs' (MemoryStore.holds_expire hr t k (d-t)).2 hf ((hf k).expire hle (by omega))

theorem past (h : Tracks t b s r) {d : Int} (hd : d ≤ t) (k : Bytes) :
    Tracks t (Function.update b k (b k || decide (d ≤ t))) (s.del now [k]).2
      (moveDeadline t k d r) := by
  obtain ⟨f,g,hs,hr,hf⟩ := h
  rw [moveDeadline,if_pos hd,decide_eq_true hd,Bool.or_true]
  exact update (MemoryStore.holds_del hs now k) (MemoryStore.holds_del hr t k) hf ((hf k).lapse _)

theorem setWithTTL (h : Tracks t b s r) (hle : now ≤ t) (k v : Bytes) (d : Int) :
    Tracks t (Function.update b k (decide (d ≤ t))) (s.setWithTTL now k v (d-now))
      (moveDeadline t k d (r.set k v)) := by
  have h' := (h.set k v).expire hle k d
  rw [Function.update_self,Bool.false_or,Function.update_idem] at h'
  obtain ⟨f,g,hs,hr,hf⟩ := h'
  refine ⟨f,g,?_,hr,hf⟩
  rwa [MemoryStore.setWithTTL_toMaps]

theorem view_eq_iff (h : Tracks t b s r) : (∀ k, r.view t k=s.view t k) ↔ Unlapsed t b s := by
  obtain ⟨f,g,hs,hr,hf⟩ := h
  refine forall_congr' fun k => ?_
  have hk := hf k
  rw [hs.view t k,hr.view t k]
  cases hb : b k with
  | true =>
    rw [hb] at hk
    have hg : g k=none := hk
    simp only [hg,Cell.live_none,Option.map_none,forall_const]
    exact eq_comm
  | false =>
    rw [hb] at hk
    have hfg : f k=g k := hk.1
    simp [hfg]

end Tracks
end

/-- Instants of a run that is replayed at `t`: whole milliseconds, none after `t`, and far
enough from the end of `int64` nanoseconds. -/
structure Clock (t now : Int) : Prop where
  nonneg : 0 ≤ now
  le : now ≤ t
  bound : t < 2^62
  whole : now%millisecond=0

/-- An amount of time for which nothing overflows. -/
def Small (unit n : Int) : Prop := -2^62 < n*unit ∧ n*unit < 2^62

/-- The duration `ttl` at `now` and the recorded instant `ms` are one deadline, and replay at
`t` reads it exactly. -/
structure SameDeadline (t now ttl ms : Int) : Prop where
  eq : ttl=unixMilli ms-now
  recorded : InInt64 ms
  ahead : InInt64 (unixMilli ms-t)

section
variable {t now n : Int}

theorem sameDeadline_seconds (hc : Clock t now) (h : Small second n) :
    SameDeadline t now (scale n second) (absMilli now (wrap64 (n*1000))) := by
  obtain ⟨h0,hle,hb,hw⟩ := hc
  unfold Small second at h
  unfold millisecond at hw
  have hk : wrap64 (n*1000)=n*1000 := wrap64_of_inInt64 (by unfold InInt64; omega)
  have hms : absMilli now (wrap64 (n*1000))=now/10^6+n*1000 := by
    rw [hk,absMilli,toUnixMilli,millisecond]
    exact wrap64_of_inInt64 (by unfold InInt64; omega)
  have httl : scale n second=n*10^9 := scale_of_inInt64 (by unfold InInt64 second; omega)
  refine ⟨?_,?_,?_⟩
  · rw [httl,hms,unixMilli,millisecond]
    omega
  · rw [hms]
    unfold InInt64
    omega
  · rw [hms,unixMilli,millisecond]
    unfold InInt64
    omega

theorem sameDeadline_millis (hc : Clock t now) (h : Small millisecond n) :
    SameDeadline t now (scale n millisecond) (absMilli now n) := by
  obtain ⟨h0,hle,hb,hw⟩ := hc
  unfold Small at h
  unfold millisecond at h hw
  have hms : absMilli now n=now/10^6+n := by
    rw [absMilli,toUnixMilli,millisecond]
    exact wrap64_of_inInt64 (by unfold InInt64; omega)
  have httl : scale n millisecond=n*10^6 :=
    scale_of_inInt64 (by unfold InInt64 millisecond; omega)
  refine ⟨?_,?_,?_⟩
  · rw [httl,hms,unixMilli,millisecond]
    omega
  · rw [hms]
    unfold InInt64
    omega
  · rw [hms,unixMilli,millisecond]
    unfold InInt64
    omega

theorem sameDeadline_onMillis (hc : Clock t now) (h : Small millisecond n) :
    SameDeadline t now (timeUntil now (unixMilli n)) n := by
  obtain ⟨h0,hle,hb,_⟩ := hc
  unfold Small millisecond at h
  refine ⟨timeUntil_of_inInt64 ?_,?_,?_⟩
  all_goals
    simp only [InInt64,unixMilli,millisecond]
    omega

theorem sameDeadline_onSeconds (hc : Clock t now) (h : Small second n) :
    SameDeadline t now (timeUntil now (unix n)) (wrap64 (n*1000)) := by
  have hk : wrap64 (n*1000)=n*1000 := by
    unfold Small second at h
    exact wrap64_of_inInt64 (by unfold InInt64; omega)
  have hu : unix n=unixMilli (n*1000) := by
    unfold Small second at h
    unfold unix unixMilli second millisecond unixToInternal
    rw [wrap64_of_inInt64 (by unfold InInt64; omega)]
    omega
  rw [hk,hu]
  refine sameDeadline_onMillis hc ?_
  unfold Small second at h
  unfold Small millisecond
  omega

end

section
variable {F : Type} [Float64 F] {world : Nat → World} {t : Int} {i : Nat}
  {past : List (List Bytes)} {s s' r : MemoryStore F} {name key n : Bytes}

theorem lapse_set (hname : lookup (toUpper name)=some (.write .set)) (t : Int) (b : Bytes → Bool)
    (key v : Bytes) :
    (fun k => lapse t k (b k) [name,key,v])=Function.update b key false := by
  funext k
  by_cases hk : k=key <;> simp [lapse,storedKeys,recordedDeadline,hname,hk]

theorem lapse_mset (hname : lookup (toUpper name)=some (.write .mset)) (t : Int) (k : Bytes)
    (b : Bool) (rest : List Bytes) :
    lapse t k b (name::rest)=if k ∈ msetKeys rest then false else b := by
  have hd : recordedDeadline (name::rest)=none := by
    unfold recordedDeadline
    split
    · rename_i h
      cases h
      simp [hname]
    · rfl
  simp [lapse,storedKeys,hname,hd]

theorem lapse_pexpireat (hname : lookup (toUpper name)=some (.write .pexpireat)) {ms : Int}
    (hn : parseInt n=some ms) (t : Int) (b : Bytes → Bool) (key : Bytes) :
    (fun k => lapse t k (b k) [name,key,n])=
      Function.update b key (b key || decide (unixMilli ms ≤ t)) := by
  funext k
  by_cases hk : k=key
  · subst hk
    simp [lapse,storedKeys,recordedDeadline,hname,hn]
  · have hk' : key ≠ k := fun e => hk e.symm
    simp [lapse,storedKeys,recordedDeadline,hname,hn,hk,hk']

theorem lapse_of_command {c : WriteCommand} (hname : lookup (toUpper name)=some (.write c))
    (hset : c ≠ .set) (hmset : c ≠ .mset) (hat : c ≠ .pexpireat) (t : Int) (k : Bytes) (b : Bool)
    (rest : List Bytes) : lapse t k b (name::rest)=b := by
  have hstored : storedKeys (name::rest)=[] := by
    simp only [storedKeys,hname]
    split <;> simp_all
  have hd : recordedDeadline (name::rest)=none := by
    unfold recordedDeadline
    split
    · rename_i h
      cases h
      simp [hname,hat]
    · rfl
  simp [lapse,hstored,hd]

theorem lapsed_concat (t : Int) (past : List (List Bytes)) (rec : List Bytes) :
    lapsed t (past++[rec])=fun k => lapse t k (lapsed t past k) rec := by
  funext k
  simp [lapsed,List.foldl_append]

theorem lapsed_set (t : Int) (past : List (List Bytes)) (key v : Bytes) :
    lapsed t (past++[setRecord key v])=Function.update (lapsed t past) key false := by
  rw [lapsed_concat,setRecord,lapse_set (by decide)]

/-- The records of one step, redone. -/
def Rebuilt (world : Nat → World) (t : Int) (past : List (List Bytes)) (i : Nat)
    (s' : MemoryStore F) (records : List (List Bytes)) (r : MemoryStore F) : Prop :=
  ∃ r', redo (applied world) i records r=some r' ∧ Tracks t (lapsed t (past++records)) s' r'

theorem Rebuilt.nothing (h : Tracks t (lapsed t past) s r) : Rebuilt world t past i s [] r :=
  ⟨r,rfl,by simpa using h⟩

theorem Rebuilt.one {rec : List Bytes} (r' : MemoryStore F)
    (hr : applyCommand (world i) rec r=done r')
    (h : Tracks t (fun k => lapse t k (lapsed t past k) rec) s' r') :
    Rebuilt world t past i s' [rec] r := by
  refine ⟨r',?_,by rwa [lapsed_concat]⟩
  simp only [redo,applied_eq_some.mpr hr,Option.bind_some]

theorem Rebuilt.cons {rec : List Bytes} {records : List (List Bytes)} {r' : MemoryStore F}
    (hr : applyCommand (world i) rec r=done r')
    (h : Rebuilt world t (past++[rec]) (i+1) s' records r') :
    Rebuilt world t past i s' (rec::records) r := by
  obtain ⟨u,hu,ht⟩ := h
  refine ⟨u,?_,by simpa using ht⟩
  simp only [redo,applied_eq_some.mpr hr,Option.bind_some,hu]

theorem applyCommand_pexpireat (hnow : (world i).now=t)
    (hname : lookup (toUpper name)=some (.write .pexpireat)) {ms : Int} (hn : parseInt n=some ms)
    (hin : InInt64 (unixMilli ms-t)) (key : Bytes) (r : MemoryStore F) :
    applyCommand (world i) [name,key,n] r=done (moveDeadline t key (unixMilli ms) r) := by
  rw [applyCommand_of_lookup hname,applyWrite,replayPExpireAt]
  simp only [hn,hnow,timeUntil_of_inInt64 hin,moveDeadline,sub_nonpos]
  split <;> rfl

theorem Rebuilt.deadline (hnow : (world i).now=t)
    (hname : lookup (toUpper name)=some (.write .pexpireat)) {ms : Int} (hn : parseInt n=some ms)
    (hin : InInt64 (unixMilli ms-t))
    (h : Tracks t (Function.update (lapsed t past) key
      (lapsed t past key || decide (unixMilli ms ≤ t))) s' (moveDeadline t key (unixMilli ms) r)) :
    Rebuilt world t past i s' [[name,key,n]] r :=
  .one _ (applyCommand_pexpireat hnow hname hn hin key r) (by rwa [lapse_pexpireat hname hn])

end

end GoRedis
