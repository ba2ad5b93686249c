import GoRedis.Persistence.Accepted
/-!
# Replay refines live execution without deadlines

The two interpreters of the repository, run one after the other: the handlers produce a
store and a log, `Replay` produces a store from the log. As long as no command brings in a
deadline, draws lots or weighs scores, the two stores hold the same. The relation that is
kept from request to request is that the maps agree and that no key has a deadline.
-/
namespace GoRedis
open Journal
variable {F : Type}

/-- Commands whose replay needs neither the clock nor the random source. `SET` is meant
without options, `GETEX` likewise, and the combined sorted sets without weights. -/
def TimelessCommand (c : WriteCommand) (args : List Bytes) : Prop :=
  match c with
  | .set => args.length ≤ 3
  | .getex => args.length ≤ 2
  | .zunionstore | .zinterstore => ∀ n : Nat, parseInt (args.getD 2 [])=some (n:Int) →
      ∀ a ∈ args.drop (3+n), toUpper a ≠ utf8 "WEIGHTS" ∧ toUpper a ≠ utf8 "AGGREGATE"
  | .setex | .psetex | .expire | .pexpire | .expireat | .pexpireat | .spop | .rename => False
  | _ => True

/-- A request that names such a command or one that only reads. -/
def TimelessRequest : List Bytes → Prop := RequestOf TimelessCommand

section
variable {w : World} {args : List Bytes} {s s' : MemoryStore F} {resp : Response}

theorem handleSetNX_done (hrun : handleSetNX w args s=(resp,s')) (h : resp.int=1) :
    s'=s.set (args.getD 1 []) (args.getD 2 []) := by
  unfold handleSetNX at hrun
  split at hrun
  · split at hrun <;> cases hrun
    · cases h
    · rfl
  · cases hrun
    cases h

theorem handleGetSet_done (hrun : handleGetSet w args s=(resp,s')) (he : resp.isError=false) :
    s'=s.set (args.getD 1 []) (args.getD 2 []) := by
  unfold handleGetSet at hrun
  split at hrun
  · exact congrArg Prod.snd hrun.symm
  · cases hrun
    cases he

theorem handleGetDel_done (hrun : handleGetDel w args s=(resp,s')) (he : resp.isError=false)
    (h : resp.isNullBulk=false) : s'=(s.del w.now [args.getD 1 []]).2 := by
  unfold handleGetDel at hrun
  split at hrun
  · split at hrun
    · cases hrun
      cases h
    · exact congrArg Prod.snd hrun.symm
  · cases hrun
    cases he

theorem incrBy_done {key : Bytes} {delta : Int} (hrun : incrBy w key delta s=(resp,s'))
    (he : resp.isError=false) : s'=s.set key (formatInt resp.int) := by
  unfold incrBy at hrun
  split at hrun
  · cases hrun
    cases he
  · dsimp only at hrun
    split_ifs at hrun <;> cases hrun
    · cases he
    · cases he
    · rfl

theorem handleStep_done {name : String} {delta : Int}
    (hrun : handleStep name delta w args s=(resp,s')) (he : resp.isError=false) :
    s'=s.set (args.getD 1 []) (formatInt resp.int) := by
  unfold handleStep at hrun
  split at hrun
  · exact incrBy_done hrun he
  · cases hrun
    cases he

theorem handleStepBy_done {name : String} {sign : Int → Int}
    (hrun : handleStepBy name sign w args s=(resp,s')) (he : resp.isError=false) :
    s'=s.set (args.getD 1 []) (formatInt resp.int) := by
  unfold handleStepBy at hrun
  split at hrun
  · split at hrun
    · cases hrun
      cases he
    · exact incrBy_done hrun he
  · cases hrun
    cases he

theorem handleIncrByFloat_done [Float64 F] (hrun : handleIncrByFloat w args s=(resp,s'))
    (he : resp.isError=false) : s'=s.set (args.getD 1 []) resp.str := by
  unfold handleIncrByFloat at hrun
  split at hrun
  · split at hrun
    · cases hrun
      cases he
    · split at hrun <;> cases hrun
      · cases he
      · rfl
  · cases hrun
    cases he

theorem handleHIncrBy_done (hrun : handleHIncrBy w args s=(resp,s')) (he : resp.isError=false) :
    s'=(s.hSet (args.getD 1 []) ((∅ : Map Bytes).insert (args.getD 2 []) (formatInt resp.int))).2 := by
  unfold handleHIncrBy at hrun
  split at hrun
  · split at hrun
    · cases hrun
      cases he
    · split at hrun <;> cases hrun
      · cases he
      · rfl
  · cases hrun
    cases he

theorem handleHIncrByFloat_done [Float64 F] (hrun : handleHIncrByFloat w args s=(resp,s'))
    (he : resp.isError=false) :
    s'=(s.hSet (args.getD 1 []) ((∅ : Map Bytes).insert (args.getD 2 []) resp.str)).2 := by
  unfold handleHIncrByFloat at hrun
  split at hrun
  · split at hrun
    · cases hrun
      cases he
    · split at hrun <;> cases hrun
      · cases he
      · rfl
  · cases hrun
    cases he

theorem handleGetEX_done (hlen : args.length ≤ 2) (hrun : handleGetEX w args s=(resp,s')) :
    s'=s := by
  unfold handleGetEX at hrun
  split at hrun
  · rename_i key rest
    obtain rfl : rest=[] := by
      cases rest with
      | nil => rfl
      | cons a rest => simp at hlen
    have hsnd := (congrArg Prod.snd hrun).symm
    simp only [getExOptions,MemoryStore.getEx] at hsnd
    rw [hsnd]
    split <;> rfl
  · cases hrun
    rfl

end

theorem zaddFlags_suffix (l : List Bytes) (fl : ZAddFlags) : (zaddFlags l fl).2 <:+ l := by
  fun_induction zaddFlags l fl with
  | case1 => exact List.suffix_rfl
  | case2 a rest fl fl' hf ih => exact ih.trans (List.suffix_cons a rest)
  | case3 => exact List.suffix_rfl

theorem zaddScores_subset (l : List Bytes) : zaddScores l ⊆ l := by
  fun_induction zaddScores l with
  | case1 sc x rest ih =>
    exact List.cons_subset_cons _ (List.Subset.trans ih (List.subset_cons_self x rest))
  | case2 => exact List.nil_subset _

theorem zaddMembers_congr {p q : Bytes → Option F} {l : List Bytes}
    (h : ∀ sc ∈ zaddScores l, p sc=q sc) : zaddMembers p l=zaddMembers q l := by
  fun_induction zaddScores l with
  | case1 sc x rest ih =>
    rw [zaddMembers,zaddMembers,h sc List.mem_cons_self,
      ih fun sc' h' => h sc' (List.mem_cons_of_mem _ h')]
  | case2 l hl => rw [zaddMembers.eq_2 _ _ hl,zaddMembers.eq_2 _ _ hl]

section
variable [Float64 F]

theorem zUnionLoop_ones (m : Maps F) (now : Int) (agg : Bytes) (ks : List Bytes) (n : Nat)
    (scores : Map F) :
    m.zUnionLoop now agg ks (List.replicate n 1) scores=m.zUnionLoop now agg ks [] scores := by
  induction ks generalizing n scores with
  | nil => rfl
  | cons k ks ih =>
    have hhead : (List.replicate n (1:F)).headD 1=1 := by cases n <;> rfl
    rw [Maps.zUnionLoop,Maps.zUnionLoop,List.tail_replicate,hhead]
    simp only [ih,List.tail_nil,List.headD_nil]

theorem zInterLoop_ones (m : Maps F) (now : Int) (agg : Bytes) (ks : List Bytes) (n : Nat)
    (scores : Map F) :
    m.zInterLoop now agg ks (List.replicate n 1) scores=m.zInterLoop now agg ks [] scores := by
  induction ks generalizing n scores with
  | nil => rfl
  | cons k ks ih =>
    have hhead : (List.replicate n (1:F)).headD 1=1 := by cases n <;> rfl
    rw [Maps.zInterLoop,Maps.zInterLoop,List.tail_replicate,hhead]
    simp only [ih,List.tail_nil,List.headD_nil]

theorem zUnionStore_ones (s : MemoryStore F) (now : Int) (dst : Bytes) (ks : List Bytes) (n : Nat)
    (agg : Bytes) :
    s.zUnionStore now dst ks (List.replicate n 1) agg=s.zUnionStore now dst ks [] agg := by
  unfold MemoryStore.zUnionStore
  rw [zUnionLoop_ones]

theorem zInterStore_ones (s : MemoryStore F) (now : Int) (dst : Bytes) (ks : List Bytes) (n : Nat)
    (agg : Bytes) :
    s.zInterStore now dst ks (List.replicate n 1) agg=s.zInterStore now dst ks [] agg := by
  have hhead : (List.replicate n (1:F)).headD 1=1 := by cases n <;> rfl
  unfold MemoryStore.zInterStore
  simp only [hhead,List.tail_replicate,zInterLoop_ones,List.headD_nil,List.tail_nil]

theorem zstoreOptions_plain {n : Nat} {l : List Bytes} {ws weights : List F} {agg agg' : Bytes}
    (hl : ∀ a ∈ l, toUpper a ≠ utf8 "WEIGHTS" ∧ toUpper a ≠ utf8 "AGGREGATE")
    (h : zstoreOptions n 0 l ws agg=.ok (weights,agg')) : weights=ws ∧ agg'=agg := by
  cases l with
  | nil =>
    cases h
    exact ⟨rfl,rfl⟩
  | cons a l =>
    obtain ⟨h₁,h₂⟩ := hl a List.mem_cons_self
    rw [zstoreOptions.eq_def] at h
    simp only [h₁,h₂,if_false] at h
    cases h

/-- The live store and the one that replay has got so far. -/
structure Mirrors (s r : MemoryStore F) : Prop extends Same s r where
  noEmpty : s.NoEmpty

/-- Redoing these records makes the same change. -/
def Redone (world : Nat → World) (i : Nat) (s' : MemoryStore F) (records : List (List Bytes))
    (r : MemoryStore F) : Prop :=
  ∃ r', redo (applied world) i records r=some r' ∧ Same s' r'

theorem Redone.nothing {world : Nat → World} {i : Nat} {s s' r : MemoryStore F} (h : Same s r)
    (hs : s'.toMaps=s.toMaps) : Redone world i s' [] r :=
  ⟨r,rfl,hs.trans h.maps,hs ▸ h.free⟩

theorem Redone.one {world : Nat → World} {i : Nat} {s' r r' : MemoryStore F} {record : List Bytes}
    (hr : applyCommand (world i) record r=done r') (h : Same s' r') :
    Redone world i s' [record] r := by
  refine ⟨r',?_,h⟩
  rw [redo,applied_eq_some.mpr hr]
  rfl

theorem Redone.set {world : Nat → World} {i : Nat} {s r : MemoryStore F} (h : Same s r)
    (key value : Bytes) : Redone world i (s.set key value) [setRecord key value] r :=
  .one (applyCommand_set _ key value r) (h.set key value)

theorem Redone.hset {world : Nat → World} {i : Nat} {s r : MemoryStore F} (h : Same s r)
    (key field value : Bytes) :
    Redone world i (s.hSet key ((∅ : Map Bytes).insert field value)).2
      [hsetRecord key field value] r :=
  .one (applyCommand_hset _ key [(field,value)] (List.cons_ne_nil _ _) r) (h.hSet key _)

theorem execute_redone {w : World} {name : Bytes} {rest : List Bytes} {c : WriteCommand}
    {s s' r : MemoryStore F} {resp : Response} (world : Nat → World) (i : Nat)
    (hm : Mirrors s r) (hname : lookup (toUpper name)=some (.write c))
    (htime : TimelessCommand c (name::rest))
    (hscore : ∀ a ∈ name::rest, (parseScore a : Option F)=Float64.parseFloat a)
    (hrun : execute w c (name::rest) s=.ok (resp,s')) (he : resp.isError=false) :
    Redone world i s' (appendToAOF w c (name::rest) resp s'.toMaps) r := by
  by_cases hget : c=.getex
  · subst hget
    exact .nothing hm.toSame (by rw [handleGetEX_done htime (Except.ok.inj hrun)])
  by_cases hnil : appendToAOF w c (name::rest) resp s'.toMaps=[]
  · rw [hnil]
    exact .nothing hm.toSame (execute_unlogged hget hm.noEmpty hrun he hnil)
  by_cases hecho : c.echoed
  · obtain ⟨eff,rfl,hredo,htimeless⟩ := execute_echo hecho hrun he
    rw [(appendToAOF_echoed hecho w (name::rest) resp _).resolve_left hnil]
    refine .one ?_ (htimeless w (world i) s r hm.toSame)
    rw [applyCommand_of_lookup hname]
    exact hredo (world i) r
  cases c
  case set =>
    obtain ⟨_,key,value,opts,hargs,hset⟩ := handleSet_redo (Except.ok.inj hrun) he
    cases hargs
    obtain rfl : opts=[] := by
      cases opts with
      | nil => rfl
      | cons a opts => exact absurd htime (by simp [TimelessCommand])
    rw [hset rfl]
    refine .one ?_ (hm.set key value)
    rw [applyCommand_of_lookup hname]
    rfl
  case setnx =>
    have hint : resp.int=1 := by
      by_contra hne
      exact hnil (if_neg hne)
    rw [handleSetNX_done (Except.ok.inj hrun) hint]
    simp only [appendToAOF,if_pos hint]
    exact .set hm.toSame _ _
  case getset =>
    rw [handleGetSet_done (Except.ok.inj hrun) he]
    exact .set hm.toSame _ _
  case getdel =>
    have hbulk : resp.isNullBulk=false := by
      by_contra hne
      exact hnil (if_pos (by simpa using hne))
    rw [handleGetDel_done (Except.ok.inj hrun) he hbulk]
    simp only [appendToAOF,hbulk]
    exact .one (applyCommand_del _ _ r) (hm.del _ _ _)
  case incr | decr =>
    rw [handleStep_done (Except.ok.inj hrun) he]
    exact .set hm.toSame _ _
  case incrby | decrby =>
    rw [handleStepBy_done (Except.ok.inj hrun) he]
    exact .set hm.toSame _ _
  case incrbyfloat =>
    rw [handleIncrByFloat_done (Except.ok.inj hrun) he]
    exact .set hm.toSame _ _
  case hincrby =>
    simp only [appendToAOF,if_pos (handleHIncrBy_length (Except.ok.inj hrun) he)]
    rw [handleHIncrBy_done (Except.ok.inj hrun) he]
    exact .hset hm.toSame _ _ _
  case hincrbyfloat =>
    simp only [appendToAOF,if_pos (handleHIncrByFloat_length (Except.ok.inj hrun) he)]
    rw [handleHIncrByFloat_done (Except.ok.inj hrun) he]
    exact .hset hm.toSame _ _ _
  case zadd =>
    obtain ⟨key,ms,fl,rfl,hms,hredo⟩ := handleZAdd_redo (Except.ok.inj hrun) he
    have hmem : ∀ sc ∈ zaddScores (zaddFlags ((name::rest).drop 2) {}).2, sc ∈ name::rest :=
      fun sc hsc => List.mem_of_mem_drop ((zaddFlags_suffix _ _).mem (zaddScores_subset _ hsc))
    rw [zaddMembers_congr fun sc hsc => hscore sc (hmem sc hsc)] at hms
    refine .one ?_ (hm.zAdd w.now (world i).now key ms fl)
    rw [applyCommand_of_lookup hname,applyWrite,hredo,hms]
  case zincrby =>
    obtain ⟨key,incr,x,rfl,hmem,hincr,hredo⟩ := handleZIncrBy_redo (Except.ok.inj hrun) he
    rw [hscore _ hmem] at hincr
    refine .one ?_ (hm.zIncrBy w.now (world i).now key incr x)
    rw [applyCommand_of_lookup hname,applyWrite,hredo,hincr]
  case zunionstore =>
    obtain ⟨dst,n,keys,weights,agg,rfl,hopts,hparse,hredo⟩ := handleZSetStore_redo hrun he
    obtain ⟨rfl,rfl⟩ := zstoreOptions_plain (htime n hparse) hopts
    rw [zUnionStore_ones]
    refine .one ?_ (hm.zUnionStore w.now (world i).now dst keys [] (utf8 "SUM"))
    rw [applyCommand_of_lookup hname]
    exact hredo (world i) r
  case zinterstore =>
    obtain ⟨dst,n,keys,weights,agg,rfl,hopts,hparse,hredo⟩ := handleZSetStore_redo hrun he
    obtain ⟨rfl,rfl⟩ := zstoreOptions_plain (htime n hparse) hopts
    rw [zInterStore_ones]
    refine .one ?_ (hm.zInterStore w.now (world i).now dst keys [] (utf8 "SUM"))
    rw [applyCommand_of_lookup hname]
    exact hredo (world i) r
  all_goals first | exact absurd rfl hecho | exact htime.elim | exact absurd rfl hget

/-- The events of a run without deadlines. `ParseFloat` reads the arguments as `parseScore`
does, infinities included. -/
def TimelessEvent (F : Type) [Float64 F] : Event → Prop
  | .request _ args => TimelessRequest args ∧
      ∀ a ∈ args, (parseScore a : Option F)=Float64.parseFloat a
  | .sweep _ => True

theorem serve_redone (world : Nat → World) (ev : Event) (s s' : MemoryStore F)
    (records : List (List Bytes)) (i : Nat) (r : MemoryStore F) (htime : TimelessEvent F ev)
    (hrun : serve ev s=.ok (s',records)) (hm : Mirrors s r) :
    ∃ r', redo (applied world) i records r=some r' ∧ Mirrors s' r' := by
  cases ev with
  | sweep now =>
    cases hrun
    exact ⟨r,rfl,hm.toSame.deleteExpired now,MemoryStore.noEmpty_deleteExpired hm.noEmpty now⟩
  | request w args =>
    obtain ⟨d,hd,rfl,rfl⟩ := serve_request.mp hrun
    have hempty : d.store.NoEmpty := (dispatch_acts hd).noEmpty hm.noEmpty
    suffices h : Redone world i d.store d.records r by
      obtain ⟨r',hr',hsame⟩ := h
      exact ⟨r',hr',hsame,hempty⟩
    rcases dispatch_effect hd with ⟨hstore,hnil⟩ | ⟨name,rest,c,rfl,hname,hexec,he,hrec⟩
    · rw [hnil,hstore]
      exact .nothing hm.toSame rfl
    · rw [hrec]
      exact execute_redone world i hm hname (htime.1.command hname) htime.2 hexec he

/-- Replay of the log of any run without deadlines reads it to the end, and the maps are those
of the live store. The instants and the map orders of the two runs are unrelated. -/
theorem replay_refines_live (world : Nat → World) (evs : List Event) {live : MemoryStore F}
    {log : List (List Bytes)} (s₀ : MemoryStore F) (htime : ∀ ev ∈ evs, TimelessEvent F ev)
    (hrun : run serve evs .new=.ok (live,log)) (hfit : ∀ rec ∈ log, Fits rec) :
    ∃ r, replay world (some (encodeAll log)) s₀=.ok r ∧ r.err=none ∧ r.count=log.length ∧
      r.store.toMaps=live.toMaps := by
  have hnew : Mirrors (.new : MemoryStore F) .new := ⟨⟨rfl,.empty⟩,Maps.noEmpty_empty⟩
  obtain ⟨r,hredo,hm⟩ := redo_run
    (fun ev s s' rs i t hev hs hm => serve_redone world ev s s' rs i t hev hs hm) 0
    (along_of_forall evs htime _) hrun hnew
  exact ⟨_,replay_log world log s₀ r hfit hredo,rfl,rfl,hm.maps.symm⟩

end

/-- `INCR n`, `LPUSH l a b` and `LPOP l`, replayed at another instant. -/
theorem replay_refines_live_incr_lpush :
    ∃ live log, run (serve (F := Int)) [.request (.plain 5) [utf8 "INCR",[110]],
        .request (.plain 6) [utf8 "LPUSH",[108],[97],[98]],
        .request (.plain 7) [utf8 "LPOP",[108]]] .new=.ok (live,log) ∧
      ∃ r, replay (fun _ => .plain 100) (some (encodeAll log)) .new=.ok r ∧ r.err=none ∧
        r.count=log.length ∧ r.store.toMaps=live.toMaps := by
  refine ⟨_,_,rfl,replay_refines_live _ [.request (.plain 5) [utf8 "INCR",[110]],
    .request (.plain 6) [utf8 "LPUSH",[108],[97],[98]],
    .request (.plain 7) [utf8 "LPOP",[108]]] _ ?_ rfl (by decide)⟩
  simp only [List.forall_mem_cons]
  exact ⟨⟨trivial,by decide⟩,⟨trivial,by decide⟩,⟨trivial,by decide⟩,by simp⟩

end GoRedis
