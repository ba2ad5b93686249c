import GoRedis.Persistence.Echo
import GoRedis.Persistence.Recovery
/-!
# Which records replay accepts

A record that `applyCommand` refuses ends the replay, and everything behind it is lost.
The router writes such records in two cases: `SET` with options is logged as it came while
replay knows `SET key value` only, and the handlers of `ZADD` and `ZINCRBY` read some scores
as infinities that `ParseFloat` does not read at all.
-/
namespace GoRedis
open Journal
variable {F : Type}

/-- The score arguments among pairs of a score and a member. -/
def zaddScores : List Bytes → List Bytes
  | sc::_::rest => sc::zaddScores rest
  | _ => []

theorem zaddMembers_ok_iff (parse : Bytes → Option F) (l : List Bytes) :
    (∃ ms, zaddMembers parse l=.ok ms) ↔ ∀ sc ∈ zaddScores l, parse sc ≠ none := by
  fun_induction zaddScores l with
  | case1 sc x rest ih =>
    rw [zaddMembers,List.forall_mem_cons,← ih]
    cases parse sc with
    | none => simp
    | some f => cases zaddMembers parse rest <;> simp
  | case2 l hl => simp [zaddMembers.eq_2 _ _ hl]

theorem replayPExpireAt_ok {name key n : Bytes} {ms : Int} (h : parseInt n=some ms) (w : World)
    (r : MemoryStore F) : ∃ r', replayPExpireAt w [name,key,n] r=.ok (.ok r') := by
  simp only [replayPExpireAt,h]
  split <;> exact ⟨_,rfl⟩

section
variable [Float64 F]

/-- `applyCommand` accepts the record whatever store it has got so far. -/
def Accepts (F : Type) [Float64 F] (record : List Bytes) : Prop :=
  ∀ w (r : MemoryStore F), ∃ r', applyCommand w record r=.ok (.ok r')

/-- `applyCommand` refuses the record whatever store it has got so far. -/
def Refuses (F : Type) [Float64 F] (record : List Bytes) : Prop :=
  ∀ w (r : MemoryStore F), ∃ e, applyCommand w record r=.ok (.error e)

theorem not_accepts_of_refuses {record : List Bytes} (h : Refuses F record) :
    ¬Accepts F record := by
  intro ha
  obtain ⟨e,he⟩ := h (.plain 0) .new
  obtain ⟨r',hr'⟩ := ha (.plain 0) .new
  rw [he] at hr'
  cases hr'

theorem accepts_set (key value : Bytes) : Accepts F (setRecord key value) :=
  fun w r => ⟨_,applyCommand_set w key value r⟩

theorem accepts_del (key : Bytes) : Accepts F (delRecord key) :=
  fun w r => ⟨_,applyCommand_del w key r⟩

theorem accepts_hset (key : Bytes) {pairs : List (Bytes × Bytes)} (h : pairs ≠ []) :
    Accepts F (utf8 "HSET"::key::pairs.flatMap fun p => [p.1,p.2]) :=
  fun w r => ⟨_,applyCommand_hset w key pairs h r⟩

theorem accepts_hsetRecord (key field value : Bytes) : Accepts F (hsetRecord key field value) :=
  accepts_hset key (List.cons_ne_nil (field,value) [])

theorem accepts_pexpireat (key : Bytes) {ms : Int} (h : InInt64 ms) :
    Accepts F (pexpireatRecord key ms) := by
  intro w r
  rw [pexpireatRecord,applyCommand_of_lookup (c := .pexpireat) (by decide),applyWrite]
  exact replayPExpireAt_ok (parseInt_formatInt h) w r

theorem accepts_setTTLRecords {millis : Int → Int} (h : ∀ n, InInt64 (millis n))
    (args : List Bytes) : ∀ rec ∈ setTTLRecords millis args, Accepts F rec := by
  intro rec hrec
  unfold setTTLRecords at hrec
  split at hrec
  · split at hrec
    · obtain rfl := List.mem_singleton.mp hrec
      exact accepts_set _ _
    · rcases List.mem_cons.mp hrec with rfl | hrec
      · exact accepts_set _ _
      · obtain rfl := List.mem_singleton.mp hrec
        exact accepts_pexpireat _ (h _)
  · cases hrec

theorem accepts_expireRecord {millis : Int → Int} (h : ∀ n, InInt64 (millis n))
    (args : List Bytes) (resp : Response) :
    ∀ rec ∈ expireRecord millis args resp, Accepts F rec := by
  intro rec hrec
  unfold expireRecord at hrec
  split at hrec
  · split at hrec
    · split at hrec
      · cases hrec
      · obtain rfl := List.mem_singleton.mp hrec
        exact accepts_pexpireat _ (h _)
    · cases hrec
  · cases hrec

theorem accepts_renameRecords (w : World) (args : List Bytes) (m : Maps F) :
    ∀ rec ∈ renameRecords w args m, Accepts F rec := by
  intro rec hrec
  unfold renameRecords at hrec
  split at hrec
  · split at hrec
    · cases hrec
    · rcases List.mem_append.mp hrec with hrec | hrec
      · split at hrec
        · split at hrec
          · cases hrec
          · obtain rfl := List.mem_singleton.mp hrec
            exact accepts_set _ _
        · dsimp only at hrec
          split at hrec
          · cases hrec
          · rename_i hne
            obtain rfl := List.mem_singleton.mp hrec
            exact accepts_hset _ hne
        · cases hrec
      · obtain rfl := List.mem_singleton.mp hrec
        exact accepts_del _
  · cases hrec

/-- The requests that are logged but not accepted: `SET` with options, and scores that
`ParseFloat` does not read. -/
def Rejected (F : Type) [Float64 F] : WriteCommand → List Bytes → Prop
  | .set,args => 3 < args.length
  | .zadd,args => ∃ sc ∈ zaddScores (zaddFlags (args.drop 2) {}).2,
      (Float64.parseFloat sc : Option F)=none
  | .zincrby,args => (Float64.parseFloat (args.getD 2 []) : Option F)=none
  | _,_ => False

section
variable {w : World} {args : List Bytes} {s s' : MemoryStore F} {resp : Response}

omit [Float64 F] in
theorem handleSet_redo (hrun : handleSet w args s=(resp,s')) (he : resp.isError=false) :
    ∃ name key value rest, args=name::key::value::rest ∧
      (rest=[] → s'=s.set key value) := by
  unfold handleSet at hrun
  split at hrun
  · rename_i name key value rest
    refine ⟨name,key,value,rest,rfl,?_⟩
    rintro rfl
    exact congrArg Prod.snd hrun.symm
  · cases hrun
    cases he

theorem handleZAdd_redo (hrun : handleZAdd w args s=(resp,s')) (he : resp.isError=false) :
    ∃ key ms fl, s'=dropError s (s.zAdd w.now key ms fl) ∧
      zaddMembers parseScore (zaddFlags (args.drop 2) {}).2=.ok ms ∧
      ∀ w' (r : MemoryStore F), replayZAdd w' args r=
        match zaddMembers Float64.parseFloat (zaddFlags (args.drop 2) {}).2 with
        | .error sc => refuse (.invalid (utf8 "ZADD: invalid score") sc)
        | .ok ms => done (dropError r (r.zAdd w'.now key ms fl)) := by
  unfold handleZAdd at hrun
  split at hrun
  · rename_i name key a b rest
    dsimp only at hrun
    split_ifs at hrun with h₁ h₂ h₃
    · cases hrun
      cases he
    · cases hrun
      cases he
    · cases hrun
      cases he
    · split at hrun
      · cases hrun
        cases he
      · rename_i ms hms
        refine ⟨key,ms,(zaddFlags (a::b::rest) {}).1,?_,hms,fun w' r => ?_⟩
        · rw [← commit_snd,hrun]
        · simp only [replayZAdd]
          rw [if_neg fun h => h₃ (.inl h)]
          rfl
  · cases hrun
    cases he

theorem handleZIncrBy_redo (hrun : handleZIncrBy w args s=(resp,s')) (he : resp.isError=false) :
    ∃ key incr x, s'=dropError s (s.zIncrBy w.now key incr x) ∧ args.getD 2 [] ∈ args ∧
      (parseScore (args.getD 2 []) : Option F)=some incr ∧
      ∀ w' (r : MemoryStore F), replayZIncrBy w' args r=
        match (Float64.parseFloat (args.getD 2 []) : Option F) with
        | none => refuse (.invalid (utf8 "ZINCRBY: invalid increment") (args.getD 2 []))
        | some incr => done (dropError r (r.zIncrBy w'.now key incr x)) := by
  unfold handleZIncrBy at hrun
  split at hrun
  · rename_i name key n x
    split at hrun
    · cases hrun
      cases he
    · rename_i incr hincr
      refine ⟨key,incr,x,?_,by simp,hincr,fun _ _ => rfl⟩
      rw [← commit_snd,hrun]
  · cases hrun
    cases he

theorem handleZSetStore_redo {name shape invalid : String} {op : ZStore F}
    (hrun : handleZSetStore name op w args s=.ok (resp,s')) (he : resp.isError=false) :
    ∃ dst n keys weights agg, s'=dropError s (op s w.now dst keys weights agg) ∧
      zstoreOptions n 0 (args.drop (3+n)) (List.replicate n 1) (utf8 "SUM")=.ok (weights,agg) ∧
      parseInt (args.getD 2 [])=some (n:Int) ∧
      ∀ w' (r : MemoryStore F), replayZStore shape invalid op w' args r=
        done (dropError r (op r w'.now dst keys [] (utf8 "SUM"))) := by
  unfold handleZSetStore at hrun
  split at hrun
  · rename_i _ dst num a rest
    split at hrun
    · cases hrun
      cases he
    · rename_i numkeys hnum
      obtain ⟨hparse,hpos⟩ := Option.filter_eq_some_iff.mp hnum
      split_ifs at hrun with h₁ h₂
      · cases hrun
        cases he
      · dsimp only at hrun
        split at hrun
        · rename_i hopts
          cases hrun
          rw [zstoreOptions_error hopts] at he
          cases he
        · rename_i weights agg hopts
          refine ⟨dst,numkeys.toNat,(a::rest).take numkeys.toNat,weights,agg,?_,?_,?_,fun w' r => ?_⟩
          · rw [← commit_snd,Except.ok.inj hrun]
          · rw [← hopts,show 3+numkeys.toNat=numkeys.toNat+3 by omega]
            rfl
          · have hone : 1 ≤ numkeys := by simpa using hpos
            rw [Int.toNat_of_nonneg (by omega)]
            exact hparse
          · simp only [replayZStore,hnum]
            rw [if_neg h₁,if_neg h₂]
  · cases hrun
    cases he

omit [Float64 F] in
theorem handleSPop_redo {text : String} (hrun : handleSPop w args s=.ok (resp,s'))
    (he : resp.isError=false) (w' : World) (r : MemoryStore F) :
    ∃ r', replayPop text (r.sPop w') args r=.ok (.ok r') := by
  obtain ⟨r₀,hr,heq⟩ | ⟨key,count,withCount,hargs,_⟩ := handleSPop_cases (F := F) w args
  · cases (heq s).symm.trans hrun
    rcases hr with rfl | rfl <;> cases he
  · obtain ⟨a,ha⟩ := r.sPop_total w' key hargs.nonneg
    rw [replayPop_of_popArgs hargs,ha]
    exact ⟨_,rfl⟩

/-- What becomes of the records of a request: all are accepted, or the request is rejected, its
record is the request itself, and that is refused. -/
def Judged (F : Type) [Float64 F] (c : WriteCommand) (args : List Bytes)
    (records : List (List Bytes)) : Prop :=
  (¬Rejected F c args ∧ ∀ rec ∈ records, Accepts F rec) ∨
    (Rejected F c args ∧ records=[args] ∧ Refuses F args)

theorem Judged.of_request {name : Bytes} {rest : List Bytes} {c : WriteCommand}
    (hname : lookup (toUpper name)=some (.write c))
    (hrej : Rejected F c (name::rest) →
      ∀ w (r : MemoryStore F), ∃ e, applyWrite w c (name::rest) r=.ok (.error e))
    (hacc : ¬Rejected F c (name::rest) →
      ∀ w (r : MemoryStore F), ∃ r', applyWrite w c (name::rest) r=.ok (.ok r')) :
    Judged F c (name::rest) [name::rest] := by
  by_cases h : Rejected F c (name::rest)
  · refine .inr ⟨h,rfl,fun w r => ?_⟩
    rw [applyCommand_of_lookup hname]
    exact hrej h w r
  · refine .inl ⟨h,fun rec hrec w r => ?_⟩
    obtain rfl := List.mem_singleton.mp hrec
    rw [applyCommand_of_lookup hname]
    exact hacc h w r

theorem not_rejected_of_echoed {c : WriteCommand} (h : c.echoed=true) (args : List Bytes) :
    ¬Rejected F c args := by
  cases c <;> simp_all [WriteCommand.echoed,Rejected]

theorem zadd_judged {name : Bytes} {rest : List Bytes}
    (hname : lookup (toUpper name)=some (.write .zadd))
    (hrun : handleZAdd w (name::rest) s=(resp,s')) (he : resp.isError=false) :
    Judged F .zadd (name::rest) [name::rest] := by
  obtain ⟨key,_,fl,_,_,hredo⟩ := handleZAdd_redo hrun he
  have hiff := zaddMembers_ok_iff (Float64.parseFloat (F := F))
    (zaddFlags ((name::rest).drop 2) {}).2
  refine .of_request hname (fun hrej w' r => ?_) fun hrej w' r => ?_
  · obtain ⟨sc,hsc,hnone⟩ := hrej
    rw [applyWrite,hredo]
    cases hms : zaddMembers (Float64.parseFloat (F := F)) (zaddFlags ((name::rest).drop 2) {}).2 with
    | error e => exact ⟨_,rfl⟩
    | ok ms => exact absurd hnone (hiff.mp ⟨ms,hms⟩ sc hsc)
  · obtain ⟨ms,hms⟩ := hiff.mpr fun sc hsc hnone => hrej ⟨sc,hsc,hnone⟩
    rw [applyWrite,hredo,hms]
    exact ⟨_,rfl⟩

theorem zincrby_judged {name : Bytes} {rest : List Bytes}
    (hname : lookup (toUpper name)=some (.write .zincrby))
    (hrun : handleZIncrBy w (name::rest) s=(resp,s')) (he : resp.isError=false) :
    Judged F .zincrby (name::rest) [name::rest] := by
  obtain ⟨key,_,x,_,_,_,hredo⟩ := handleZIncrBy_redo hrun he
  refine .of_request hname (fun hrej w' r => ?_) fun hrej w' r => ?_
  · rw [applyWrite,hredo,hrej]
    exact ⟨_,rfl⟩
  · obtain ⟨incr,hincr⟩ := Option.ne_none_iff_exists'.mp hrej
    rw [applyWrite,hredo,hincr]
    exact ⟨_,rfl⟩

theorem set_judged {name : Bytes} {rest : List Bytes}
    (hname : lookup (toUpper name)=some (.write .set))
    (hrun : handleSet w (name::rest) s=(resp,s')) (he : resp.isError=false) :
    Judged F .set (name::rest) [name::rest] := by
  obtain ⟨_,key,value,opts,hargs,_⟩ := handleSet_redo hrun he
  cases hargs
  cases opts with
  | nil =>
    exact .of_request hname (fun hrej => absurd hrej (by simp [Rejected])) fun _ w r => ⟨_,rfl⟩
  | cons a opts =>
    exact .of_request hname (fun _ w r => ⟨_,rfl⟩) fun hrej => absurd (by simp [Rejected]) hrej

theorem execute_judged {name : Bytes} {rest : List Bytes} {c : WriteCommand}
    (hname : lookup (toUpper name)=some (.write c))
    (hrun : execute w c (name::rest) s=.ok (resp,s')) (he : resp.isError=false) :
    Judged F c (name::rest) (appendToAOF w c (name::rest) resp s'.toMaps) := by
  by_cases hecho : c.echoed
  · obtain ⟨eff,_,hredo,_⟩ := execute_echo hecho hrun he
    rcases appendToAOF_echoed hecho w (name::rest) resp s'.toMaps with hnil | hone
    · rw [hnil]
      exact .inl ⟨not_rejected_of_echoed hecho _,by simp⟩
    · rw [hone]
      exact .of_request hname (fun hrej => absurd hrej (not_rejected_of_echoed hecho _))
        fun _ w' r => ⟨_,hredo w' r⟩
  cases c
  case set => exact set_judged hname (Except.ok.inj hrun) he
  case zadd => exact zadd_judged hname (Except.ok.inj hrun) he
  case zincrby => exact zincrby_judged hname (Except.ok.inj hrun) he
  case zunionstore =>
    obtain ⟨_,_,_,_,_,_,_,_,hredo⟩ := handleZSetStore_redo hrun he
    exact .of_request hname False.elim fun _ w' r => ⟨_,hredo w' r⟩
  case zinterstore =>
    obtain ⟨_,_,_,_,_,_,_,_,hredo⟩ := handleZSetStore_redo hrun he
    exact .of_request hname False.elim fun _ w' r => ⟨_,hredo w' r⟩
  case spop =>
    simp only [appendToAOF]
    split
    · exact .inl ⟨id,by simp⟩
    · exact .of_request hname False.elim fun _ w' r => handleSPop_redo hrun he w' r
  case pexpireat =>
    simp only [appendToAOF]
    split
    · obtain ⟨_,_,_,_,hargs,hparse⟩ := handleExpireOn_args (Except.ok.inj hrun) he
      cases hargs
      refine .of_request hname False.elim fun _ w' r => ?_
      rw [applyWrite]
      exact replayPExpireAt_ok hparse w' r
    · exact .inl ⟨id,by simp⟩
  all_goals refine .inl ⟨id,?_⟩
  case setex => exact accepts_setTTLRecords (fun n => wrap64_inInt64 _) _
  case psetex => exact accepts_setTTLRecords (fun n => wrap64_inInt64 _) _
  case expire => exact accepts_expireRecord (fun n => wrap64_inInt64 _) _ _
  case pexpire => exact accepts_expireRecord (fun n => wrap64_inInt64 _) _ _
  case expireat => exact accepts_expireRecord (fun n => wrap64_inInt64 _) _ _
  case rename => exact accepts_renameRecords w _ _
  case getdel =>
    simp only [appendToAOF]
    split <;> simp [accepts_del]
  case hincrby | hincrbyfloat =>
    simp only [appendToAOF]
    split <;> simp [accepts_hsetRecord]
  case setnx =>
    simp only [appendToAOF]
    split <;> simp [accepts_set]
  case getset | incr | incrby | decr | decrby | incrbyfloat =>
    simp [appendToAOF,accepts_set]
  all_goals first | exact absurd rfl hecho | simp [appendToAOF]

end

/-- The checks of the three handlers: the options parse and go together, the scores are read, and
the key of a sorted set is of no other type. -/
def Passes (w : World) (s : MemoryStore F) (c : WriteCommand) (args : List Bytes) : Prop :=
  match c with
  | .set => ∃ name key value rest opts ttl, args=name::key::value::rest ∧
      setOptions w.now rest {} 0=.ok (opts,ttl) ∧ ¬(opts.nx ∧ opts.xx)
  | .zadd => ∃ name key a b rest fl tail, args=name::key::a::b::rest ∧
      zaddFlags (a::b::rest) {}=(fl,tail) ∧ ¬(fl.nx ∧ fl.xx) ∧
      ¬((fl.gt ∧ fl.nx) ∨ (fl.lt ∧ fl.nx)) ∧ ¬(tail.length%2 ≠ 0 ∨ tail=[]) ∧
      (∀ sc ∈ zaddScores tail, (parseScore sc : Option F) ≠ none) ∧ s.zsetGuard w.now key=true
  | .zincrby => ∃ name key n x, args=[name,key,n,x] ∧ (parseScore n : Option F) ≠ none ∧
      s.zsetGuard w.now key=true
  | _ => False

section Passes
variable {w : World} {args : List Bytes} {s : MemoryStore F}

omit [Float64 F] in
theorem setOptions_isError {now : Int} {l : List Bytes} {o : SetAdvOpts} {ttl : Int} {r : Response}
    (h : setOptions now l o ttl=.error r) : r.isError=true := by
  fun_induction setOptions now l o ttl <;> first | solve_by_elim | (cases h <;> rfl)

theorem handleSet_passes : (handleSet w args s).1.isError=false ↔ Passes w s .set args := by
  constructor
  · intro h
    unfold handleSet at h
    split at h
    · split at h
      · rename_i r hr
        simp [setOptions_isError hr] at h
      · rename_i opts ttl hopts
        split_ifs at h with hboth
        · cases h
        · exact ⟨_,_,_,_,opts,ttl,rfl,hopts,hboth⟩
    · cases h
  · rintro ⟨name,key,value,rest,opts,ttl,rfl,hopts,hboth⟩
    simp only [handleSet,hopts]
    rw [if_neg hboth]
    simp

omit [Float64 F] in
theorem commit_guard_isError {α : Type} {key : Bytes} {f : α → Response}
    {r : α × MemoryStore F} (hf : ∀ a, (f a).isError=false) :
    (commit s f (if s.zsetGuard w.now key then .ok r else .error .wrongType)).1.isError=false ↔
      s.zsetGuard w.now key=true := by
  cases s.zsetGuard w.now key
  · exact iff_of_false (by simp [Response.isError]) (by simp)
  · simp [commit,hf]

theorem handleZAdd_passes : (handleZAdd w args s).1.isError=false ↔ Passes w s .zadd args := by
  constructor
  · intro h
    unfold handleZAdd at h
    split at h
    · dsimp only at h
      split_ifs at h with h₁ h₂ h₃
      · cases h
      · cases h
      · cases h
      · split at h
        · cases h
        · rename_i ms hms
          refine ⟨_,_,_,_,_,_,_,rfl,rfl,h₁,h₂,h₃,(zaddMembers_ok_iff _ _).mp ⟨ms,hms⟩,?_⟩
          exact (commit_guard_isError fun _ => rfl).mp h
    · cases h
  · rintro ⟨name,key,a,b,rest,fl,tail,rfl,hflags,h₁,h₂,h₃,hscores,hguard⟩
    obtain ⟨ms,hms⟩ := (zaddMembers_ok_iff _ _).mpr hscores
    simp only [handleZAdd,hflags]
    rw [if_neg h₁,if_neg h₂,if_neg h₃]
    simp only [hms]
    exact (commit_guard_isError fun _ => rfl).mpr hguard

theorem handleZIncrBy_passes :
    (handleZIncrBy w args s).1.isError=false ↔ Passes w s .zincrby args := by
  constructor
  · intro h
    unfold handleZIncrBy at h
    split at h
    · split at h
      · cases h
      · rename_i incr hincr
        exact ⟨_,_,_,_,rfl,by simp [hincr],(commit_guard_isError fun _ => rfl).mp h⟩
    · cases h
  · rintro ⟨name,key,n,x,rfl,hn,hguard⟩
    obtain ⟨incr,hincr⟩ := Option.ne_none_iff_exists'.mp hn
    simp only [handleZIncrBy,hincr]
    exact (commit_guard_isError fun _ => rfl).mpr hguard

theorem execute_passes {c : WriteCommand} {resp : Response} {s' : MemoryStore F}
    (hrej : Rejected F c args) (hrun : execute w c args s=.ok (resp,s')) :
    resp.isError=false ↔ Passes w s c args := by
  cases c
  case set =>
    rw [← handleSet_passes,Except.ok.inj hrun]
  case zadd =>
    rw [← handleZAdd_passes,Except.ok.inj hrun]
  case zincrby =>
    rw [← handleZIncrBy_passes,Except.ok.inj hrun]
  all_goals exact hrej.elim

end Passes

/-- The request is one of those that are logged and not accepted. -/
def RejectedRequest (w : World) (args : List Bytes) (s : MemoryStore F) : Prop :=
  ∃ c, commandOf args=some (.write c) ∧ Rejected F c args ∧ Passes w s c args

theorem not_rejectedRequest_nil (w : World) (s : MemoryStore F) : ¬RejectedRequest w [] s := by
  rintro ⟨c,hc,_⟩
  cases hc

/-- The records of one call of `Dispatch`: all accepted, or one that repeats a rejected request
and is refused. -/
theorem dispatch_judged {w : World} {args : List Bytes} {s : MemoryStore F} {d : Dispatched F}
    (h : dispatch w args s=.ok d) :
    (¬RejectedRequest w args s ∧ ∀ rec ∈ d.records, Accepts F rec) ∨
      (RejectedRequest w args s ∧ d.records=[args] ∧ Refuses F args) := by
  rcases dispatch_cases h with ⟨_,hnil,hread⟩ | ⟨name,rest,c,rfl,hname,hrun,hrec⟩
  · refine .inl ⟨?_,by simp [hnil]⟩
    cases args with
    | nil => exact not_rejectedRequest_nil w s
    | cons name rest => exact fun ⟨c,hc,_⟩ => hread name rest c rfl hc
  have hiff : RejectedRequest w (name::rest) s ↔
      Rejected F c (name::rest) ∧ Passes w s c (name::rest) := by
    constructor
    · rintro ⟨c',hc',hrej⟩
      cases hc'.symm.trans hname
      exact hrej
    · exact fun hrej => ⟨c,hname,hrej⟩
  rw [hiff]
  split at hrec
  · rename_i he
    refine .inl ⟨fun ⟨hrej,hpass⟩ => ?_,by simp [hrec]⟩
    simp [(execute_passes hrej hrun).mpr hpass] at he
  · rename_i he
    have hok : d.resp.isError=false := by simpa using he
    have hjudged := execute_judged hname hrun hok
    rw [← hrec] at hjudged
    rcases hjudged with ⟨hnot,hacc⟩ | ⟨hrej,hone,href⟩
    · exact .inl ⟨fun hrej => hnot hrej.1,hacc⟩
    · exact .inr ⟨⟨hrej,(execute_passes hrej hrun).mp hok⟩,hone,href⟩

theorem dispatch_accepts_iff {w : World} {args : List Bytes} {s : MemoryStore F}
    {d : Dispatched F} (h : dispatch w args s=.ok d) :
    (∀ rec ∈ d.records, Accepts F rec) ↔ ¬RejectedRequest w args s := by
  rcases dispatch_judged h with ⟨hnot,hacc⟩ | ⟨hrej,hone,href⟩
  · exact iff_of_true hacc hnot
  · refine iff_of_false (fun hacc => ?_) (not_not.mpr hrej)
    exact not_accepts_of_refuses href (hacc args (by simp [hone]))

theorem redo_of_accepts (world : Nat → World) (log : List (List Bytes)) (i : Nat)
    (r : MemoryStore F) (h : ∀ rec ∈ log, Accepts F rec) :
    ∃ r', redo (applied world) i log r=some r' := by
  induction log generalizing i r with
  | nil => exact ⟨r,rfl⟩
  | cons rec log ih =>
    obtain ⟨u,hu⟩ := h rec List.mem_cons_self (world i) r
    obtain ⟨r',hr'⟩ := ih (i+1) u fun x hx => h x (List.mem_cons_of_mem _ hx)
    exact ⟨r',by rw [redo,applied_eq_some.mpr hu,Option.bind_some,hr']⟩

theorem not_refuses_of_replayLoop {world : Nat → World} {log : List (List Bytes)} {fuel n : Nat}
    {s : MemoryStore F} {r : Replayed F} (hne : ∀ rec ∈ log, rec ≠ [])
    (hfit : ∀ rec ∈ log, Fits rec) (hfuel : log.length ≤ fuel)
    (h : replayLoop world fuel n (encodeAll log) s=.ok r) (herr : r.err=none) :
    ∀ rec ∈ log, ¬Refuses F rec := by
  induction log generalizing fuel n s with
  | nil => simp
  | cons rec log ih =>
    obtain ⟨fuel,rfl⟩ : ∃ f, fuel=f+1 := ⟨fuel-1,by simp only [List.length_cons] at hfuel; omega⟩
    have hread := (readCommand_decodes rec (hne rec List.mem_cons_self)
      (hfit rec List.mem_cons_self)).full (encodeAll log)
    rw [encodeAll_cons,replayLoop,hread] at h
    simp only [readOk] at h
    split at h
    · cases h
    · cases h
      cases herr
    · rename_i u hu
      refine List.forall_mem_cons.mpr ⟨fun href => ?_,?_⟩
      · obtain ⟨e,he⟩ := href (world n) s
        rw [hu] at he
        cases he
      · exact ih (fun x hx => hne x (List.mem_cons_of_mem _ hx))
          (fun x hx => hfit x (List.mem_cons_of_mem _ hx))
          (by simp only [List.length_cons] at hfuel; omega) h

theorem serve_records {ev : Event} {s s' : MemoryStore F} {rs : List (List Bytes)}
    (h : serve ev s=.ok (s',rs)) :
    ∀ rec ∈ rs, rec ≠ [] ∧ (Accepts F rec ∨ Refuses F rec) := by
  have hempty : ¬Accepts F [] := not_accepts_of_refuses fun _ _ => ⟨_,rfl⟩
  cases ev with
  | sweep now =>
    cases h
    simp
  | request w args =>
    obtain ⟨d,hd,rfl,rfl⟩ := serve_request.mp h
    intro rec hrec
    rcases dispatch_judged hd with ⟨_,hacc⟩ | ⟨hrej,hone,href⟩
    · have ha := hacc rec hrec
      exact ⟨fun hnil => hempty (hnil ▸ ha),.inl ha⟩
    · rw [hone] at hrec
      obtain rfl := List.mem_singleton.mp hrec
      refine ⟨?_,.inr href⟩
      rintro rfl
      exact not_rejectedRequest_nil w s hrej

/-- A replay of the log of a run reads it to the end exactly when every record is accepted. -/
theorem replay_complete_iff {evs : List Event} {live : MemoryStore F} {log : List (List Bytes)}
    (hrun : run serve evs .new=.ok (live,log)) (hfit : ∀ rec ∈ log, Fits rec)
    (world : Nat → World) (s₀ : MemoryStore F) :
    (∃ r, replay world (some (encodeAll log)) s₀=.ok r ∧ r.err=none ∧ r.count=log.length) ↔
      ∀ rec ∈ log, Accepts F rec := by
  have hrecs := forall_log (fun _ _ _ _ h => serve_records h) hrun
  constructor
  · rintro ⟨r,hr,herr,_⟩ rec hrec
    have hle := encodeAll_length log
    have hnot := not_refuses_of_replayLoop (fun x hx => (hrecs x hx).1) hfit
      (by omega : log.length ≤ (encodeAll log).length+1) hr herr rec hrec
    exact (hrecs rec hrec).2.resolve_right hnot
  · intro hacc
    obtain ⟨r',hr'⟩ := redo_of_accepts world log 0 .new hacc
    exact ⟨_,replay_log world log s₀ r' hfit hr',rfl,rfl⟩

/-- Every record of a call of `Dispatch` is accepted unless the request is a rejected one; and a
replay of the log of a run reads it to the end exactly when it has no rejected request. -/
theorem log_accepted_iff (F : Type) [Float64 F] :
    (∀ (w : World) (args : List Bytes) (s : MemoryStore F) (d : Dispatched F),
      dispatch w args s=.ok d →
      ((∀ rec ∈ d.records, ∀ w' (r : MemoryStore F), ∃ r', applyCommand w' rec r=.ok (.ok r')) ↔
        ¬RejectedRequest w args s)) ∧
    ∀ (evs : List Event) (live : MemoryStore F) (log : List (List Bytes)) (world : Nat → World)
      (s₀ : MemoryStore F), run serve evs .new=.ok (live,log) → (∀ rec ∈ log, Fits rec) →
      ((∃ r, replay world (some (encodeAll log)) s₀=.ok r ∧ r.err=none ∧ r.count=log.length) ↔
        Along serve (fun ev (s : MemoryStore F) => ∀ w args d, ev=.request w args →
          dispatch w args s=.ok d → ¬RejectedRequest w args s) evs .new) := by
  refine ⟨fun w args s d h => dispatch_accepts_iff h,fun evs live log world s₀ hrun hfit => ?_⟩
  rw [replay_complete_iff hrun hfit,forall_log_iff hrun]
  refine along_congr (fun ev s => ?_) evs _
  cases ev with
  | sweep now =>
    refine ⟨fun _ w args d hev => (nomatch hev),fun _ s' rs hs => ?_⟩
    cases hs
    simp
  | request w args =>
    constructor
    · rintro h _ _ d ⟨⟩ hd
      exact (dispatch_accepts_iff hd).mp (h d.store d.records (serve_request.mpr ⟨d,hd,rfl,rfl⟩))
    · intro h s' rs hs
      obtain ⟨d,hd,rfl,rfl⟩ := serve_request.mp hs
      exact (dispatch_accepts_iff hd).mpr (h w args d rfl hd)

end

/-- `SET k v` and `DEL k` are read back to the end. -/
theorem log_accepted_set_del :
    ∃ live log, run (serve (F := Int)) [.request (.plain 0) [utf8 "SET",[107],[118]],
        .request (.plain 0) [utf8 "DEL",[107]]] .new=.ok (live,log) ∧
      ((∃ r, replay (F := Int) (fun _ => .plain 0) (some (encodeAll log)) .new=.ok r ∧ r.err=none ∧
          r.count=log.length) ↔
        Along serve (fun ev (s : MemoryStore Int) => ∀ w args d, ev=.request w args →
          dispatch w args s=.ok d → ¬RejectedRequest w args s)
          [.request (.plain 0) [utf8 "SET",[107],[118]],
            .request (.plain 0) [utf8 "DEL",[107]]] .new) :=
  ⟨_,_,rfl,(log_accepted_iff Int).2 _ _ _ _ _ rfl (by decide)⟩

/-- `SET k v EX 10` is logged as it came and replay stops at it: what was logged behind it is
lost as well. -/
theorem set_ex_refused :
    ∃ live log r, run (serve (F := Int))
        [.request (.plain 0) [utf8 "SET",[107],[118],utf8 "EX",utf8 "10"],
          .request (.plain 0) [utf8 "SET",[108],[118]]] .new=.ok (live,log) ∧
      log=[[utf8 "SET",[107],[118],utf8 "EX",utf8 "10"],[utf8 "SET",[108],[118]]] ∧
      replay (F := Int) (fun _ => .plain 0) (some (encodeAll log)) .new=.ok r ∧ r.count=0 ∧
      r.err.isSome ∧ ([108] : Bytes) ∈ live.strings ∧ ([108] : Bytes) ∉ r.store.strings :=
  ⟨_,_,_,rfl,rfl,rfl,rfl,rfl,by decide,by decide⟩

end GoRedis
