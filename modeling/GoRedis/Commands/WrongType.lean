import GoRedis.Commands.TypeGuards
import GoRedis.Persistence.Reachable
/-!
# Typed commands on a key of another type

The list, set and sorted set commands ask for the type of their key; the string and hash
commands do not, `LPUSHX` and `RPUSHX` take another type for a missing list, and the scans ask
only after they have found the key in their own map.
-/
namespace GoRedis
variable {F : Type} {t T : KeyType} {name k : Bytes} {rest : List Bytes}

theorem ne_wrongType {r : Response} (h : r.isError=false) : r ≠ wrongTypeReply := by
  rintro rfl
  cases h

theorem error_ne_wrongType {text : Bytes} (h : text.head?=some 69) :
    Response.error text ≠ wrongTypeReply := by
  intro heq
  rw [Response.error.inj heq] at h
  exact absurd h (by decide)

variable {w : World} {args : List Bytes} {m : Maps F} {s : MemoryStore F}

theorem handleGet_untyped : handleGet w args m ≠ wrongTypeReply := by
  unfold handleGet
  split
  · exact ne_wrongType (optReply_isError _)
  · exact error_ne_wrongType rfl

theorem handleStrLen_untyped : handleStrLen w args m ≠ wrongTypeReply := by
  unfold handleStrLen
  split
  · exact ne_wrongType rfl
  · exact error_ne_wrongType rfl

theorem handleGetEX_untyped : (handleGetEX w args s).1 ≠ wrongTypeReply := by
  unfold handleGetEX
  split
  · split
    · rename_i hopts
      rcases getExOptions_error hopts with rfl | rfl <;> exact error_ne_wrongType rfl
    · exact ne_wrongType (optReply_isError _)
  · exact error_ne_wrongType rfl

theorem incrBy_untyped (k : Bytes) (d : Int) :
    (incrBy w k d s).1 ≠ wrongTypeReply := by
  unfold incrBy
  split
  · exact error_ne_wrongType rfl
  · dsimp only
    split_ifs
    · exact error_ne_wrongType rfl
    · exact error_ne_wrongType rfl
    · exact ne_wrongType rfl

theorem handlePushX_untyped (cmd : String) (push : Push F) (htype : s.typeOf w.now k=some T)
    (hne : T ≠ .list) : (handlePushX cmd push w (name::k::rest) s).1 ≠ wrongTypeReply := by
  have hother : s.type w.now k ≠ some .list := by
    rw [Maps.type,htype]
    exact fun h => hne (Option.some.inj h)
  rcases rest with _ | ⟨v,vs⟩
  · exact error_ne_wrongType rfl
  · rw [handlePushX,if_pos hother]
    exact ne_wrongType rfl

theorem scanWith_cases (cursor : Bytes) (opts : List Bytes) :
    (∃ r, r.isError=true ∧ ∀ run, scanWith cursor opts run=r) ∨
      ∃ c pattern count, ∀ run, scanWith cursor opts run=replyOf scanReply (run c pattern count) := by
  unfold scanWith
  cases parseUint cursor with
  | none => exact .inl ⟨notInteger,rfl,fun _ => rfl⟩
  | some c =>
    cases hopts : parseScanArgs opts (utf8 "*") 10 with
    | error r => exact .inl ⟨r,parseScanArgs_error hopts,fun _ => rfl⟩
    | ok p => exact .inr ⟨c,_,p.2,fun _ => rfl⟩

theorem own_cases {V : Type} (own : Map V) (stale : Bool) (k : Bytes) :
    ((stale=false ∧ k ∈ own) ∧ ∃ v, (if stale then none else own[k]?)=some v) ∨
      (¬(stale=false ∧ k ∈ own) ∧ (if stale then none else own[k]?)=none) := by
  cases stale with
  | true => exact .inr ⟨by simp,rfl⟩
  | false => cases hk : own[k]? <;> simp [Std.ExtTreeMap.mem_iff_isSome_getElem?,hk]

variable {c : Nat} {pattern : Bytes} {count : Int}

theorem hScan_wrongType (htype : m.typeOf w.now k=some T) (hne : T ≠ .hash) :
    m.hScan w k c pattern count=
      if m.keyExpiredNonStr w.now k=false ∧ k ∈ m.hashes then .error .wrongType else .ok (0,[]) := by
  have hother : m.typeOf w.now k ≠ some .hash := by simp [htype,hne]
  rcases own_cases m.hashes (m.keyExpiredNonStr w.now k) k with ⟨hown,v,hv⟩ | ⟨hown,hv⟩
  · simp only [Maps.hScan,Maps.liveHash,hv,if_pos hother,if_pos hown]
  · simp only [Maps.hScan,Maps.liveHash,hv,if_neg hown]

theorem sScan_wrongType (htype : m.typeOf w.now k=some T) (hne : T ≠ .set) :
    m.sScan w k c pattern count=
      if m.keyExpiredNonStr w.now k=false ∧ k ∈ m.sets then .error .wrongType else .ok (0,[]) := by
  have hother : m.typeOf w.now k ≠ some .set := by simp [htype,hne]
  rcases own_cases m.sets (m.keyExpiredNonStr w.now k) k with ⟨hown,v,hv⟩ | ⟨hown,hv⟩
  · simp only [Maps.sScan,hv,if_pos hother,if_pos hown]
  · simp only [Maps.sScan,hv,if_neg hown]

theorem scanWith_wrongType_iff {cursor : Bytes} {opts : List Bytes} {P : Prop} [Decidable P]
    {run run' : Nat → Bytes → Int → Except StoreError (Nat × List Bytes)}
    (haccept : (scanWith cursor opts run').isError=false)
    (hrun : ∀ c pattern count, run c pattern count=if P then .error .wrongType else .ok (0,[])) :
    scanWith cursor opts run=wrongTypeReply ↔ P := by
  rcases scanWith_cases cursor opts with ⟨r,hr,hscan⟩ | ⟨c,pattern,count,hscan⟩
  · rw [hscan,hr] at haccept
    cases haccept
  · rw [hscan,hrun]
    by_cases hP : P
    · rw [if_pos hP]
      exact iff_of_true rfl hP
    · rw [if_neg hP]
      exact iff_of_false (ne_wrongType rfl) hP

/-- When a command reports that `k` is of another type. -/
def ReadCommand.Checks (m : Maps F) (now : Int) (k : Bytes) : ReadCommand → Prop
  | hscan => m.keyExpiredNonStr now k=false ∧ k ∈ m.hashes
  | sscan => m.keyExpiredNonStr now k=false ∧ k ∈ m.sets
  | zscan => m.keyExpiredNonStr now k=false ∧ k ∈ m.zsets
  | c => c.keyType=some .list ∨ c.keyType=some .set ∨ c.keyType=some .zset

@[inherit_doc ReadCommand.Checks]
def WriteCommand.Checks : WriteCommand → Prop
  | lpushx | rpushx => False
  | c => c.keyType=some .list ∨ c.keyType=some .set ∨ c.keyType=some .zset

theorem ReadCommand.checks_iff {c : ReadCommand} (hh : c ≠ .hscan) (hs : c ≠ .sscan)
    (hz : c ≠ .zscan) {now : Int} : c.Checks m now k ↔
      c.keyType=some .list ∨ c.keyType=some .set ∨ c.keyType=some .zset := by
  cases c <;> first | exact Iff.rfl | contradiction

theorem WriteCommand.checks_iff {c : WriteCommand} (hl : c ≠ .lpushx) (hr : c ≠ .rpushx) :
    c.Checks ↔ c.keyType=some .list ∨ c.keyType=some .set ∨ c.keyType=some .zset := by
  cases c <;> first | exact Iff.rfl | contradiction

variable [Float64 F]

theorem execute_untyped_string {c : WriteCommand} (hc : c.keyType=some .string) :
    ∃ p, execute w c args s=.ok p ∧ p.1 ≠ wrongTypeReply := by
  have hstep : ∀ cmd d, (handleStep cmd d w args s).1 ≠ wrongTypeReply := by
    intro cmd d
    unfold handleStep
    split
    · exact incrBy_untyped _ _
    · exact error_ne_wrongType rfl
  have hstepBy : ∀ cmd sign, (handleStepBy cmd sign w args s).1 ≠ wrongTypeReply := by
    intro cmd sign
    unfold handleStepBy
    split
    · split
      · exact error_ne_wrongType rfl
      · exact incrBy_untyped _ _
    · exact error_ne_wrongType rfl
  cases c
  case getex => exact ⟨_,rfl,handleGetEX_untyped⟩
  case getset =>
    refine ⟨_,rfl,?_⟩
    unfold handleGetSet
    split
    · exact ne_wrongType (optReply_isError _)
    · exact error_ne_wrongType rfl
  case getdel =>
    refine ⟨_,rfl,?_⟩
    unfold handleGetDel
    split
    · split <;> exact ne_wrongType rfl
    · exact error_ne_wrongType rfl
  case append =>
    refine ⟨_,rfl,?_⟩
    unfold handleAppend
    split
    · exact ne_wrongType rfl
    · exact error_ne_wrongType rfl
  case incr => exact ⟨_,rfl,hstep "INCR" _⟩
  case decr => exact ⟨_,rfl,hstep "DECR" _⟩
  case incrby => exact ⟨_,rfl,hstepBy "INCRBY" _⟩
  case decrby => exact ⟨_,rfl,hstepBy "DECRBY" _⟩
  case incrbyfloat =>
    refine ⟨_,rfl,?_⟩
    unfold handleIncrByFloat
    split
    · split
      · exact error_ne_wrongType rfl
      · split
        · exact error_ne_wrongType rfl
        · exact ne_wrongType rfl
    · exact error_ne_wrongType rfl
  all_goals cases hc

theorem answer_untyped_string {c : ReadCommand} (hc : c.keyType=some .string) :
    ∃ r, answer w c args m=.ok r ∧ r ≠ wrongTypeReply := by
  cases c
  case get => exact ⟨_,rfl,handleGet_untyped⟩
  case strlen => exact ⟨_,rfl,handleStrLen_untyped⟩
  all_goals cases hc

theorem answer_untyped_hash {c : ReadCommand} (hc : c.keyType=some .hash) (hscan : c ≠ .hscan) :
    ∃ r, answer w c args m=.ok r ∧ r ≠ wrongTypeReply := by
  cases c
  case hget =>
    refine ⟨_,rfl,?_⟩
    unfold handleHGet
    split
    · exact ne_wrongType (optReply_isError _)
    · exact error_ne_wrongType rfl
  case hgetall | hmget | hlen | hexists | hkeys | hvals =>
    refine ⟨_,rfl,?_⟩
    first
    | unfold handleHGetAll
    | unfold handleHMGet
    | unfold handleHLen
    | unfold handleHExists
    | unfold handleHKeys
    | unfold handleHVals
    split
    · exact ne_wrongType rfl
    · exact error_ne_wrongType rfl
  case hscan => exact absurd rfl hscan
  all_goals cases hc

theorem execute_untyped_hash {c : WriteCommand} (hc : c.keyType=some .hash) :
    ∃ p, execute w c args s=.ok p ∧ p.1 ≠ wrongTypeReply := by
  cases c
  case hdel =>
    refine ⟨_,rfl,?_⟩
    unfold handleHDel
    split
    · exact ne_wrongType rfl
    · exact error_ne_wrongType rfl
  case hincrby | hincrbyfloat =>
    refine ⟨_,rfl,?_⟩
    first
    | unfold handleHIncrBy
    | unfold handleHIncrByFloat
    split
    · split
      · exact error_ne_wrongType rfl
      · split
        · exact error_ne_wrongType rfl
        · exact ne_wrongType rfl
    · exact error_ne_wrongType rfl
  all_goals cases hc

theorem zScan_wrongType (htype : m.typeOf w.now k=some T) (hne : T ≠ .zset) :
    m.zScan w k c pattern count=
      if m.keyExpiredNonStr w.now k=false ∧ k ∈ m.zsets then .error .wrongType else .ok (0,[]) := by
  have hother : m.typeOf w.now k ≠ some .zset := by simp [htype,hne]
  rcases own_cases m.zsets (m.keyExpiredNonStr w.now k) k with ⟨hown,v,hv⟩ | ⟨hown,hv⟩
  · simp only [Maps.zScan,hv,if_pos hother,if_pos hown]
  · simp only [Maps.zScan,hv,if_neg hown]

theorem scans_wrongType_iff {w' : World} {s' : MemoryStore F} {r' : Response} {c : ReadCommand}
    (hscan : c=.hscan ∨ c=.sscan ∨ c=.zscan) (hc : c.keyType=some t)
    (haccept : answer w' c (name::k::rest) s'.toMaps=.ok r') (hr' : r'.isError=false)
    (htype : s.typeOf w.now k=some T) (hne : T ≠ t) :
    ∃ r, answer w c (name::k::rest) s.toMaps=.ok r ∧
      (r=wrongTypeReply ↔ c.Checks s.toMaps w.now k) := by
  rcases hscan with rfl | rfl | rfl
  all_goals
    cases hc
    rcases rest with _ | ⟨cursor,opts⟩
    · cases haccept
      cases hr'
    cases haccept
  · exact ⟨_,rfl,scanWith_wrongType_iff (P := _ ∧ _) hr' fun _ _ _ =>
    hScan_wrongType htype hne⟩
  · exact ⟨_,rfl,scanWith_wrongType_iff (P := _ ∧ _) hr' fun _ _ _ =>
    sScan_wrongType htype hne⟩
  · exact ⟨_,rfl,scanWith_wrongType_iff (P := _ ∧ _) hr' fun _ _ _ =>
    zScan_wrongType htype hne⟩

theorem answer_wrongType_iff {w' : World} {s' : MemoryStore F} {r' : Response} {c : ReadCommand}
    (hc : c.keyType=some t) (haccept : answer w' c (name::k::rest) s'.toMaps=.ok r')
    (hr' : r'.isError=false) (htype : s.typeOf w.now k=some T) (hne : T ≠ t) :
    ∃ r, answer w c (name::k::rest) s.toMaps=.ok r ∧
      (r=wrongTypeReply ↔ c.Checks s.toMaps w.now k) := by
  by_cases hscan : c=.hscan ∨ c=.sscan ∨ c=.zscan
  · exact scans_wrongType_iff hscan hc haccept hr' htype hne
  simp only [not_or] at hscan
  rw [ReadCommand.checks_iff hscan.1 hscan.2.1 hscan.2.2,hc]
  have hrefused : ∀ r : Response, r.isError=true → (.ok r' : Go Response) ≠ .ok r := by
    rintro r hr heq
    cases heq
    rw [hr'] at hr
    cases hr
  have hreports : Guarded t k (fun r _ => .ok r)
      (fun w (s : MemoryStore F) => answer w c (name::k::rest) s.toMaps) →
      answer w c (name::k::rest) s.toMaps=.ok wrongTypeReply :=
    fun h => h.reports haccept hrefused htype hne
  have huntyped : (∃ r, answer w c (name::k::rest) s.toMaps=.ok r ∧ r ≠ wrongTypeReply) →
      ∃ r, answer w c (name::k::rest) s.toMaps=.ok r ∧ (r=wrongTypeReply ↔ False) :=
    fun ⟨r,hr,hother⟩ => ⟨r,hr,iff_of_false hother id⟩
  cases t with
  | string => simpa using huntyped (answer_untyped_string hc)
  | hash => simpa using huntyped (answer_untyped_hash hc hscan.1)
  | list => exact ⟨_,hreports (answer_guarded_list hc),iff_of_true rfl (by simp)⟩
  | set => exact ⟨_,hreports (answer_guarded_set hc hscan.2.1),iff_of_true rfl (by simp)⟩
  | zset => exact ⟨_,hreports (answer_guarded_zset hc hscan.2.2),iff_of_true rfl (by simp)⟩

theorem execute_wrongType_iff {w' : World} {s' : MemoryStore F} {p' : Response × MemoryStore F}
    {c : WriteCommand} (hc : c.keyType=some t)
    (haccept : execute w' c (name::k::rest) s'=.ok p') (hp' : p'.1.isError=false)
    (htype : s.typeOf w.now k=some T) (hne : T ≠ t) :
    ∃ p, execute w c (name::k::rest) s=.ok p ∧
      ((p.1=wrongTypeReply ∧ p.2.toMaps.row k=s.toMaps.row k) ↔ c.Checks) := by
  have hrefused : ∀ r : Response, r.isError=true →
      (.ok p' : Go (Response × MemoryStore F)) ≠ .ok (r,s') := by
    rintro r hr heq
    cases heq
    rw [hp'] at hr
    cases hr
  have hreports : c.Checks → Guarded t k (fun r s => .ok (r,s))
      (fun w (s : MemoryStore F) => execute w c (name::k::rest) s) →
      ∃ p, execute w c (name::k::rest) s=.ok p ∧
        ((p.1=wrongTypeReply ∧ p.2.toMaps.row k=s.toMaps.row k) ↔ c.Checks) :=
    fun hchecks h => ⟨_,h.reports haccept hrefused htype hne,iff_of_true ⟨rfl,rfl⟩ hchecks⟩
  have huntyped : ¬c.Checks → (∃ p, execute w c (name::k::rest) s=.ok p ∧ p.1 ≠ wrongTypeReply) →
      ∃ p, execute w c (name::k::rest) s=.ok p ∧
        ((p.1=wrongTypeReply ∧ p.2.toMaps.row k=s.toMaps.row k) ↔ c.Checks) :=
    fun hchecks ⟨p,hp,hother⟩ => ⟨p,hp,iff_of_false (fun h => hother h.1) hchecks⟩
  by_cases hl : c=.lpushx
  · subst hl
    cases hc
    exact huntyped id ⟨_,rfl,handlePushX_untyped _ _ htype hne⟩
  by_cases hr : c=.rpushx
  · subst hr
    cases hc
    exact huntyped id ⟨_,rfl,handlePushX_untyped _ _ htype hne⟩
  have hchecks := WriteCommand.checks_iff hl hr
  rw [hc] at hchecks
  cases t with
  | string => exact huntyped (by simp [hchecks]) (execute_untyped_string hc)
  | hash => exact huntyped (by simp [hchecks]) (execute_untyped_hash hc)
  | list => exact hreports (by simp [hchecks]) (execute_guarded_list hc hl hr)
  | set => exact hreports (by simp [hchecks]) (execute_guarded_set hc)
  | zset => exact hreports (by simp [hchecks]) (execute_guarded_zset hc)

/-- The type a command takes its one key for, where it does. -/
def Command.keyType : Command → Option KeyType
  | read c => c.keyType
  | write c => c.keyType

@[inherit_doc ReadCommand.Checks]
def Command.Checks (m : Maps F) (now : Int) (k : Bytes) : Command → Prop
  | read c => c.Checks m now k
  | write c => c.Checks

/-- Some store accepts the request. -/
def WellFormed (F : Type) [Float64 F] (args : List Bytes) : Prop :=
  ∃ (w : World) (s : MemoryStore F) (d : Dispatched F), dispatch w args s=.ok d ∧
    d.resp.isError=false

/-- A well-formed request that takes a live key for a value of another type is answered with
the type error and leaves the key alone exactly where its command checks the type. -/
theorem type_errors_iff (w : World) (s : MemoryStore F) (name k : Bytes) (rest : List Bytes)
    {c : Command} (hc : commandOf (name::k::rest)=some c) (ht : c.keyType=some t)
    (hwf : WellFormed F (name::k::rest)) (htype : s.typeOf w.now k=some T) (hne : T ≠ t) :
    ∃ d, dispatch w (name::k::rest) s=.ok d ∧
      ((d.resp=.error StoreError.wrongType.text ∧ d.store.toMaps.row k=s.toMaps.row k) ↔
        c.Checks s.toMaps w.now k) := by
  obtain ⟨w',s',d',hd',haccept⟩ := hwf
  cases c with
  | read c =>
    rw [dispatch_read hc] at hd' ⊢
    obtain ⟨r',hr',rfl⟩ := Go.map_eq_ok.mp hd'
    obtain ⟨r,hr,hiff⟩ := answer_wrongType_iff ht hr' haccept htype hne
    rw [hr]
    exact ⟨_,rfl,(and_iff_left rfl).trans hiff⟩
  | write c =>
    rw [dispatch_write hc] at hd' ⊢
    obtain ⟨p',hp',rfl⟩ := Go.map_eq_ok.mp hd'
    obtain ⟨p,hp,hiff⟩ := execute_wrongType_iff ht hp' haccept htype hne
    rw [hp]
    exact ⟨_,rfl,hiff⟩

/-- `LPUSH` on a string. -/
theorem type_errors_lpush :
    let s : MemoryStore Int := MemoryStore.new.set (utf8 "k") (utf8 "v")
    ∃ d, dispatch (World.plain 0) [utf8 "LPUSH",utf8 "k",utf8 "x"] s=.ok d ∧
      d.resp=.error StoreError.wrongType.text ∧
      d.store.toMaps.row (utf8 "k")=s.toMaps.row (utf8 "k") := by
  intro s
  have hwf : WellFormed Int [utf8 "LPUSH",utf8 "k",utf8 "x"] := ⟨World.plain 0,.new,_,rfl,rfl⟩
  obtain ⟨d,hd,hiff⟩ := type_errors_iff (World.plain 0) s (utf8 "LPUSH") (utf8 "k") [utf8 "x"]
    (c := .write .lpush) (t := .list) (T := .string) (by decide) rfl hwf (by decide) (by decide)
  exact ⟨d,hd,hiff.mpr (.inl rfl)⟩

/-- `APPEND` on a list replies with a length and puts a string in the place of the list. -/
theorem append_replaces_list :
    ∃ s : MemoryStore Int, Reachable s ∧ s.typeOf 0 (utf8 "l")=some .list ∧
      ∃ d, dispatch (World.plain 0) [utf8 "APPEND",utf8 "l",utf8 "v"] s=.ok d ∧
        d.resp=.integer 1 ∧ d.store.typeOf 0 (utf8 "l")=some .string := by
  refine ⟨_,.dispatch (World.plain 0) [utf8 "LPUSH",utf8 "l",utf8 "x"] .new rfl,by decide,_,rfl,rfl,?_⟩
  decide

end GoRedis
