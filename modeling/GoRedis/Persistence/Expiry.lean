import GoRedis.Persistence.Deadlines
/-!
# Expiry over a restart

The commands that set, move and take off deadlines, step by step: what each does to the live
store and what its records do to the one that replay rebuilds. A key is lost exactly when a
deadline that would have passed by the restart was moved or taken off in time.
-/
namespace GoRedis
open PrefixCode Journal

section
variable {F : Type} {world : Nat → World} {t : Int} {i : Nat} {past : List (List Bytes)}
  {s s' r : MemoryStore F} {name key n : Bytes}

/-- The deadline of `EXPIRE` and `PEXPIRE`. -/
def newDeadlineIn (unit : Int) (w : World) (args : List Bytes) : Option (Bytes × Option Int) :=
  match args with
  | [_,key,n] =>
    ((parseInt n).filter fun v => 0 ≤ v).map fun v => (key,some (w.now+scale v unit))
  | _ => none

/-- The deadline of `EXPIREAT` and `PEXPIREAT`; an instant that has passed sets none. -/
def newDeadlineOn (instant : Int → Int) (w : World) (args : List Bytes) :
    Option (Bytes × Option Int) :=
  match args with
  | [_,key,n] => ((parseInt n).filter fun v => 0 < timeUntil w.now (instant v)).map
      fun v => (key,some (w.now+timeUntil w.now (instant v)))
  | _ => none

/-- The key whose deadline a request moves, and where to; a deadline taken off is `none`. -/
def newDeadline (w : World) (c : WriteCommand) (args : List Bytes) :
    Option (Bytes × Option Int) :=
  match c with
  | .expire => newDeadlineIn second w args
  | .pexpire => newDeadlineIn millisecond w args
  | .expireat => newDeadlineOn unix w args
  | .pexpireat => newDeadlineOn unixMilli w args
  | .persist => match args with
    | [_,key] => some (key,none)
    | _ => none
  | _ => none

/-- The steps of a run with deadlines: the deadline asked for, the store after the step and the
records. Those of a deadline say the same instant, and replay at `t` reads it exactly. -/
inductive Move (t now : Int) (s : MemoryStore F) :
    Option (Bytes × Option Int) → MemoryStore F → List (List Bytes) → Prop
  | nothing (nd : Option (Bytes × Option Int)) (h : ∀ p ∈ nd, s.liveString now p.1=none) :
      Move t now s nd s []
  | sweep : Move t now s none (s.deleteExpired now) []
  | set (name key v : Bytes) (hname : lookup (toUpper name)=some (.write .set)) :
      Move t now s none (s.set key v) [[name,key,v]]
  | mset (name : Bytes) (rest : List Bytes) (hname : lookup (toUpper name)=some (.write .mset))
      (hshape : ¬((name::rest).length < 3 ∨ (name::rest).length%2=0)) :
      Move t now s none (msetLoop s rest) [name::rest]
  | del (name key : Bytes) (keys : List Bytes)
      (hname : lookup (toUpper name)=some (.write .del)) :
      Move t now s none (s.del now (key::keys)).2 [name::key::keys]
  | setTTL (key v : Bytes) (ms : Int) (hms : InInt64 ms) (hahead : InInt64 (unixMilli ms-t)) :
      Move t now s none (s.setWithTTL now key v (unixMilli ms-now))
        [setRecord key v,pexpireatRecord key ms]
  | expire (name key n : Bytes) (ms : Int)
      (hname : lookup (toUpper name)=some (.write .pexpireat)) (hn : parseInt n=some ms)
      (hahead : InInt64 (unixMilli ms-t)) (hlive : (s.expire now key (unixMilli ms-now)).1=true) :
      Move t now s (some (key,some (unixMilli ms))) (s.expire now key (unixMilli ms-now)).2
        [[name,key,n]]
  | past (name key n : Bytes) (ms : Int)
      (hname : lookup (toUpper name)=some (.write .pexpireat)) (hn : parseInt n=some ms)
      (hahead : InInt64 (unixMilli ms-t)) (hle : unixMilli ms ≤ now) :
      Move t now s none (s.del now [key]).2 [[name,key,n]]
  | persist (name key : Bytes) (hname : lookup (toUpper name)=some (.write .persist)) :
      Move t now s (some (key,none)) (s.persist now key).2 [[name,key]]

variable {w : World} {args : List Bytes} {resp : Response} {nd : Option (Bytes × Option Int)}

theorem Move.idle {now : Int} (hs : s'=s) (hnd : nd=none) : Move t now s nd s' [] := by
  rw [hs]
  exact .nothing nd (by simp [hnd])

theorem liveString_of_expire_false {now ttl : Int} (h : (s.expire now key ttl).1=false) :
    s.liveString now key=none := by
  unfold MemoryStore.expire at h
  split at h
  · cases h
  · assumption

theorem Move.asked {now ttl ms : Int} {name n : Bytes} (hd : SameDeadline t now ttl ms)
    (hname : lookup (toUpper name)=some (.write .pexpireat)) (hn : parseInt n=some ms) :
    Move t now s (some (key,some (now+ttl))) (s.expire now key ttl).2
      (if (s.expire now key ttl).1 then [[name,key,n]] else []) := by
  cases hlive : (s.expire now key ttl).1 with
  | true =>
    rw [hd.eq] at hlive ⊢
    rw [add_sub_cancel]
    exact .expire name key n ms hname hn hd.ahead hlive
  | false =>
    rw [MemoryStore.expire_false hlive]
    refine .nothing _ fun p hp => ?_
    cases hp
    exact liveString_of_expire_false hlive

theorem handleDel_done (hrun : handleDel w args s=(resp,s')) (he : resp.isError=false) :
    ∃ key keys, args.tail=key::keys ∧ s'=(s.del w.now (key::keys)).2 := by
  unfold handleDel at hrun
  split at hrun
  · exact ⟨_,_,rfl,congrArg Prod.snd hrun.symm⟩
  · cases hrun
    cases he

theorem handleMSet_done (hrun : handleMSet args s=(resp,s')) (he : resp.isError=false) :
    ¬(args.length < 3 ∨ args.length%2=0) ∧ s'=msetLoop s args.tail := by
  unfold handleMSet at hrun
  split at hrun
  · cases hrun
    cases he
  · exact ⟨‹_›,congrArg Prod.snd hrun.symm⟩

theorem handleSetTTL_done {cmd : String} {unit : Int} (hrun : handleSetTTL cmd unit w args s=(resp,s'))
    (he : resp.isError=false) :
    ∃ name key n value v, args=[name,key,n,value] ∧ parseInt n=some v ∧
      s'=s.setWithTTL w.now key value (scale v unit) := by
  unfold handleSetTTL at hrun
  split at hrun
  · split at hrun
    · cases hrun
      cases he
    · rename_i v hv
      exact ⟨_,_,_,_,v,rfl,(Option.filter_eq_some_iff.mp hv).1,congrArg Prod.snd hrun.symm⟩
  · cases hrun
    cases he

theorem handleSetTTL_move {cmd : String} {unit : Int} {millis : Int → Int}
    (hd : ∀ v, parseInt (args.getD 2 [])=some v →
      SameDeadline t w.now (scale v unit) (millis v))
    (hrun : handleSetTTL cmd unit w args s=(resp,s')) (he : resp.isError=false) :
    Move t w.now s none s' (setTTLRecords millis args) := by
  obtain ⟨name,key,n,value,v,rfl,hv,rfl⟩ := handleSetTTL_done hrun he
  have hd := hd v hv
  simp only [setTTLRecords,hv,hd.eq]
  exact .setTTL key value _ hd.recorded hd.ahead

theorem handleExpireIn_move {cmd : String} {unit : Int} {millis : Int → Int}
    (hd : ∀ v, parseInt (args.getD 2 [])=some v →
      SameDeadline t w.now (scale v unit) (millis v))
    (hrun : handleExpireIn cmd unit w args s=(resp,s')) :
    Move t w.now s (newDeadlineIn unit w args) s'
      (if resp.isError then [] else expireRecord millis args resp) := by
  unfold handleExpireIn at hrun
  split at hrun
  · rename_i name key n
    split at hrun
    · rename_i hn
      cases hrun
      exact .idle rfl (by simp [newDeadlineIn,hn])
    · rename_i v hv
      have hn := (Option.filter_eq_some_iff.mp hv).1
      have hnd : newDeadlineIn unit w [name,key,n]=some (key,some (w.now+scale v unit)) := by
        simp only [newDeadlineIn,hv,Option.map_some]
      simp only [Prod.mk.injEq] at hrun
      obtain ⟨rfl,rfl⟩ := hrun
      rw [hnd]
      simp only [expireRecord,hn,boolReply_int,boolReply_isError,Bool.false_eq_true,↓reduceIte]
      exact .asked (hd v hn) (by decide) (parseInt_formatInt (hd v hn).recorded)
  · rename_i hshape
    cases hrun
    refine .idle rfl ?_
    unfold newDeadlineIn
    split
    · exact absurd rfl (hshape _ _ _)
    · rfl

theorem handleExpireOn_move {cmd : String} {instant : Int → Int}
    (record : Bytes → Bytes → Bytes → Int → List Bytes)
    (hrec : ∀ name key n v, args=[name,key,n] → parseInt n=some v → ∃ name' n' ms,
      record name key n v=[name',key,n'] ∧ lookup (toUpper name')=some (.write .pexpireat) ∧
      parseInt n'=some ms ∧ SameDeadline t w.now (timeUntil w.now (instant v)) ms)
    (hrun : handleExpireOn cmd instant w args s=(resp,s')) :
    (resp.isError=true ∧ Move t w.now s (newDeadlineOn instant w args) s' []) ∨
    ∃ name key n v, args=[name,key,n] ∧ parseInt n=some v ∧ resp.isError=false ∧
      Move t w.now s (newDeadlineOn instant w args) s'
        (if resp.int=1 then [record name key n v] else []) := by
  unfold handleExpireOn at hrun
  split at hrun
  · rename_i name key n
    split at hrun
    · rename_i hn
      cases hrun
      exact .inl ⟨rfl,.idle rfl (by simp [newDeadlineOn,hn])⟩
    · rename_i v hv
      obtain ⟨name',n',ms,hr,hname,hn',hd⟩ := hrec name key n v rfl hv
      refine .inr ⟨name,key,n,v,rfl,hv,?_⟩
      dsimp only at hrun
      split at hrun
      · rename_i hle
        simp only [Prod.mk.injEq] at hrun
        obtain ⟨rfl,rfl⟩ := hrun
        have hnd : newDeadlineOn instant w [name,key,n]=none := by
          simp [newDeadlineOn,hv,Option.filter,hle]
        have heq := hd.eq
        rw [hnd,hr]
        exact ⟨rfl,.past name' key n' ms hname hn' hd.ahead (by omega)⟩
      · rename_i hlt
        have hnd : newDeadlineOn instant w [name,key,n]=
            some (key,some (w.now+timeUntil w.now (instant v))) := by
          simp [newDeadlineOn,hv,Option.filter,not_le.mp hlt]
        simp only [Prod.mk.injEq] at hrun
        obtain ⟨rfl,rfl⟩ := hrun
        rw [hnd,hr]
        refine ⟨rfl,?_⟩
        simp only [boolReply_int]
        exact .asked hd hname hn'
  · rename_i hshape
    cases hrun
    refine .inl ⟨rfl,.idle rfl ?_⟩
    unfold newDeadlineOn
    split
    · exact absurd rfl (hshape _ _ _)
    · rfl

theorem handlePersist_move (hname : lookup (toUpper name)=some (.write .persist))
    {rest : List Bytes} (hrun : handlePersist w (name::rest) s=(resp,s')) :
    Move t w.now s (newDeadline w .persist (name::rest)) s'
      (if resp.isError then [] else [name::rest]) := by
  unfold handlePersist at hrun
  split at hrun
  · rename_i key hargs
    cases hargs
    simp only [Prod.mk.injEq] at hrun
    obtain ⟨rfl,rfl⟩ := hrun
    exact .persist name key hname
  · rename_i hshape
    cases hrun
    refine .idle rfl ?_
    simp only [newDeadline]

/-- The writing commands of a run with deadlines, no amount of time overflowing. -/
def ExpiryCommand (c : WriteCommand) (args : List Bytes) : Prop :=
  match c with
  | .set => args.length ≤ 3
  | .setex | .expire | .expireat => ∀ v, parseInt (args.getD 2 [])=some v → Small second v
  | .psetex | .pexpire | .pexpireat => ∀ v, parseInt (args.getD 2 [])=some v → Small millisecond v
  | .persist | .del | .mset => True
  | _ => False

theorem execute_move [Float64 F] {c : WriteCommand} {rest : List Bytes} (hc : Clock t w.now)
    (hname : lookup (toUpper name)=some (.write c)) (hcmd : ExpiryCommand c (name::rest))
    (hrun : execute w c (name::rest) s=.ok (resp,s')) :
    Move t w.now s (newDeadline w c (name::rest)) s'
      (if resp.isError then [] else appendToAOF w c (name::rest) resp s'.toMaps) := by
  have hfail : resp.isError=true → s'=s := (execute_sound hrun).failed
  cases c
  case expire =>
    exact handleExpireIn_move (fun v hv => sameDeadline_seconds hc (hcmd v hv))
      (Except.ok.inj hrun)
  case pexpire =>
    exact handleExpireIn_move (fun v hv => sameDeadline_millis hc (hcmd v hv))
      (Except.ok.inj hrun)
  case persist => exact handlePersist_move hname (Except.ok.inj hrun)
  case expireat =>
    have hrec : ∀ name' key n v, name::rest=[name',key,n] → parseInt n=some v →
        ∃ name' n' ms, pexpireatRecord key (wrap64 (v*1000))=[name',key,n'] ∧
          lookup (toUpper name')=some (.write .pexpireat) ∧ parseInt n'=some ms ∧
          SameDeadline t w.now (timeUntil w.now (unix v)) ms := by
      intro _ key n v hargs hv
      cases hargs
      have hd := sameDeadline_onSeconds hc (hcmd v hv)
      exact ⟨_,_,_,rfl,by decide,parseInt_formatInt hd.recorded,hd⟩
    rcases handleExpireOn_move (fun _ key _ v => pexpireatRecord key (wrap64 (v*1000))) hrec
      (Except.ok.inj hrun) with ⟨he,hmove⟩ | ⟨_,key,n,v,hargs,hv,he,hmove⟩
    · rw [he]
      exact hmove
    · cases hargs
      rw [he]
      simp only [appendToAOF,expireRecord,hv]
      exact hmove
  case pexpireat =>
    have hrec : ∀ name' key n v, name::rest=[name',key,n] → parseInt n=some v →
        ∃ name₁ n' ms, [name',key,n]=[name₁,key,n'] ∧
          lookup (toUpper name₁)=some (.write .pexpireat) ∧ parseInt n'=some ms ∧
          SameDeadline t w.now (timeUntil w.now (unixMilli v)) ms := by
      intro _ key n v hargs hv
      cases hargs
      exact ⟨_,_,_,rfl,hname,hv,sameDeadline_onMillis hc (hcmd v hv)⟩
    rcases handleExpireOn_move (fun name key n _ => [name,key,n]) hrec (Except.ok.inj hrun) with
      ⟨he,hmove⟩ | ⟨_,key,n,v,hargs,hv,he,hmove⟩
    · rw [he]
      exact hmove
    · cases hargs
      rw [he]
      simp only [appendToAOF,List.length_cons,List.length_nil,and_true]
      exact hmove
  all_goals
    cases he : resp.isError
    case true => exact .idle (hfail he) rfl
  case set.false =>
    obtain ⟨_,key,value,opts,hargs,hset⟩ := handleSet_redo (Except.ok.inj hrun) he
    cases hargs
    obtain rfl : opts=[] := List.eq_nil_of_length_eq_zero (by
      simp only [ExpiryCommand,List.length_cons] at hcmd
      omega)
    rw [hset rfl]
    exact .set name key value hname
  case del.false =>
    obtain ⟨key,keys,hargs,hs'⟩ := handleDel_done (Except.ok.inj hrun) he
    cases hargs
    rw [hs']
    exact .del name key keys hname
  case mset.false =>
    obtain ⟨hshape,hs'⟩ := handleMSet_done (Except.ok.inj hrun) he
    rw [hs']
    exact .mset name rest hname hshape
  case setex.false =>
    exact handleSetTTL_move (fun v hv => sameDeadline_seconds hc (hcmd v hv))
      (Except.ok.inj hrun) he
  case psetex.false =>
    exact handleSetTTL_move (fun v hv => sameDeadline_millis hc (hcmd v hv))
      (Except.ok.inj hrun) he
  all_goals exact hcmd.elim

/-- The events of a run with deadlines that is replayed at `t`: these commands and any that
only reads, and sweeps. -/
def ExpiryEvent (t : Int) : Event → Prop
  | .request w args => Clock t w.now ∧ RequestOf ExpiryCommand args
  | .sweep now => now ≤ t

/-- The instant of an event. -/
def Event.now : Event → Int
  | .request w _ => w.now
  | .sweep now => now

/-- The deadline that an event asks for. -/
def Event.newDeadline : Event → Option (Bytes × Option Int)
  | .request w args => match args with
    | [] => none
    | name::_ => match lookup (toUpper name) with
      | some (.write c) => GoRedis.newDeadline w c args
      | _ => none
  | .sweep _ => none

theorem ExpiryEvent.now_le {ev : Event} (h : ExpiryEvent t ev) : ev.now ≤ t := by
  cases ev with
  | request w args => exact h.1.le
  | sweep now => exact h

theorem serve_move [Float64 F] {ev : Event} {records : List (List Bytes)}
    (hev : ExpiryEvent t ev) (hrun : serve ev s=.ok (s',records)) :
    Move t ev.now s ev.newDeadline s' records := by
  cases ev with
  | sweep now =>
    cases hrun
    exact .sweep
  | request w args =>
    obtain ⟨d,hd,rfl,rfl⟩ := serve_request.mp hrun
    rcases dispatch_cases hd with ⟨hstore,hnil,hread⟩ | ⟨name,rest,c,rfl,hname,hexec,hrec⟩
    · rw [hnil]
      refine .idle hstore ?_
      simp only [Event.newDeadline]
      split
      · rfl
      · split
        · exact absurd ‹_› (hread _ _ _ rfl)
        · rfl
    · have hmove := execute_move hev.1 hname (hev.2.command hname) hexec
      have hnd : (Event.request w (name::rest)).newDeadline=newDeadline w c (name::rest) := by
        simp only [Event.newDeadline,hname]
      rw [hnd,hrec]
      exact hmove

theorem Move.rebuilt [Float64 F] {now : Int} {records : List (List Bytes)}
    (h : Move t now s nd s' records) (hnow : ∀ i, (world i).now=t) (hle : now ≤ t)
    (htr : Tracks t (lapsed t past) s r) : Rebuilt world t past i s' records r := by
  cases h with
  | nothing => exact .nothing htr
  | sweep => exact .nothing (htr.sweep hle)
  | set name key v hname =>
    refine .one (r.set key v) ?_ (by rw [lapse_set hname]; exact htr.set key v)
    rw [applyCommand_of_lookup hname]
    rfl
  | mset name rest hname hshape =>
    refine .one (msetLoop r rest) ?_ ?_
    · rw [applyCommand_of_lookup hname,applyWrite,if_neg hshape]
      rfl
    · simp only [lapse_mset hname]
      exact htr.mset rest
  | del name key keys hname =>
    refine .one (r.del t (key::keys)).2 ?_ ?_
    · rw [applyCommand_of_lookup hname,← hnow i]
      rfl
    · simp only [lapse_of_command hname (by decide) (by decide) (by decide)]
      exact htr.del hle _
  | setTTL key v ms hms hahead =>
    refine .cons (applyCommand_set _ key v r)
      (.deadline (hnow _) (by decide) (parseInt_formatInt hms) hahead ?_)
    rw [lapsed_set,Function.update_self,Bool.false_or,Function.update_idem]
    exact htr.setWithTTL hle key v _
  | expire name key n ms hname hn hahead hlive =>
    exact .deadline (hnow i) hname hn hahead (htr.expire hle key _)
  | past name key n ms hname hn hahead hpast =>
    exact .deadline (hnow i) hname hn hahead (htr.past (hpast.trans hle) key)
  | persist name key hname =>
    refine .one (r.persist t key).2 ?_ ?_
    · rw [applyCommand_of_lookup hname,← hnow i]
      rfl
    · simp only [lapse_of_command hname (by decide) (by decide) (by decide)]
      exact htr.persist hle key

/-- A key that is live, but will not be at `t`, is to get a deadline that `t` does not pass, or
is to lose its own. -/
def OutlivesAt (t now : Int) (nd : Option (Bytes × Option Int)) (s : MemoryStore F) : Prop :=
  ∃ key d e, nd=some (key,d) ∧ s.liveString now key=some e ∧ expired t e.expiresAt=true ∧
    expired t d=false

/-- The same of the deadline that an event asks for. -/
def Outlives (t : Int) (ev : Event) (s : MemoryStore F) : Prop :=
  OutlivesAt t ev.now ev.newDeadline s

theorem not_outlivesAt_none (t now : Int) (s : MemoryStore F) : ¬OutlivesAt t now none s := by
  rintro ⟨_,_,_,h,_⟩
  cases h

theorem Unlapsed.set {b : Bytes → Bool} (h : Unlapsed t b s) (key v : Bytes) :
    Unlapsed t (Function.update b key false) (s.set key v) := by
  intro k hk
  by_cases he : k=key
  · subst he
    simp at hk
  · have hrow : (s.set key v).row k=s.row k := by
      rw [MemoryStore.row_set,if_neg fun e => he e.symm]
    rw [Maps.view,hrow]
    exact h k (by simpa only [Function.update_of_ne he] using hk)

theorem Unlapsed.mset {b : Bytes → Bool} (h : Unlapsed t b s) (args : List Bytes) :
    Unlapsed t (fun k => if k ∈ msetKeys args then false else b k) (msetLoop s args) := by
  fun_induction msetKeys args generalizing s b with
  | case1 key v rest ih =>
    rw [msetMarks_cons,msetLoop]
    exact ih (h.set key v)
  | case2 args hargs =>
    rw [msetLoop.eq_2 s args hargs]
    simpa using h

theorem unlapsed_update_iff {b : Bytes → Bool} {f : Bytes → Cell} {c : Cell} (b' : Bool)
    (hs : s.HoldsCells f) (hs' : s'.HoldsCells (Function.update f key c)) (h : Unlapsed t b s) :
    Unlapsed t (Function.update b key b') s' ↔ (b'=true → Cell.live t c=none) := by
  have hview : ∀ k, s'.view t k=none ↔ Cell.live t (Function.update f key c k)=none := by
    intro k
    rw [hs'.view,Option.map_eq_none_iff]
  constructor
  · intro hu hb
    have := (hview key).mp (hu key (by simpa using hb))
    simpa using this
  · intro hc k hk
    rw [hview]
    by_cases he : k=key
    · subst he
      rw [Function.update_self] at hk ⊢
      exact hc hk
    · rw [Function.update_of_ne he] at hk ⊢
      have := h k hk
      rwa [hs.view,Option.map_eq_none_iff] at this

theorem Unlapsed.del {b : Bytes → Bool} {f : Bytes → Cell} {now : Int} (hs : s.HoldsCells f)
    (h : Unlapsed t b s) (ks : List Bytes) : Unlapsed t b (s.del now ks).2 := by
  induction ks generalizing s f with
  | nil => exact h
  | cons k ks ih =>
    rw [MemoryStore.del_cons]
    have hs' := MemoryStore.holds_del hs now k
    refine ih hs' ?_
    have hk := (unlapsed_update_iff (b k) hs hs' h).mpr ?_
    · rwa [Function.update_eq_self] at hk
    · intro hb
      have := h k hb
      rw [hs.view,Option.map_eq_none_iff] at this
      exact Cell.live_del_of_live this

theorem recordedDeadline_pexpireat (hname : lookup (toUpper name)=some (.write .pexpireat))
    {ms : Int} (hn : parseInt n=some ms) (key : Bytes) :
    recordedDeadline [name,key,n]=some (key,unixMilli ms) := by
  simp [recordedDeadline,hname,hn]

theorem lapsed_pexpireat (hname : lookup (toUpper name)=some (.write .pexpireat)) {ms : Int}
    (hn : parseInt n=some ms) (t : Int) (past : List (List Bytes)) (key : Bytes) :
    lapsed t (past++[[name,key,n]])=
      Function.update (lapsed t past) key (lapsed t past key || decide (unixMilli ms ≤ t)) := by
  rw [lapsed_concat,lapse_pexpireat hname hn]

/-- A live key gets the deadline `d`: it stays out of sight of replay alone exactly when it was
going to be there at `t`, or still is not. -/
theorem unlapsed_expire_iff {b : Bytes → Bool} {f g : Bytes → Cell} {now d : Int}
    (hs : s.HoldsCells f) (hf : ∀ k, Follows t (b k) (f k) (g k)) (hne : d ≠ t)
    (hlive : (s.expire now key (d-now)).1=true) (h : Unlapsed t b s) :
    Unlapsed t (Function.update b key (b key || decide (d ≤ t))) (s.expire now key (d-now)).2 ↔
      ¬OutlivesAt t now (some (key,some d)) s := by
  obtain ⟨hfst,hs'⟩ := MemoryStore.holds_expire hs now key (d-now)
  rw [hlive] at hfst
  obtain ⟨e,he⟩ := Option.isSome_iff_exists.mp hfst.symm
  have hcell : f key=some e := (Option.filter_eq_some_iff.mp he).1
  have hnew : Cell.expire now (d-now) (f key)=some { e with expiresAt := some d } := by
    rw [Cell.expire,he,add_sub_cancel]
  have hout : OutlivesAt t now (some (key,some d)) s ↔
      expired t e.expiresAt=true ∧ expired t (some d)=false := by
    constructor
    · rintro ⟨_,_,e',hnd,he',h₁,h₂⟩
      cases hnd
      rw [hs.liveString,he] at he'
      cases he'
      exact ⟨h₁,h₂⟩
    · rintro ⟨h₁,h₂⟩
      exact ⟨key,some d,e,rfl,by rw [hs.liveString,he],h₁,h₂⟩
  rw [hnew] at hs'
  rw [unlapsed_update_iff _ hs hs' h,Cell.live_some_eq_none_iff,hout]
  have hk := hf key
  rcases lt_or_gt_of_ne hne with hlt | hgt
  · -- over by `t`, live and in replay
    have hexp : expired t (some d)=true := decide_eq_true hlt
    simp [hexp]
  · have hexp : expired t (some d)=false := decide_eq_false (by omega)
    cases hb : b key with
    | true =>
      have hgone := h key hb
      rw [hs.view,Option.map_eq_none_iff,hcell,Cell.live_some_eq_none_iff] at hgone
      simp [hexp,hgone]
    | false =>
      rw [hb] at hk
      have hbeyond : Cell.Beyond t (f key) := hk.1 ▸ hk.2
      have hthere : expired t e.expiresAt=false := by
        have := hbeyond.live le_rfl
        rw [hcell] at this
        by_contra hcon
        rw [Cell.live_some_eq_none_iff.mpr (by simpa using hcon)] at this
        cases this
      simp [hexp,hthere,not_le.mpr hgt]

theorem unlapsed_persist_iff {b : Bytes → Bool} {f g : Bytes → Cell} {now : Int}
    (hs : s.HoldsCells f) (hf : ∀ k, Follows t (b k) (f k) (g k)) (h : Unlapsed t b s) :
    Unlapsed t b (s.persist now key).2 ↔ ¬OutlivesAt t now (some (key,none)) s := by
  have hs' := MemoryStore.holds_persist hs now key
  have hiff := unlapsed_update_iff (b key) hs hs' h
  rw [Function.update_eq_self] at hiff
  rw [hiff]
  have hk := hf key
  cases he : Cell.live now (f key) with
  | none =>
    have hno : ¬OutlivesAt t now (some (key,none)) s := by
      rintro ⟨_,_,e',hnd,he',_⟩
      cases hnd
      rw [hs.liveString,he] at he'
      cases he'
    have hsame : Cell.persist now (f key)=f key := by rw [Cell.persist,he]
    refine iff_of_true (fun hb => ?_) hno
    have := h key hb
    rwa [hs.view,Option.map_eq_none_iff,← hsame] at this
  | some e =>
    have hcell : f key=some e := (Option.filter_eq_some_iff.mp he).1
    have hnew : Cell.persist now (f key)=some { e with expiresAt := none } := by
      rw [Cell.persist,he]
    have hout : OutlivesAt t now (some (key,none)) s ↔ expired t e.expiresAt=true := by
      constructor
      · rintro ⟨_,_,e',hnd,he',h₁,_⟩
        cases hnd
        rw [hs.liveString,he] at he'
        cases he'
        exact h₁
      · exact fun h₁ => ⟨key,none,e,rfl,by rw [hs.liveString,he],h₁,rfl⟩
    rw [hnew,Cell.live_some_eq_none_iff,hout]
    cases hb : b key with
    | true =>
      have hgone := h key hb
      rw [hs.view,Option.map_eq_none_iff,hcell,Cell.live_some_eq_none_iff] at hgone
      have hnever : expired t none=false := rfl
      simp [hgone,hnever]
    | false =>
      rw [hb] at hk
      have hthere : ¬expired t e.expiresAt=true := by
        have := (hk.1 ▸ hk.2 : Cell.Beyond t (f key)).live le_rfl
        rw [hcell] at this
        intro hcon
        rw [Cell.live_some_eq_none_iff.mpr hcon] at this
        cases this
      simp [hthere]

theorem Move.unlapsed_iff {now : Int} {records : List (List Bytes)}
    (h : Move t now s nd s' records) (hle : now ≤ t)
    (hne : ∀ rec ∈ records, ∀ d ∈ recordedDeadline rec, d.2 ≠ t)
    (htr : Tracks t (lapsed t past) s r) (hu : Unlapsed t (lapsed t past) s) :
    Unlapsed t (lapsed t (past++records)) s' ↔ ¬OutlivesAt t now nd s := by
  obtain ⟨f,g,hs,_,hf⟩ := htr
  cases h with
  | nothing _ hnot =>
    rw [List.append_nil]
    refine iff_of_true hu ?_
    rintro ⟨key,d,e,rfl,he,_⟩
    rw [hnot _ rfl] at he
    cases he
  | sweep =>
    rw [List.append_nil]
    refine iff_of_true (fun k hk => ?_) (not_outlivesAt_none t now s)
    have hk := hu k hk
    rw [hs.view,Option.map_eq_none_iff] at hk
    rw [(MemoryStore.holds_deleteExpired hs now).view,Option.map_eq_none_iff]
    exact Cell.live_live_of_live hk
  | set name key v hname =>
    rw [lapsed_concat,lapse_set hname]
    exact iff_of_true (hu.set key v) (not_outlivesAt_none t now s)
  | mset name rest hname hshape =>
    rw [lapsed_concat]
    simp only [lapse_mset hname]
    exact iff_of_true (hu.mset rest) (not_outlivesAt_none t now s)
  | del name key keys hname =>
    rw [lapsed_concat]
    simp only [lapse_of_command hname (by decide) (by decide) (by decide)]
    exact iff_of_true (hu.del hs _) (not_outlivesAt_none t now s)
  | setTTL key v ms hms hahead =>
    have hn := parseInt_formatInt hms
    have hd : unixMilli ms ≠ t := hne (pexpireatRecord key ms) (by simp) (key,unixMilli ms)
      (recordedDeadline_pexpireat (by decide) hn key)
    have hs' := MemoryStore.holds_setWithTTL hs now key v (unixMilli ms-now)
    have hmarks : lapsed t (past++[setRecord key v,pexpireatRecord key ms])=
        Function.update (lapsed t past) key (decide (unixMilli ms ≤ t)) := by
      have hsplit : past++[setRecord key v,pexpireatRecord key ms]=
          (past++[setRecord key v])++[pexpireatRecord key ms] := by simp
      rw [hsplit,pexpireatRecord,lapsed_pexpireat (by decide) hn,lapsed_set,Function.update_self,
        Bool.false_or,Function.update_idem]
    rw [hmarks,unlapsed_update_iff _ hs hs' hu]
    refine iff_of_true (fun hpast => ?_) (not_outlivesAt_none t now s)
    have hle' := of_decide_eq_true hpast
    rw [Cell.live_some_eq_none_iff,add_sub_cancel]
    exact decide_eq_true (by omega)
  | expire name key n ms hname hn hahead hlive =>
    rw [lapsed_pexpireat hname hn]
    have hd : unixMilli ms ≠ t := hne _ (by simp) (key,unixMilli ms)
      (recordedDeadline_pexpireat hname hn key)
    exact unlapsed_expire_iff hs hf hd hlive hu
  | past name key n ms hname hn hahead hpast =>
    rw [lapsed_pexpireat hname hn,
      unlapsed_update_iff _ hs (MemoryStore.holds_del hs now key) hu]
    exact iff_of_true (fun _ => Cell.live_del _ hle) (not_outlivesAt_none t now s)
  | persist name key hname =>
    rw [lapsed_concat]
    simp only [lapse_of_command hname (by decide) (by decide) (by decide)]
    exact unlapsed_persist_iff hs hf hu

variable [Float64 F]

theorem serve_of_newDeadline {ev : Event} (h : ev.newDeadline ≠ none) (s : MemoryStore F) :
    ∃ s' records, serve ev s=.ok (s',records) := by
  cases ev with
  | sweep now => exact ⟨_,_,rfl⟩
  | request w args =>
    cases args with
    | nil => exact absurd rfl h
    | cons name rest =>
      simp only [Event.newDeadline] at h
      split at h
      · rename_i c hname
        suffices hex : ∃ p, execute w c (name::rest) s=.ok p by
          obtain ⟨p,hp⟩ := hex
          simp only [serve,dispatch,hname,hp]
          exact ⟨_,_,rfl⟩
        cases c
        case expire | pexpire | expireat | pexpireat | persist => exact ⟨_,rfl⟩
        all_goals exact absurd rfl h
      · exact absurd rfl h

theorem serve_rebuilt (hnow : ∀ i, (world i).now=t) (past : List (List Bytes)) (ev : Event)
    (s s' : MemoryStore F) (records : List (List Bytes)) (i : Nat) (r : MemoryStore F)
    (hev : ExpiryEvent t ev) (hrun : serve ev s=.ok (s',records))
    (h : Tracks t (lapsed t past) s r) : Rebuilt world t past i s' records r :=
  (serve_move hev hrun).rebuilt hnow hev.now_le h

theorem run_tracks (hnow : ∀ i, (world i).now=t) {evs : List Event} {live : MemoryStore F}
    {log : List (List Bytes)} (hevs : ∀ ev ∈ evs, ExpiryEvent t ev)
    (hrun : run serve evs .new=.ok (live,log)) :
    ∃ r, applyAll world log .new=some r ∧ Tracks t (lapsed t log) live r :=
  redo_run_past
    (fun past ev s s' rs i r hev hs h => serve_rebuilt hnow past ev s s' rs i r hev hs h) [] 0
    (along_of_forall evs hevs _) hrun (Tracks.new t)

theorem serve_unlapsed_iff (t : Int) (past : List (List Bytes)) (ev : Event) (s : MemoryStore F)
    (hev : ExpiryEvent t ev ∧ ∀ s' rs, serve ev s=.ok (s',rs) →
      ∀ rec ∈ rs, ∀ d ∈ recordedDeadline rec, d.2 ≠ t)
    (h : (∃ r, Tracks t (lapsed t past) s r) ∧ Unlapsed t (lapsed t past) s) :
    (∀ s' rs, serve ev s=.ok (s',rs) → (∃ r, Tracks t (lapsed t (past++rs)) s' r) ∧
      Unlapsed t (lapsed t (past++rs)) s') ↔ ¬Outlives t ev s := by
  obtain ⟨⟨r,htr⟩,hu⟩ := h
  constructor
  · intro hall hout
    have hsome : ev.newDeadline ≠ none := by
      obtain ⟨_,_,_,hnd,_⟩ := hout
      simp [hnd]
    obtain ⟨s',rs,hrun⟩ := serve_of_newDeadline hsome s
    exact ((serve_move hev.1 hrun).unlapsed_iff hev.1.now_le (hev.2 s' rs hrun) htr hu).mp
      (hall s' rs hrun).2 hout
  · intro hout s' rs hrun
    have hnow : ∀ i, ((fun _ => .plain t : Nat → World) i).now=t := fun _ => rfl
    obtain ⟨r',_,htr'⟩ := serve_rebuilt hnow past ev s s' rs 0 r hev.1 hrun htr
    exact ⟨⟨r',htr'⟩,((serve_move hev.1 hrun).unlapsed_iff hev.1.now_le (hev.2 s' rs hrun) htr
      hu).mpr hout⟩

/-- Replay at `t` of every first part of a run shows every key with the value and the deadline
that the live store has at `t`, exactly when no event moves beyond `t`, or takes off, a deadline
that comes before `t`. -/
theorem expiry_durable_iff (world : Nat → World) (t : Int) (evs : List Event)
    {live : MemoryStore F} {log : List (List Bytes)} (s₀ : MemoryStore F)
    (hnow : ∀ i, (world i).now=t) (hevs : ∀ ev ∈ evs, ExpiryEvent t ev)
    (hrun : run serve evs .new=.ok (live,log)) (hfit : ∀ rec ∈ log, Fits rec)
    (hne : ∀ rec ∈ log, ∀ d ∈ recordedDeadline rec, d.2 ≠ t) :
    (∀ pre s log', pre <+: evs → run serve pre .new=.ok ((s : MemoryStore F),log') →
      ∃ r, replay world (some (encodeAll log')) s₀=.ok r ∧ r.err=none ∧ r.count=log'.length ∧
        ∀ k, r.store.view t k=s.view t k) ↔
      Along serve (fun ev s => ¬Outlives t ev s) evs (.new : MemoryStore F) := by
  have hstart : (∃ r, Tracks t (lapsed t []) (.new : MemoryStore F) r) ∧
      Unlapsed t (lapsed t []) (.new : MemoryStore F) :=
    ⟨⟨_,Tracks.new t⟩,fun k hk => by cases hk⟩
  rw [← pasts_iff_along (serve_unlapsed_iff t) evs [] .new
    (along_and (along_of_forall evs hevs _) ((forall_log_iff hrun).mp hne)) hstart]
  refine forall_congr' fun pre => forall_congr' fun s => forall_congr' fun log' =>
    forall_congr' fun hpre => forall_congr' fun hrun' => ?_
  obtain ⟨r,hredo,htr⟩ := run_tracks hnow (fun ev hev => hevs ev (hpre.subset hev)) hrun'
  have hreplay := replay_log world log' s₀ r
    (fun rec hrec => hfit rec ((run_first_part hrun hpre hrun').subset hrec)) hredo
  rw [List.nil_append,← htr.view_eq_iff]
  constructor
  · rintro ⟨r',hr',_,_,hview⟩
    rw [hreplay] at hr'
    cases hr'
    exact ⟨⟨r,htr⟩,hview⟩
  · exact fun hview => ⟨_,hreplay,rfl,rfl,hview.2⟩

end

/-- `SET k v` and `EXPIRE k 200`, replayed 100 seconds later. -/
theorem expiry_durable_expire :
    ∃ live log, run (serve (F := Int)) [.request (.plain 0) [utf8 "SET",[107],[118]],
        .request (.plain 0) [utf8 "EXPIRE",[107],utf8 "200"]] .new=.ok (live,log) ∧
      ∃ r, replay (F := Int) (fun _ => .plain (100*second)) (some (encodeAll log)) .new=.ok r ∧
        r.err=none ∧ r.count=log.length ∧ ∀ k, r.store.view (100*second) k=live.view (100*second) k := by
  have hsmall : ∀ v, parseInt (utf8 "200")=some v → Small second v := by
    intro v hv
    have h200 : parseInt (utf8 "200")=some 200 := by decide
    cases hv.symm.trans h200
    unfold Small second
    omega
  have hclock : Clock (100*second) 0 := ⟨by decide,by decide,by decide,by decide⟩
  refine ⟨_,_,rfl,(expiry_durable_iff (F := Int) (fun _ => .plain (100*second)) (100*second)
    [.request (.plain 0) [utf8 "SET",[107],[118]],
      .request (.plain 0) [utf8 "EXPIRE",[107],utf8 "200"]] .new (fun _ => rfl) ?_ rfl (by decide)
    (by decide)).mpr ?_ _ _ _ List.prefix_rfl rfl⟩
  · simp only [List.forall_mem_cons]
    exact ⟨⟨hclock,le_rfl⟩,⟨hclock,hsmall⟩,by simp⟩
  · refine ⟨not_outlivesAt_none _ _ _,fun s rs hs => ?_⟩
    cases hs
    refine ⟨?_,fun _ _ _ => trivial⟩
    rintro ⟨key,d,e,hnd,he,hexp,_⟩
    cases hnd
    cases he
    cases hexp

/-- `SET k v` and `EXPIRE k 10`, then `PERSIST k` after five seconds: at 100 seconds the key is
there for good, and replay has deleted it. -/
theorem persist_lost :
    ∃ live log r, run (serve (F := Int)) [.request (.plain 0) [utf8 "SET",[107],[118]],
        .request (.plain 0) [utf8 "EXPIRE",[107],utf8 "10"],
        .request (.plain (5*second)) [utf8 "PERSIST",[107]]] .new=.ok (live,log) ∧
      replay (F := Int) (fun _ => .plain (100*second)) (some (encodeAll log)) .new=.ok r ∧
      r.err=none ∧ live.view (100*second) [107]=some (.string [118],none) ∧
      r.store.view (100*second) [107]=none :=
  ⟨_,_,_,rfl,rfl,rfl,by decide,by decide⟩

end GoRedis
