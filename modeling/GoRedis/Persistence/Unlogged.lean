import GoRedis.Persistence.Reachable
/-!
# Commands that are not logged

`appendToAOF` decides from the command and its reply whether anything is written. For every
command but one, no record means that the maps are as they were: a null reply, a zero or an
empty array is given exactly when nothing happened. `GETEX` moves a deadline and is never
logged.
-/
namespace GoRedis
variable {F : Type}

namespace MemoryStore

theorem expire_false {s : MemoryStore F} {now : Int} {k : Bytes} {ttl : Int}
    (h : (s.expire now k ttl).1=false) : (s.expire now k ttl).2=s := by
  unfold expire at h ⊢
  split
  · simp_all
  · split
    · rfl
    · simp_all

theorem lMove_none {s s' : MemoryStore F} {now : Int} {src dst : Bytes} {a b : Bool}
    (h : s.lMove now src dst a b=.ok (none,s')) : s'=s := by
  unfold lMove at h
  dsimp only at h
  split_ifs at h <;> cases h
  rfl

theorem lRem_zero {s s' : MemoryStore F} {now : Int} {k : Bytes} {n : Int} {v : Bytes}
    (h : s.lRem now k n v=.ok (0,s')) : s'=s := by
  unfold lRem at h
  split at h
  · cases h
  · cases h
    rfl
  · dsimp only at h
    split at h
    · cases h
      rfl
    · rename_i hne
      simp only [Except.ok.injEq,Prod.mk.injEq] at h
      exact absurd h.1 hne

theorem popList_one_nil {cut : Nat → List Bytes → List Bytes × List Bytes} {s s' : MemoryStore F}
    {now : Int} {k : Bytes} (hs : s.NoEmpty) (hcut : ∀ l, l ≠ [] → (cut 1 l).1 ≠ [])
    (h : popList cut s now k 1=.ok (.ok (some [],s'))) : s'=s := by
  unfold popList at h
  split at h
  · cases h
  · cases h
  · rename_i l hl
    have hne : l ≠ [] := by
      rintro rfl
      unfold Maps.getList at hl
      split at hl
      · cases hl
      · exact hs.lists k (Except.ok.inj hl)
      · cases hl
    have hpos := List.length_pos_of_ne_nil hne
    have hlen : ¬(l.length:Int) < 1 := by omega
    simp only [hlen,if_false,Int.toNat_one] at h
    split at h
    · cases h
    · simp only [Except.ok.injEq,Prod.mk.injEq,Option.some.injEq] at h
      exact absurd h.1 (hcut l hne)

theorem popList_none {cut : Nat → List Bytes → List Bytes × List Bytes} {s s' : MemoryStore F}
    {now : Int} {k : Bytes} {n : Int} (h : popList cut s now k n=.ok (.ok (none,s'))) : s'=s := by
  unfold popList at h
  split at h
  · cases h
  · cases h
    rfl
  · dsimp only at h
    split_ifs at h <;> cases h

theorem sPop_one_nil {s s' : MemoryStore F} {w : World} {k : Bytes} (hs : s.NoEmpty)
    (h : s.sPop w k 1=.ok (.ok ([],s'))) : s'=s := by
  unfold sPop at h
  split at h
  · cases h
  · cases h
    rfl
  · rename_i st hst
    have hne : w.rangeOrder st.toList ≠ [] := by
      intro hnil
      have hempty : st=∅ := Std.ExtTreeSet.ext_mem fun x => by
        rw [← Std.ExtTreeSet.mem_toList,← World.mem_rangeOrder w,hnil]
        simp
      subst hempty
      unfold Maps.getSet at hst
      split at hst
      · cases hst
      · exact hs.sets k (Except.ok.inj hst)
      · cases hst
    have hpos := List.length_pos_of_ne_nil hne
    dsimp only at h
    split_ifs at h with hall hneg
    · simp only [Except.ok.injEq,Prod.mk.injEq] at h
      exact absurd h.1 hne
    · simp only [Except.ok.injEq,Prod.mk.injEq,Int.toNat_one] at h
      have hlen := congrArg List.length h.1
      rw [List.length_take,(w.shuffle_perm _).length_eq,List.length_nil] at hlen
      omega

theorem withScores_eq_nil [Float64 F] {ms : List (ZMember F)} (h : withScores true ms=[]) :
    ms=[] := by
  cases ms with
  | nil => rfl
  | cons m ms => simp [withScores] at h

theorem putZSet_self {s : MemoryStore F} {k : Bytes} {z : Map F} (h : s.zsets[k]?=some z) :
    (s.putZSet k z).toMaps=s.toMaps := by
  have hz : s.zsets.insert k z=s.zsets := by
    apply Std.ExtTreeMap.ext_getElem?
    intro k'
    rw [Map.getElem?_insert]
    split
    · rename_i hk
      rw [← hk,h]
    · rfl
  unfold putZSet
  rw [hz]

theorem popZSet_nil [Float64 F] {order : List (ZMember F) → List (ZMember F)}
    {s s' : MemoryStore F} {now : Int} {k : Bytes} {n : Int}
    (h : popZSet order s now k n=.ok (.ok ([],s'))) : s'.toMaps=s.toMaps := by
  unfold popZSet at h
  split at h
  · cases h
  · cases h
    rfl
  · rename_i z hz
    split at h
    · cases h
      rfl
    · rename_i hne
      have hkey : s.zsets[k]?=some z := by
        unfold Maps.getZSet at hz
        split at hz
        · cases hz
        · exact Except.ok.inj hz
        · cases hz
      dsimp only at h
      generalize (if ((order (sortedMembers z)).length:Int) < n
        then ((order (sortedMembers z)).length:Int) else n)=count at h
      split at h
      · cases h
      · simp only [Except.ok.injEq,Prod.mk.injEq] at h
        obtain ⟨hnil,rfl⟩ := h
        rw [hnil,List.foldl_nil,bumpVersion_toMaps,keepZSet,if_neg hne,putZSet_self hkey]

end MemoryStore

theorem ite_write_iff {α : Type} (p : Prop) [Decidable p] {a : α} :
    (if p then [a] else [])=[] ↔ ¬p := by
  split <;> simp_all

theorem ite_skip_iff {α : Type} (p : Prop) [Decidable p] {a : α} :
    (if p then [] else [a])=[] ↔ p := by
  split <;> simp_all

section
variable {w : World} {args : List Bytes} {s s' : MemoryStore F} {resp : Response}

theorem handleSetNX_unlogged (hrun : handleSetNX w args s=(resp,s')) (h : resp.int ≠ 1) :
    s'=s := by
  unfold handleSetNX at hrun
  split at hrun
  · split at hrun <;> cases hrun
    · rfl
    · exact absurd rfl h
  · cases hrun
    rfl

theorem handleGetDel_unlogged (hrun : handleGetDel w args s=(resp,s')) (h : resp.isNullBulk) :
    s'=s := by
  unfold handleGetDel at hrun
  split at hrun
  · split at hrun <;> cases hrun
    · rfl
    · simp at h
  · cases hrun
    rfl

theorem handleExpireIn_unlogged {name : String} {unit : Int}
    (hrun : handleExpireIn name unit w args s=(resp,s')) (h : resp.int ≠ 1) : s'=s := by
  unfold handleExpireIn at hrun
  split at hrun
  · split at hrun
    · cases hrun
      rfl
    · simp only [Prod.mk.injEq] at hrun
      obtain ⟨rfl,rfl⟩ := hrun
      exact MemoryStore.expire_false (by simpa using h)
  · cases hrun
    rfl

theorem handleExpireOn_unlogged {name : String} {instant : Int → Int}
    (hrun : handleExpireOn name instant w args s=(resp,s')) (h : resp.int ≠ 1) : s'=s := by
  unfold handleExpireOn at hrun
  split at hrun
  · split at hrun
    · cases hrun
      rfl
    · dsimp only at hrun
      split at hrun <;> cases hrun
      · exact absurd rfl h
      · exact MemoryStore.expire_false (by simpa using h)
  · cases hrun
    rfl

theorem commit_unlogged {α : Type} {f : α → Response} {r : Except StoreError (α × MemoryStore F)}
    (P : Response → Prop) (hrun : commit s f r=(resp,s')) (h : P resp)
    (hr : ∀ a, r=.ok (a,s') → P (f a) → s'.toMaps=s.toMaps) : s'.toMaps=s.toMaps := by
  cases r with
  | error e =>
    cases hrun
    rfl
  | ok p =>
    cases hrun
    exact hr p.1 rfl h

theorem handleLRem_unlogged (hrun : handleLRem w args s=(resp,s')) (h : ¬0 < resp.int) :
    s'.toMaps=s.toMaps := by
  unfold handleLRem at hrun
  split at hrun
  · split at hrun
    · cases hrun
      rfl
    · refine commit_unlogged (fun r => ¬0 < r.int) hrun h fun n hr hn => ?_
      obtain rfl : n=0 := by simpa using hn
      rw [MemoryStore.lRem_zero hr]
  · cases hrun
    rfl

theorem lMove_unlogged {now : Int} {src dst : Bytes} {a b : Bool}
    (hrun : commit s optReply (s.lMove now src dst a b)=(resp,s')) (h : resp.isNullBulk) :
    s'.toMaps=s.toMaps := by
  refine commit_unlogged (fun r => r.isNullBulk) hrun h fun v hr hv => ?_
  obtain rfl : v=none := by simpa using hv
  rw [MemoryStore.lMove_none hr]

theorem handleLMove_unlogged (hrun : handleLMove w args s=(resp,s')) (h : resp.isNullBulk) :
    s'.toMaps=s.toMaps := by
  unfold handleLMove at hrun
  split at hrun
  · split at hrun
    · exact lMove_unlogged hrun h
    · cases hrun
      rfl
  · cases hrun
    rfl

theorem handleRPopLPush_unlogged (hrun : handleRPopLPush w args s=(resp,s'))
    (h : resp.isNullBulk) : s'.toMaps=s.toMaps := by
  unfold handleRPopLPush at hrun
  split at hrun
  · exact lMove_unlogged hrun h
  · cases hrun
    rfl

theorem handlePop_unlogged {name : String} {cut : Nat → List Bytes → List Bytes × List Bytes}
    (hs : s.NoEmpty) (hcut : ∀ l, l ≠ [] → (cut 1 l).1 ≠ [])
    (hrun : handlePop name (MemoryStore.popList cut) w args s=.ok (resp,s'))
    (h : resp.isNullBulk ∨ resp.isNullArray) : s'.toMaps=s.toMaps := by
  have hcommit : ∀ (withCount : Bool) {key : Bytes} {n : Int} {r},
      MemoryStore.popList cut s w.now key n=.ok r → (withCount=false → n=1) →
      commit s (popReply withCount) r=(resp,s') → s'.toMaps=s.toMaps := by
    intro withCount key n r hpop hn hc
    refine commit_unlogged (fun r => r.isNullBulk ∨ r.isNullArray) hc h fun v hr hv => ?_
    subst hr
    cases v with
    | none => rw [MemoryStore.popList_none hpop]
    | some vals =>
      cases withCount with
      | true => rcases hv with hv | hv <;> cases hv
      | false =>
        obtain rfl := hn rfl
        obtain rfl : vals=[] := by simpa [popReply] using hv
        rw [MemoryStore.popList_one_nil hs hcut hpop]
  obtain ⟨r,_,heq⟩ | ⟨key,count,withCount,hargs,heq⟩ :=
    handlePop_cases name (MemoryStore.popList cut) w args
  · cases (heq s).symm.trans hrun
    rfl
  · rw [heq] at hrun
    obtain ⟨r,hpop,hc⟩ := Go.map_eq_ok.mp hrun
    refine hcommit withCount hpop (fun hone => ?_) hc
    subst hone
    exact hargs.eq_one

theorem handleSPop_unlogged (hs : s.NoEmpty) (hrun : handleSPop w args s=.ok (resp,s'))
    (h : resp.isNullBulk) : s'.toMaps=s.toMaps := by
  obtain ⟨r,_,heq⟩ | ⟨key,count,withCount,hargs,heq⟩ := handleSPop_cases (F := F) w args
  · cases (heq s).symm.trans hrun
    rfl
  · rw [heq] at hrun
    obtain ⟨r,hpop,hc⟩ := Go.map_eq_ok.mp hrun
    refine commit_unlogged (fun r => r.isNullBulk) hc h fun ms hr hms => ?_
    subst hr
    cases withCount with
    | true => simp [membersReply] at hms
    | false =>
      obtain rfl := hargs.eq_one
      obtain rfl : ms=[] := by simpa [membersReply] using hms
      rw [MemoryStore.sPop_one_nil hs hpop]

theorem handleZPop_unlogged [Float64 F] {name : String}
    {order : List (ZMember F) → List (ZMember F)}
    (hrun : handleZPop name (MemoryStore.popZSet order) w args s=.ok (resp,s'))
    (h : resp.elems=[]) : s'.toMaps=s.toMaps := by
  have hcommit : ∀ {key : Bytes} {n : Int} {r},
      MemoryStore.popZSet order s w.now key n=.ok r →
      commit s (fun ms => .bulks (withScores true ms)) r=(resp,s') → s'.toMaps=s.toMaps := by
    intro key n r hpop hc
    refine commit_unlogged (fun r => r.elems=[]) hc h fun ms hr hms => ?_
    subst hr
    obtain rfl := MemoryStore.withScores_eq_nil (by simpa using hms)
    exact MemoryStore.popZSet_nil hpop
  obtain ⟨r,_,heq⟩ | ⟨key,count,withCount,_,heq⟩ :=
    handleZPop_cases name (MemoryStore.popZSet order) w args
  · cases (heq s).symm.trans hrun
    rfl
  · rw [heq] at hrun
    obtain ⟨r,hpop,hc⟩ := Go.map_eq_ok.mp hrun
    exact hcommit hpop hc

theorem handleSetTTL_logged {name : String} {unit : Int} {millis : Int → Int}
    (hrun : handleSetTTL name unit w args s=(resp,s')) (he : resp.isError=false) :
    setTTLRecords millis args ≠ [] := by
  unfold handleSetTTL at hrun
  unfold setTTLRecords
  split at hrun
  · simp
  · cases hrun
    cases he

theorem int_ne_one_of_expireRecord {millis : Int → Int}
    (hargs : ∃ name key n v, args=[name,key,n] ∧ parseInt n=some v)
    (h : expireRecord millis args resp=[]) : resp.int ≠ 1 := by
  obtain ⟨name,key,n,v,rfl,hn⟩ := hargs
  intro h1
  simp [expireRecord,h1,hn] at h

theorem handleExpireIn_args {name : String} {unit : Int}
    (hrun : handleExpireIn name unit w args s=(resp,s')) (he : resp.isError=false) :
    ∃ name key n v, args=[name,key,n] ∧ parseInt n=some v := by
  unfold handleExpireIn at hrun
  split at hrun
  · rename_i name' key n
    split at hrun
    · cases hrun
      cases he
    · rename_i v hv
      exact ⟨name',key,n,v,rfl,(Option.filter_eq_some_iff.mp hv).1⟩
  · cases hrun
    cases he

theorem handleExpireOn_args {name : String} {instant : Int → Int}
    (hrun : handleExpireOn name instant w args s=(resp,s')) (he : resp.isError=false) :
    ∃ name key n v, args=[name,key,n] ∧ parseInt n=some v := by
  unfold handleExpireOn at hrun
  split at hrun
  · rename_i name' key n
    split at hrun
    · cases hrun
      cases he
    · exact ⟨name',key,n,_,rfl,‹_›⟩
  · cases hrun
    cases he

theorem handleHIncrBy_length (hrun : handleHIncrBy w args s=(resp,s'))
    (he : resp.isError=false) : args.length=4 := by
  unfold handleHIncrBy at hrun
  split at hrun
  · rfl
  · cases hrun
    cases he

theorem handleHIncrByFloat_length [Float64 F] (hrun : handleHIncrByFloat w args s=(resp,s'))
    (he : resp.isError=false) : args.length=4 := by
  unfold handleHIncrByFloat at hrun
  split at hrun
  · rfl
  · cases hrun
    cases he

theorem handleRename_unlogged (hrun : handleRename w args s=.ok (resp,s'))
    (he : resp.isError=false) (h : renameRecords w args s'.toMaps=[]) : s'.toMaps=s.toMaps := by
  unfold handleRename at hrun
  split at hrun
  · split at hrun
    · cases hrun
      rfl
    · rename_i hne
      simp [renameRecords,hne] at h
  · cases hrun
    cases he

section
variable [Float64 F]

theorem execute_unlogged {c : WriteCommand} (hc : c ≠ .getex) (hs : s.NoEmpty)
    (hrun : execute w c args s=.ok (resp,s')) (he : resp.isError=false)
    (h : appendToAOF w c args resp s'.toMaps=[]) : s'.toMaps=s.toMaps := by
  cases c
  case getex => exact absurd rfl hc
  case lpop =>
    refine handlePop_unlogged hs (fun l hl => ?_) hrun ((ite_skip_iff _).mp h)
    simpa [MemoryStore.cutHead] using hl
  case rpop =>
    refine handlePop_unlogged hs (fun l hl => ?_) hrun ((ite_skip_iff _).mp h)
    have := List.length_pos_of_ne_nil hl
    simp only [MemoryStore.cutTail,ne_eq,List.drop_eq_nil_iff]
    omega
  case spop => exact handleSPop_unlogged hs hrun ((ite_skip_iff _).mp h)
  case zpopmin => exact handleZPop_unlogged hrun ((ite_skip_iff _).mp h)
  case zpopmax => exact handleZPop_unlogged hrun ((ite_skip_iff _).mp h)
  case rename => exact handleRename_unlogged hrun he h
  case setnx =>
    rw [handleSetNX_unlogged (Except.ok.inj hrun) ((ite_write_iff _).mp h)]
  case getdel =>
    rw [handleGetDel_unlogged (Except.ok.inj hrun) ((ite_skip_iff _).mp h)]
  case setex => exact absurd h (handleSetTTL_logged (Except.ok.inj hrun) he)
  case psetex => exact absurd h (handleSetTTL_logged (Except.ok.inj hrun) he)
  case expire =>
    have hargs := handleExpireIn_args (Except.ok.inj hrun) he
    rw [handleExpireIn_unlogged (Except.ok.inj hrun) (int_ne_one_of_expireRecord hargs h)]
  case pexpire =>
    have hargs := handleExpireIn_args (Except.ok.inj hrun) he
    rw [handleExpireIn_unlogged (Except.ok.inj hrun) (int_ne_one_of_expireRecord hargs h)]
  case expireat =>
    have hargs := handleExpireOn_args (Except.ok.inj hrun) he
    rw [handleExpireOn_unlogged (Except.ok.inj hrun) (int_ne_one_of_expireRecord hargs h)]
  case pexpireat =>
    obtain ⟨_,_,_,_,rfl,_⟩ := handleExpireOn_args (Except.ok.inj hrun) he
    rw [handleExpireOn_unlogged (Except.ok.inj hrun) fun h1 => (ite_write_iff _).mp h ⟨h1,rfl⟩]
  case hincrby =>
    exact absurd (handleHIncrBy_length (Except.ok.inj hrun) he) ((ite_write_iff _).mp h)
  case hincrbyfloat =>
    exact absurd (handleHIncrByFloat_length (Except.ok.inj hrun) he) ((ite_write_iff _).mp h)
  case lrem => exact handleLRem_unlogged (Except.ok.inj hrun) ((ite_write_iff _).mp h)
  case lmove => exact handleLMove_unlogged (Except.ok.inj hrun) ((ite_skip_iff _).mp h)
  case rpoplpush => exact handleRPopLPush_unlogged (Except.ok.inj hrun) ((ite_skip_iff _).mp h)
  all_goals cases h

end
end

/-- The deadline of a live string after `GETEX` with these options. -/
def GetExOpts.deadline (now : Int) (o : GetExOpts) (old : Option Int) : Option Int :=
  if o.persist then none else if o.hasTTL then some (now+o.ttl) else old

/-- The request is a `GETEX` whose options move the deadline of a live string. -/
def MovesDeadline (w : World) (args : List Bytes) (m : Maps F) : Prop :=
  ∃ name key rest o e, args=name::key::rest ∧ lookup (toUpper name)=some (.write .getex) ∧
    getExOptions w.now rest {}=.ok o ∧ m.liveString w.now key=some e ∧
    o.deadline w.now e.expiresAt ≠ e.expiresAt

theorem putString_eq_self_iff {s : MemoryStore F} {k : Bytes} {e e' : StrEntry}
    (h : s.strings[k]?=some e) : (s.putString k e').toMaps=s.toMaps ↔ e'=e := by
  constructor
  · intro heq
    have hget := congrArg (fun m : Maps F => m.strings[k]?) heq
    simp only [MemoryStore.putString,Map.getElem?_insert,if_pos,h] at hget
    exact Option.some.inj hget
  · rintro rfl
    have hins : s.strings.insert k e'=s.strings := by
      apply Std.ExtTreeMap.ext_getElem?
      intro k'
      rw [Map.getElem?_insert]
      split
      · rename_i hk
        rw [← hk,h]
      · rfl
    unfold MemoryStore.putString
    rw [hins]

theorem getEx_toMaps_iff {s : MemoryStore F} {now : Int} {k : Bytes} {e : StrEntry}
    (o : GetExOpts) (h : s.liveString now k=some e) :
    (s.getEx now k o.ttl o.persist o.hasTTL).2.toMaps=s.toMaps ↔
      o.deadline now e.expiresAt=e.expiresAt := by
  have hget : s.strings[k]?=some e := (Option.filter_eq_some_iff.mp h).1
  obtain ⟨v,old⟩ := e
  unfold MemoryStore.getEx GetExOpts.deadline
  simp only [h]
  split_ifs
  · rw [putString_eq_self_iff hget]
    simp
  · rw [putString_eq_self_iff hget]
    simp
  · simp

theorem handleGetEX_toMaps_iff (w : World) (name : Bytes) (rest : List Bytes)
    (s : MemoryStore F) (hname : lookup (toUpper name)=some (.write .getex)) :
    (handleGetEX w (name::rest) s).2.toMaps=s.toMaps ↔
      ¬MovesDeadline w (name::rest) s.toMaps := by
  constructor
  · rintro heq ⟨_,key,opts,o,e,hargs,_,ho,he,hne⟩
    cases hargs
    simp only [handleGetEX,ho] at heq
    exact hne ((getEx_toMaps_iff o he).mp heq)
  · intro hmove
    unfold handleGetEX
    split
    · rename_i key opts hargs
      cases hargs
      split
      · rfl
      · rename_i o ho
        cases he : s.liveString w.now key with
        | none => simp [MemoryStore.getEx,he]
        | some e =>
          refine (getEx_toMaps_iff o he).mpr ?_
          by_contra hne
          exact hmove ⟨name,key,opts,o,e,rfl,hname,ho,he,hne⟩
    · rfl

section
variable [Float64 F]

/-- A request that is not logged leaves the maps as they were, unless it is a `GETEX` that
moves a deadline. -/
theorem unlogged_unchanged_iff {w : World} {args : List Bytes} {s : MemoryStore F}
    {d : Dispatched F} (hs : Reachable s) (h : dispatch w args s=.ok d) :
    (d.records=[] → d.store.toMaps=s.toMaps) ↔ ¬MovesDeadline w args s.toMaps := by
  rcases dispatch_cases h with ⟨hstore,_,hread⟩ | ⟨name,rest,c,rfl,hc,hrun,hrec⟩
  · refine ⟨fun _ => ?_,fun _ _ => by rw [hstore]⟩
    rintro ⟨name,key,rest,_,_,hargs,hname,_⟩
    exact hread name (key::rest) _ hargs hname
  · by_cases hget : c=.getex
    · subst hget
      have hstore : d.store=(handleGetEX w (name::rest) s).2 :=
        (congrArg Prod.snd (Except.ok.inj hrun)).symm
      have hnil : d.records=[] := by
        rw [hrec]
        split <;> rfl
      rw [hstore,← handleGetEX_toMaps_iff w name rest s hc]
      exact ⟨fun hu => hu hnil,fun hu _ => hu⟩
    · refine ⟨fun _ => ?_,fun _ hnil => ?_⟩
      · rintro ⟨_,_,_,_,_,hargs,hname,_⟩
        cases hargs
        rw [hc] at hname
        cases hname
        exact hget rfl
      · rw [hrec] at hnil
        split at hnil
        · rename_i herr
          have hfail : d.store=s := (execute_sound hrun).failed herr
          rw [hfail]
        · rename_i hok
          exact execute_unlogged hget hs.noEmpty hrun (by simpa using hok) hnil

end

/-- `STRLEN k` after `SET k v`. -/
theorem unlogged_unchanged_strlen :
    ∃ d : Dispatched Int, dispatch (.plain 0) [utf8 "STRLEN",[107]] (MemoryStore.new.set [107] [118])=.ok d ∧
      ((d.records=[] → d.store.toMaps=(MemoryStore.new.set [107] [118]).toMaps) ↔
        ¬MovesDeadline (.plain 0) [utf8 "STRLEN",[107]] (MemoryStore.new.set [107] [118] : MemoryStore Int).toMaps) :=
  ⟨_,rfl,unlogged_unchanged_iff
    (.dispatch (.plain 0) (setRecord [107] [118]) .new rfl) rfl⟩

/-- `GETEX k EX 10` after `SET k v`: the string has a deadline now and nothing is logged. -/
theorem getex_unlogged :
    ∃ s d : Dispatched Int, dispatch (.plain 0) (setRecord [107] [118]) .new=.ok s ∧
      dispatch (.plain 0) [utf8 "GETEX",[107],utf8 "EX",utf8 "10"] s.store=.ok d ∧
      d.records=[] ∧ s.store.strings[([107] : Bytes)]?=some ⟨[118],none⟩ ∧
      d.store.strings[([107] : Bytes)]?=some ⟨[118],some (10*second)⟩ :=
  ⟨_,_,rfl,rfl,rfl,by decide,by decide⟩

end GoRedis
