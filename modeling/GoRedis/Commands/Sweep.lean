import GoRedis.Commands.Looks
import GoRedis.Storage.Versions
/-!
# The sweep is invisible to readers

What the sweep deletes has expired, and no reader saw it before. Only `TTL` and `PTTL` are left
out: they look at a string whose deadline has passed and report that there is no key, even when
a collection of that name is live.
-/
namespace GoRedis
variable {F : Type}

namespace MemoryStore
variable (s : MemoryStore F) (now : Int)

theorem keyExpiredNonStr_deleteExpired (k : Bytes) :
    (s.deleteExpired now).keyExpiredNonStr now k=false := by
  have hexpiry : (s.deleteExpired now).keyExpiry[k]?=
      if expired now s.keyExpiry[k]? then none else s.keyExpiry[k]? :=
    congrArg (fun r => r.expiry) (slot_deleteExpired s now k)
  rw [Maps.keyExpiredNonStr,hexpiry]
  cases hexp : expired now s.keyExpiry[k]? with
  | true => rfl
  | false => exact hexp

theorem live_deleteExpired {later : Int} (hle : now ≤ later) (k : Bytes) {V : Type}
    (entry : Option V) :
    (if (s.deleteExpired now).keyExpiredNonStr later k then none
      else if expired now s.keyExpiry[k]? then none else entry)=
      if s.keyExpiredNonStr later k then none else entry := by
  have hexpiry : (s.deleteExpired now).keyExpiry[k]?=
      if expired now s.keyExpiry[k]? then none else s.keyExpiry[k]? :=
    congrArg (fun r => r.expiry) (slot_deleteExpired s now k)
  rw [Maps.keyExpiredNonStr,Maps.keyExpiredNonStr,hexpiry]
  cases hexp : expired now s.keyExpiry[k]? with
  | true => simp [expired_mono hle hexp]
  | false => simp

theorem looks_deleteExpired {later : Int} (hle : now ≤ later) (k : Bytes) :
    (s.deleteExpired now).toMaps.Looks s.toMaps later k := by
  have hslot := slot_deleteExpired s now k
  constructor
  · have hstring : (s.deleteExpired now).strings[k]?=
        s.strings[k]?.filter fun e => !expired now e.expiresAt := congrArg (fun r => r.string) hslot
    rw [Maps.liveString,hstring,Option.filter_filter,Maps.liveString]
    congr 1
    funext e
    cases hexp : expired now e.expiresAt with
    | true => simp [expired_mono hle hexp]
    | false => simp
  · have hhash : (s.deleteExpired now).hashes[k]?=
        if expired now s.keyExpiry[k]? then none else s.hashes[k]? := congrArg (fun r => r.hash) hslot
    rw [Maps.liveHash,hhash]
    exact live_deleteExpired s now hle k _
  · have hlist : (s.deleteExpired now).lists[k]?=
        if expired now s.keyExpiry[k]? then none else s.lists[k]? := congrArg (fun r => r.list) hslot
    rw [Maps.live,hlist]
    exact live_deleteExpired s now hle k _
  · have hset : (s.deleteExpired now).sets[k]?=
        if expired now s.keyExpiry[k]? then none else s.sets[k]? := congrArg (fun r => r.set) hslot
    rw [Maps.live,hset]
    exact live_deleteExpired s now hle k _
  · have hzset : (s.deleteExpired now).zsets[k]?=
        if expired now s.keyExpiry[k]? then none else s.zsets[k]? := congrArg (fun r => r.zset) hslot
    rw [Maps.live,hzset]
    exact live_deleteExpired s now hle k _

theorem keys_deleteExpired {V : Type} (m : Map V) :
    ((m.filter fun k _ => !(s.keyExpiry.filter fun _ t => t < now).contains k).keys.filter
      fun k => !(s.deleteExpired now).keyExpiredNonStr now k)=
      m.keys.filter fun k => !s.keyExpiredNonStr now k := by
  simp only [Std.ExtTreeMap.keys_filter_key,contains_stale,keyExpiredNonStr_deleteExpired,
    Bool.not_false,List.filter_true]

theorem collectionKeys_deleteExpired :
    (s.deleteExpired now).collectionKeys now=s.collectionKeys now := by
  simp only [Maps.collectionKeys,List.filter_append]
  exact congrArg₂ _ (congrArg₂ _ (congrArg₂ _ (keys_deleteExpired s now s.hashes)
    (keys_deleteExpired s now s.lists)) (keys_deleteExpired s now s.sets))
    (keys_deleteExpired s now s.zsets)

theorem strings_deleteExpired (test : StrEntry → Bool)
    (h : ∀ e, test e=true → expired now e.expiresAt=false) :
    ((s.deleteExpired now).strings.filter fun _ e => test e)=s.strings.filter fun _ e => test e := by
  apply Std.ExtTreeMap.ext_getElem?
  intro k
  have hstring : (s.deleteExpired now).strings[k]?=
      s.strings[k]?.filter fun e => !expired now e.expiresAt :=
    congrArg (fun r => r.string) (slot_deleteExpired s now k)
  rw [Std.ExtTreeMap.getElem?_filter',Std.ExtTreeMap.getElem?_filter',hstring]
  cases s.strings[k]? with
  | none => rfl
  | some e =>
    cases htest : test e with
    | false => cases he : expired now e.expiresAt <;> simp [Option.filter,htest,he]
    | true => simp [Option.filter,htest,h e htest]

theorem countedStrings_deleteExpired :
    (s.deleteExpired now).countedStrings now=s.countedStrings now := by
  refine congrArg Std.ExtTreeMap.keys (strings_deleteExpired s now _ ?_)
  intro e he
  cases hd : e.expiresAt with
  | none => rfl
  | some t =>
    simp only [hd,decide_eq_true_eq] at he
    simp only [expired,decide_eq_false_iff_not]
    omega

theorem len_deleteExpired : (s.deleteExpired now).len now=s.len now := by
  rw [Maps.len,countedStrings_deleteExpired,collectionKeys_deleteExpired,Maps.len]

theorem allKeys_deleteExpired : (s.deleteExpired now).allKeys now=s.allKeys now := by
  rw [Maps.allKeys,countedStrings_deleteExpired,collectionKeys_deleteExpired,Maps.allKeys]

theorem keysMatching_deleteExpired (w : World) (pattern : Bytes) :
    (s.deleteExpired w.now).keys w pattern=s.keys w pattern := by
  have hstrings := strings_deleteExpired s w.now (fun e => !expired w.now e.expiresAt) (by simp)
  rw [Maps.keys,hstrings,collectionKeys_deleteExpired,Maps.keys]

end MemoryStore

section
variable [Float64 F]

/-- Every reading command but the two that report deadlines answers the same before and after a
sweep. -/
theorem answer_deleteExpired {c : ReadCommand} (hc : c ∉ [.ttl,.pttl]) (w : World)
    (args : List Bytes) (s : MemoryStore F) :
    answer w c args (s.deleteExpired w.now).toMaps=answer w c args s.toMaps := by
  cases c
  case keys =>
    simp only [answer,handleKeys,MemoryStore.keysMatching_deleteExpired]
  case scan =>
    simp only [answer,handleScan,Maps.scan,MemoryStore.allKeys_deleteExpired]
  case info =>
    simp only [answer,handleInfo,infoKeyspace,MemoryStore.len_deleteExpired]
  case dbsize =>
    simp only [answer,handleDBSize,MemoryStore.len_deleteExpired]
  case ttl | pttl => exact absurd (by decide) hc
  all_goals
    exact answer_looks (by decide)
      (fun k _ => MemoryStore.looks_deleteExpired s w.now le_rfl k)
      fun k _ => MemoryStore.looks_deleteExpired s w.now w.now_le_later k

/-- The sweep is invisible: every reading command gets the same reply before and after it, and
every key has the value and the deadline it had. -/
theorem sweep_invisible (w : World) (args : List Bytes) (s : MemoryStore F) {c : ReadCommand}
    (hcmd : commandOf args=some (.read c)) (hc : c ∉ [.ttl,.pttl]) :
    (dispatch w args (s.deleteExpired w.now)).map Dispatched.resp=
        (dispatch w args s).map Dispatched.resp ∧
      ∀ k, (s.deleteExpired w.now).view w.now k=s.view w.now k := by
  constructor
  · rw [dispatch_read hcmd,dispatch_read hcmd,answer_deleteExpired hc]
    cases answer w c args s.toMaps <;> rfl
  · intro k
    have hview := Slot.view_sweep (s.slot k) w.now
    rw [← MemoryStore.slot_deleteExpired] at hview
    exact hview

end

/-- A string whose deadline has passed, read before and after the sweep. -/
theorem sweep_invisible_stale :
    (dispatch (World.plain 5) [utf8 "GET",utf8 "k"]
        (((MemoryStore.new : MemoryStore Int).setWithTTL 0 (utf8 "k") [] 3).deleteExpired 5)).map
          Dispatched.resp=
        (dispatch (World.plain 5) [utf8 "GET",utf8 "k"]
          ((MemoryStore.new : MemoryStore Int).setWithTTL 0 (utf8 "k") [] 3)).map Dispatched.resp ∧
      ∀ k, (((MemoryStore.new : MemoryStore Int).setWithTTL 0 (utf8 "k") [] 3).deleteExpired 5).view
        5 k=((MemoryStore.new : MemoryStore Int).setWithTTL 0 (utf8 "k") [] 3).view 5 k :=
  sweep_invisible (World.plain 5) [utf8 "GET",utf8 "k"] _ (c := .get) rfl (by decide)

end GoRedis
