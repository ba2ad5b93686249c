import GoRedis.Lib.Journal
import GoRedis.Persistence.Reachable
import GoRedis.Storage.Changes
/-!
# Collections with nothing in them

Every operation that takes the last element of a collection removes the key, and every
handler that creates one has something to put into it. `ZADD` with `XX` has not: the store
creates the sorted set first and then inserts nothing.
-/
namespace GoRedis
variable {F : Type}

/-- No key holds an empty collection. -/
structure Maps.Filled (m : Maps F) : Prop extends m.NoEmpty where
  hashes : ∀ k : Bytes, m.hashes[k]? ≠ some ∅
  zsets : ∀ k : Bytes, m.zsets[k]? ≠ some ∅

theorem Maps.filled_empty : (empty : Maps F).Filled :=
  ⟨noEmpty_empty,fun k => by simp [empty],fun k => by simp [empty]⟩

namespace Slot

/-- Neither an empty hash nor an empty sorted set. -/
def Filled (r : Slot F) : Prop := r.hash ≠ some ∅ ∧ r.zset ≠ some ∅

variable {now : Int} {fills : Prop} {r r' : Slot F}

theorem Edit.filled (h : Edit now fills r r') (hf : fills) (hr : r.Filled) : r'.Filled := by
  cases h with
  | store v hv =>
    have := hv hf
    cases v <;> simp_all [Filled,Value.into,Value.Filled,Row.absent]
  | put v _ hv =>
    have := hv hf
    cases v <;> simp_all [Filled,Value.into,Value.Filled]
  | putHash f hv => exact ⟨fun he => hv hf (Option.some.inj he),hr.2⟩
  | drop t => cases t <;> simp_all [Filled,Row.drop]
  | _ => exact ⟨by simp [Row.absent],by simp [Row.absent]⟩

theorem Quiet.filled (h : Quiet now r r') (hr : r.Filled) : r'.Filled := by
  cases h with
  | remove => exact ⟨by simp [Row.absent],by simp [Row.absent]⟩
  | _ => exact hr

end Slot

namespace MemoryStore
variable {s s' : MemoryStore F}

theorem filled_iff_slot (hs : s.NoEmpty) : s.Filled ↔ ∀ k, (s.slot k).Filled :=
  ⟨fun h k => ⟨h.hashes k,h.zsets k⟩,fun h => ⟨hs,fun k => (h k).1,fun k => (h k).2⟩⟩

theorem Change.filled {now : Int} {op : StoreOp F} (h : Change now op s s') (hf : op.Fills s)
    (hs : ∀ k, (s.slot k).Filled) : ∀ k, (s'.slot k).Filled := by
  apply h.invariant (fun _ _ he hr => he.filled hf hr) _ (fun _ _ hq => hq.filled) _ hs
  · intro k t _
    have hk := hs k
    constructor
    · cases t <;> simp_all [Slot.Filled,Slot.left,Row.drop]
    · intro r
      cases t <;> simp_all [Slot.Filled,Slot.moved,Row.only]
  · intro r hr
    exact ⟨by simp [Slot.forgotten,Row.drop],hr.2⟩

theorem filled_deleteExpired (hs : s.Filled) (now : Int) : (s.deleteExpired now).Filled := by
  refine (filled_iff_slot (noEmpty_deleteExpired hs.toNoEmpty now)).mpr fun k => ?_
  have := (filled_iff_slot hs.toNoEmpty).mp hs k
  rw [slot_deleteExpired]
  simp only [Slot.Filled,Slot.sweep] at this ⊢
  split_ifs <;> simp_all

end MemoryStore

section Machine
variable [Float64 F] {w : World} {s s' : MemoryStore F}
open MemoryStore

theorem StoreOp.apply_filled {op : StoreOp F} (hp : op.Proper) (hf : op.Fills s) (hs : s.Filled)
    (h : op.apply w s=.ok s') : s'.Filled := by
  have hempty := StoreOp.apply_noEmpty hp hs.toNoEmpty h
  by_cases hsweep : op=.deleteExpired
  · subst hsweep
    cases h
    exact filled_deleteExpired hs w.now
  · by_cases hflush : op=.flush
    · subst hflush
      cases h
      exact Maps.filled_empty
    · exact (filled_iff_slot hempty).mpr
        ((StoreOp.apply_change hsweep hflush h).filled hf ((filled_iff_slot hs.toNoEmpty).mp hs))

omit [Float64 F] in
theorem StoreOp.Plain.fills {op : StoreOp F} (h : op.Plain) (s : MemoryStore F) : op.Fills s := by
  cases op with
  | hSet k fields => exact .inl h
  | zAdd k ms fl => exact h.elim
  | _ => trivial

theorem ActsBy.filled (h : ActsBy StoreOp.Plain w s s') (hs : s.Filled) : s'.Filled :=
  h.invariant (I := fun u => u.Filled)
    (fun _ hp u _ hu => StoreOp.apply_filled hp.proper (hp.fills u) hu) hs

/-- The request is an accepted `ZADD` with `XX` on a key that has no sorted set and is free to
get one. -/
def CreatesEmpty (w : World) (args : List Bytes) (s : MemoryStore F) : Prop :=
  ∃ name key rest, args=name::key::rest ∧ lookup (toUpper name)=some (.write .zadd) ∧
    zaddAccepts F rest ∧ (zaddFlags rest {}).1.xx=true ∧ key ∉ s.zsets ∧ s.typeOf w.now key=none

theorem handleZAdd_filled_iff (w : World) {name : Bytes} {rest : List Bytes}
    (hname : lookup (toUpper name)=some (.write .zadd)) (hs : s.Filled) :
    (handleZAdd w (name::rest) s).2.Filled ↔ ¬CreatesEmpty w (name::rest) s := by
  rcases handleZAdd_cases w (name::rest) s with ⟨_,key,rest',ms,hargs,hacc,_,hms,hstore⟩ | ⟨hsame,hno⟩
  · cases hargs
    rw [hstore]
    constructor
    · rintro hfill ⟨_,_,_,hargs,_,_,hxx,hz,htype⟩
      cases hargs
      -- the guard lets it through, and the new sorted set stays empty
      refine hfill.zsets key ?_
      have hnone : s.zsets[key]?=none := by
        rwa [Std.ExtTreeMap.mem_iff_isSome_getElem?,Option.not_isSome_iff_eq_none] at hz
      simp [zAdd,zsetGuard,htype,dropError,putZSet,bumpVersion,
        Std.ExtTreeMap.getD_eq_getD_getElem?,hnone,foldl_zAddMember_xx _ ms 0 hxx]
    · intro hno
      by_cases hfills : (StoreOp.zAdd key ms (zaddFlags rest' {}).1).Fills s
      · have happly : (StoreOp.zAdd key ms (zaddFlags rest' {}).1).apply w s=.ok _ := rfl
        have hproper : (StoreOp.zAdd key ms (zaddFlags rest' {}).1).Proper := trivial
        exact StoreOp.apply_filled hproper hfills hs happly
      · -- no sorted set and `XX`: the key must be of another type
        simp only [StoreOp.Fills,not_or,not_and,Bool.not_eq_false,not_not] at hfills
        have hz : key ∉ s.zsets := by
          intro hmem
          refine hs.zsets key ?_
          have := hfills.2
          rw [Std.ExtTreeMap.getD_eq_getD_getElem?] at this
          obtain ⟨z,hz⟩ := Option.isSome_iff_exists.mp
            (Std.ExtTreeMap.mem_iff_isSome_getElem?.mp hmem)
          rw [hz] at this ⊢
          exact congrArg some this
        have htype : s.typeOf w.now key ≠ none := fun htype =>
          hno ⟨name,key,rest',rfl,hname,hacc,hfills.1 hms,hz,htype⟩
        have hguard : s.zsetGuard w.now key=false := by
          have hne : s.typeOf w.now key ≠ some .zset := fun ht => hz (Maps.typeOf_holds ht)
          simp [zsetGuard,htype,hne]
        simpa [zAdd,hguard,dropError] using hs
  · rw [hsame]
    refine ⟨fun _ => ?_,fun _ => hs⟩
    rintro ⟨_,_,_,hargs,_,hacc,_⟩
    exact hno _ _ _ hargs hacc

/-- What the server does, from a store without empty collections. -/
def Event.CreatesEmpty (s : MemoryStore F) : Event → Prop
  | .request w args => GoRedis.CreatesEmpty w args s
  | .sweep _ => False

theorem dispatch_filled_iff {args : List Bytes} {d : Dispatched F} (h : dispatch w args s=.ok d)
    (hs : s.Filled) : d.store.Filled ↔ ¬CreatesEmpty w args s := by
  rcases dispatch_cases h with ⟨hsame,_,hno⟩ | ⟨name,rest,c,rfl,hname,hexec,_⟩
  · rw [hsame]
    refine ⟨fun _ => ?_,fun _ => hs⟩
    rintro ⟨name,_,_,hargs,hname,_⟩
    exact hno name _ _ hargs hname
  · by_cases hc : c=.zadd
    · subst hc
      have hstore : d.store=(handleZAdd w (name::rest) s).2 :=
        (congrArg Prod.snd (Except.ok.inj hexec)).symm
      rw [hstore]
      exact handleZAdd_filled_iff w hname hs
    · refine ⟨fun _ => ?_,fun _ => (execute_plain hc hexec).acts.filled hs⟩
      rintro ⟨_,_,_,hargs,hname',_⟩
      cases hargs
      rw [hname] at hname'
      exact hc (Command.write.inj (Option.some.inj hname'))

theorem serve_filled_iff (ev : Event) (s : MemoryStore F) (hs : s.Filled) :
    (∀ s' rs, serve ev s=.ok (s',rs) → s'.Filled) ↔ ¬ev.CreatesEmpty s := by
  cases ev with
  | sweep now =>
    refine ⟨fun _ => not_false,?_⟩
    rintro _ s' rs h
    cases h
    exact filled_deleteExpired hs now
  | request w args =>
    constructor
    · intro h hempty
      -- `ZADD` never panics
      obtain ⟨name,key,rest,rfl,hname,_⟩ := id hempty
      obtain ⟨d,hd⟩ : ∃ d, dispatch w (name::key::rest) s=.ok d := by
        simp only [dispatch,hname,execute]
        exact ⟨_,rfl⟩
      exact (dispatch_filled_iff hd hs).mp (h _ _ (serve_request.mpr ⟨_,hd,rfl,rfl⟩)) hempty
    · intro hno s' rs h
      obtain ⟨d,hd,rfl,_⟩ := serve_request.mp h
      exact (dispatch_filled_iff hd hs).mpr hno

/-- Every state that requests and sweeps lead to from an empty store is free of empty
collections exactly when no request creates one. -/
theorem filled_run_iff (evs : List Event) :
    (∀ pre (s : MemoryStore F) log, pre <+: evs → Journal.run serve pre .new=.ok (s,log) →
      s.Filled) ↔
      Journal.Along serve (fun ev (s : MemoryStore F) => ¬ev.CreatesEmpty s) evs .new := by
  have hall : Journal.Along serve (fun _ (_ : MemoryStore F) => True) evs .new :=
    Journal.along_of_forall evs (fun _ _ => trivial) _
  have := Journal.pasts_iff_along (I := fun _ s => s.Filled)
    (fun _ ev (s : MemoryStore F) _ hs => serve_filled_iff ev s hs) evs [] _ hall
    Maps.filled_empty
  exact this

end Machine

/-- `ZADD k XX 1 m` on an empty store: `EXISTS k` finds a key with nothing in it. -/
theorem zadd_xx_creates_empty :
    ∃ s log, Journal.run (serve (F := Int))
        [.request (.plain 0) [utf8 "ZADD",[107],utf8 "XX",utf8 "1",[109]]] .new=.ok (s,log) ∧
      s.zsets[([107] : Bytes)]?=some ∅ ∧ s.exists_ 0 [[107]]=1 :=
  ⟨_,_,rfl,by decide,by decide⟩

end GoRedis
