import GoRedis.Commands.Acts
import GoRedis.Persistence.Reachable
import GoRedis.Storage.Versions
/-!
# Writing to a key that has expired

A command that writes one key is compared on a store whose key has expired, but was not swept,
and on the same store with the key removed. The two differ where the write lets something of the
old key live on: the deadline beside a collection, or the deadline of a string under `KEEPTTL`.
-/
namespace GoRedis

namespace Row
variable {F : Type} {r : Row F} {now : Int}

theorem stale_cases (h : r.typeOf now=none) : r.NoString now ∧
    (expired now r.expiry=true ∨ r.hash=none ∧ r.list=none ∧ r.set=none ∧ r.zset=none) := by
  refine ⟨noString_of_typeOf (by rw [h]; decide),?_⟩
  unfold typeOf at h
  split_ifs at h <;> simp_all

theorem typeOf_cleared (h : r.typeOf now=none) :
    ({ r with string := none } : Row F).typeOf now=none := by
  rcases (stale_cases h).2 with hexp | ⟨hh,hl,hs,hz⟩
  · simp [typeOf,hexp]
  · simp [typeOf,hh,hl,hs,hz]

/-- A collection put beside what is left of a key is seen with the deadline that was left, or
not at all when that has passed. -/
theorem view_into (h : r.typeOf now=none) {v : Value F} (hv : ∀ b, v ≠ .string b) :
    (v.into r).view now=if expired now r.expiry then none else some (v,r.expiry) := by
  obtain ⟨hno,hrest⟩ := stale_cases h
  have hstring : (v.into r).string=r.string := by cases v <;> rfl
  have hexpiry : (v.into r).expiry=r.expiry := by cases v <;> rfl
  have hno' : (v.into r).NoString now := fun e he => hno e (hstring ▸ he)
  rw [view_of_noString hno',hexpiry]
  rcases hrest with hexp | ⟨hh,hl,hs,hz⟩
  · rw [hexp]
    rfl
  · cases v with
    | string b => exact absurd rfl (hv b)
    | _ => simp only [Value.into,collected,hh,hl,hs,hz,Option.map_some]

theorem view_into_eq_iff (h : r.typeOf now=none) {v v' : Value F} (hv : ∀ b, v ≠ .string b)
    (hv' : ∀ b, v' ≠ .string b) (hsame : r.expiry=none → v=v') :
    (v.into r).view now=(v'.into .absent).view now ↔ r.expiry=none := by
  have habsent : (v'.into (.absent : Row F)).view now=some (v',none) :=
    view_into (typeOf_absent now) hv'
  rw [view_into h hv,habsent]
  constructor
  · intro heq
    split at heq
    · cases heq
    · exact (Prod.mk.inj (Option.some.inj heq)).2
  · intro hx
    rw [hx,hsame hx]
    rfl

end Row

variable {F : Type} {w : World} {s : MemoryStore F} {k : Bytes} {now : Int}

/-- The reply, and the value and the deadline of `k` that a client sees afterwards. -/
def seenAt (now : Int) (k : Bytes) (p : Response × MemoryStore F) :
    Response × Option (Value F × Option Int) := (p.1,p.2.view now k)

namespace MemoryStore

theorem liveString_of_stale (h : s.typeOf now k=none) : s.liveString now k=none := by
  rw [typeOf_eq_slot] at h
  exact Slot.liveString_of_noString (r := s.slot k) (Row.stale_cases h).1

theorem get_of_stale (h : s.typeOf now k=none) : s.get now k=none := by
  rw [Maps.get,liveString_of_stale h]
  rfl

theorem hGet_of_stale (h : s.typeOf now k=none) (f : Bytes) : s.hGet now k f=none := by
  rw [typeOf_eq_slot] at h
  have hnone : s.liveHash now k=none := by
    rcases (Row.stale_cases h).2 with hexp | hnone
    · exact if_pos hexp
    · exact (ite_eq_left_iff.mpr fun _ => hnone.1)
  rw [Maps.hGet,hnone]
  rfl

theorem view_of_stale (h : s.typeOf now k=none) : s.view now k=none := by
  rw [typeOf_eq_slot] at h
  exact (Row.view_eq_none_iff _ _).mpr h

theorem typeOf_deleteKey (s : MemoryStore F) (now : Int) (k : Bytes) :
    (s.deleteKey k).typeOf now k=none := by
  rw [Maps.typeOf_eq_row,row_deleteKey_self,Row.typeOf_absent]

theorem deleteKey_deleteKey (s : MemoryStore F) (k : Bytes) :
    (s.deleteKey k).deleteKey k=s.deleteKey k := by
  apply ext_slot
  rw [slot_deleteKey,slot_deleteKey,Function.update_self,Function.update_idem]
  rfl

theorem set_deleteKey (s : MemoryStore F) (k v : Bytes) : (s.deleteKey k).set k v=s.set k v := by
  rw [set,deleteKey_deleteKey,set]

theorem entries_of_stale (h : s.typeOf now k=none) (hx : s.keyExpiry[k]?=none) :
    s.hashes[k]?=none ∧ s.lists[k]?=none ∧ s.sets[k]?=none ∧ s.zsets[k]?=none := by
  rw [typeOf_eq_slot] at h
  rcases (Row.stale_cases h).2 with hexp | hnone
  · have hexp' : expired now s.keyExpiry[k]?=true := hexp
    rw [hx] at hexp'
    cases hexp'
  · exact hnone

end MemoryStore
open MemoryStore

theorem seenAt_refused (h : s.typeOf now k=none) (r : Response) :
    seenAt now k (r,s)=seenAt now k (r,s.deleteKey k) := by
  rw [seenAt,seenAt,view_of_stale h,view_of_stale (typeOf_deleteKey s now k)]

theorem seenAt_into_iff {r : Row F} (h : r.typeOf now=none) {p p' : Response × MemoryStore F}
    {v v' : Value F} (hp : p.2.toMaps.row k=v.into r) (hp' : p'.2.toMaps.row k=v'.into .absent)
    (hv : ∀ b, v ≠ .string b) (hv' : ∀ b, v' ≠ .string b)
    (hsame : r.expiry=none → p.1=p'.1 ∧ v=v') :
    seenAt now k p=seenAt now k p' ↔ r.expiry=none := by
  have hiff := Row.view_into_eq_iff h hv hv' fun hx => (hsame hx).2
  simp only [seenAt,Maps.view,hp,hp',Prod.mk.injEq]
  constructor
  · intro heq
    exact hiff.mp heq.2
  · intro hx
    exact ⟨(hsame hx).1,hiff.mpr hx⟩

/-- An operation that rewrites the entry of `k` in one of the maps without own deadlines takes
what is left there for the entry it goes on from. -/
theorem put_seenAt_iff {E : Type} (h : s.typeOf now k=none) (entries : MemoryStore F → Map E)
    (put : MemoryStore F → E → MemoryStore F) (val : E → Value F) (hval : ∀ e b, val e ≠ .string b)
    (hslot : ∀ u e, (put u e).slot=
      Function.update u.slot k ((u.slot k).setRow ((val e).into (u.toMaps.row k))))
    (hnone : s.keyExpiry[k]?=none → (entries s)[k]?=none)
    (hdel : (entries (s.deleteKey k))[k]?=none) (d : E) (reply : E → Response) (f : E → E) :
    seenAt now k (reply ((entries s).getD k d),
        (put s (f ((entries s).getD k d))).bumpVersion k)=
      seenAt now k (reply ((entries (s.deleteKey k)).getD k d),
        (put (s.deleteKey k) (f ((entries (s.deleteKey k)).getD k d))).bumpVersion k) ↔
      s.keyExpiry[k]?=none := by
  have hrow : (s.toMaps.row k).typeOf now=none := by rwa [Maps.typeOf_eq_row] at h
  have hput : ∀ u e, ((put u e).bumpVersion k).toMaps.row k=(val e).into (u.toMaps.row k) :=
    fun u e => row_of_slot (hslot u e)
  have hput' := hput (s.deleteKey k) (f ((entries (s.deleteKey k)).getD k d))
  rw [row_deleteKey_self] at hput'
  apply seenAt_into_iff hrow (hput s _) hput' (hval _) (hval _)
  intro hx
  have hold : (entries s).getD k d=(entries (s.deleteKey k)).getD k d := by
    rw [Std.ExtTreeMap.getD_eq_getD_getElem?,Std.ExtTreeMap.getD_eq_getD_getElem?,
      hnone hx,hdel]
  rw [hold]
  exact ⟨rfl,rfl⟩

theorem guards_of_stale (h : s.typeOf now k=none) :
    s.listGuard now k=true ∧ s.setGuard now k=true ∧ s.zsetGuard now k=true := by
  simp [listGuard,setGuard,zsetGuard,h]

theorem lPush_seenAt_iff (h : s.typeOf now k=none) (vs : List Bytes) :
    seenAt now k (commit s (fun n : Nat => .integer n) (s.lPush now k vs))=
      seenAt now k (commit (s.deleteKey k) (fun n : Nat => .integer n)
        ((s.deleteKey k).lPush now k vs)) ↔ s.keyExpiry[k]?=none := by
  rw [lPush,lPush,if_pos (guards_of_stale h).1,
    if_pos (guards_of_stale (typeOf_deleteKey s now k)).1,commit_ok,commit_ok]
  exact put_seenAt_iff h (fun u => u.lists) (fun u l => u.putList k l) .list (by simp)
    (fun u l => slot_putList u k l) (fun hx => (entries_of_stale h hx).2.1)
    (by simp [deleteKey,Maps.deleteKey]) [] (fun l => .integer (vs.reverse++l).length)
    fun l => vs.reverse++l

theorem rPush_seenAt_iff (h : s.typeOf now k=none) (vs : List Bytes) :
    seenAt now k (commit s (fun n : Nat => .integer n) (s.rPush now k vs))=
      seenAt now k (commit (s.deleteKey k) (fun n : Nat => .integer n)
        ((s.deleteKey k).rPush now k vs)) ↔ s.keyExpiry[k]?=none := by
  rw [rPush,rPush,if_pos (guards_of_stale h).1,
    if_pos (guards_of_stale (typeOf_deleteKey s now k)).1,commit_ok,commit_ok]
  exact put_seenAt_iff h (fun u => u.lists) (fun u l => u.putList k l) .list (by simp)
    (fun u l => slot_putList u k l) (fun hx => (entries_of_stale h hx).2.1)
    (by simp [deleteKey,Maps.deleteKey]) [] (fun l => .integer (l++vs).length) fun l => l++vs

theorem sAdd_seenAt_iff (h : s.typeOf now k=none) (xs : List Bytes) :
    seenAt now k (commit s (fun n : Nat => .integer n) (s.sAdd now k xs))=
      seenAt now k (commit (s.deleteKey k) (fun n : Nat => .integer n)
        ((s.deleteKey k).sAdd now k xs)) ↔ s.keyExpiry[k]?=none := by
  rw [sAdd,sAdd,if_pos (guards_of_stale h).2.1,
    if_pos (guards_of_stale (typeOf_deleteKey s now k)).2.1,commit_ok,commit_ok]
  exact put_seenAt_iff h (fun u => u.sets) (fun u st => u.putSet k st) .set (by simp)
    (fun u st => slot_putSet u k st) (fun hx => (entries_of_stale h hx).2.2.1)
    (by simp [deleteKey,Maps.deleteKey]) ∅ (fun st => .integer (xs.foldl sAddMember (0,st)).1)
    fun st => (xs.foldl sAddMember (0,st)).2

theorem hSet_seenAt_iff (h : s.typeOf now k=none) (fields : Map Bytes) (reply : Nat → Response) :
    seenAt now k (reply (s.hSet k fields).1,(s.hSet k fields).2)=
      seenAt now k (reply ((s.deleteKey k).hSet k fields).1,((s.deleteKey k).hSet k fields).2) ↔
      s.keyExpiry[k]?=none := by
  have hrow : (s.toMaps.row k).typeOf now=none := by rwa [Maps.typeOf_eq_row] at h
  have hput : ∀ u : MemoryStore F, (u.hSet k fields).2.toMaps.row k=
      (Value.hash (mergeFields (u.hashes.getD k ∅) fields)).into
        { u.toMaps.row k with string := none } :=
    fun u => (u.row_hSet k fields k).trans (if_pos rfl)
  have hput' := hput (s.deleteKey k)
  rw [row_deleteKey_self] at hput'
  apply seenAt_into_iff (Row.typeOf_cleared hrow) (hput s) hput' (by simp) (by simp)
  intro hx
  have hold : s.hashes.getD k ∅=(s.deleteKey k).hashes.getD k ∅ := by
    rw [Std.ExtTreeMap.getD_eq_getD_getElem?,(entries_of_stale h hx).1]
    simp [deleteKey,Maps.deleteKey]
  rw [hold,hSet,hSet,hold]
  exact ⟨rfl,rfl⟩

section
variable [Float64 F]

theorem zAdd_seenAt_iff (h : s.typeOf now k=none) (ms : List (ZMember F)) (fl : ZAddFlags) :
    seenAt now k (commit s .integer (s.zAdd now k ms fl))=
      seenAt now k (commit (s.deleteKey k) .integer ((s.deleteKey k).zAdd now k ms fl)) ↔
      s.keyExpiry[k]?=none := by
  rw [zAdd,zAdd,if_pos (guards_of_stale h).2.2,
    if_pos (guards_of_stale (typeOf_deleteKey s now k)).2.2,commit_ok,commit_ok]
  exact put_seenAt_iff h (fun u => u.zsets) (fun u z => u.putZSet k z) .zset (by simp)
    (fun u z => slot_putZSet u k z) (fun hx => (entries_of_stale h hx).2.2.2)
    (by simp [deleteKey,Maps.deleteKey]) ∅ (fun z => .integer (ms.foldl (zAddMember fl) (0,z)).1)
    fun z => (ms.foldl (zAddMember fl) (0,z)).2

theorem zIncrBy_seenAt_iff (h : s.typeOf now k=none) (incr : F) (x : Bytes) :
    seenAt now k (commit s (fun sc => .bulkString (formatScore sc)) (s.zIncrBy now k incr x))=
      seenAt now k (commit (s.deleteKey k) (fun sc => .bulkString (formatScore sc))
        ((s.deleteKey k).zIncrBy now k incr x)) ↔ s.keyExpiry[k]?=none := by
  rw [zIncrBy,zIncrBy,if_pos (guards_of_stale h).2.2,
    if_pos (guards_of_stale (typeOf_deleteKey s now k)).2.2,commit_ok,commit_ok]
  exact put_seenAt_iff h (fun u => u.zsets) (fun u z => u.putZSet k z) .zset (by simp)
    (fun u z => slot_putZSet u k z) (fun hx => (entries_of_stale h hx).2.2.2)
    (by simp [deleteKey,Maps.deleteKey]) ∅
    (fun z => .bulkString (formatScore (z.getD x 0+incr)))
    fun z => z.insert x (z.getD x 0+incr)

end

theorem view_setString (s : MemoryStore F) (now : Int) (k : Bytes) (e : StrEntry) :
    (((s.deleteKey k).putString k e).bumpVersion k).view now k=
      if expired now e.expiresAt then none else some (.string e.value,e.expiresAt) := by
  have hk := congrFun (slot_setString s k e) k
  rw [Function.update_self] at hk
  refine (congrArg (fun r : Slot F => r.toRow.view now) hk).trans ?_
  cases hexp : expired now e.expiresAt <;> simp [Row.view,Row.typeOf,Row.absent,hexp]

theorem setAdv_seenAt_iff (h : s.typeOf now k=none) (v : Bytes) (ttl : Int) (opts : SetAdvOpts) :
    seenAt now k (setReply opts (s.setAdv now k v ttl opts).1 (s.setAdv now k v ttl opts).2.1,
        (s.setAdv now k v ttl opts).2.2)=
      seenAt now k (setReply opts ((s.deleteKey k).setAdv now k v ttl opts).1
          ((s.deleteKey k).setAdv now k v ttl opts).2.1,
        ((s.deleteKey k).setAdv now k v ttl opts).2.2) ↔
      ¬(opts.keepTTL=true ∧ opts.xx=false ∧ s.strings[k]? ≠ none) := by
  have hfresh : (s.deleteKey k).strings[k]?=none := by simp [deleteKey,Maps.deleteKey]
  rw [setAdv,setAdv,get_of_stale h,get_of_stale (typeOf_deleteKey s now k),hfresh,
    deleteKey_deleteKey]
  cases hxx : opts.xx with
  | true => simpa using seenAt_refused h _
  | false =>
    cases hkeep : opts.keepTTL with
    | false => simp
    | true =>
      cases hstr : s.strings[k]? with
      | none => simp
      | some e =>
        have hrow : (s.toMaps.row k).typeOf now=none := by rwa [Maps.typeOf_eq_row] at h
        have hexp : expired now e.expiresAt=true := (Row.stale_cases hrow).1 e hstr
        have hlost := view_setString s now k ⟨v,e.expiresAt⟩
        have hkept := view_setString s now k ⟨v,none⟩
        rw [if_pos hexp] at hlost
        rw [if_neg (by simp [expired])] at hkept
        have hne : (((s.deleteKey k).putString k ⟨v,e.expiresAt⟩).bumpVersion k).view now k ≠
            (((s.deleteKey k).putString k ⟨v,none⟩).bumpVersion k).view now k := by
          rw [hlost,hkept]
          exact Option.some_ne_none _ |>.symm
        simpa [seenAt] using hne

/-- The options of a `SET` that stores its value under the deadline it finds. -/
def SetKeeps (now : Int) (args : List Bytes) : Prop :=
  3 ≤ args.length ∧ ∃ opts ttl, setOptions now (args.drop 3) {} 0=.ok (opts,ttl) ∧
    opts.keepTTL=true ∧ opts.xx=false

theorem handleSet_seenAt_iff (h : s.typeOf w.now k=none) (name : Bytes) (rest : List Bytes) :
    seenAt w.now k (handleSet w (name::k::rest) s)=
      seenAt w.now k (handleSet w (name::k::rest) (s.deleteKey k)) ↔
      ¬(SetKeeps w.now (name::k::rest) ∧ s.strings[k]? ≠ none) := by
  cases rest with
  | nil => simpa [SetKeeps,handleSet] using seenAt_refused h (wrongArgs "SET")
  | cons v rest =>
    cases hopts : setOptions w.now rest {} 0 with
    | error r => simpa [SetKeeps,handleSet,hopts] using seenAt_refused h r
    | ok p =>
      obtain ⟨opts,ttl⟩ := p
      have hkeeps : SetKeeps w.now (name::k::v::rest) ↔ opts.keepTTL=true ∧ opts.xx=false := by
        simp [SetKeeps,hopts]
      rw [hkeeps,and_assoc,handleSet,handleSet,hopts]
      dsimp only
      by_cases hboth : opts.nx=true ∧ opts.xx=true
      · rw [if_pos hboth,if_pos hboth]
        simpa [hboth.2] using seenAt_refused h syntaxError
      · rw [if_neg hboth,if_neg hboth]
        exact setAdv_seenAt_iff h v ttl opts

theorem incrBy_seenAt (h : s.typeOf w.now k=none) (delta : Int) :
    seenAt w.now k (incrBy w k delta s)=seenAt w.now k (incrBy w k delta (s.deleteKey k)) := by
  rw [incrBy,incrBy,get_of_stale h,get_of_stale (typeOf_deleteKey s w.now k)]
  simp only [set_deleteKey]
  split_ifs
  · exact seenAt_refused h _
  · exact seenAt_refused h _
  · rfl

theorem handleStep_seenAt (h : s.typeOf w.now k=none) (cmd : String) (delta : Int)
    (name : Bytes) (rest : List Bytes) : seenAt w.now k (handleStep cmd delta w (name::k::rest) s)=
      seenAt w.now k (handleStep cmd delta w (name::k::rest) (s.deleteKey k)) := by
  cases rest with
  | nil => exact incrBy_seenAt h delta
  | cons a rest => exact seenAt_refused h _

theorem handleStepBy_seenAt (h : s.typeOf w.now k=none) (cmd : String) (sign : Int → Int)
    (name : Bytes) (rest : List Bytes) :
    seenAt w.now k (handleStepBy cmd sign w (name::k::rest) s)=
      seenAt w.now k (handleStepBy cmd sign w (name::k::rest) (s.deleteKey k)) := by
  rcases rest with _ | ⟨n,_ | ⟨a,rest⟩⟩
  · exact seenAt_refused h _
  · cases hn : parseInt n with
    | none => simpa [handleStepBy,hn] using seenAt_refused h notInteger
    | some delta => simpa [handleStepBy,hn] using incrBy_seenAt h (sign delta)
  · exact seenAt_refused h _

theorem handleSetNX_seenAt (h : s.typeOf w.now k=none) (name : Bytes) (rest : List Bytes) :
    seenAt w.now k (handleSetNX w (name::k::rest) s)=
      seenAt w.now k (handleSetNX w (name::k::rest) (s.deleteKey k)) := by
  rcases rest with _ | ⟨v,_ | ⟨a,rest⟩⟩
  · exact seenAt_refused h _
  · rw [handleSetNX,handleSetNX,get_of_stale h,get_of_stale (typeOf_deleteKey s w.now k),
      set_deleteKey]
    rfl
  · exact seenAt_refused h _

theorem handleAppend_seenAt (h : s.typeOf w.now k=none) (name : Bytes) (rest : List Bytes) :
    seenAt w.now k (handleAppend w (name::k::rest) s)=
      seenAt w.now k (handleAppend w (name::k::rest) (s.deleteKey k)) := by
  rcases rest with _ | ⟨v,_ | ⟨a,rest⟩⟩
  · exact seenAt_refused h _
  · rw [handleAppend,handleAppend,get_of_stale h,get_of_stale (typeOf_deleteKey s w.now k),
      set_deleteKey]
  · exact seenAt_refused h _

section
variable [Float64 F]

theorem handleIncrByFloat_seenAt (h : s.typeOf w.now k=none) (name : Bytes) (rest : List Bytes) :
    seenAt w.now k (handleIncrByFloat w (name::k::rest) s)=
      seenAt w.now k (handleIncrByFloat w (name::k::rest) (s.deleteKey k)) := by
  rcases rest with _ | ⟨n,_ | ⟨a,rest⟩⟩
  · exact seenAt_refused h _
  · cases hn : (Float64.parseFloat n : Option F) with
    | none => simpa [handleIncrByFloat,hn] using seenAt_refused h notFloat
    | some delta =>
      simp only [handleIncrByFloat,hn,get_of_stale h,get_of_stale (typeOf_deleteKey s w.now k),
        set_deleteKey]
  · exact seenAt_refused h _

/-- The request passes the checks that its handler makes before it calls the store. -/
def ReachesStore (F : Type) [Float64 F] (c : WriteCommand) (args : List Bytes) : Prop :=
  match c with
  | .hset => hsetShape args=true
  | .hincrby => args.length=4 ∧ (parseInt (args.getD 3 [])).isSome=true
  | .lpush | .rpush | .sadd => 3 ≤ args.length
  | .zadd => zaddAccepts F (args.drop 2)
  | .zincrby => args.length=4 ∧ (parseScore (args.getD 2 []) : Option F).isSome=true
  | _ => False

/-- The request lets something of an expired key live on: a `SET` the deadline of a string it is
told to keep, a write to a collection the deadline beside the collections. -/
def KeepsStale (w : World) (c : WriteCommand) (args : List Bytes) (k : Bytes)
    (s : MemoryStore F) : Prop :=
  c=.set ∧ SetKeeps w.now args ∧ s.strings[k]? ≠ none ∨
    ReachesStore F c args ∧ s.keyExpiry[k]? ≠ none

/-- The commands that write one key and create it when it is not there. -/
def keyWriters : List WriteCommand :=
  [.set,.setnx,.append,.incr,.incrby,.incrbyfloat,.decr,.decrby,.hset,.hincrby,.lpush,.rpush,
    .sadd,.zadd,.zincrby]

omit [Float64 F] in
theorem handleHSet_seenAt_iff (h : s.typeOf w.now k=none) (name : Bytes) (rest : List Bytes) :
    seenAt w.now k (handleHSet (name::k::rest) s)=
      seenAt w.now k (handleHSet (name::k::rest) (s.deleteKey k)) ↔
      ¬(hsetShape (name::k::rest)=true ∧ s.keyExpiry[k]? ≠ none) := by
  unfold handleHSet
  split_ifs with hshape
  · refine (hSet_seenAt_iff h (pairsMap ∅ rest) fun n => .integer n).trans ?_
    simp [hshape]
  · simpa [hshape] using seenAt_refused h (wrongArgs "HSET")

omit [Float64 F] in
theorem handleHIncrBy_seenAt_iff (h : s.typeOf w.now k=none) (name : Bytes) (rest : List Bytes) :
    seenAt w.now k (handleHIncrBy w (name::k::rest) s)=
      seenAt w.now k (handleHIncrBy w (name::k::rest) (s.deleteKey k)) ↔
      ¬(((name::k::rest).length=4 ∧ (parseInt ((name::k::rest).getD 3 [])).isSome=true) ∧
        s.keyExpiry[k]? ≠ none) := by
  rcases rest with _ | ⟨f,_ | ⟨n,_ | ⟨a,rest⟩⟩⟩
  · exact iff_of_true (seenAt_refused h _) (by simp)
  · exact iff_of_true (seenAt_refused h _) (by simp)
  · rw [handleHIncrBy,handleHIncrBy,hGet_of_stale h,hGet_of_stale (typeOf_deleteKey s w.now k)]
    cases hn : parseInt n with
    | none => exact iff_of_true (seenAt_refused h notInteger) (by simp [hn])
    | some delta =>
      refine (hSet_seenAt_iff h _ fun _ => .integer (wrap64 (0+delta))).trans ?_
      simp [hn]
  · exact iff_of_true (seenAt_refused h _) (by simp)

omit [Float64 F] in
theorem handlePush_seenAt_iff (h : s.typeOf w.now k=none) (cmd : String) {push : Push F}
    (hpush : ∀ vs, seenAt w.now k (commit s (fun n : Nat => .integer n) (push s w.now k vs))=
      seenAt w.now k (commit (s.deleteKey k) (fun n : Nat => .integer n)
        (push (s.deleteKey k) w.now k vs)) ↔ s.keyExpiry[k]?=none)
    (name : Bytes) (rest : List Bytes) :
    seenAt w.now k (handlePush cmd push w (name::k::rest) s)=
      seenAt w.now k (handlePush cmd push w (name::k::rest) (s.deleteKey k)) ↔
      ¬(3 ≤ (name::k::rest).length ∧ s.keyExpiry[k]? ≠ none) := by
  cases rest with
  | nil => exact iff_of_true (seenAt_refused h _) (by simp)
  | cons v vs => simpa [handlePush] using hpush (v::vs)

omit [Float64 F] in
theorem handleSAdd_seenAt_iff (h : s.typeOf w.now k=none) (name : Bytes) (rest : List Bytes) :
    seenAt w.now k (handleSAdd w (name::k::rest) s)=
      seenAt w.now k (handleSAdd w (name::k::rest) (s.deleteKey k)) ↔
      ¬(3 ≤ (name::k::rest).length ∧ s.keyExpiry[k]? ≠ none) := by
  cases rest with
  | nil => exact iff_of_true (seenAt_refused h _) (by simp)
  | cons x xs => simpa [handleSAdd] using sAdd_seenAt_iff h (x::xs)

theorem handleZAdd_seenAt_iff (h : s.typeOf w.now k=none) (name : Bytes) (rest : List Bytes) :
    seenAt w.now k (handleZAdd w (name::k::rest) s)=
      seenAt w.now k (handleZAdd w (name::k::rest) (s.deleteKey k)) ↔
      ¬(zaddAccepts F rest ∧ s.keyExpiry[k]? ≠ none) := by
  by_cases hacc : zaddAccepts F rest
  · obtain ⟨ms,hms⟩ := hacc.2.2.2.2
    rw [handleZAdd_accepted hacc hms,handleZAdd_accepted hacc hms,zAdd_seenAt_iff h]
    simp [hacc]
  · obtain ⟨r,hr⟩ := handleZAdd_refused hacc w name k
    rw [hr,hr]
    simpa [hacc] using seenAt_refused h r

theorem handleZIncrBy_seenAt_iff (h : s.typeOf w.now k=none) (name : Bytes) (rest : List Bytes) :
    seenAt w.now k (handleZIncrBy w (name::k::rest) s)=
      seenAt w.now k (handleZIncrBy w (name::k::rest) (s.deleteKey k)) ↔
      ¬(((name::k::rest).length=4 ∧
          (parseScore ((name::k::rest).getD 2 []) : Option F).isSome=true) ∧
        s.keyExpiry[k]? ≠ none) := by
  rcases rest with _ | ⟨n,_ | ⟨x,_ | ⟨a,rest⟩⟩⟩
  · exact iff_of_true (seenAt_refused h _) (by simp)
  · exact iff_of_true (seenAt_refused h _) (by simp)
  · cases hn : (parseScore n : Option F) with
    | none => simpa [handleZIncrBy,hn] using seenAt_refused h notFloat
    | some incr => simpa [handleZIncrBy,hn] using zIncrBy_seenAt_iff h incr x
  · exact iff_of_true (seenAt_refused h _) (by simp)

/-- A request that writes one key replies and leaves the key behind as if an expired key were
not there, unless it lets something of the old key live on. -/
theorem execute_seenAt_iff {c : WriteCommand} (hc : c ∈ keyWriters) (h : s.typeOf w.now k=none)
    (name : Bytes) (rest : List Bytes) :
    (execute w c (name::k::rest) s).map (seenAt w.now k)=
      (execute w c (name::k::rest) (s.deleteKey k)).map (seenAt w.now k) ↔
      ¬KeepsStale w c (name::k::rest) k s := by
  have hok : ∀ {p p' : Response × MemoryStore F} {P : Prop},
      (seenAt w.now k p=seenAt w.now k p' ↔ P) →
      ((Except.ok p : Go (Response × MemoryStore F)).map (seenAt w.now k)=
        (Except.ok p' : Go (Response × MemoryStore F)).map (seenAt w.now k) ↔ P) := by
    intro p p' P hP
    constructor
    · intro heq
      exact hP.mp (Except.ok.inj heq)
    · intro hp
      exact congrArg Except.ok (hP.mpr hp)
  have hsame : ¬KeepsStale w c (name::k::rest) k s ↔
      (c=.set → ¬(SetKeeps w.now (name::k::rest) ∧ s.strings[k]? ≠ none)) ∧
        ¬(ReachesStore F c (name::k::rest) ∧ s.keyExpiry[k]? ≠ none) := by
    rw [KeepsStale,not_or,not_and]
  rw [hsame]
  clear hsame
  cases c with
  | set => exact (hok (handleSet_seenAt_iff h name rest)).trans (by simp [ReachesStore])
  | setnx => exact hok (iff_of_true (handleSetNX_seenAt h name rest) (by simp [ReachesStore]))
  | append => exact hok (iff_of_true (handleAppend_seenAt h name rest) (by simp [ReachesStore]))
  | incr => exact hok (iff_of_true (handleStep_seenAt h _ _ name rest) (by simp [ReachesStore]))
  | decr => exact hok (iff_of_true (handleStep_seenAt h _ _ name rest) (by simp [ReachesStore]))
  | incrby =>
    exact hok (iff_of_true (handleStepBy_seenAt h _ _ name rest) (by simp [ReachesStore]))
  | decrby =>
    exact hok (iff_of_true (handleStepBy_seenAt h _ _ name rest) (by simp [ReachesStore]))
  | incrbyfloat =>
    exact hok (iff_of_true (handleIncrByFloat_seenAt h name rest) (by simp [ReachesStore]))
  | hset => exact (hok (handleHSet_seenAt_iff h name rest)).trans (by simp [ReachesStore])
  | hincrby => exact (hok (handleHIncrBy_seenAt_iff h name rest)).trans (by simp [ReachesStore])
  | lpush =>
    exact (hok (handlePush_seenAt_iff h _ (lPush_seenAt_iff h) name rest)).trans
      (by simp [ReachesStore])
  | rpush =>
    exact (hok (handlePush_seenAt_iff h _ (rPush_seenAt_iff h) name rest)).trans
      (by simp [ReachesStore])
  | sadd => exact (hok (handleSAdd_seenAt_iff h name rest)).trans (by simp [ReachesStore])
  | zadd => exact (hok (handleZAdd_seenAt_iff h name rest)).trans (by simp [ReachesStore])
  | zincrby => exact (hok (handleZIncrBy_seenAt_iff h name rest)).trans (by simp [ReachesStore])
  | _ => exact absurd hc (by decide)

/-- What a request to write an expired key replies and leaves behind is what it replies and
leaves behind where the key was removed first, exactly when it keeps nothing of the old key. -/
theorem stale_write_iff (w : World) (args : List Bytes) (s : MemoryStore F) {c : WriteCommand}
    {k : Bytes} (hc : commandOf args=some (.write c)) (hmem : c ∈ keyWriters)
    (hk : args[1]?=some k) (h : s.typeOf w.now k=none) :
    (dispatch w args s).map (fun d => (d.resp,d.store.view w.now k))=
      (dispatch w args (s.deleteKey k)).map (fun d => (d.resp,d.store.view w.now k)) ↔
      ¬KeepsStale w c args k s := by
  rcases args with _ | ⟨name,_ | ⟨key,rest⟩⟩
  · cases hk
  · cases hk
  · cases hk
    rw [← execute_seenAt_iff hmem h,dispatch_write hc,dispatch_write hc]
    cases execute w c (name::k::rest) s <;>
      cases execute w c (name::k::rest) (s.deleteKey k) <;> rfl

/-- `INCR` on a counter that expired starts again. -/
theorem stale_write_iff_incr :
    ((dispatch (World.plain 5) [utf8 "INCR",utf8 "k"]
        ((MemoryStore.new : MemoryStore Int).setWithTTL 0 (utf8 "k") (utf8 "7") 3)).map
          (fun d => (d.resp,d.store.view 5 (utf8 "k")))=
      (dispatch (World.plain 5) [utf8 "INCR",utf8 "k"]
        (((MemoryStore.new : MemoryStore Int).setWithTTL 0 (utf8 "k") (utf8 "7") 3).deleteKey
          (utf8 "k"))).map (fun d => (d.resp,d.store.view 5 (utf8 "k")))) ↔
      ¬KeepsStale (World.plain 5) .incr [utf8 "INCR",utf8 "k"] (utf8 "k")
        ((MemoryStore.new : MemoryStore Int).setWithTTL 0 (utf8 "k") (utf8 "7") 3) :=
  stale_write_iff (World.plain 5) _ _ rfl (by decide) rfl (by decide)

/-- `LPUSH` on a list that expired: the reply counts the old element, and the new one can not
be seen. -/
theorem lpush_on_stale : ∃ s : MemoryStore Int, Reachable s ∧ s.typeOf 2000000 (utf8 "k")=none ∧
    (dispatch (World.plain 2000000) [utf8 "LPUSH",utf8 "k",utf8 "b"] s).map
        (fun d => (d.resp,d.store.view 2000000 (utf8 "k")))=.ok (.integer 2,none) ∧
      (dispatch (World.plain 2000000) [utf8 "LPUSH",utf8 "k",utf8 "b"]
          (s.deleteKey (utf8 "k"))).map (fun d => (d.resp,d.store.view 2000000 (utf8 "k")))=
        .ok (.integer 1,some (.list [utf8 "b"],none)) := by
  have hpush : Reachable _ :=
    .dispatch (F := Int) (World.plain 0) [utf8 "RPUSH",utf8 "k",utf8 "a"] .new rfl
  have hexpire : Reachable _ :=
    .dispatch (World.plain 0) [utf8 "PEXPIRE",utf8 "k",utf8 "1"] hpush rfl
  exact ⟨_,hexpire,by decide,rfl,rfl⟩

end
end GoRedis
