import GoRedis.Storage.Store
/-!
# Store operations on strings, deadlines and whole keys

Every operation takes the instant at which it reads the clock. An operation that changes
the store returns the new one beside its result.
-/
namespace GoRedis

structure SetAdvOpts where
  keepTTL : Bool := false
  nx : Bool := false
  xx : Bool := false
  get : Bool := false
  deriving DecidableEq, Repr

/-- The options rule the value out, for a key whose string is live or not. -/
def SetRefused (o : SetAdvOpts) (present : Bool) : Prop :=
  (o.nx=true ∧ present=true) ∨ (o.xx=true ∧ present=false)

namespace Maps
variable {F : Type}

def get (m : Maps F) (now : Int) (key : Bytes) : Option Bytes :=
  (m.liveString now key).map StrEntry.value

/-- `Exists` -/
def exists_ (m : Maps F) (now : Int) (keys : List Bytes) : Nat :=
  keys.countP fun k => (m.typeOf now k).isSome

/-- The keys that `Keys`, `Len` and `allKeys` visit in the four maps without own deadlines. -/
def collectionKeys (m : Maps F) (now : Int) : List Bytes :=
  (m.hashes.keys++m.lists.keys++m.sets.keys++m.zsets.keys).filter
    fun k => !m.keyExpiredNonStr now k

/-- `Keys`; a bad pattern matches nothing. -/
def keys (m : Maps F) (w : World) (pattern : Bytes) : List Bytes :=
  (w.rangeOrder ((m.strings.filter fun _ e => !expired w.now e.expiresAt).keys++
    m.collectionKeys w.now)).filter fun k => w.filepathMatch pattern k = some true

/-- The strings that `Len` and `allKeys` count: here the deadline must lie ahead. -/
def countedStrings (m : Maps F) (now : Int) : List Bytes :=
  (m.strings.filter fun _ e => match e.expiresAt with
    | none => true
    | some t => now < t).keys

def len (m : Maps F) (now : Int) : Nat :=
  (m.countedStrings now).length+(m.collectionKeys now).length

/-- `TTL`, in nanoseconds: -1 s without a deadline, -2 s without a key. -/
def ttl (m : Maps F) (now : Int) (key : Bytes) : Int :=
  match m.strings[key]? with
  | some e =>
    if expired now e.expiresAt then -2*second
    else match e.expiresAt with
      | none => -1*second
      | some t => timeUntil now t
  | none =>
    if m.typeOf now key=none then -2*second
    else match m.keyExpiry[key]? with
      | none => -1*second
      | some t => if t < now then -2*second else timeUntil now t

/-- `Type`; the source's "none" is `none`. -/
def type (m : Maps F) (now : Int) (key : Bytes) : Option KeyType := m.typeOf now key

end Maps

/-- The name `Type` prints. -/
def typeName : Option KeyType → Bytes
  | none => utf8 "none"
  | some .string => utf8 "string"
  | some .hash => utf8 "hash"
  | some .list => utf8 "list"
  | some .set => utf8 "set"
  | some .zset => utf8 "zset"

namespace MemoryStore
variable {F : Type}

/-- `s.strings[key] = e` -/
def putString (s : MemoryStore F) (key : Bytes) (e : StrEntry) : MemoryStore F :=
  { s with strings := s.strings.insert key e }

def set (s : MemoryStore F) (key value : Bytes) : MemoryStore F :=
  ((s.deleteKey key).putString key ⟨value,none⟩).bumpVersion key

def setWithTTL (s : MemoryStore F) (now : Int) (key value : Bytes) (ttl : Int) : MemoryStore F :=
  ((s.deleteKey key).putString key ⟨value,some (now+ttl)⟩).bumpVersion key

/-- `SetAdv`: the old live string, whether the value was stored, and the new store. -/
def setAdv (s : MemoryStore F) (now : Int) (key value : Bytes) (ttl : Int) (opts : SetAdvOpts) :
    Option Bytes × Bool × MemoryStore F :=
  let old := s.get now key
  if opts.nx ∧ old.isSome then (old,false,s)
  else if opts.xx ∧ old.isNone then (old,false,s)
  else
    let newExpiry :=
      if opts.keepTTL then s.strings[key]?.bind StrEntry.expiresAt
      else if 0 < ttl then some (now+ttl) else none
    (old,true,((s.deleteKey key).putString key ⟨value,newExpiry⟩).bumpVersion key)

/-- What `SetAdv` leaves behind: nothing new where the options rule the value out, and
otherwise the key as a string and nothing else. -/
theorem setAdv_cases (s : MemoryStore F) (now : Int) (key value : Bytes) (ttl : Int)
    (opts : SetAdvOpts) :
    (SetRefused opts (s.get now key).isSome ∧
      s.setAdv now key value ttl opts=(s.get now key,false,s)) ∨
    (¬SetRefused opts (s.get now key).isSome ∧
      s.setAdv now key value ttl opts=(s.get now key,true,((s.deleteKey key).putString key ⟨value,
        if opts.keepTTL then s.strings[key]?.bind StrEntry.expiresAt
        else if 0 < ttl then some (now+ttl) else none⟩).bumpVersion key)) := by
  have hnone : (s.get now key).isNone=true ↔ (s.get now key).isSome=false := by simp
  unfold setAdv
  dsimp only
  by_cases hnx : opts.nx=true ∧ (s.get now key).isSome=true
  · exact .inl ⟨.inl hnx,if_pos hnx⟩
  · by_cases hxx : opts.xx=true ∧ (s.get now key).isNone=true
    · rw [if_neg hnx,if_pos hxx]
      exact .inl ⟨.inr ⟨hxx.1,hnone.mp hxx.2⟩,rfl⟩
    · rw [if_neg hnx,if_neg hxx]
      rw [hnone] at hxx
      exact .inr ⟨not_or_intro hnx hxx,rfl⟩

def getEx (s : MemoryStore F) (now : Int) (key : Bytes) (ttl : Int) (persist hasTTL : Bool) :
    Option Bytes × MemoryStore F :=
  match s.liveString now key with
  | none => (none,s)
  | some e =>
    if persist then (some e.value,s.putString key ⟨e.value,none⟩)
    else if hasTTL then (some e.value,s.putString key ⟨e.value,some (now+ttl)⟩)
    else (some e.value,s)

def del (s : MemoryStore F) (now : Int) : List Bytes → Nat × MemoryStore F
  | [] => (0,s)
  | k::ks =>
    if s.typeOf now k=none then del s now ks
    else
      let (n,s') := del ((s.deleteKey k).bumpVersion k) now ks
      (n+1,s')

def expire (s : MemoryStore F) (now : Int) (key : Bytes) (ttl : Int) : Bool × MemoryStore F :=
  match s.liveString now key with
  | some e => (true,s.putString key { e with expiresAt := some (now+ttl) })
  | none =>
    if s.typeOf now key=none then (false,s)
    else (true,{ s with keyExpiry := s.keyExpiry.insert key (now+ttl) })

def persist (s : MemoryStore F) (now : Int) (key : Bytes) : Bool × MemoryStore F :=
  match (s.liveString now key).filter fun e => e.expiresAt.isSome with
  | some e => (true,s.putString key { e with expiresAt := none })
  | none =>
    if s.typeOf now key=none ∨ s.typeOf now key=some .string then (false,s)
    else if key ∈ s.keyExpiry then (true,{ s with keyExpiry := s.keyExpiry.erase key })
    else (false,s)

/-- The switch of `Rename`: the one entry of `src` of the given type goes to `dst`. -/
def moveEntry (s : MemoryStore F) (t : KeyType) (src dst : Bytes) : MemoryStore F :=
  match t with
  | .string => { s with strings := (s.strings.insert dst (s.strings.getD src ⟨[],none⟩)).erase src }
  | .hash => { s with hashes := (s.hashes.insert dst (s.hashes.getD src ∅)).erase src }
  | .list => { s with lists := (s.lists.insert dst (s.lists.getD src [])).erase src }
  | .set => { s with sets := (s.sets.insert dst (s.sets.getD src ∅)).erase src }
  | .zset => { s with zsets := (s.zsets.insert dst (s.zsets.getD src ∅)).erase src }

/-- `Rename`. The copy of a sorted set dereferences what it finds at `src` after `dst` was
deleted, which is nil when both are one key. -/
def rename (s : MemoryStore F) (now : Int) (src dst : Bytes) : Go (Bool × MemoryStore F) :=
  match s.typeOf now src with
  | none => .ok (false,s)
  | some t =>
    let s := s.deleteKey dst
    if t=.zset ∧ src ∉ s.zsets then .error .nilDereference
    else
      let s := s.moveEntry t src dst
      let s := match s.keyExpiry[src]? with
        | some exp => { s with keyExpiry := (s.keyExpiry.insert dst exp).erase src }
        | none => { s with keyExpiry := s.keyExpiry.erase dst }
      .ok (true,(s.bumpVersion dst).bumpVersion src)

theorem rename_none {s : MemoryStore F} {now : Int} {src : Bytes} (ht : s.typeOf now src=none)
    (dst : Bytes) : s.rename now src dst=.ok (false,s) := by
  rw [rename,ht]

theorem moveEntry_keyExpiry (s : MemoryStore F) (t : KeyType) (src dst : Bytes) :
    (s.moveEntry t src dst).keyExpiry=s.keyExpiry := by
  cases t <;> rfl

/-- What `Rename` does with a key that is there: the entry of its type goes to `dst`, the
deadline too. -/
theorem rename_ok {s s' : MemoryStore F} {now : Int} {src dst : Bytes} {b : Bool} {t : KeyType}
    (ht : s.typeOf now src=some t) (h : s.rename now src dst=.ok (b,s')) :
    b=true ∧ ∃ x : Map Int,
      s'=(({ (s.deleteKey dst).moveEntry t src dst with keyExpiry := x } :
        MemoryStore F).bumpVersion dst).bumpVersion src ∧
      ∀ k : Bytes, x[k]?=
        if src=k then none else if dst=k then s.keyExpiry[src]? else s.keyExpiry[k]? := by
  have hexp : ((s.deleteKey dst).moveEntry t src dst).keyExpiry=s.keyExpiry.erase dst :=
    moveEntry_keyExpiry _ _ _ _
  simp only [rename,ht,hexp] at h
  split at h
  · cases h
  · cases hsrc : (s.keyExpiry.erase dst)[src]? with
    | none =>
      rw [hsrc] at h
      cases h
      refine ⟨rfl,_,rfl,fun k => ?_⟩
      rw [Map.getElem?_erase] at hsrc
      rw [Map.getElem?_erase,Map.getElem?_erase]
      split_ifs at hsrc ⊢ <;> simp_all
    | some e =>
      rw [hsrc] at h
      cases h
      refine ⟨rfl,_,rfl,fun k => ?_⟩
      rw [Map.getElem?_erase] at hsrc
      rw [Map.getElem?_erase,Map.getElem?_insert,Map.getElem?_erase]
      split_ifs at hsrc ⊢ <;> simp_all

end MemoryStore
end GoRedis
