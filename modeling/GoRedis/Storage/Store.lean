import GoRedis.Go.World
/-!
# The in-memory store

`Maps` are the five type maps and `keyExpiry`; `MemoryStore` adds `keyVersion`, which only
`WATCH` reads. Nothing that decides what a command does to the data looks at versions, so
the readers below are functions of the maps alone.
-/
namespace GoRedis

/-- `strEntry`; no deadline is Go's zero time. -/
structure StrEntry where
  value : Bytes
  expiresAt : Option Int
  deriving DecidableEq, Repr

structure Maps (F : Type) where
  strings : Map StrEntry
  hashes : Map (Map Bytes)
  lists : Map (List Bytes)
  sets : Map KeySet
  zsets : Map (Map F)
  keyExpiry : Map Int
  deriving DecidableEq

structure MemoryStore (F : Type) extends Maps F where
  keyVersion : Map UInt64
  deriving DecidableEq

/-- The tags of `typeOf`; its empty string is `none`. -/
inductive KeyType
  | string
  | hash
  | list
  | set
  | zset
  deriving DecidableEq, Repr

/-- The errors store operations return. -/
inductive StoreError
  | wrongType
  | noSuchKey
  | indexOutOfRange
  deriving DecidableEq, Repr

def StoreError.text : StoreError → Bytes
  | wrongType => utf8 "WRONGTYPE Operation against a key holding the wrong kind of value"
  | noSuchKey => utf8 "ERR no such key"
  | indexOutOfRange => utf8 "ERR index out of range"

/-- `expired` at instant `now`. -/
def expired (now : Int) : Option Int → Bool
  | none => false
  | some t => t < now

theorem expired_mono {now later : Int} {d : Option Int} (hle : now ≤ later)
    (h : expired now d=true) : expired later d=true := by
  cases d with
  | none => exact h
  | some d =>
    simp only [expired,decide_eq_true_eq] at h ⊢
    omega

namespace Maps
variable {F : Type}

def empty : Maps F := ⟨∅,∅,∅,∅,∅,∅⟩

def keyExpiredNonStr (m : Maps F) (now : Int) (key : Bytes) : Bool :=
  expired now m.keyExpiry[key]?

/-- The string entry of `key` unless its deadline has passed. -/
def liveString (m : Maps F) (now : Int) (key : Bytes) : Option StrEntry :=
  m.strings[key]?.filter fun e => !expired now e.expiresAt

def typeOf (m : Maps F) (now : Int) (key : Bytes) : Option KeyType :=
  if (m.liveString now key).isSome then some .string
  else if key ∈ m.hashes ∧ !m.keyExpiredNonStr now key then some .hash
  else if key ∈ m.lists ∧ !m.keyExpiredNonStr now key then some .list
  else if key ∈ m.sets ∧ !m.keyExpiredNonStr now key then some .set
  else if key ∈ m.zsets ∧ !m.keyExpiredNonStr now key then some .zset
  else none

def deleteKey (m : Maps F) (key : Bytes) : Maps F where
  strings := m.strings.erase key
  hashes := m.hashes.erase key
  lists := m.lists.erase key
  sets := m.sets.erase key
  zsets := m.zsets.erase key
  keyExpiry := m.keyExpiry.erase key

end Maps

namespace MemoryStore
variable {F : Type}

/-- `NewMemoryStore` -/
def new : MemoryStore F := ⟨.empty,∅⟩

def bumpVersion (s : MemoryStore F) (key : Bytes) : MemoryStore F :=
  { s with keyVersion := s.keyVersion.insert key (s.keyVersion.getD key 0+1) }

def deleteKey (s : MemoryStore F) (key : Bytes) : MemoryStore F :=
  { s with toMaps := s.toMaps.deleteKey key }

@[simp] theorem bumpVersion_toMaps (s : MemoryStore F) (key : Bytes) :
    (s.bumpVersion key).toMaps=s.toMaps := rfl

@[simp] theorem deleteKey_toMaps (s : MemoryStore F) (key : Bytes) :
    (s.deleteKey key).toMaps=s.toMaps.deleteKey key := rfl

/-- `deleteExpired`: the background sweep. -/
def deleteExpired (s : MemoryStore F) (now : Int) : MemoryStore F :=
  let stale := s.keyExpiry.filter fun _ t => t < now
  { strings := s.strings.filter fun _ e => !expired now e.expiresAt
    hashes := s.hashes.filter fun k _ => !stale.contains k
    lists := s.lists.filter fun k _ => !stale.contains k
    sets := s.sets.filter fun k _ => !stale.contains k
    zsets := s.zsets.filter fun k _ => !stale.contains k
    keyExpiry := s.keyExpiry.filter fun _ t => !(t < now)
    keyVersion := s.keyVersion.filter fun k _ =>
      !stale.contains k && !(s.strings[k]?.any fun e => expired now e.expiresAt) }

def flush (_ : MemoryStore F) : MemoryStore F := new

def version (s : MemoryStore F) (key : Bytes) : UInt64 := s.keyVersion.getD key 0

end MemoryStore

/-- The store after an operation, whatever its result; a failed one changes nothing. -/
def dropError {F α : Type} (s : MemoryStore F) :
    Except StoreError (α × MemoryStore F) → MemoryStore F
  | .error _ => s
  | .ok (_,s') => s'

theorem dropError_map_unit {F : Type} (s : MemoryStore F) (r : Except StoreError (MemoryStore F)) :
    dropError s (r.map fun s' => ((),s'))=r.toOption.getD s := by cases r <;> rfl

/-- `normaliseIndex`; `none` is the source's -1. -/
def normaliseIndex (idx : Int) (length : Nat) : Option Nat :=
  let idx := if idx < 0 then length+idx else idx
  if idx < 0 ∨ length ≤ idx then none else some idx.toNat

def clampRange (start stop : Int) (length : Nat) : Int × Int :=
  let start := if start < 0 then length+start else start
  let stop := if stop < 0 then length+stop else stop
  (if start < 0 then 0 else start,if length ≤ stop then length-1 else stop)

/-- The inclusive slice `l[lo..hi]` of a range that `clampRange` found non-empty. -/
def slice {α : Type} (l : List α) (lo hi : Int) : List α :=
  (l.drop lo.toNat).take (hi-lo+1).toNat

end GoRedis
