import GoRedis.Storage.Operations
import GoRedis.Storage.View
/-!
# What an operation does to a key

A slot is all the seven maps hold for one key. Every operation is a sequence of edits, each
of one slot; `Rename` is the only one that carries something from one slot to another. An
edit that counts up the version is told from one that does not, so that what the operations
keep and what `WATCH` can notice are read off the edits alone.
-/
namespace GoRedis
variable {F : Type}

/-- What the seven maps hold for one key. -/
structure Slot (F : Type) extends Row F where
  version : Option UInt64
  deriving DecidableEq

namespace Row

/-- The key is in one of the four maps whose deadline is kept in `keyExpiry`. -/
def Collection (r : Row F) : Prop :=
  r.hash.isSome ∨ r.list.isSome ∨ r.set.isSome ∨ r.zset.isSome

/-- The key has no string that a client would see. -/
def NoString (r : Row F) (now : Int) : Prop :=
  ∀ e, r.string=some e → expired now e.expiresAt=true

/-- The type and the contents a client sees, or nothing. -/
def shown (r : Row F) (now : Int) : Option (Value F) := (r.view now).map Prod.fst

theorem noString_of_typeOf {r : Row F} {now : Int} (h : r.typeOf now ≠ some .string) :
    r.NoString now := by
  intro e he
  by_contra hlive
  exact h ((typeOf_eq_string_iff r now).mpr ⟨e,he,by simpa using hlive⟩)

theorem collection_of_typeOf {r : Row F} {now : Int} {t : KeyType} (h : r.typeOf now=some t)
    (ht : t ≠ .string) : r.Collection := by
  have hsome := isSome_of_typeOf h
  cases t with
  | string => exact absurd rfl ht
  | hash => exact .inl hsome
  | list => exact .inr (.inl hsome)
  | set => exact .inr (.inr (.inl hsome))
  | zset => exact .inr (.inr (.inr hsome))

end Row

namespace Value

/-- A value that is no string goes to its own map of a row. -/
def into (v : Value F) (r : Row F) : Row F :=
  match v with
  | .string _ => r
  | .hash h => { r with hash := some h }
  | .list l => { r with list := some l }
  | .set st => { r with set := some st }
  | .zset z => { r with zset := some z }

/-- Neither an empty hash nor an empty sorted set. -/
def Filled : Value F → Prop
  | .hash h => h ≠ ∅
  | .zset z => z ≠ ∅
  | _ => True

end Value

namespace Slot

/-- The slot with its version counted up. -/
def bump (r : Slot F) : Slot F := { r with version := some (r.version.getD 0+1) }

/-- The slot with another row under the same version. -/
def setRow (r : Slot F) (row : Row F) : Slot F := { row with version := r.version }

@[simp] theorem bump_toRow (r : Slot F) : r.bump.toRow=r.toRow := rfl

@[simp] theorem setRow_toRow (r : Slot F) (row : Row F) : (r.setRow row).toRow=row := rfl

@[simp] theorem setRow_version (r : Slot F) (row : Row F) : (r.setRow row).version=r.version := rfl

@[simp] theorem bump_version (r : Slot F) : r.bump.version=some (r.version.getD 0+1) := rfl

/-- The edits that count up the version. With `fills` they leave no empty hash and no empty
sorted set behind. -/
inductive Edit (now : Int) (fills : Prop) : Slot F → Slot F → Prop
  /-- The key becomes a string and nothing else. -/
  | string (r : Slot F) (e : StrEntry) :
      Edit now fills r (r.setRow { Row.absent with string := some e }).bump
  /-- The key becomes the given collection and nothing else. -/
  | store (r : Slot F) (v : Value F) (hv : fills → v.Filled) :
      Edit now fills r (r.setRow (v.into .absent)).bump
  /-- The key is removed. -/
  | remove (r : Slot F) : Edit now fills r (r.setRow .absent).bump
  /-- An entry is written beside what the other maps hold. -/
  | put (r : Slot F) (v : Value F) (hs : r.Collection ∨ r.NoString now) (hv : fills → v.Filled) :
      Edit now fills r (r.setRow (v.into r.toRow)).bump
  /-- `HSet` clears the string. -/
  | putHash (r : Slot F) (h : Map Bytes) (hv : fills → h ≠ ∅) :
      Edit now fills r (r.setRow { r.toRow with string := none,hash := some h }).bump
  /-- An emptied entry is removed with the deadline. -/
  | drop (r : Slot F) (t : KeyType) : Edit now fills r (r.setRow (r.toRow.drop t)).bump

/-- The edits that leave the version alone. -/
inductive Quiet (now : Int) : Slot F → Slot F → Prop
  | keep (r : Slot F) : Quiet now r r
  /-- The key is removed. -/
  | remove (r : Slot F) : Quiet now r (r.setRow .absent)
  /-- A live string gets another deadline. -/
  | stamp (r : Slot F) (e : StrEntry) (d : Option Int) (he : r.string=some e)
      (hlive : expired now e.expiresAt=false) :
      Quiet now r (r.setRow { r.toRow with string := some ⟨e.value,d⟩ })
  /-- A live collection gets another deadline. -/
  | deadline (r : Slot F) (d : Option Int) (hr : r.Collection) :
      Quiet now r (r.setRow { r.toRow with expiry := d })

/-- What `HDel` leaves of a key whose hash it empties: the version is forgotten. -/
def forgotten (r : Slot F) : Slot F := { r.toRow.drop .hash with version := none }

/-- What `Rename` puts at the new key. -/
def moved (t : KeyType) (src dst : Slot F) : Slot F := (dst.setRow (src.toRow.only t)).bump

/-- What `Rename` leaves at the old key. -/
def left (t : KeyType) (src : Slot F) : Slot F := (src.setRow (src.toRow.drop t)).bump

/-- The slots after a `Rename` of `src`, a key of type `t`, to another key. -/
def move (t : KeyType) (src dst : Bytes) (f : Bytes → Slot F) : Bytes → Slot F :=
  Function.update (Function.update f dst (moved t (f src) (f dst))) src (left t (f src))

/-- A sequence of edits that count up versions; `ks` are the keys edited, in order. -/
inductive Steps (now : Int) (fills : Prop) :
    List Bytes → (Bytes → Slot F) → (Bytes → Slot F) → Prop
  | refl (f : Bytes → Slot F) : Steps now fills [] f f
  | edit {ks : List Bytes} {f g : Bytes → Slot F} {r : Slot F} (k : Bytes)
      (h : Edit now fills (f k) r) (hrest : Steps now fills ks (Function.update f k r) g) :
      Steps now fills (k::ks) f g

/-- What the sweep leaves of a slot. -/
def sweep (now : Int) (r : Slot F) : Slot F where
  string := r.string.filter fun e => !expired now e.expiresAt
  hash := if expired now r.expiry then none else r.hash
  list := if expired now r.expiry then none else r.list
  set := if expired now r.expiry then none else r.set
  zset := if expired now r.expiry then none else r.zset
  expiry := if expired now r.expiry then none else r.expiry
  version := if expired now r.expiry ∨ r.string.any fun e => expired now e.expiresAt
    then none else r.version

theorem Edit.version {now : Int} {fills : Prop} {r r' : Slot F} (h : Edit now fills r r') :
    r'.version=some (r.version.getD 0+1) := by
  cases h <;> rfl

theorem Quiet.version {now : Int} {r r' : Slot F} (h : Quiet now r r') :
    r'.version=r.version := by
  cases h <;> rfl

theorem Steps.frame {now : Int} {fills : Prop} {ks : List Bytes} {f g : Bytes → Slot F}
    (h : Steps now fills ks f g) {k : Bytes} (hk : k ∉ ks) : g k=f k := by
  induction h with
  | refl f => rfl
  | edit k' _ _ ih =>
    rw [List.mem_cons,not_or] at hk
    rw [ih hk.2,Function.update_of_ne hk.1]

theorem Steps.version {now : Int} {fills : Prop} {ks : List Bytes} {f g : Bytes → Slot F}
    (h : Steps now fills ks f g) (k : Bytes) :
    (g k).version.getD 0=(f k).version.getD 0+(ks.count k).toUInt64 := by
  induction h with
  | refl f => simp
  | @edit ks f g r k' he _ ih =>
    rw [ih]
    by_cases hk : k=k'
    · subst hk
      rw [Function.update_self,he.version,List.count_cons_self,Nat.toUInt64_eq,Nat.toUInt64_eq,
        UInt64.ofNat_add,Option.getD_some,add_assoc,add_comm 1]
      rfl
    · rw [Function.update_of_ne hk,List.count_cons_of_ne (Ne.symm hk)]

theorem move_src (t : KeyType) (src dst : Bytes) (f : Bytes → Slot F) :
    move t src dst f src=left t (f src) := Function.update_self ..

theorem move_dst {t : KeyType} {src dst : Bytes} {f : Bytes → Slot F} (hne : src ≠ dst) :
    move t src dst f dst=moved t (f src) (f dst) := by
  rw [move,Function.update_of_ne hne.symm,Function.update_self]

theorem move_of_ne {t : KeyType} {src dst k : Bytes} {f : Bytes → Slot F} (hs : k ≠ src)
    (hd : k ≠ dst) : move t src dst f k=f k := by
  rw [move,Function.update_of_ne hs,Function.update_of_ne hd]

theorem Steps.invariant {now : Int} {fills : Prop} {I : Slot F → Prop}
    (hedit : ∀ r r', Edit now fills r r' → I r → I r') {ks : List Bytes} {f g : Bytes → Slot F}
    (h : Steps now fills ks f g) {k : Bytes} (hf : I (f k)) : I (g k) := by
  induction h with
  | refl f => exact hf
  | edit k' he _ ih =>
    refine ih ?_
    by_cases hk : k=k'
    · subst hk
      rw [Function.update_self]
      exact hedit _ _ he hf
    · rw [Function.update_of_ne hk]
      exact hf

end Slot
end GoRedis
