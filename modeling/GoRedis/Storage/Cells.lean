import GoRedis.Commands.Strings
import GoRedis.Storage.View
/-!
# Stores that hold strings only

Seen from outside such a store is a function from keys to cells, a cell being a value with or
without a deadline. Every operation on strings and deadlines changes the cell of one key.
-/
namespace GoRedis

/-- What the string map holds for a key. -/
abbrev Cell := Option StrEntry

namespace Cell

/-- The entry unless its deadline has passed. -/
def live (now : Int) (c : Cell) : Cell := c.filter fun e => !expired now e.expiresAt

/-- `Del` on a cell: an entry whose deadline has passed is left to the sweep. -/
def del (now : Int) (c : Cell) : Cell := if (live now c).isSome then none else c

/-- `Expire` on a cell. -/
def expire (now ttl : Int) (c : Cell) : Cell :=
  match live now c with
  | some e => some { e with expiresAt := some (now+ttl) }
  | none => c

/-- `Persist` on a cell. -/
def persist (now : Int) (c : Cell) : Cell :=
  match live now c with
  | some e => some { e with expiresAt := none }
  | none => c

/-- The deadline, if there is one, lies after `t`. -/
def Beyond (t : Int) (c : Cell) : Prop := ∀ e ∈ c, ∀ d ∈ e.expiresAt, t < d

@[simp] theorem live_none (now : Int) : live now none=none := rfl

@[simp] theorem del_none (now : Int) : del now none=none := rfl

@[simp] theorem expire_none (now ttl : Int) : expire now ttl none=none := rfl

@[simp] theorem persist_none (now : Int) : persist now none=none := rfl

@[simp] theorem beyond_none (t : Int) : Beyond t none := by simp [Beyond]

theorem beyond_some {t : Int} {e : StrEntry} : Beyond t (some e) ↔ ∀ d ∈ e.expiresAt, t < d := by
  simp [Beyond]

theorem Beyond.live {t now : Int} {c : Cell} (h : Beyond t c) (hle : now ≤ t) :
    Cell.live now c=c := by
  cases c with
  | none => rfl
  | some e =>
    have hexp : expired now e.expiresAt=false := by
      cases hd : e.expiresAt with
      | none => rfl
      | some d =>
        have := beyond_some.mp h d hd
        simp only [expired,decide_eq_false_iff_not]
        omega
    simp [Cell.live,Option.filter,hexp]

theorem Beyond.del {t now : Int} {c : Cell} (h : Beyond t c) (hle : now ≤ t) :
    Cell.del now c=none := by
  rw [Cell.del,h.live hle]
  cases c <;> rfl

theorem Beyond.expire {t now ttl : Int} {c : Cell} (h : Beyond t c) (hle : now ≤ t) :
    Cell.expire now ttl c=c.map fun e => { e with expiresAt := some (now+ttl) } := by
  rw [Cell.expire,h.live hle]
  cases c <;> rfl

theorem Beyond.persist {t now : Int} {c : Cell} (h : Beyond t c) (hle : now ≤ t) :
    Cell.persist now c=c.map fun e => { e with expiresAt := none } := by
  rw [Cell.persist,h.live hle]
  cases c <;> rfl

theorem live_eq_none_of_le {now t : Int} {c : Cell} (h : live now c=none) (hle : now ≤ t) :
    live t c=none := by
  cases c with
  | none => rfl
  | some e =>
    cases hd : e.expiresAt with
    | none => simp [live,Option.filter,expired,hd] at h
    | some d =>
      simp only [live,Option.filter,expired,hd,Bool.not_eq_true',decide_eq_false_iff_not,
        ite_eq_right_iff,reduceCtorEq,imp_false,not_not] at h ⊢
      omega

theorem live_del_of_live {now t : Int} {c : Cell} (h : live t c=none) : live t (del now c)=none := by
  unfold del
  split
  · rfl
  · exact h

theorem live_del {now t : Int} (c : Cell) (hle : now ≤ t) : live t (del now c)=none := by
  unfold del
  split
  · rfl
  · rename_i h
    exact live_eq_none_of_le (by simpa using h) hle

theorem live_live_of_live {now t : Int} {c : Cell} (h : live t c=none) :
    live t (live now c)=none := by
  cases hl : live now c with
  | none => rfl
  | some e =>
    have hc : c=some e := (Option.filter_eq_some_iff.mp hl).1
    rw [← hc]
    exact h

theorem live_some_eq_none_iff {t : Int} {e : StrEntry} :
    live t (some e)=none ↔ expired t e.expiresAt=true := by
  cases h : expired t e.expiresAt <;> simp [live,Option.filter,h]

theorem beyond_map_persist (t : Int) (c : Cell) :
    Beyond t (c.map fun e => { e with expiresAt := none }) := by
  cases c <;> simp [Beyond]

theorem beyond_map_plain (t : Int) (v : Option Bytes) :
    Beyond t (v.map fun v => ⟨v,none⟩) := by
  cases v <;> simp [Beyond]

theorem beyond_map_expire {t d : Int} (h : t < d) (c : Cell) :
    Beyond t (c.map fun e => { e with expiresAt := some d }) := by
  cases c <;> simp [Beyond,h]

end Cell

variable {F : Type}

/-- The row of a key that is at most a string. -/
def Row.ofCell (c : Cell) : Row F := ⟨c,none,none,none,none,none⟩

theorem Row.typeOf_ofCell (c : Cell) (now : Int) :
    (Row.ofCell c : Row F).typeOf now=if (Cell.live now c).isSome then some .string else none := by
  simp [Row.ofCell,Row.typeOf,Cell.live,expired]

/-- The maps hold these cells and nothing else. -/
def Maps.HoldsCells (m : Maps F) (f : Bytes → Cell) : Prop := ∀ k, m.row k=.ofCell (f k)

namespace Maps.HoldsCells
variable {m m' : Maps F} {f : Bytes → Cell}

theorem empty : (Maps.empty : Maps F).HoldsCells fun _ => none := by
  intro k
  simp [Maps.row,Maps.empty,Row.ofCell]

theorem strings (h : m.HoldsCells f) (k : Bytes) : m.strings[k]?=f k := congrArg Row.string (h k)

theorem keyExpiry (h : m.HoldsCells f) (k : Bytes) : m.keyExpiry[k]?=none := congrArg Row.expiry (h k)

theorem liveString (h : m.HoldsCells f) (now : Int) (k : Bytes) :
    m.liveString now k=Cell.live now (f k) := by
  rw [Maps.liveString,h.strings,Cell.live]

theorem typeOf (h : m.HoldsCells f) (now : Int) (k : Bytes) :
    m.typeOf now k=if (Cell.live now (f k)).isSome then some .string else none := by
  rw [typeOf_eq_row,h k,Row.typeOf_ofCell]

theorem view (h : m.HoldsCells f) (now : Int) (k : Bytes) :
    m.view now k=(Cell.live now (f k)).map fun e => (.string e.value,e.expiresAt) := by
  rw [Maps.view,h k,Row.view,Row.typeOf_ofCell]
  cases hc : f k with
  | none => rfl
  | some e => cases he : expired now e.expiresAt <;> simp [Cell.live,Option.filter,he,Row.ofCell]

theorem unique (h : m.HoldsCells f) (h' : m'.HoldsCells f) : m=m' :=
  ext_row fun k => (h k).trans (h' k).symm

theorem insert (h : m.HoldsCells f) (k : Bytes) (e : StrEntry) :
    Maps.HoldsCells { m with strings := m.strings.insert k e } (Function.update f k (some e)) := by
  intro k'
  have hrow := h k'
  simp only [Maps.row,Row.ofCell,Row.mk.injEq] at hrow ⊢
  refine ⟨?_,hrow.2⟩
  rw [Map.getElem?_insert,Function.update_apply,hrow.1]
  simp only [eq_comm]

theorem deleteKey (h : m.HoldsCells f) (k : Bytes) :
    (m.deleteKey k).HoldsCells (Function.update f k none) := by
  intro k'
  rw [row_deleteKey,Function.update_apply,h k']
  by_cases hk : k=k'
  · rw [if_pos hk,if_pos hk.symm]
    rfl
  · rw [if_neg hk,if_neg fun e => hk e.symm]

end Maps.HoldsCells

namespace MemoryStore
variable {s : MemoryStore F} {f : Bytes → Cell}

theorem holds_new : (new : MemoryStore F).HoldsCells fun _ => none := Maps.HoldsCells.empty

theorem holds_set (h : s.HoldsCells f) (k v : Bytes) :
    (s.set k v).HoldsCells (Function.update f k (some ⟨v,none⟩)) := by
  have := (h.deleteKey k).insert k ⟨v,none⟩
  rwa [Function.update_idem] at this

theorem holds_setWithTTL (h : s.HoldsCells f) (now : Int) (k v : Bytes) (ttl : Int) :
    (s.setWithTTL now k v ttl).HoldsCells (Function.update f k (some ⟨v,some (now+ttl)⟩)) := by
  have := (h.deleteKey k).insert k ⟨v,some (now+ttl)⟩
  rwa [Function.update_idem] at this

theorem del_cons (s : MemoryStore F) (now : Int) (k : Bytes) (ks : List Bytes) :
    (s.del now (k::ks)).2=((s.del now [k]).2.del now ks).2 := by
  simp only [del]
  split <;> rfl

theorem holds_del (h : s.HoldsCells f) (now : Int) (k : Bytes) :
    (s.del now [k]).2.HoldsCells (Function.update f k (Cell.del now (f k))) := by
  have ht := h.typeOf now k
  simp only [del]
  by_cases hl : (Cell.live now (f k)).isSome
  · rw [if_pos hl] at ht
    rw [if_neg (by simp [ht]),Cell.del,if_pos hl]
    exact h.deleteKey k
  · rw [if_neg hl] at ht
    rw [if_pos ht,Cell.del,if_neg hl,Function.update_eq_self]
    exact h

theorem holds_expire (h : s.HoldsCells f) (now : Int) (k : Bytes) (ttl : Int) :
    (s.expire now k ttl).1=(Cell.live now (f k)).isSome ∧
      (s.expire now k ttl).2.HoldsCells (Function.update f k (Cell.expire now ttl (f k))) := by
  rw [expire,h.liveString now k,Cell.expire]
  cases hl : Cell.live now (f k) with
  | some e => exact ⟨rfl,h.insert k _⟩
  | none =>
    have ht := h.typeOf now k
    simp only [hl,Option.isSome_none,Bool.false_eq_true,↓reduceIte] at ht
    simp only [ht,↓reduceIte,Function.update_eq_self]
    exact ⟨rfl,h⟩

theorem holds_persist (h : s.HoldsCells f) (now : Int) (k : Bytes) :
    (s.persist now k).2.HoldsCells (Function.update f k (Cell.persist now (f k))) := by
  have ht := h.typeOf now k
  rw [persist,h.liveString now k,Cell.persist]
  cases hl : Cell.live now (f k) with
  | none =>
    simp only [hl,Option.isSome_none,Bool.false_eq_true,↓reduceIte] at ht
    simp only [Option.filter_none,ht,true_or,↓reduceIte,Function.update_eq_self]
    exact h
  | some e =>
    simp only [hl,Option.isSome_some,↓reduceIte] at ht
    cases hd : e.expiresAt with
    | some d =>
      simp only [Option.filter,hd,Option.isSome_some,↓reduceIte]
      exact h.insert k _
    | none =>
      -- nothing to remove: the entry is the one with its deadline taken off
      have hcell : f k=some e := (Option.filter_eq_some_iff.mp hl).1
      have hself : ({ e with expiresAt := none } : StrEntry)=e := by rw [← hd]
      simp only [Option.filter,hd,Option.isSome_none,Bool.false_eq_true,↓reduceIte,ht,or_true,
        hself,← hcell,Function.update_eq_self]
      exact h

theorem setWithTTL_toMaps (s : MemoryStore F) (now : Int) (k v : Bytes) (ttl : Int) :
    (s.setWithTTL now k v ttl).toMaps=((s.set k v).expire now k ttl).2.toMaps := by
  have hl : (s.set k v).liveString now k=some ⟨v,none⟩ := by
    simp [Maps.liveString,set,putString,bumpVersion,deleteKey,Option.filter,
      expired]
  rw [expire,hl]
  refine Maps.ext_row fun k' => ?_
  simp only [Maps.row,setWithTTL,set,putString,bumpVersion,deleteKey,Map.getElem?_insert]
  split <;> rfl

theorem holds_deleteExpired (h : s.HoldsCells f) (now : Int) :
    (s.deleteExpired now).HoldsCells fun k => Cell.live now (f k) := by
  intro k
  have hrow := h k
  simp only [Maps.row,Row.ofCell,Row.mk.injEq] at hrow ⊢
  simp [deleteExpired,Std.ExtTreeMap.getElem?_filter,hrow,Cell.live]

end MemoryStore
end GoRedis
