import GoRedis.Storage.Edits
/-!
# What one operation changes

Changes of a deadline, a result that is stored empty and a hash that `HDel` empties do not
count up the version. With them every operation but the sweep and `Flush` is accounted for.
-/
namespace GoRedis
variable {F : Type}

namespace Slot

/-- The string that a client sees. -/
def liveString (r : Slot F) (now : Int) : Option StrEntry :=
  r.string.filter fun e => !expired now e.expiresAt

/-- `Expire` on a slot, given the new deadline. -/
def expire (now d : Int) (r : Slot F) : Slot F :=
  match r.liveString now with
  | some e => r.setRow { r.toRow with string := some ⟨e.value,some d⟩ }
  | none => if r.typeOf now=none then r else r.setRow { r.toRow with expiry := some d }

/-- `GetEx` on a slot, given the new deadline. -/
def getEx (now d : Int) (persist hasTTL : Bool) (r : Slot F) : Slot F :=
  match r.liveString now with
  | none => r
  | some e =>
    if persist then r.setRow { r.toRow with string := some ⟨e.value,none⟩ }
    else if hasTTL then r.setRow { r.toRow with string := some ⟨e.value,some d⟩ }
    else r

/-- `Persist` on a slot. -/
def persist (now : Int) (r : Slot F) : Slot F :=
  match (r.liveString now).filter fun e => e.expiresAt.isSome with
  | some e => r.setRow { r.toRow with string := some ⟨e.value,none⟩ }
  | none =>
    if r.typeOf now=none ∨ r.typeOf now=some .string then r
    else r.setRow { r.toRow with expiry := none }

theorem liveString_eq_some {r : Slot F} {now : Int} {e : StrEntry} (h : r.liveString now=some e) :
    r.string=some e ∧ expired now e.expiresAt=false := by
  simpa [liveString,Option.filter_eq_some_iff] using h

theorem collection_of_liveString {r : Slot F} {now : Int} (h : r.liveString now=none)
    (ht : r.typeOf now ≠ none) : r.Collection := by
  obtain ⟨t,ht⟩ := Option.ne_none_iff_exists'.mp ht
  refine Row.collection_of_typeOf ht ?_
  rintro rfl
  obtain ⟨e,he,hlive⟩ := (Row.typeOf_eq_string_iff _ _).mp ht
  simp [liveString,he,hlive] at h

theorem quiet_expire (now d : Int) (r : Slot F) : Quiet now r (r.expire now d) := by
  unfold expire
  split
  · rename_i e he
    obtain ⟨hs,hlive⟩ := liveString_eq_some he
    exact .stamp r e _ hs hlive
  · split
    · exact .keep r
    · exact .deadline r _ (collection_of_liveString ‹_› ‹_›)

theorem quiet_getEx (now d : Int) (p h : Bool) (r : Slot F) : Quiet now r (r.getEx now d p h) := by
  unfold getEx
  split
  · exact .keep r
  · rename_i e he
    obtain ⟨hs,hlive⟩ := liveString_eq_some he
    split_ifs
    · exact .stamp r e _ hs hlive
    · exact .stamp r e _ hs hlive
    · exact .keep r

theorem quiet_persist (now : Int) (r : Slot F) : Quiet now r (r.persist now) := by
  unfold persist
  split
  · rename_i e he
    obtain ⟨hs,hlive⟩ := liveString_eq_some (Option.filter_eq_some_iff.mp he).1
    exact .stamp r e _ hs hlive
  · split
    · exact .keep r
    · rename_i ht
      rw [not_or] at ht
      obtain ⟨t,htype⟩ := Option.ne_none_iff_exists'.mp ht.1
      refine .deadline r _ (Row.collection_of_typeOf htype ?_)
      rintro rfl
      exact ht.2 htype

end Slot

namespace MemoryStore
open Slot
variable {now : Int} {fills : Prop} {s s' : MemoryStore F} {k : Bytes}

theorem update_slot_self (s : MemoryStore F) (k : Bytes) :
    Function.update s.slot k (s.slot k)=s.slot := Function.update_eq_self k s.slot

theorem slot_expire (s : MemoryStore F) (now : Int) (k : Bytes) (ttl : Int) :
    (s.expire now k ttl).2.slot=Function.update s.slot k ((s.slot k).expire now (now+ttl)) := by
  have hlive : (s.slot k).liveString now=s.liveString now k := rfl
  unfold expire Slot.expire
  rw [hlive,typeOf_eq_slot]
  cases s.liveString now k with
  | some e => exact slot_putString s k _
  | none =>
    dsimp only
    split_ifs
    · exact (update_slot_self s k).symm
    · exact slot_keyExpiry s k _

theorem slot_getEx (s : MemoryStore F) (now : Int) (k : Bytes) (ttl : Int) (p h : Bool) :
    (s.getEx now k ttl p h).2.slot=
      Function.update s.slot k ((s.slot k).getEx now (now+ttl) p h) := by
  have hlive : (s.slot k).liveString now=s.liveString now k := rfl
  unfold getEx Slot.getEx
  rw [hlive]
  cases s.liveString now k with
  | none => exact (update_slot_self s k).symm
  | some e =>
    dsimp only
    split_ifs
    · exact slot_putString s k _
    · exact slot_putString s k _
    · exact (update_slot_self s k).symm

theorem slot_persist (s : MemoryStore F) (now : Int) (k : Bytes) :
    (s.persist now k).2.slot=Function.update s.slot k ((s.slot k).persist now) := by
  have hlive : (s.slot k).liveString now=s.liveString now k := rfl
  unfold persist Slot.persist
  rw [hlive,← typeOf_eq_slot]
  cases (s.liveString now k).filter fun e => e.expiresAt.isSome with
  | some e => exact slot_putString s k _
  | none =>
    dsimp only
    split_ifs with ht hk
    · exact (update_slot_self s k).symm
    · exact slot_keyExpiry_erase s k
    · -- there is no deadline to take away
      have hnone : s.keyExpiry[k]?=none := by
        rwa [Std.ExtTreeMap.mem_iff_isSome_getElem?,Bool.not_eq_true,Option.isSome_eq_false_iff,
          Option.isNone_iff_eq_none] at hk
      refine (update_slot_self s k).symm.trans (congrArg _ ?_)
      simp [slot,setRow,Maps.row,hnone]

theorem slot_hDel {h : Map Bytes} (hh : s.liveHash now k=some h) (fields : List Bytes) :
    (s.hDel now k fields).2.slot=Function.update s.slot k
      (if (fields.foldl hDelField (0,h)).2.isEmpty then
        (s.slot k).forgotten
      else ((s.slot k).setRow
        ((Value.hash (fields.foldl hDelField (0,h)).2).into (s.toMaps.row k))).bump) := by
  unfold hDel
  simp only [hh]
  split
  · exact slot_dropHash s k
  · exact slot_hashes s k _

theorem liveHash_eq_some {h : Map Bytes} (hh : s.liveHash now k=some h) :
    expired now (s.slot k).expiry=false ∧ (s.slot k).hash=some h := by
  unfold Maps.liveHash at hh
  split at hh
  · cases hh
  · rename_i hexp
    exact ⟨(Bool.not_eq_true _).mp hexp,hh⟩

theorem edits_hDel {h : Map Bytes} {fields : List Bytes} (hh : s.liveHash now k=some h)
    (hne : ¬(fields.foldl hDelField (0,h)).2.isEmpty=true) :
    Edits now fills s (s.hDel now k fields).2 := by
  have hslot := slot_hDel hh fields
  rw [if_neg hne] at hslot
  refine .one (.put _ (.hash _) (.inl (.inl ?_)) fun _ he => hne (by rw [he]; rfl)) hslot
  rw [(liveHash_eq_some hh).2]
  rfl

end MemoryStore

/-- A hash or sorted set that the operation writes to has an element before or after. -/
def StoreOp.Fills (s : MemoryStore F) : StoreOp F → Prop
  | hSet k fields => fields ≠ ∅ ∨ s.hashes.getD k ∅ ≠ ∅
  | zAdd k ms fl => ms ≠ [] ∧ fl.xx=false ∨ s.zsets.getD k ∅ ≠ ∅
  | _ => True

namespace MemoryStore
open Slot
variable {now : Int} {op : StoreOp F} {s s' : MemoryStore F}

/-- What an operation changed: edits that count up versions, a `Rename` to another key, or one
edit that leaves the version alone, or a hash that `HDel` emptied. -/
inductive Change (now : Int) (op : StoreOp F) (s s' : MemoryStore F) : Prop
  | edits (h : Edits now (op.Fills s) s s')
  | move (src dst : Bytes) (t : KeyType) (hop : op=.rename src dst) (hne : src ≠ dst)
      (ht : s.typeOf now src=some t) (hs : s'.slot=Slot.move t src dst s.slot)
  | quiet (k : Bytes) (r : Slot F) (h : Quiet now (s.slot k) r)
      (hs : s'.slot=Function.update s.slot k r)
  | forget (k : Bytes) (fields : List Bytes) (h : Map Bytes) (hop : op=.hDel k fields)
      (hh : s.liveHash now k=some h) (hall : (fields.foldl hDelField (0,h)).2.isEmpty=true)
      (hs : s'.slot=Function.update s.slot k (s.slot k).forgotten)

theorem Change.invariant {now : Int} {op : StoreOp F} {s s' : MemoryStore F} {I : Slot F → Prop}
    (h : Change now op s s') (hedit : ∀ r r', Edit now (op.Fills s) r r' → I r → I r')
    (hmove : ∀ k t, s.typeOf now k=some t →
      I (Slot.left t (s.slot k)) ∧ ∀ r, I (Slot.moved t (s.slot k) r))
    (hquiet : ∀ r r', Quiet now r r' → I r → I r') (hforget : ∀ r, I r → I r.forgotten)
    (hs : ∀ k, I (s.slot k)) : ∀ k, I (s'.slot k) := by
  cases h with
  | edits h =>
    obtain ⟨ks,_,hsteps⟩ := h
    exact fun k => hsteps.invariant hedit (hs k)
  | move src dst t _ _ ht hslot =>
    obtain ⟨hleft,hmoved⟩ := hmove src t ht
    rw [hslot]
    refine (Function.forall_update_iff _ fun _ r => I r).mpr ⟨hleft,fun k _ => ?_⟩
    exact (Function.forall_update_iff _ fun _ r => I r).mpr ⟨hmoved _,fun k _ => hs k⟩ k
  | quiet k' r hq hslot =>
    rw [hslot]
    exact (Function.forall_update_iff _ fun _ r => I r).mpr
      ⟨hquiet _ _ hq (hs k'),fun k _ => hs k⟩
  | forget k' fields f _ _ _ hslot =>
    rw [hslot]
    exact (Function.forall_update_iff _ fun _ r => I r).mpr ⟨hforget _ (hs k'),fun k _ => hs k⟩

theorem change_hDel (s : MemoryStore F) (now : Int) (k : Bytes) (fields : List Bytes) :
    Change now (.hDel k fields) s (s.hDel now k fields).2 := by
  cases hh : s.liveHash now k with
  | none =>
    unfold hDel
    rw [hh]
    exact .edits (.refl s)
  | some h =>
    by_cases hall : (fields.foldl hDelField (0,h)).2.isEmpty=true
    · have hslot := slot_hDel hh fields
      rw [if_pos hall] at hslot
      exact .forget k fields h rfl hh hall hslot
    · exact .edits (edits_hDel hh hall)

theorem rename_cases {fills : Prop} {src dst : Bytes} {b : Bool}
    (h : s.rename now src dst=.ok (b,s')) :
    Edits now fills s s' ∨ ∃ t, src ≠ dst ∧ s.typeOf now src=some t ∧
      s'.slot=Slot.move t src dst s.slot := by
  cases ht : s.typeOf now src with
  | none =>
    rw [rename_none ht] at h
    cases h
    exact .inl (.refl s)
  | some t =>
    by_cases hne : src=dst
    · subst hne
      exact .inl (edits_rename_self ht h)
    · exact .inr ⟨t,hne,rfl,slot_rename hne ht h⟩

theorem change_storeMembers (s : MemoryStore F) (dst : Bytes)
    (members : Except StoreError (List Bytes)) :
    Change now op s (dropError s (s.storeMembers dst members)) := by
  unfold storeMembers
  split
  · exact .edits (.refl s)
  · dsimp only
    split
    · exact .quiet dst _ (.remove _) (slot_deleteKey s dst)
    · exact .edits (.one (.store _ (.set _) fun _ => trivial) (slot_storeSet s dst _))

theorem change_storeScores (s : MemoryStore F) (dst : Bytes) (scores : Except StoreError (Map F)) :
    Change now op s (dropError s (s.storeScores dst scores)) := by
  unfold storeScores
  split
  · exact .edits (.refl s)
  · dsimp only
    split
    · exact .quiet dst _ (.remove _) (slot_deleteKey s dst)
    · rename_i hne
      exact .edits (.one (.store _ (.zset _) fun _ he => hne (by rw [he]; rfl))
        (slot_storeZSet s dst _))

theorem change_zInterStore [Float64 F] (s : MemoryStore F) (now' : Int) (dst : Bytes)
    (keys : List Bytes) (weights : List F) (agg : Bytes) :
    Change now op s (dropError s (s.zInterStore now' dst keys weights agg)) := by
  unfold zInterStore
  split
  · exact .edits (.refl s)
  · split
    · exact .edits (.refl s)
    · exact change_storeScores s dst _

end MemoryStore

namespace StoreOp

/-- The operations made of edits that count up a version. -/
def Loud : StoreOp F → Prop
  | deleteExpired | flush | rename .. | getEx .. | expire .. | persist .. | hDel .. => False
  | sInterStore .. | sUnionStore .. | sDiffStore .. | zUnionStore .. | zInterStore .. => False
  | _ => True

variable {w : World} {s s' : MemoryStore F}
open MemoryStore

theorem edits_of_dropResult {α : Type} {fills : Prop}
    {r : Go (Except StoreError (α × MemoryStore F))}
    (hr : ∀ r', r=.ok r' → Edits w.now fills s (dropError s r'))
    (h : dropResult s r=.ok s') : Edits w.now fills s s' := by
  cases r with
  | error p => cases h
  | ok r' =>
    cases h
    exact hr r' rfl

variable [Float64 F]

theorem apply_edits {op : StoreOp F} (hop : op.Loud) (h : op.apply w s=.ok s') :
    Edits w.now (op.Fills s) s s' := by
  have hok : ∀ {u : MemoryStore F}, Edits w.now (op.Fills s) s u →
      (.ok u : Go (MemoryStore F))=.ok s' → Edits w.now (op.Fills s) s s' := by
    rintro u hu ⟨⟩
    exact hu
  cases op with
  | deleteExpired | flush | rename | getEx | expire | persist | hDel => exact hop.elim
  | sInterStore | sUnionStore | sDiffStore | zUnionStore | zInterStore => exact hop.elim
  | read => exact hok (.refl s) h
  | set k v => exact hok (edits_setString _) h
  | setWithTTL k v ttl => exact hok (edits_setString _) h
  | setAdv k v ttl opts => exact hok (edits_setAdv s k v ttl opts) h
  | del ks => exact hok (edits_del s w.now ks) h
  | hSet k fields => exact hok (edits_hSet s k fields id) h
  | lPush k v vs => exact hok (edits_lPush s k _) h
  | rPush k v vs => exact hok (edits_rPush s k _) h
  | lPop k n => exact edits_of_dropResult (fun _ => edits_popList) h
  | rPop k n => exact edits_of_dropResult (fun _ => edits_popList) h
  | lSet k i v => exact hok (edits_lSet s k i v) h
  | lInsert k before pivot v => exact hok (edits_lInsert s k before pivot v) h
  | lRem k n v => exact hok (edits_lRem s k n v) h
  | lTrim k a b => exact hok (edits_lTrim s k a b) h
  | lMove src dst a b => exact hok (edits_lMove s src dst a b) h
  | sAdd k xs => exact hok (edits_sAdd s k xs) h
  | sRem k xs => exact hok (edits_sRem s k xs) h
  | sPop k n => exact edits_of_dropResult (fun _ => edits_sPop) h
  | sMove src dst x => exact hok (edits_sMove s src dst x) h
  | zAdd k ms fl => exact hok (edits_zAdd s k ms fl id) h
  | zRem k xs => exact hok (edits_zRem s k xs) h
  | zIncrBy k incr x => exact hok (edits_zIncrBy s k incr x) h
  | zPopMin k n => exact edits_of_dropResult (fun _ => edits_popZSet) h
  | zPopMax k n => exact edits_of_dropResult (fun _ => edits_popZSet) h

theorem apply_change {op : StoreOp F} (hsweep : op ≠ .deleteExpired) (hflush : op ≠ .flush)
    (h : op.apply w s=.ok s') : Change w.now op s s' := by
  have hok : ∀ {u : MemoryStore F}, Change w.now op s u →
      (.ok u : Go (MemoryStore F))=.ok s' → Change w.now op s s' := by
    rintro u hu ⟨⟩
    exact hu
  cases op with
  | deleteExpired => exact absurd rfl hsweep
  | flush => exact absurd rfl hflush
  | rename src dst =>
    simp only [apply] at h
    split at h
    · cases h
    · rename_i b u hu
      cases h
      rcases rename_cases hu with hedits | ⟨t,hne,ht,hslot⟩
      · exact .edits hedits
      · exact .move src dst t rfl hne ht hslot
  | getEx k ttl p b => exact hok (.quiet k _ (Slot.quiet_getEx _ _ _ _ _) (slot_getEx s _ k ttl p b)) h
  | expire k ttl => exact hok (.quiet k _ (Slot.quiet_expire _ _ _) (slot_expire s _ k ttl)) h
  | persist k => exact hok (.quiet k _ (Slot.quiet_persist _ _) (slot_persist s _ k)) h
  | hDel k fields => exact hok (change_hDel s w.now k fields) h
  | sInterStore dst ks => exact hok (change_storeMembers s dst _) h
  | sUnionStore dst ks => exact hok (change_storeMembers s dst _) h
  | sDiffStore dst ks => exact hok (change_storeMembers s dst _) h
  | zUnionStore dst ks ws agg => exact hok (change_storeScores s dst _) h
  | zInterStore dst ks ws agg => exact hok (change_zInterStore s w.now dst ks ws agg) h
  | _ => exact .edits (apply_edits (by trivial) h)

end StoreOp
end GoRedis
