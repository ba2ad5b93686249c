import GoRedis.Commands.Router
import GoRedis.Storage.SetAlgebra
/-!
# The order in which maps are visited

Go visits a map in an order of its own choosing. Commands that list a map reply in that
order; for all others, those that draw members at random excepted, it makes no difference.
-/
namespace GoRedis

/-- The same surroundings but for the order in which maps are visited. -/
structure World.SameChoices (w w' : World) : Prop where
  now : w.now=w'.now
  later : w.later=w'.later
  shuffle : w.shuffle=w'.shuffle
  intN : w.intN=w'.intN
  filepathMatch : w.filepathMatch=w'.filepathMatch
  wholeSeconds : w.wholeSeconds=w'.wholeSeconds
  runtime : w.runtime=w'.runtime
  publish : w.publish=w'.publish

/-- The surroundings with maps visited in another order. -/
def World.reorder (w : World) (order : List Bytes → List Bytes) (h : ∀ l, (order l).Perm l) :
    World := { w with rangeOrder := order,rangeOrder_perm := h }

theorem World.SameChoices.refl (w : World) : w.SameChoices w := ⟨rfl,rfl,rfl,rfl,rfl,rfl,rfl,rfl⟩

theorem World.SameChoices.eq_reorder {w w' : World} (h : w.SameChoices w') :
    w'=w.reorder w'.rangeOrder w'.rangeOrder_perm := by
  obtain ⟨h₁,h₂,h₃,h₄,h₅,h₆,h₇,h₈⟩ := h
  cases w
  cases w'
  cases h₁
  cases h₂
  cases h₃
  cases h₄
  cases h₅
  cases h₆
  cases h₇
  cases h₈
  rfl

theorem World.SameChoices.eq {w w' : World} (h : w.SameChoices w')
    (ho : w.rangeOrder=w'.rangeOrder) : w'=w := by
  rw [h.eq_reorder]
  cases w
  cases ho
  rfl

/-- The same error, or the same elements in some order. -/
inductive SameListing {α : Type} :
    Except StoreError (List α) → Except StoreError (List α) → Prop
  | error (e : StoreError) : SameListing (.error e) (.error e)
  | ok {l l' : List α} (h : l.Perm l') : SameListing (.ok l) (.ok l')

theorem SameListing.refl {α : Type} (r : Except StoreError (List α)) : SameListing r r := by
  cases r with
  | error e => exact .error e
  | ok l => exact .ok (.refl l)

theorem SameListing.trans {α : Type} {r₁ r₂ r₃ : Except StoreError (List α)}
    (h₁ : SameListing r₁ r₂) (h₂ : SameListing r₂ r₃) : SameListing r₁ r₃ := by
  cases h₁ with
  | error e => exact h₂
  | ok h =>
    cases h₂ with
    | ok h' => exact .ok (h.trans h')

/-- The same reply, the elements or the pairs of an array in another order. -/
inductive Response.Reordered : Response → Response → Prop
  | same (r : Response) : Reordered r r
  | bulks {vs vs' : List Bytes} (h : vs.Perm vs') : Reordered (.bulks vs) (.bulks vs')
  | pairs {ps ps' : List (Bytes × Bytes)} (h : ps.Perm ps') :
      Reordered (.bulks (ps.flatMap fun p => [p.1,p.2])) (.bulks (ps'.flatMap fun p => [p.1,p.2]))

theorem Response.Reordered.symm {r r' : Response} (h : r.Reordered r') : r'.Reordered r := by
  cases h with
  | same r => exact .same r
  | bulks h => exact .bulks h.symm
  | pairs h => exact .pairs h.symm

theorem SameListing.reply {r r' : Except StoreError (List Bytes)} (h : SameListing r r') :
    (replyOf .bulks r).Reordered (replyOf .bulks r') := by
  cases h with
  | error e => exact .same _
  | ok h => exact .bulks h

namespace Maps
variable {F : Type} {m : Maps F}

section Reorder
variable {w : World} {order : List Bytes → List Bytes}

theorem rangeOrder_perm_rangeOrder (w w' : World) (l : List Bytes) :
    (w.rangeOrder l).Perm (w'.rangeOrder l) := (w.rangeOrder_perm l).trans (w'.rangeOrder_perm l).symm

variable (ho : ∀ l, (order l).Perm l)

theorem hGetAll_reorder (k : Bytes) :
    (m.hGetAll (w.reorder order ho) k).Perm (m.hGetAll w k) := by
  unfold hGetAll
  rw [show (w.reorder order ho).now=w.now from rfl]
  cases m.liveHash w.now k with
  | none => exact .nil
  | some h => exact (rangeOrder_perm_rangeOrder _ w h.keys).map _

theorem sMembers_reorder (k : Bytes) :
    SameListing (m.sMembers (w.reorder order ho) k) (m.sMembers w k) := by
  unfold sMembers
  rw [show (w.reorder order ho).now=w.now from rfl]
  rcases m.getSet w.now k with e | _ | st
  · exact .error e
  · exact .ok .nil
  · exact .ok (rangeOrder_perm_rangeOrder _ w st.toList)

theorem members_reorder (op : SetOp) (ks : List Bytes) :
    SameListing (op.members m (w.reorder order ho) ks) (op.members m w ks) := by
  have htype : ∀ j, m.typeOf (w.reorder order ho).now j=m.typeOf w.now j := fun _ => rfl
  rcases op.members_alike htype ks with ⟨hrun,hrun'⟩ | ⟨xs,ys,hrun,hrun',hperm⟩
  · rw [hrun,hrun']
    exact .error _
  · rw [hrun,hrun']
    exact .ok hperm

theorem setInter_reorder (ks : List Bytes) :
    SameListing (m.setInter (w.reorder order ho) ks) (m.setInter w ks) :=
  members_reorder ho .inter ks

theorem setUnion_reorder (ks : List Bytes) :
    SameListing (m.setUnion (w.reorder order ho) ks) (m.setUnion w ks) :=
  members_reorder ho .union ks

theorem setDiff_reorder (ks : List Bytes) :
    SameListing (m.setDiff (w.reorder order ho) ks) (m.setDiff w ks) :=
  members_reorder ho .diff ks

end Reorder
end Maps

namespace MemoryStore
variable {F : Type}

theorem storeMembers_congr {r r' : Except StoreError (List Bytes)} (h : SameListing r r')
    (s : MemoryStore F) (dst : Bytes) : s.storeMembers dst r=s.storeMembers dst r' := by
  cases h with
  | error e => rfl
  | @ok l l' h =>
    have hset : l.foldl (fun acc x => acc.insert x) (∅ : KeySet)=
        l'.foldl (fun acc x => acc.insert x) ∅ := by
      apply Std.ExtTreeSet.ext_mem
      intro x
      rw [KeySet.mem_foldl_insert,KeySet.mem_foldl_insert,h.mem_iff]
    have hnil : l=[] ↔ l'=[] := by
      rw [← List.length_eq_zero_iff,h.length_eq,List.length_eq_zero_iff]
    simp only [storeMembers,hset,h.length_eq,hnil]

end MemoryStore

namespace Command

/-- The commands that reply with the elements of a map as `range` visits them. -/
def lists : Command → Bool
  | read .hgetall | read .hkeys | read .hvals | read .smembers => true
  | read .sinter | read .sunion | read .sdiff => true
  | _ => false

/-- The commands that draw members at random from the order in which `range` visits them. -/
def draws : Command → Bool
  | read .srandmember | write .spop => true
  | _ => false

end Command

section
variable {F : Type} [Float64 F] {w : World} {order : List Bytes → List Bytes}
  (ho : ∀ l, (order l).Perm l) {args : List Bytes}

theorem answer_reorder_lists {c : ReadCommand} (hc : (Command.read c).lists=true) (w : World)
    (args : List Bytes) (m : Maps F) :
    ∃ r r', answer (w.reorder order ho) c args m=.ok r ∧ answer w c args m=.ok r' ∧
      r.Reordered r' := by
  cases c
  case hgetall =>
    refine ⟨_,_,rfl,rfl,?_⟩
    unfold handleHGetAll
    split
    · exact .pairs (Maps.hGetAll_reorder ho _)
    · exact .same _
  case hkeys =>
    refine ⟨_,_,rfl,rfl,?_⟩
    unfold handleHKeys
    split
    · exact .bulks ((Maps.hGetAll_reorder ho _).map _)
    · exact .same _
  case hvals =>
    refine ⟨_,_,rfl,rfl,?_⟩
    unfold handleHVals
    split
    · exact .bulks ((Maps.hGetAll_reorder ho _).map _)
    · exact .same _
  case smembers =>
    refine ⟨_,_,rfl,rfl,?_⟩
    unfold handleSMembers
    split
    · exact (Maps.sMembers_reorder ho _).reply
    · exact .same _
  case sinter =>
    refine ⟨_,_,rfl,rfl,?_⟩
    unfold handleSInter handleSetOp
    split
    · exact (Maps.setInter_reorder ho _).reply
    · exact .same _
  case sunion =>
    refine ⟨_,_,rfl,rfl,?_⟩
    unfold handleSUnion handleSetOp
    split
    · exact (Maps.setUnion_reorder ho _).reply
    · exact .same _
  case sdiff =>
    refine ⟨_,_,rfl,rfl,?_⟩
    unfold handleSDiff handleSetOp
    split
    · exact (Maps.setDiff_reorder ho _).reply
    · exact .same _
  all_goals cases hc

theorem answer_reorder {c : ReadCommand} (hg : (Command.read c) ≠ .read .keys)
    (hl : (Command.read c).lists=false) (hd : (Command.read c).draws=false) (m : Maps F) :
    answer (w.reorder order ho) c args m=answer w c args m := by
  cases c
  case keys => exact absurd rfl hg
  case srandmember => cases hd
  case hgetall | hkeys | hvals | smembers | sinter | sunion | sdiff => cases hl
  all_goals rfl

theorem execute_reorder {c : WriteCommand} (hd : (Command.write c).draws=false)
    (s : MemoryStore F) : execute (w.reorder order ho) c args s=execute w c args s := by
  cases c
  case spop => cases hd
  case sinterstore | sunionstore | sdiffstore =>
    simp only [execute,handleSInterStore,handleSUnionStore,handleSDiffStore,handleSetOpStore,
      MemoryStore.sInterStore,MemoryStore.sUnionStore,MemoryStore.sDiffStore,
      MemoryStore.storeMembers_congr (Maps.setInter_reorder ho _),
      MemoryStore.storeMembers_congr (Maps.setUnion_reorder ho _),
      MemoryStore.storeMembers_congr (Maps.setDiff_reorder ho _)]
  all_goals rfl

end
end GoRedis
