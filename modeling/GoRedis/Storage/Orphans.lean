import GoRedis.Storage.Changes
/-!
# No deadline without a key

`keyExpiry` keeps the deadlines of the four maps whose entries have none of their own. An
entry there always belongs to a key of one of them. The proof carries a second fact along:
a string beside a collection has expired, and stays so while the clock does not run backwards.
Without it `Rename` of a live string would take the deadline of the collection with it.
-/
namespace GoRedis
variable {F : Type}

namespace Row

/-- What the operations keep of every row, at an instant. -/
structure Owned (now : Int) (r : Row F) : Prop where
  /-- a string beside a collection has expired -/
  shadow : r.Collection → r.NoString now
  /-- a deadline belongs to a collection -/
  owner : r.expiry.isSome → r.Collection

theorem owned_absent (now : Int) : (absent : Row F).Owned now :=
  ⟨fun _ _ h => by simp [absent] at h,fun h => by simp [absent] at h⟩

theorem Owned.later {now now' : Int} {r : Row F} (h : r.Owned now) (hle : now ≤ now') :
    r.Owned now' := by
  refine ⟨fun hc e he => ?_,h.owner⟩
  have hexp := h.shadow hc e he
  cases hd : e.expiresAt with
  | none => simp [hd,expired] at hexp
  | some d =>
    simp only [hd,expired,decide_eq_true_eq] at hexp ⊢
    omega

theorem Owned.of_live {now : Int} {r : Row F} (h : r.Owned now) {e : StrEntry}
    (he : r.string=some e) (hlive : expired now e.expiresAt=false) :
    ¬r.Collection ∧ r.expiry=none := by
  have hc : ¬r.Collection := fun hc => by simp [h.shadow hc e he] at hlive
  exact ⟨hc,by simpa using fun hs => hc (h.owner hs)⟩

theorem Collection.into {r : Row F} (h : r.Collection) (v : Value F) : (v.into r).Collection := by
  unfold Collection at h ⊢
  cases v <;> simp_all [Value.into]

theorem Owned.drop {now : Int} {r : Row F} (h : r.Owned now) (t : KeyType) :
    (r.drop t).Owned now := by
  have hc : (r.drop t).Collection → r.Collection := by
    unfold Collection
    cases t <;> simp [Row.drop] <;> tauto
  refine ⟨fun hd e he => ?_,fun hs => ?_⟩
  · refine h.shadow (hc hd) e ?_
    cases t <;> simp_all [Row.drop]
  · cases t <;> simp [Row.drop] at hs

theorem Owned.only {now : Int} {r : Row F} (h : r.Owned now) {t : KeyType}
    (ht : r.typeOf now=some t) : (r.only t).Owned now := by
  have hsome := isSome_of_typeOf ht
  cases t with
  | string =>
    obtain ⟨e,he,hlive⟩ := (typeOf_eq_string_iff r now).mp ht
    have hnone := (h.of_live he hlive).2
    exact ⟨fun hc => by simp [Collection,Row.only] at hc,fun hs => by simp [Row.only,hnone] at hs⟩
  | hash => exact ⟨fun _ _ he => by simp [Row.only] at he,fun _ => .inl hsome⟩
  | list => exact ⟨fun _ _ he => by simp [Row.only] at he,fun _ => .inr (.inl hsome)⟩
  | set => exact ⟨fun _ _ he => by simp [Row.only] at he,fun _ => .inr (.inr (.inl hsome))⟩
  | zset => exact ⟨fun _ _ he => by simp [Row.only] at he,fun _ => .inr (.inr (.inr hsome))⟩

end Row

namespace Slot
variable {now : Int} {fills : Prop} {r r' : Slot F}

theorem Edit.owned (h : Edit now fills r r') (hr : r.Owned now) : r'.Owned now := by
  cases h with
  | string e =>
    exact ⟨fun hc => by simp [Row.Collection,Row.absent] at hc,fun hs => by simp [Row.absent] at hs⟩
  | store v =>
    refine ⟨fun _ e he => ?_,fun hs => ?_⟩
    · cases v <;> simp [Value.into,Row.absent] at he
    · cases v <;> simp [Value.into,Row.absent] at hs
  | remove => exact Row.owned_absent now
  | put v hs =>
    have hstring : (v.into r.toRow).string=r.string := by cases v <;> rfl
    have hexpiry : (v.into r.toRow).expiry=r.expiry := by cases v <;> rfl
    refine ⟨fun _ e he => ?_,fun hd => ?_⟩
    · have he' : r.string=some e := hstring.symm.trans he
      exact hs.elim (fun hc => hr.shadow hc e he') fun hno => hno e he'
    · exact (hr.owner (by rwa [← hexpiry])).into v
  | putHash f =>
    exact ⟨fun _ _ he => by simp at he,fun _ => .inl rfl⟩
  | drop t => exact hr.drop t

theorem Quiet.owned (h : Quiet now r r') (hr : r.Owned now) : r'.Owned now := by
  cases h with
  | keep => exact hr
  | remove => exact Row.owned_absent now
  | stamp e d he hlive =>
    obtain ⟨hc,hnone⟩ := hr.of_live he hlive
    exact ⟨fun hc' => absurd hc' hc,fun hs => by simp [hnone] at hs⟩
  | deadline d hc => exact ⟨fun _ => hr.shadow hc,fun _ => hc⟩

theorem owned_sweep (hr : r.Owned now) : (r.sweep now).Owned now := by
  cases hexp : expired now r.expiry with
  | true =>
    exact ⟨fun hc => by simp [Row.Collection,sweep,hexp] at hc,fun hs => by simp [sweep,hexp] at hs⟩
  | false =>
    have hsame : (r.sweep now).Collection → r.Collection := by
      unfold Row.Collection
      simp [sweep,hexp]
    refine ⟨fun hc e he => ?_,fun hs => ?_⟩
    · obtain ⟨he',_⟩ := Option.filter_eq_some_iff.mp (show (r.string.filter _)=some e from he)
      exact hr.shadow (hsame hc) e he'
    · have := hr.owner (by simpa [sweep,hexp] using hs)
      unfold Row.Collection at this ⊢
      simpa [sweep,hexp] using this

end Slot

namespace MemoryStore
variable {now : Int} {op : StoreOp F} {s s' : MemoryStore F}

/-- Every row is owned. -/
def Owned (s : MemoryStore F) (now : Int) : Prop := ∀ k, (s.slot k).Owned now

theorem owned_new (now : Int) : (new : MemoryStore F).Owned now := by
  intro k
  have habsent : (new : MemoryStore F).toMaps.row k=.absent := by
    simp [new,Maps.empty,Maps.row,Row.absent]
  rw [slot_toRow,habsent]
  exact Row.owned_absent now

theorem Change.owned (h : Change now op s s') (hs : s.Owned now) : s'.Owned now := by
  apply h.invariant (fun _ _ he => he.owned) _ (fun _ _ hq => hq.owned) (fun r hr => hr.drop .hash) hs
  intro k t ht
  rw [typeOf_eq_slot] at ht
  exact ⟨(hs k).drop t,fun _ => (hs k).only ht⟩

/-- A key outside the four maps gets no deadline with what is written to it, unless `Rename`
brings one along. -/
theorem Change.expiry_none {k : Bytes} (h : Change now op s s') (hop : ∀ src, op ≠ .rename src k)
    (hk : ¬(s.slot k).Collection) (hnone : (s.slot k).expiry=none) : (s'.slot k).expiry=none := by
  cases h with
  | edits h =>
    obtain ⟨ks,_,hsteps⟩ := h
    refine hsteps.invariant (I := fun r => r.expiry=none) (fun r r' he hr => ?_) hnone
    cases he with
    | store v | put v => cases v <;> first | exact hr | rfl
    | putHash => exact hr
    | drop t => cases t <;> rfl
    | _ => rfl
  | move src dst t hren hne ht hslot =>
    rw [hslot]
    by_cases hs : k=src
    · rw [hs,Slot.move_src]
      cases t <;> rfl
    · by_cases hd : k=dst
      · exact absurd (hd ▸ hren) (hop src)
      · rw [Slot.move_of_ne hs hd]
        exact hnone
  | quiet k' r hq hslot =>
    rw [hslot]
    by_cases hkk : k=k'
    · subst hkk
      rw [Function.update_self]
      cases hq with
      | deadline d hc => exact absurd hc hk
      | keep | stamp => exact hnone
      | remove => rfl
    · rw [Function.update_of_ne hkk]
      exact hnone
  | forget k' fields h _ _ _ hslot =>
    rw [hslot]
    by_cases hkk : k=k'
    · rw [hkk,Function.update_self]
      rfl
    · rw [Function.update_of_ne hkk]
      exact hnone

end MemoryStore

theorem not_collection {s : MemoryStore F} {k : Bytes} (hh : k ∉ s.hashes) (hl : k ∉ s.lists)
    (hs : k ∉ s.sets) (hz : k ∉ s.zsets) : ¬(s.slot k).Collection := by
  rw [Std.ExtTreeMap.mem_iff_isSome_getElem?] at hh hl hs hz
  rintro (h | h | h | h)
  · exact hh h
  · exact hl h
  · exact hs h
  · exact hz h

section Machine
variable [Float64 F]
open MemoryStore

theorem StoreOp.step_owned {op : World × StoreOp F} {s s' : MemoryStore F}
    (hs : s.Owned op.1.now) (h : StoreOp.step op s=.ok s') : s'.Owned op.1.now := by
  obtain ⟨w,op⟩ := op
  by_cases hsweep : op=.deleteExpired
  · subst hsweep
    cases h
    intro k
    rw [slot_deleteExpired]
    exact Slot.owned_sweep (hs k)
  · by_cases hflush : op=.flush
    · subst hflush
      cases h
      exact owned_new w.now
    · exact (StoreOp.apply_change hsweep hflush h).owned hs

/-- The instants of a run do not decrease. -/
def ClockForward (ops : List (World × StoreOp F)) : Prop :=
  ops.Pairwise fun a b => a.1.now ≤ b.1.now

theorem run_owned {ops : List (World × StoreOp F)} {s s' : MemoryStore F} {now : Int}
    (hclock : ClockForward ops) (hnow : ∀ op ∈ ops, now ≤ op.1.now) (hs : s.Owned now)
    (hrun : Machine.run StoreOp.step ops s=.ok s') : ∃ t, s'.Owned t := by
  induction ops generalizing s now with
  | nil =>
    cases hrun
    exact ⟨now,hs⟩
  | cons op ops ih =>
    obtain ⟨u,hu,hrun⟩ := Machine.run_cons_ok.mp hrun
    obtain ⟨hfirst,hrest⟩ := List.pairwise_cons.mp hclock
    have hop : s.Owned op.1.now := fun k => (hs k).later (hnow op List.mem_cons_self)
    exact ih hrest hfirst (StoreOp.step_owned hop hu) hrun

/-- In every state that operations and sweeps lead to, at instants that do not decrease, a
deadline belongs to a key of one of the four maps. A key that is in none of them therefore has
none to pass on: what is written to it next has no deadline, unless it is renamed to it. -/
theorem no_orphan_deadline (ops : List (World × StoreOp F)) (s : MemoryStore F)
    (hclock : ClockForward ops) (hrun : Machine.run StoreOp.step ops .new=.ok s) :
    (∀ k ∈ s.keyExpiry, k ∈ s.hashes ∨ k ∈ s.lists ∨ k ∈ s.sets ∨ k ∈ s.zsets) ∧
    ∀ k, k ∉ s.hashes → k ∉ s.lists → k ∉ s.sets → k ∉ s.zsets →
      ∀ w op s', (∀ src, op ≠ .rename src k) → StoreOp.apply w s op=.ok s' → k ∉ s'.keyExpiry := by
  have howned : ∃ t, s.Owned t := by
    cases ops with
    | nil => exact run_owned hclock (by simp) (owned_new 0) hrun
    | cons op ops =>
      refine run_owned hclock (fun op' hop' => ?_) (owned_new op.1.now) hrun
      rcases List.mem_cons.mp hop' with rfl | hop'
      · exact le_refl _
      · exact (List.pairwise_cons.mp hclock).1 op' hop'
  obtain ⟨t,howned⟩ := howned
  refine ⟨fun k hk => ?_,fun k hh hl hs hz w op s' hop h => ?_⟩
  · simp only [Std.ExtTreeMap.mem_iff_isSome_getElem?] at hk ⊢
    exact (howned k).owner hk
  · have hk := not_collection hh hl hs hz
    have hnone : (s.slot k).expiry=none := by simpa using fun hd => hk ((howned k).owner hd)
    have hafter : (s'.slot k).expiry=none := by
      by_cases hsweep : op=.deleteExpired
      · subst hsweep
        cases h
        rw [slot_deleteExpired]
        simp only [Slot.sweep,hnone]
        exact ite_self _
      · by_cases hflush : op=.flush
        · subst hflush
          cases h
          simp [MemoryStore.flush,new,slot,Maps.row,Maps.empty]
        · exact (StoreOp.apply_change hsweep hflush h).expiry_none hop hk hnone
    rw [Std.ExtTreeMap.mem_iff_isSome_getElem?]
    change ¬(s'.slot k).expiry.isSome=true
    rw [hafter]
    exact Bool.false_ne_true

end Machine

/-- `SADD k x` and `EXPIRE k 5`, a second later: the deadline is that of the set. -/
theorem no_orphan_deadline_sadd :
    ∃ s, Machine.run StoreOp.step [(.plain 0,.sAdd [107] [[120]]),
        (.plain 1000000000,(.expire [107] 5000000000 : StoreOp Int))] .new=.ok s ∧
      ([107] : Bytes) ∈ s.keyExpiry ∧
      ∀ k ∈ s.keyExpiry, k ∈ s.hashes ∨ k ∈ s.lists ∨ k ∈ s.sets ∨ k ∈ s.zsets :=
  ⟨_,rfl,by decide,(no_orphan_deadline [(.plain 0,.sAdd [107] [[120]]),
    (.plain 1000000000,(.expire [107] 5000000000 : StoreOp Int))] _
    (by simp [ClockForward,World.plain]) rfl).1⟩

end GoRedis
