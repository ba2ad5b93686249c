import GoRedis.Lib.Loops
import GoRedis.Storage.Changes
/-!
# What `WATCH` can notice

`WATCH` compares versions. A change of what a client sees of a key goes unnoticed where an
operation leaves the version alone: the set and sorted set operations that store an empty
result delete the destination without counting, and a deadline in the past, which the unit
of a large `EXPIRE` wraps to, ends the key at once. Versions are also forgotten: by `Flush`,
by the sweep, and by `HDel` when it empties a hash.
-/
namespace GoRedis
variable {F : Type}

namespace Row

/-- The first of the four collections a key has, in the order of `typeOf`. -/
def collected (r : Row F) : Option (Value F) :=
  match r.hash,r.list,r.set,r.zset with
  | some h,_,_,_ => some (.hash h)
  | none,some l,_,_ => some (.list l)
  | none,none,some st,_ => some (.set st)
  | none,none,none,z => z.map .zset

/-- The type and the contents of the key, deadlines aside. -/
def contents (r : Row F) : Option (Value F) :=
  match r.string with
  | some e => some (.string e.value)
  | none => r.collected

/-- No deadline of the key has passed. -/
def Unexpired (r : Row F) (now : Int) : Prop :=
  expired now r.expiry=false ∧ ∀ e, r.string=some e → expired now e.expiresAt=false

theorem shown_eq_none_iff (r : Row F) (now : Int) : r.shown now=none ↔ r.typeOf now=none := by
  rw [shown,Option.map_eq_none_iff,view_eq_none_iff]

theorem view_of_live {r : Row F} {now : Int} {e : StrEntry} (he : r.string=some e)
    (hlive : expired now e.expiresAt=false) : r.view now=some (.string e.value,e.expiresAt) := by
  have ht : r.typeOf now=some .string := (typeOf_eq_string_iff r now).mpr ⟨e,he,hlive⟩
  simp [view,ht,he]

theorem view_of_noString {r : Row F} {now : Int} (h : r.NoString now) : r.view now=
    if expired now r.expiry then none else r.collected.map fun v => (v,r.expiry) := by
  obtain ⟨str,hs,l,st,z,x⟩ := r
  have hstr : (str.filter fun e => !expired now e.expiresAt)=none := by
    cases str with
    | none => rfl
    | some e => simp [Option.filter,h e rfl]
  unfold view typeOf collected
  rw [hstr]
  cases expired now x with
  | true => simp
  | false => cases hs <;> cases l <;> cases st <;> cases z <;> simp

theorem shown_of_live {r : Row F} {now : Int} {e : StrEntry} (he : r.string=some e)
    (hlive : expired now e.expiresAt=false) : r.shown now=some (.string e.value) := by
  rw [shown,view_of_live he hlive]
  rfl

theorem shown_of_noString {r : Row F} {now : Int} (h : r.NoString now) :
    r.shown now=if expired now r.expiry then none else r.collected := by
  rw [shown,view_of_noString h]
  split
  · rfl
  · rw [Option.map_map]
    exact congrFun Option.map_id _

theorem collected_ne_string (r : Row F) (v : Bytes) : r.collected ≠ some (.string v) := by
  unfold collected
  split <;> simp

theorem shown_dropHash_iff {r : Row F} {now : Int} {h : Map Bytes} (hh : r.hash=some h)
    (hexp : expired now r.expiry=false) :
    (r.drop .hash).shown now=r.shown now ↔ r.typeOf now ≠ some .hash := by
  by_cases hno : r.NoString now
  · have hcollected : r.collected=some (.hash h) := by simp [collected,hh]
    have hstr : (r.string.filter fun e => !expired now e.expiresAt)=none := by
      cases hs : r.string with
      | none => rfl
      | some e => simp [Option.filter,hno e hs]
    have ht : r.typeOf now=some .hash := by simp [typeOf,hstr,hexp,hh]
    have hdropped : (r.drop .hash).shown now=(r.drop .hash).collected :=
      shown_of_noString (r := r.drop .hash) hno
    rw [shown_of_noString hno,hexp,hdropped,hcollected]
    simp only [Bool.false_eq_true,if_false,ht,ne_eq,not_true_eq_false,iff_false]
    unfold collected
    split <;> simp_all [Row.drop]
  · simp only [NoString,not_forall] at hno
    obtain ⟨e,he,hlive⟩ := hno
    have hlive' : expired now e.expiresAt=false := by simpa using hlive
    rw [(typeOf_eq_string_iff r now).mpr ⟨e,he,hlive'⟩,shown_of_live he hlive']
    simpa using shown_of_live (r := r.drop .hash) he hlive'

theorem live_or_noString (r : Row F) (now : Int) :
    (∃ e, r.string=some e ∧ expired now e.expiresAt=false) ∨ r.NoString now := by
  by_cases h : r.NoString now
  · exact .inr h
  · simp only [NoString,not_forall] at h
    obtain ⟨e,he,hlive⟩ := h
    exact .inl ⟨e,he,by simpa using hlive⟩

theorem Unexpired.shown {r : Row F} {now : Int} (h : r.Unexpired now) :
    r.shown now=r.contents := by
  cases hs : r.string with
  | some e =>
    rw [shown_of_live hs (h.2 e hs)]
    simp [contents,hs]
  | none =>
    rw [shown_of_noString fun e he => by simp [hs] at he,h.1]
    simp [contents,hs]

end Row

theorem add_toUInt64_ne (v : UInt64) {n : Nat} (hpos : 0 < n) (hn : n < 2^64) :
    v+n.toUInt64 ≠ v := by
  intro h
  have hnat := congrArg UInt64.toNat h
  rw [UInt64.toNat_add,Nat.toUInt64_eq,UInt64.toNat_ofNat_of_lt' hn] at hnat
  have hv := v.toNat_lt
  omega

namespace Slot
variable {now : Int} {r : Slot F}

theorem liveString_of_live {e : StrEntry} (he : r.string=some e)
    (hlive : expired now e.expiresAt=false) : r.liveString now=some e := by
  rw [liveString,he]
  simp [Option.filter,hlive]

theorem liveString_of_noString (h : r.NoString now) : r.liveString now=none := by
  unfold liveString
  cases he : r.string with
  | none => rfl
  | some e => simp [Option.filter,h e he]

theorem view_sweep (r : Slot F) (now : Int) : (r.sweep now).view now=r.view now := by
  rcases r.live_or_noString now with ⟨e,he,hlive⟩ | hno
  · rw [Row.view_of_live he hlive]
    exact Row.view_of_live (by simp [sweep,he,Option.filter,hlive]) hlive
  · have hnone : (r.sweep now).string=none := by
      cases hs : r.string with
      | none => simp [sweep,hs]
      | some e => simp [sweep,hs,Option.filter,hno e hs]
    rw [Row.view_of_noString hno,Row.view_of_noString fun e he => by simp [hnone] at he]
    cases hexp : expired now r.expiry with
    | true =>
      simp only [sweep,hexp,if_true]
      rfl
    | false =>
      simp only [sweep,hexp,Bool.false_eq_true,if_false]
      rfl

theorem shown_sweep (r : Slot F) (now : Int) : (r.sweep now).shown now=r.shown now := by
  rw [Row.shown,view_sweep,Row.shown]

theorem sweep_of_unexpired (h : r.Unexpired now) : r.sweep now=r := by
  have hstring : (r.string.filter fun e => !expired now e.expiresAt)=r.string ∧
      (r.string.any fun e => expired now e.expiresAt)=false := by
    cases he : r.string with
    | none => exact ⟨rfl,rfl⟩
    | some e => simp [Option.filter,h.2 e he]
  simp only [sweep,h.1,hstring,Bool.false_eq_true,if_false,or_self]

theorem shown_stamp {e : StrEntry} (he : r.string=some e) (hlive : expired now e.expiresAt=false)
    (d : Option Int) :
    (r.setRow { r.toRow with string := some ⟨e.value,d⟩ }).shown now=r.shown now ↔
      expired now d=false := by
  rw [Row.shown_of_live he hlive]
  cases hd : expired now d with
  | false =>
    simp only [iff_true]
    exact Row.shown_of_live (e := ⟨e.value,d⟩) rfl hd
  | true =>
    simp only [reduceCtorEq,iff_false]
    rw [Row.shown_of_noString]
    · split_ifs
      · exact not_false
      · exact Row.collected_ne_string _ _
    · rintro _ ⟨⟩
      exact hd

theorem shown_deadline (hno : r.NoString now) (ht : r.typeOf now ≠ none) (d : Option Int) :
    (r.setRow { r.toRow with expiry := d }).shown now=r.shown now ↔ expired now d=false := by
  have hne : r.shown now ≠ none := fun h => ht ((r.shown_eq_none_iff now).mp h)
  have hshown := Row.shown_of_noString hno
  have hafter : (r.setRow { r.toRow with expiry := d }).shown now=
      if expired now d then none else r.collected :=
    Row.shown_of_noString (r := { r.toRow with expiry := d }) hno
  rw [hafter]
  rw [hshown] at hne ⊢
  cases hexp : expired now r.expiry with
  | true => simp [hexp] at hne
  | false =>
    rw [hexp] at hne
    cases expired now d with
    | false => simp
    | true => simpa [eq_comm] using hne

end Slot

namespace MemoryStore
variable {now : Int} {s s' : MemoryStore F} {k : Bytes}

/-- The type and the contents of `k` that a client sees. -/
def shown (s : MemoryStore F) (now : Int) (k : Bytes) : Option (Value F) := (s.slot k).shown now

/-- A change of `k` that a client sees shows in its version. -/
def Noticed (s s' : MemoryStore F) (now : Int) (k : Bytes) : Prop :=
  s'.shown now k ≠ s.shown now k → s'.version k ≠ s.version k

theorem noticed_of_slot (h : s'.slot k=s.slot k) : Noticed s s' now k := by
  intro hne
  exact absurd (by rw [shown,h,shown]) hne

theorem Edits.noticed {fills : Prop} (h : Edits now fills s s') (k : Bytes) :
    Noticed s s' now k := by
  obtain ⟨ks,hcount,hsteps⟩ := h
  by_cases hk : k ∈ ks
  · intro _
    rw [version_eq_slot,version_eq_slot,hsteps.version k]
    exact add_toUInt64_ne _ (List.count_pos_iff.mpr hk) ((hcount k).trans_lt (by decide))
  · exact noticed_of_slot (hsteps.frame hk)

theorem version_move {src dst : Bytes} {t : KeyType} (hne : src ≠ dst)
    (hs : s'.slot=Slot.move t src dst s.slot) (k : Bytes) :
    (k=src ∨ k=dst) ∧ s'.version k=s.version k+1 ∨ s'.slot k=s.slot k := by
  by_cases hk : k=src
  · subst hk
    refine .inl ⟨.inl rfl,?_⟩
    rw [version_eq_slot,version_eq_slot,hs,Slot.move_src]
    rfl
  · by_cases hd : k=dst
    · subst hd
      refine .inl ⟨.inr rfl,?_⟩
      rw [version_eq_slot,version_eq_slot,hs,Slot.move_dst hne]
      rfl
    · refine .inr ?_
      rw [hs,Slot.move_of_ne hk hd]

theorem noticed_move {src dst : Bytes} {t : KeyType} (hne : src ≠ dst)
    (hs : s'.slot=Slot.move t src dst s.slot) (k : Bytes) : Noticed s s' now k := by
  rcases version_move hne hs k with ⟨_,hv⟩ | hsame
  · intro _
    rw [hv]
    exact add_toUInt64_ne _ (n := 1) (by decide) (by decide)
  · exact noticed_of_slot hsame

theorem noticed_update_iff {k' : Bytes} {r : Slot F} (hs : s'.slot=Function.update s.slot k' r)
    (hv : r.version=(s.slot k').version) :
    Noticed s s' now k ↔ (k'=k → r.shown now=s.shown now k) := by
  by_cases hk : k'=k
  · subst hk
    have hslot : s'.slot k'=r := by rw [hs,Function.update_self]
    have hver : s'.version k'=s.version k' := by rw [version_eq_slot,version_eq_slot,hslot,hv]
    unfold Noticed
    rw [hver,shown,hslot]
    simp
  · refine ⟨fun _ h => absurd h hk,fun _ => noticed_of_slot ?_⟩
    rw [hs,Function.update_of_ne (Ne.symm hk)]

theorem mem_foldl_hDelField (fields : List Bytes) (acc : Nat × Map Bytes) (f : Bytes) :
    f ∈ (fields.foldl hDelField acc).2 ↔ f ∈ acc.2 ∧ f ∉ fields := by
  apply Loops.foldl_removes (fun (acc : Nat × Map Bytes) f => f ∈ acc.2)
  · intro acc x hx f
    rw [hDelField,if_pos hx]
    exact Map.mem_erase_iff
  · intro acc x hx
    rw [hDelField,if_neg hx]

theorem isEmpty_foldl_hDelField (fields : List Bytes) (h : Map Bytes) :
    (fields.foldl hDelField (0,h)).2.isEmpty=true ↔ ∀ f ∈ h, f ∈ fields := by
  rw [Map.isEmpty_iff_forall]
  simp only [mem_foldl_hDelField,not_and,not_not]

end MemoryStore

/-- The scores `ZInterStore` starts from: those of its first key, weighted. -/
def firstScores [Float64 F] (weight : F) : Option (Map F) → Map F
  | none => ∅
  | some z => z.map fun _ sc => sc*weight

namespace StoreOp
variable [Float64 F]

/-- The operation changes what is seen of `k` and leaves its version as it was. -/
def Hides (w : World) (s : MemoryStore F) (k : Bytes) : StoreOp F → Prop
  | flush => s.typeOf w.now k ≠ none ∧ s.version k=0
  | expire k' ttl => k'=k ∧ ttl < 0 ∧ s.typeOf w.now k ≠ none
  | getEx k' ttl p hasTTL => k'=k ∧ p=false ∧ hasTTL=true ∧ ttl < 0 ∧
      s.typeOf w.now k=some .string
  | hDel k' fields => k'=k ∧ s.typeOf w.now k=some .hash ∧
      (∀ f ∈ s.hashes.getD k ∅, f ∈ fields) ∧ s.version k=0
  | sInterStore dst ks => dst=k ∧ s.setInter w ks=.ok [] ∧ s.typeOf w.now k ≠ none
  | sUnionStore dst ks => dst=k ∧ s.setUnion w ks=.ok [] ∧ s.typeOf w.now k ≠ none
  | sDiffStore dst ks => dst=k ∧ s.setDiff w ks=.ok [] ∧ s.typeOf w.now k ≠ none
  | zUnionStore dst ks ws agg => dst=k ∧ s.zUnionLoop w.now agg ks ws ∅=.ok ∅ ∧
      s.typeOf w.now k ≠ none
  | zInterStore dst ks ws agg => dst=k ∧ (∃ j js first, ks=j::js ∧ s.getZSet w.now j=.ok first ∧
      s.zInterLoop w.now agg js ws.tail (firstScores (ws.headD 1) first)=.ok ∅) ∧
      s.typeOf w.now k ≠ none
  | _ => False

end StoreOp

namespace MemoryStore
variable {now : Int} {s s' : MemoryStore F} {k : Bytes}

theorem typeOf_eq_none_iff_shown : s.typeOf now k=none ↔ s.shown now k=none := by
  rw [shown,Row.shown_eq_none_iff,slot_toRow,← Maps.typeOf_eq_row]

theorem expired_add_iff (now ttl : Int) : expired now (some (now+ttl))=false ↔ ¬ttl < 0 := by
  simp only [expired,decide_eq_false_iff_not]
  omega

theorem typeOf_of_live {e : StrEntry} (he : (s.slot k).string=some e)
    (hlive : expired now e.expiresAt=false) : s.typeOf now k=some .string := by
  rw [typeOf_eq_slot,Row.typeOf_eq_string_iff]
  exact ⟨e,he,hlive⟩

theorem typeOf_ne_string_of_noString (h : (s.slot k).NoString now) :
    s.typeOf now k ≠ some .string := by
  rw [typeOf_eq_slot]
  intro ht
  obtain ⟨e,he,hlive⟩ := (Row.typeOf_eq_string_iff _ _).mp ht
  simp [h e he] at hlive

theorem noticed_expire_iff (s : MemoryStore F) (now : Int) (k' : Bytes) (ttl : Int) (k : Bytes) :
    Noticed s (s.expire now k' ttl).2 now k ↔ ¬(k'=k ∧ ttl < 0 ∧ s.typeOf now k ≠ none) := by
  have hpast := expired_add_iff now ttl
  rw [noticed_update_iff (slot_expire s now k' ttl)]
  · rw [not_and]
    refine forall_congr' fun hk => ?_
    subst hk
    unfold Slot.expire
    rcases (s.slot k').live_or_noString now with ⟨e,he,hlive⟩ | hno
    · have hsome := Slot.liveString_of_live he hlive
      have ht := typeOf_of_live he hlive
      rw [hsome]
      exact (Slot.shown_stamp he hlive _).trans (hpast.trans (by simp [ht]))
    · have hnone := Slot.liveString_of_noString hno
      rw [hnone,← typeOf_eq_slot]
      by_cases ht : s.typeOf now k'=none
      · simp [ht,shown]
      · simp only [ht,if_false]
        exact (Slot.shown_deadline hno (by rwa [← typeOf_eq_slot]) _).trans
          (hpast.trans (by simp [ht]))
  · unfold Slot.expire
    split
    · rfl
    · split <;> rfl

theorem noticed_getEx_iff (s : MemoryStore F) (now : Int) (k' : Bytes) (ttl : Int)
    (p h : Bool) (k : Bytes) : Noticed s (s.getEx now k' ttl p h).2 now k ↔
      ¬(k'=k ∧ p=false ∧ h=true ∧ ttl < 0 ∧ s.typeOf now k=some .string) := by
  have hpast := expired_add_iff now ttl
  rw [noticed_update_iff (slot_getEx s now k' ttl p h)]
  · rw [not_and]
    refine forall_congr' fun hk => ?_
    subst hk
    unfold Slot.getEx
    rcases (s.slot k').live_or_noString now with ⟨e,he,hlive⟩ | hno
    · have ht := typeOf_of_live he hlive
      rw [Slot.liveString_of_live he hlive]
      dsimp only
      split_ifs with hp hh
      · have hnone : expired now none=false := rfl
        simp only [hp,Bool.true_eq_false,false_and,not_false_eq_true,iff_true]
        exact (Slot.shown_stamp he hlive none).mpr hnone
      · exact (Slot.shown_stamp he hlive _).trans (hpast.trans (by simp [ht,hp,hh]))
      · simp [hh,shown]
    · have hne := typeOf_ne_string_of_noString hno
      rw [Slot.liveString_of_noString hno]
      simp [hne,shown]
  · unfold Slot.getEx
    split
    · rfl
    · split_ifs <;> rfl

theorem noticed_persist (s : MemoryStore F) (now : Int) (k' k : Bytes) :
    Noticed s (s.persist now k').2 now k := by
  have hnone : expired now none=false := rfl
  rw [noticed_update_iff (slot_persist s now k')]
  · rintro rfl
    unfold Slot.persist
    split
    · rename_i e he
      obtain ⟨hs,hlive⟩ := Slot.liveString_eq_some (Option.filter_eq_some_iff.mp he).1
      exact (Slot.shown_stamp hs hlive none).mpr hnone
    · split_ifs with ht
      · rfl
      · rw [not_or] at ht
        exact (Slot.shown_deadline (Row.noString_of_typeOf ht.2) ht.1 none).mpr hnone
  · unfold Slot.persist
    split
    · rfl
    · split_ifs <;> rfl

theorem noticed_hDel_iff (s : MemoryStore F) (now : Int) (k' : Bytes) (fields : List Bytes)
    (k : Bytes) : Noticed s (s.hDel now k' fields).2 now k ↔
      ¬(k'=k ∧ s.typeOf now k=some .hash ∧ (∀ f ∈ s.hashes.getD k ∅, f ∈ fields) ∧
        s.version k=0) := by
  cases hh : s.liveHash now k' with
  | none =>
    have hsame : (s.hDel now k' fields).2=s := by
      unfold hDel
      rw [hh]
    rw [hsame]
    refine ⟨fun _ => ?_,fun _ => noticed_of_slot rfl⟩
    rintro ⟨rfl,ht,_⟩
    obtain ⟨f,_,hlive,_⟩ := Maps.view_of_hash ht
    rw [hh] at hlive
    cases hlive
  | some h =>
    obtain ⟨hexp,hhash⟩ := liveHash_eq_some hh
    have hgetD : s.hashes.getD k' ∅=h := by
      rw [Std.ExtTreeMap.getD_eq_getD_getElem?]
      exact congrArg (Option.getD · ∅) hhash
    have hslot := slot_hDel hh fields
    by_cases hall : (fields.foldl hDelField (0,h)).2.isEmpty=true
    · rw [if_pos hall] at hslot
      rw [isEmpty_foldl_hDelField] at hall
      by_cases hk : k'=k
      · subst hk
        have hself := congrFun hslot k'
        rw [Function.update_self] at hself
        have hiff := Row.shown_dropHash_iff hhash hexp
        have hver : (s.hDel now k' fields).2.version k'=0 := by rw [version_eq_slot,hself]; rfl
        unfold Noticed
        rw [hver,shown,hself,hgetD,typeOf_eq_slot]
        change (¬((s.slot k').toRow.drop .hash).shown now=(s.slot k').shown now →
          0 ≠ s.version k') ↔ _
        rw [hiff,not_not]
        refine ⟨fun hn hbad => hn hbad.2.1 hbad.2.2.2.symm,fun hno ht hv => ?_⟩
        exact hno ⟨rfl,ht,hall,hv.symm⟩
      · refine ⟨fun _ h => hk h.1,fun _ => noticed_of_slot ?_⟩
        rw [hslot,Function.update_of_ne (Ne.symm hk)]
    · refine ⟨fun _ hbad => hall ?_,fun _ => ?_⟩
      · obtain ⟨rfl,_,hsub,_⟩ := hbad
        rw [hgetD] at hsub
        exact (isEmpty_foldl_hDelField fields h).mpr hsub
      · have hedits : Edits now True s (s.hDel now k' fields).2 := edits_hDel hh hall
        exact hedits.noticed k

theorem noticed_deleteKey_iff (s : MemoryStore F) (now : Int) (dst k : Bytes) :
    Noticed s (s.deleteKey dst) now k ↔ ¬(dst=k ∧ s.typeOf now k ≠ none) := by
  rw [noticed_update_iff (slot_deleteKey s dst) rfl,not_and,not_not]
  refine forall_congr' fun _ => ?_
  rw [typeOf_eq_none_iff_shown,Slot.setRow_toRow,Row.shown,Row.view_absent]
  exact eq_comm

theorem noticed_storeMembers_iff (s : MemoryStore F) (now : Int) (dst : Bytes)
    (members : Except StoreError (List Bytes)) (k : Bytes) :
    Noticed s (dropError s (s.storeMembers dst members)) now k ↔
      ¬(dst=k ∧ members=.ok [] ∧ s.typeOf now k ≠ none) := by
  cases members with
  | error e => exact ⟨fun _ h => by simp at h,fun _ => noticed_of_slot rfl⟩
  | ok members =>
    by_cases hm : members=[]
    · subst hm
      simpa [storeMembers,dropError] using noticed_deleteKey_iff s now dst k
    · refine ⟨fun _ h => hm (Except.ok.inj h.2.1),fun _ => ?_⟩
      have hedits : Edits now True s (dropError s (s.storeMembers dst (.ok members))) := by
        simp only [storeMembers,hm,if_false,dropError]
        exact .one (.store _ (.set _) fun _ => trivial) (slot_storeSet s dst _)
      exact hedits.noticed k

theorem noticed_storeScores_iff (s : MemoryStore F) (now : Int) (dst : Bytes)
    (scores : Except StoreError (Map F)) (k : Bytes) :
    Noticed s (dropError s (s.storeScores dst scores)) now k ↔
      ¬(dst=k ∧ scores=.ok ∅ ∧ s.typeOf now k ≠ none) := by
  cases scores with
  | error e => exact ⟨fun _ h => by simp at h,fun _ => noticed_of_slot rfl⟩
  | ok scores =>
    by_cases hz : scores=∅
    · subst hz
      simpa [storeScores,dropError] using noticed_deleteKey_iff s now dst k
    · refine ⟨fun _ h => hz (Except.ok.inj h.2.1),fun _ => ?_⟩
      have hempty : scores.isEmpty=false := by
        rwa [← Bool.not_eq_true,Std.ExtTreeMap.isEmpty_iff]
      have hedits : Edits now True s (dropError s (s.storeScores dst (.ok scores))) := by
        simp only [storeScores,hempty,Bool.false_eq_true,if_false,dropError]
        exact .one (.store _ (.zset _) fun _ => hz) (slot_storeZSet s dst _)
      exact hedits.noticed k

theorem noticed_zInterStore_iff [Float64 F] (s : MemoryStore F) (now : Int) (dst : Bytes)
    (ks : List Bytes) (ws : List F) (agg : Bytes) (k : Bytes) :
    Noticed s (dropError s (s.zInterStore now dst ks ws agg)) now k ↔
      ¬(dst=k ∧ (∃ j js first, ks=j::js ∧ s.getZSet now j=.ok first ∧
        s.zInterLoop now agg js ws.tail (firstScores (ws.headD 1) first)=.ok ∅) ∧
        s.typeOf now k ≠ none) := by
  cases ks with
  | nil => exact ⟨fun _ h => by simp at h,fun _ => noticed_of_slot rfl⟩
  | cons j js =>
    cases hj : s.getZSet now j with
    | error e =>
      have hsame : dropError s (s.zInterStore now dst (j::js) ws agg)=s := by
        simp [zInterStore,hj,dropError]
      rw [hsame]
      refine ⟨fun _ h => ?_,fun _ => noticed_of_slot rfl⟩
      obtain ⟨_,⟨_,_,_,heq,hfirst,_⟩,_⟩ := h
      cases heq
      rw [hj] at hfirst
      cases hfirst
    | ok first =>
      have hstore : s.zInterStore now dst (j::js) ws agg=
          s.storeScores dst (s.zInterLoop now agg js ws.tail (firstScores (ws.headD 1) first)) := by
        cases first <;> simp [zInterStore,hj,firstScores]
      rw [hstore,noticed_storeScores_iff]
      refine not_congr (and_congr_right fun _ => and_congr_left fun _ => ?_)
      refine ⟨fun h => ⟨j,js,first,rfl,hj,h⟩,?_⟩
      rintro ⟨_,_,_,heq,hfirst,h⟩
      cases heq
      rw [hj] at hfirst
      cases hfirst
      exact h

theorem slot_flush (s : MemoryStore F) (k : Bytes) :
    s.flush.slot k={ Row.absent with version := none } := by
  simp [flush,new,slot,Maps.row,Maps.empty,Row.absent]

theorem version_flush (s : MemoryStore F) (k : Bytes) : s.flush.version k=0 := by
  simp [flush,new,version]

theorem noticed_flush_iff (s : MemoryStore F) (now : Int) (k : Bytes) :
    Noticed s s.flush now k ↔ ¬(s.typeOf now k ≠ none ∧ s.version k=0) := by
  have hver := version_flush s k
  have hshown : s.flush.shown now k=none := by
    rw [shown,slot_flush]
    exact (Row.shown_eq_none_iff _ _).mpr (Row.typeOf_absent now)
  unfold Noticed
  rw [hver,hshown,ne_eq,ne_eq,ne_eq,typeOf_eq_none_iff_shown,not_and]
  exact imp_congr (not_congr eq_comm) (not_congr eq_comm)

end MemoryStore

section Machine
variable [Float64 F]
open MemoryStore

/-- An operation changes what is seen of a key together with its version, unless it is one
of those that hide it. -/
theorem noticed_iff (w : World) (op : StoreOp F) (s s' : MemoryStore F) (k : Bytes)
    (h : op.apply w s=.ok s') :
    (s'.shown w.now k ≠ s.shown w.now k → s'.version k ≠ s.version k) ↔ ¬op.Hides w s k := by
  change Noticed s s' w.now k ↔ _
  have hok : ∀ {u : MemoryStore F} {P : Prop}, (Noticed s u w.now k ↔ P) →
      (.ok u : Go (MemoryStore F))=.ok s' → (Noticed s s' w.now k ↔ P) := by
    rintro u P hu ⟨⟩
    exact hu
  have hloud : op.Loud → (Noticed s s' w.now k ↔ ¬False) := fun hl =>
    ⟨fun _ => not_false,fun _ => (StoreOp.apply_edits hl h).noticed k⟩
  cases op with
  | deleteExpired =>
    refine hok ⟨fun _ => not_false,fun _ hne => absurd ?_ hne⟩ h
    rw [shown,slot_deleteExpired]
    exact Slot.shown_sweep (s.slot k) w.now
  | flush => exact hok (noticed_flush_iff s w.now k) h
  | rename src dst =>
    refine ⟨fun _ => not_false,fun _ => ?_⟩
    simp only [StoreOp.apply] at h
    split at h
    · cases h
    · rename_i b u hu
      cases h
      rcases rename_cases hu with hedits | ⟨t,hne,_,hslot⟩
      · have hedits : Edits w.now True s s' := hedits
        exact hedits.noticed k
      · exact noticed_move hne hslot k
  | getEx k' ttl p b => exact hok (noticed_getEx_iff s w.now k' ttl p b k) h
  | expire k' ttl => exact hok (noticed_expire_iff s w.now k' ttl k) h
  | persist k' => exact hok ⟨fun _ => not_false,fun _ => noticed_persist s w.now k' k⟩ h
  | hDel k' fields => exact hok (noticed_hDel_iff s w.now k' fields k) h
  | sInterStore dst ks => exact hok (noticed_storeMembers_iff s w.now dst _ k) h
  | sUnionStore dst ks => exact hok (noticed_storeMembers_iff s w.now dst _ k) h
  | sDiffStore dst ks => exact hok (noticed_storeMembers_iff s w.now dst _ k) h
  | zUnionStore dst ks ws agg => exact hok (noticed_storeScores_iff s w.now dst _ k) h
  | zInterStore dst ks ws agg => exact hok (noticed_zInterStore_iff s w.now dst ks ws agg k) h
  | _ => exact hloud trivial

/-- `SET k b` over `SET k a`. -/
theorem noticed_iff_set :
    ∃ s s' : MemoryStore Int, s=MemoryStore.new.set [107] [97] ∧
      (StoreOp.set [107] [98]).apply (.plain 0) s=.ok s' ∧
      ((s'.shown 0 [107] ≠ s.shown 0 [107] → s'.version [107] ≠ s.version [107]) ↔
        ¬(StoreOp.set [107] [98]).Hides (.plain 0) s [107]) :=
  ⟨_,_,rfl,rfl,noticed_iff (.plain 0) (.set [107] [98]) _ _ [107] rfl⟩

/-- `SADD d x`, then `SINTERSTORE d a b` of two absent keys: `d` is gone, its version is not. -/
theorem sinterstore_unnoticed :
    ∃ s s', Machine.run StoreOp.step [(.plain 0,(.sAdd [100] [[120]] : StoreOp Int))] .new=.ok s ∧
      (StoreOp.sInterStore [100] [[97],[98]]).apply (.plain 0) s=.ok s' ∧
      s.typeOf 0 [100]=some .set ∧ s'.typeOf 0 [100]=none ∧ s.shown 0 [100] ≠ s'.shown 0 [100] ∧
      s'.version [100]=s.version [100] :=
  ⟨_,_,rfl,rfl,by decide,by decide,by decide,by decide⟩

/-- The operation takes back a version that was counted up. -/
def StoreOp.Forgets (w : World) (s : MemoryStore F) (k : Bytes) : StoreOp F → Prop
  | flush => s.version k ≠ 0
  | hDel k' fields => k'=k ∧ (∃ h, s.liveHash w.now k=some h ∧ ∀ f ∈ h, f ∈ fields) ∧
      s.version k ≠ 0
  | _ => False

/-- No deadline of `k` has passed, and the operation neither hides a change of `k` nor forgets
its version. -/
def StoreOp.Steady (k : Bytes) (op : World × StoreOp F) (s : MemoryStore F) : Prop :=
  (s.slot k).Unexpired op.1.now ∧ ¬op.2.Hides op.1 s k ∧ ¬op.2.Forgets op.1 s k

/-- Some point of the run shows another value of `k`: before or after an operation, at its
instant. -/
def Differs (k : Bytes) (v : Option (Value F)) : List (World × StoreOp F) → MemoryStore F → Prop
  | [],_ => False
  | (w,op)::ops,s => s.shown w.now k ≠ v ∨
      ∃ s', op.apply w s=.ok s' ∧ (s'.shown w.now k ≠ v ∨ Differs k v ops s')

/-- How the version of `k` and its contents can change in a step: the version counts up by one
or two, or both stay. -/
def Counted (k : Bytes) (s s' : MemoryStore F) : Prop :=
  ∃ n ≤ 2, s'.version k=s.version k+n.toUInt64 ∧
    (n=0 → (s'.slot k).contents=(s.slot k).contents)

omit [Float64 F] in
theorem counted_of_kept {k : Bytes} {s s' : MemoryStore F} (hv : s'.version k=s.version k)
    (hc : (s'.slot k).contents=(s.slot k).contents) : Counted k s s' :=
  ⟨0,by decide,by rw [hv]; simp,fun _ => hc⟩

omit [Float64 F] in
theorem counted_of_slot {k : Bytes} {s s' : MemoryStore F} (h : s'.slot k=s.slot k) :
    Counted k s s' :=
  counted_of_kept (by rw [version_eq_slot,h,← version_eq_slot]) (by rw [h])

omit [Float64 F] in
theorem Slot.Quiet.contents {now : Int} {r r' : Slot F} (h : Slot.Quiet now r r')
    (hr : r.Unexpired now) (hshown : r'.shown now=r.shown now) : r'.contents=r.contents := by
  cases h with
  | keep => rfl
  | remove =>
    rw [← hr.shown,← hshown,Slot.setRow_toRow,Row.shown,Row.view_absent]
    rfl
  | stamp e d he _ => simp [Row.contents,he]
  | deadline d _ => rfl

theorem StoreOp.Steady.counted {k : Bytes} {w : World} {op : StoreOp F} {s s' : MemoryStore F}
    (hst : Steady k (w,op) s) (h : op.apply w s=.ok s') : Counted k s s' := by
  obtain ⟨hunexp,hhides,hforgets⟩ := hst
  -- where the version stays, what is seen stays
  have hshown : s'.version k=s.version k → s'.shown w.now k=s.shown w.now k := fun hv =>
    not_not.mp fun hne => (noticed_iff w op s s' k h).mpr hhides hne hv
  by_cases hsweep : op=.deleteExpired
  · subst hsweep
    cases h
    exact counted_of_slot ((slot_deleteExpired s w.now k).trans (Slot.sweep_of_unexpired hunexp))
  · by_cases hflush : op=.flush
    · subst hflush
      cases h
      have hzero : s.version k=0 := not_not.mp hforgets
      have hv : s.flush.version k=s.version k := (version_flush s k).trans hzero.symm
      apply counted_of_kept hv
      rw [← hunexp.shown]
      change _=s.shown w.now k
      rw [← hshown hv,shown,slot_flush]
      rfl
    · cases StoreOp.apply_change hsweep hflush h with
      | edits hedits =>
        obtain ⟨ks,hcount,hsteps⟩ := hedits
        refine ⟨ks.count k,hcount k,?_,fun h0 => ?_⟩
        · rw [version_eq_slot,version_eq_slot,hsteps.version k]
        · rw [hsteps.frame (List.count_eq_zero.mp h0)]
      | move src dst t _ hne _ hslot =>
        rcases version_move hne hslot k with ⟨_,hv⟩ | hsame
        · exact ⟨1,by decide,hv,by simp⟩
        · exact counted_of_slot hsame
      | quiet k' r hq hslot =>
        by_cases hk : k=k'
        · subst hk
          have hself : s'.slot k=r := by rw [hslot,Function.update_self]
          have hv : s'.version k=s.version k := by
            rw [version_eq_slot,version_eq_slot,hself,hq.version]
          apply counted_of_kept hv
          rw [hself]
          refine hq.contents hunexp ?_
          rw [← hself]
          exact hshown hv
        · exact counted_of_slot (by rw [hslot,Function.update_of_ne hk])
      | forget k' fields f hop hh hall hslot =>
        by_cases hk : k=k'
        · subst hk hop
          have hself : s'.slot k=(s.slot k).forgotten := by rw [hslot,Function.update_self]
          have hzero : s.version k=0 := not_not.mp fun hne =>
            hforgets ⟨rfl,⟨f,hh,(isEmpty_foldl_hDelField fields f).mp hall⟩,hne⟩
          have hv : s'.version k=s.version k := by
            rw [version_eq_slot,hself,hzero]
            rfl
          apply counted_of_kept hv
          have hleft : (s'.slot k).Unexpired w.now := by
            rw [hself]
            exact ⟨rfl,hunexp.2⟩
          rw [← hleft.shown,← hunexp.shown]
          exact hshown hv
        · exact counted_of_slot (by rw [hslot,Function.update_of_ne hk])

theorem run_counted {k : Bytes} {ops : List (World × StoreOp F)} {s s' : MemoryStore F}
    (hst : Machine.Along StoreOp.step (StoreOp.Steady k) ops s)
    (hrun : Machine.run StoreOp.step ops s=.ok s') :
    ∃ n ≤ 2*ops.length, s'.version k=s.version k+n.toUInt64 ∧
      (n=0 → ¬Differs k (s.slot k).contents ops s) := by
  induction ops generalizing s with
  | nil =>
    cases hrun
    exact ⟨0,by simp,by simp,fun _ => not_false⟩
  | cons op ops ih =>
    obtain ⟨w,op⟩ := op
    obtain ⟨u,hu,hrun⟩ := Machine.run_cons_ok.mp hrun
    obtain ⟨hstep,hrest⟩ := hst
    obtain ⟨n,hn,hnv,hsame⟩ := hstep.counted hu
    obtain ⟨m,hm,hmv,hno⟩ := ih (hrest u hu) hrun
    refine ⟨n+m,?_,?_,fun h0 => ?_⟩
    · rw [List.length_cons]
      omega
    · rw [hmv,hnv,add_assoc,Nat.toUInt64_eq,Nat.toUInt64_eq,Nat.toUInt64_eq,UInt64.ofNat_add]
    · obtain ⟨rfl,rfl⟩ : n=0 ∧ m=0 := by omega
      have hbefore : s.shown w.now k=(s.slot k).contents := hstep.1.shown
      have hv : u.version k=s.version k := by rw [hnv]; simp
      have hafter : u.shown w.now k=s.shown w.now k := not_not.mp fun hne =>
        (noticed_iff w op s u k hu).mpr hstep.2.1 hne hv
      rintro (hd | ⟨u',hu',hd | hd⟩)
      · exact hd hbefore
      · obtain rfl : u=u' := Except.ok.inj (hu.symm.trans hu')
        exact hd (hafter.trans hbefore)
      · obtain rfl : u=u' := Except.ok.inj (hu.symm.trans hu')
        exact hno rfl (by rwa [hsame rfl])

/-- A run that shows another value of `k` than it started with ends with another version, if
none of its steps hides a change of `k` or forgets the version and no deadline of `k` passes. -/
theorem version_no_aba (k : Bytes) (ops : List (World × StoreOp F)) (s s' : MemoryStore F)
    (v : Option (Value F)) (hrun : Machine.run StoreOp.step ops s=.ok s')
    (hlen : ops.length < 2^63)
    (hsteady : Machine.Along StoreOp.step (StoreOp.Steady k) ops s)
    (hstart : ∀ op ∈ ops.head?, s.shown op.1.now k=v) (hdiff : Differs k v ops s) :
    s'.version k ≠ s.version k := by
  obtain ⟨n,hn,hv,hno⟩ := run_counted hsteady hrun
  cases ops with
  | nil => exact hdiff.elim
  | cons op ops =>
    have hcontents : (s.slot k).contents=v :=
      hsteady.1.1.shown.symm.trans (hstart op rfl)
    have hpos : 0 < n := by
      rw [Nat.pos_iff_ne_zero]
      intro h0
      exact hno h0 (by rwa [hcontents])
    rw [hv]
    exact add_toUInt64_ne _ hpos (by omega)

end Machine

/-- `SET k b` over `SET k a`: the version is another one. -/
theorem version_no_aba_set :
    ∃ s', Machine.run StoreOp.step [(.plain 0,(.set [107] [98] : StoreOp Int))]
        (MemoryStore.new.set [107] [97])=.ok s' ∧
      s'.version [107] ≠ (MemoryStore.new.set [107] [97] : MemoryStore Int).version [107] := by
  refine ⟨_,rfl,version_no_aba [107] [(.plain 0,.set [107] [98])] (MemoryStore.new.set [107] [97])
    _ (some (.string [97])) rfl (by decide) ⟨⟨⟨rfl,fun e he => ?_⟩,id,id⟩,fun _ _ => trivial⟩ ?_ ?_⟩
  · obtain rfl : e=⟨[97],none⟩ := Option.some.inj (he.symm.trans rfl)
    rfl
  · rintro _ ⟨⟩
    decide
  · exact .inr ⟨_,rfl,.inl (by decide)⟩

/-- `HSET k f v`, and from there `HDEL k f` and `HSET k f w`: another value under the version
that a `WATCH` between the first two would have noted. -/
theorem hdel_version_aba :
    ∃ s s', Machine.run StoreOp.step
        [(.plain 0,(.hSet [107] ((∅ : Map Bytes).insert [102] [118]) : StoreOp Int))] .new=.ok s ∧
      Machine.run StoreOp.step [(.plain 0,.hDel [107] [[102]]),
        (.plain 0,.hSet [107] ((∅ : Map Bytes).insert [102] [119]))] s=.ok s' ∧
      s.shown 0 [107] ≠ s'.shown 0 [107] ∧ s'.version [107]=s.version [107] :=
  ⟨_,_,rfl,rfl,by decide,by decide⟩

end GoRedis
