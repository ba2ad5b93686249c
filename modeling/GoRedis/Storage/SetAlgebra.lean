import GoRedis.Lib.Loops
import GoRedis.Storage.Edits
import GoRedis.Storage.Typed
/-!
# Set algebra

What `setInter`, `setUnion` and `setDiff` compute, and which keys they look at on the way.
-/
namespace GoRedis
variable {F : Type} {now : Int} {k x : Bytes} {ks : List Bytes}

namespace Maps
variable {m : Maps F} {e : StoreError}

/-- `k` is live and not a set. -/
def NotASet (m : Maps F) (now : Int) (k : Bytes) : Prop :=
  ∃ t, m.typeOf now k=some t ∧ t ≠ .set

theorem not_notASet_iff :
    ¬m.NotASet now k ↔ m.typeOf now k=none ∨ m.typeOf now k=some .set := by
  rw [NotASet]
  cases m.typeOf now k with
  | none => simp
  | some t => simp

/-- The members of `k`; a key that is not a live set has none. -/
def setAt (m : Maps F) (now : Int) (k : Bytes) : Set Bytes :=
  {x | m.typeOf now k=some .set ∧ inSet m.sets[k]? x=true}

theorem getSet_cases (m : Maps F) (now : Int) (k : Bytes) :
    (m.NotASet now k ∧ m.getSet now k=.error .wrongType) ∨
      (¬m.NotASet now k ∧
        ∃ st, m.getSet now k=.ok st ∧ ∀ x, inSet st x=true ↔ x ∈ m.setAt now k) := by
  cases ht : m.typeOf now k with
  | none =>
    refine .inr ⟨?_,none,?_,?_⟩
    · simp [NotASet,ht]
    · rw [getSet,ht]
    · simp [setAt,ht,inSet]
  | some t =>
    by_cases hset : t=.set
    · subst hset
      refine .inr ⟨?_,m.sets[k]?,?_,?_⟩
      · simp [NotASet,ht]
      · rw [getSet,ht]
      · simp [setAt,ht]
    · exact .inl ⟨⟨t,ht,hset⟩,getSet_wrongType ht hset⟩

theorem sIsMember_eq_error_iff :
    m.sIsMember now k x=.error e ↔ e=.wrongType ∧ m.NotASet now k := by
  rw [sIsMember]
  rcases getSet_cases m now k with ⟨hbad,hget⟩ | ⟨hgood,st,hget,_⟩
  · simp [hget,Except.map,hbad,eq_comm]
  · simp [hget,Except.map,hgood]

theorem sIsMember_eq_true_iff : m.sIsMember now k x=.ok true ↔ x ∈ m.setAt now k := by
  rw [sIsMember]
  rcases getSet_cases m now k with ⟨⟨t,ht,hset⟩,hget⟩ | ⟨_,st,hget,hmem⟩
  · simp [hget,Except.map,setAt,ht,hset]
  · simp [hget,Except.map,hmem]

theorem not_notASet_of_mem (h : x ∈ m.setAt now k) : ¬m.NotASet now k :=
  not_notASet_iff.mpr (.inr h.1)

theorem not_sIsMember_eq_error_iff :
    (m.sIsMember now k x).map not=.error e ↔ e=.wrongType ∧ m.NotASet now k := by
  rw [← sIsMember_eq_error_iff (x := x)]
  cases m.sIsMember now k x <;> simp [Except.map]

theorem not_sIsMember_eq_true_iff :
    (m.sIsMember now k x).map not=.ok true ↔ ¬m.NotASet now k ∧ x ∉ m.setAt now k := by
  rw [sIsMember]
  rcases getSet_cases m now k with ⟨hbad,hget⟩ | ⟨hgood,st,hget,hmem⟩
  · simp [hget,Except.map,hbad]
  · simp [hget,Except.map,hgood,← hmem]

theorem inAll_eq_loop : m.inAll now x ks=Loops.all (fun j => m.sIsMember now j x) ks := by
  induction ks with
  | nil => rfl
  | cons j ks ih =>
    rw [inAll,Loops.all,← ih,sIsMember]
    cases m.getSet now j with
    | error e => rfl
    | ok st => cases h : inSet st x <;> simp [Except.map,h]

theorem inOther_eq_loop :
    (m.inOther now x ks).map not=Loops.all (fun j => (m.sIsMember now j x).map not) ks := by
  induction ks with
  | nil => rfl
  | cons j ks ih =>
    rw [inOther,Loops.all,← ih,sIsMember]
    cases m.getSet now j with
    | error e => rfl
    | ok st => cases h : inSet st x <;> simp [Except.map,h]

section Filter
variable {test : Bytes → Except StoreError Bool} {l : List Bytes}

theorem filterLoop_cons_ok {y : Bytes} {ys : List Bytes} (h : filterLoop test (y::l)=.ok ys) :
    ∃ keep zs, test y=.ok keep ∧ filterLoop test l=.ok zs ∧ ys=if keep then y::zs else zs := by
  rw [filterLoop] at h
  cases hy : test y with
  | error e => simp [hy] at h
  | ok keep =>
    cases hl : filterLoop test l with
    | error e => simp [hy,hl] at h
    | ok zs =>
      simp only [hy,hl,Except.ok.injEq] at h
      exact ⟨keep,zs,rfl,rfl,h.symm⟩

theorem filterLoop_ok {l ys : List Bytes} (h : filterLoop test l=.ok ys) (x : Bytes) :
    x ∈ ys ↔ x ∈ l ∧ test x=.ok true := by
  induction l generalizing ys with
  | nil =>
    cases h
    simp
  | cons y l ih =>
    obtain ⟨keep,zs,hy,hl,rfl⟩ := filterLoop_cons_ok h
    cases keep <;> simp only [Bool.false_eq_true,if_false,if_true,List.mem_cons,ih hl]
    · constructor
      · tauto
      · rintro ⟨rfl | hx,ht⟩
        · simp [hy] at ht
        · exact ⟨hx,ht⟩
    · constructor
      · rintro (rfl | hx)
        · exact ⟨.inl rfl,hy⟩
        · tauto
      · tauto

theorem filterLoop_sublist {ys : List Bytes} (h : filterLoop test l=.ok ys) : ys.Sublist l := by
  induction l generalizing ys with
  | nil =>
    cases h
    exact .slnil
  | cons y l ih =>
    obtain ⟨keep,zs,_,hl,rfl⟩ := filterLoop_cons_ok h
    cases keep with
    | false => exact (ih hl).cons y
    | true => exact (ih hl).cons_cons y

theorem filterLoop_eq_error_iff {bad : Bytes → Prop}
    (htest : ∀ x e, test x=.error e ↔ e=.wrongType ∧ bad x) :
    filterLoop test l=.error e ↔ e=.wrongType ∧ ∃ x ∈ l, bad x := by
  induction l with
  | nil => simp [filterLoop]
  | cons y l ih =>
    rw [filterLoop,List.exists_mem_cons_iff]
    cases hy : test y with
    | error e' =>
      obtain ⟨rfl,hbad⟩ := (htest y e').mp hy
      simp [hbad,eq_comm]
    | ok keep =>
      have hgood : ¬bad y := by
        intro hbad
        rw [(htest y .wrongType).mpr ⟨rfl,hbad⟩] at hy
        cases hy
      rw [or_iff_right hgood,← ih]
      cases filterLoop test l <;> simp

/-- The members of `k` are sifted by a question asked about each of the further keys: the
result fails where a member comes to a key that is not a set, and otherwise has what passes
all of them. -/
structure Sifted (m : Maps F) (now : Int) (k : Bytes) (ks : List Bytes)
    (pass : Bytes → Bytes → Prop) (r : Except StoreError (List Bytes)) : Prop where
  error_iff : ∀ e, r=.error e ↔ e=.wrongType ∧
    (m.NotASet now k ∨ ∃ x ∈ m.setAt now k, Loops.Reaches (m.NotASet now) (pass x) ks)
  nodup : ∀ xs, r=.ok xs → xs.Nodup
  mem_iff : ∀ xs, r=.ok xs → ∀ x, x ∈ xs ↔ x ∈ m.setAt now k ∧ ∀ j ∈ ks, pass x j

theorem sifted_of_notASet {pass : Bytes → Bytes → Prop} (hk : m.NotASet now k) :
    m.Sifted now k ks pass (.error .wrongType) where
  error_iff e := by simp [hk,eq_comm]
  nodup xs h := by cases h
  mem_iff xs h := by cases h

theorem filterLoop_sifted {ask : Bytes → Bytes → Except StoreError Bool}
    {pass : Bytes → Bytes → Prop} (hk : ¬m.NotASet now k) (hnodup : l.Nodup)
    (hl : ∀ x, x ∈ l ↔ x ∈ m.setAt now k)
    (herr : ∀ x j e, ask x j=.error e ↔ e=.wrongType ∧ m.NotASet now j)
    (hask : ∀ x j, ask x j=.ok true ↔ ¬m.NotASet now j ∧ pass x j) :
    m.Sifted now k ks pass (filterLoop (fun x => Loops.all (ask x) ks) l) := by
  have hall : ∀ x e, Loops.all (ask x) ks=.error e ↔
      e=.wrongType ∧ Loops.Reaches (m.NotASet now) (pass x) ks := by
    intro x e
    simp only [Loops.all_eq_error_iff,herr,hask]
    rw [← Loops.reaches_first (P := m.NotASet now)]
    simp only [Loops.Reaches]
    tauto
  refine ⟨fun e => ?_,fun xs h => (filterLoop_sublist h).nodup hnodup,fun xs h x => ?_⟩
  · simp only [filterLoop_eq_error_iff hall,hl,hk,false_or]
  · rw [filterLoop_ok h,Loops.all_eq_true_iff,hl]
    simp only [hask]
    refine and_congr_right fun hx => ⟨fun hyes j hj => (hyes j hj).2,?_⟩
    intro hpass j hj
    refine ⟨fun hbad => ?_,hpass j hj⟩
    -- a member that passes every key would have come to `j`
    have hreach : Loops.Reaches (m.NotASet now) (pass x) ks := Loops.reaches_of_mem hj hbad hpass
    have hfail := (filterLoop_eq_error_iff hall).mpr ⟨rfl,x,(hl x).mpr hx,hreach⟩
    rw [h] at hfail
    cases hfail

end Filter

theorem first_cases (m : Maps F) (w : World) (k : Bytes) :
    (m.NotASet w.now k ∧ m.getSet w.now k=.error .wrongType) ∨
    ∃ (st : Option KeySet) (l : List Bytes), ¬m.NotASet w.now k ∧ m.getSet w.now k=.ok st ∧
      l=w.rangeOrder ((st.map Std.ExtTreeSet.toList).getD []) ∧ l.Nodup ∧
      ∀ x, x ∈ l ↔ x ∈ m.setAt w.now k := by
  rcases getSet_cases m w.now k with hbad | ⟨hgood,st,hget,hmem⟩
  · exact .inl hbad
  · refine .inr ⟨st,_,hgood,hget,rfl,?_,fun x => ?_⟩
    · rw [(w.rangeOrder_perm _).nodup_iff]
      cases st with
      | none => exact List.nodup_nil
      | some st => exact st.nodup_toList
    · rw [(w.rangeOrder_perm _).mem_iff,← hmem]
      cases st <;> simp [inSet]

theorem setInter_sifted (m : Maps F) (w : World) (k : Bytes) (ks : List Bytes) :
    m.Sifted w.now k ks (fun x j => x ∈ m.setAt w.now j) (m.setInter w (k::ks)) := by
  rcases m.first_cases w k with ⟨hk,hget⟩ | ⟨st,l,hk,hget,hl,hnodup,hmem⟩
  · simp only [setInter,hget]
    exact sifted_of_notASet hk
  · have hrun : m.setInter w (k::ks)=
        filterLoop (fun x => Loops.all (fun j => m.sIsMember w.now j x) ks) l := by
      simp only [setInter,hget,← inAll_eq_loop,hl]
      cases st with
      | none =>
        have hnil : w.rangeOrder []=[] := (w.rangeOrder_perm []).eq_nil
        simp [hnil,filterLoop]
      | some st => rfl
    rw [hrun]
    refine filterLoop_sifted hk hnodup hmem (fun _ _ _ => sIsMember_eq_error_iff) fun x j => ?_
    rw [sIsMember_eq_true_iff]
    exact (and_iff_right_of_imp not_notASet_of_mem).symm

theorem setDiff_sifted (m : Maps F) (w : World) (k : Bytes) (ks : List Bytes) :
    m.Sifted w.now k ks (fun x j => x ∉ m.setAt w.now j) (m.setDiff w (k::ks)) := by
  rcases m.first_cases w k with ⟨hk,hget⟩ | ⟨st,l,hk,hget,hl,hnodup,hmem⟩
  · simp only [setDiff,hget]
    exact sifted_of_notASet hk
  · have hrun : m.setDiff w (k::ks)=
        filterLoop (fun x => Loops.all (fun j => (m.sIsMember w.now j x).map not) ks) l := by
      simp only [setDiff,hget,← inOther_eq_loop,hl]
    rw [hrun]
    exact filterLoop_sifted hk hnodup hmem (fun _ _ _ => not_sIsMember_eq_error_iff)
      fun _ _ => not_sIsMember_eq_true_iff

theorem unionLoop_eq_error_iff (seen : KeySet) :
    m.unionLoop now seen ks=.error e ↔ e=.wrongType ∧ ∃ j ∈ ks, m.NotASet now j := by
  induction ks generalizing seen with
  | nil => simp [unionLoop]
  | cons j ks ih =>
    rw [unionLoop,List.exists_mem_cons_iff]
    rcases getSet_cases m now j with ⟨hbad,hget⟩ | ⟨hgood,st,hget,_⟩
    · simp [hget,hbad,eq_comm]
    · simp [hget,hgood,ih]

theorem mem_unionLoop {seen all : KeySet} (h : m.unionLoop now seen ks=.ok all) :
    x ∈ all ↔ x ∈ seen ∨ ∃ j ∈ ks, x ∈ m.setAt now j := by
  induction ks generalizing seen with
  | nil =>
    cases h
    simp
  | cons j ks ih =>
    rw [unionLoop] at h
    rcases getSet_cases m now j with ⟨_,hget⟩ | ⟨_,st,hget,hmem⟩
    · simp [hget] at h
    · simp only [hget] at h
      have hst : x ∈ (st.map Std.ExtTreeSet.toList).getD [] ↔ x ∈ m.setAt now j := by
        rw [← hmem]
        cases st <;> simp [inSet]
      rw [ih h,KeySet.mem_foldl_insert,hst,List.exists_mem_cons_iff,or_assoc]

end Maps

/-- `SINTER`, `SUNION` and `SDIFF`. -/
inductive SetOp
  | inter
  | union
  | diff
  deriving DecidableEq, Repr

namespace SetOp
variable {m : Maps F} {w : World} {op : SetOp} {xs : List Bytes}

/-- What the store collects. -/
def members (m : Maps F) (w : World) : SetOp → List Bytes → Except StoreError (List Bytes)
  | inter => m.setInter w
  | union => m.setUnion w
  | diff => m.setDiff w

/-- What the operation is for. -/
def combine (sets : Bytes → Set Bytes) (k : Bytes) (ks : List Bytes) : SetOp → Set Bytes
  | inter => ⋂ j ∈ k::ks, sets j
  | union => ⋃ j ∈ k::ks, sets j
  | diff => sets k \ ⋃ j ∈ ks, sets j

/-- The operation comes across a key that is not a set. -/
def Notices (m : Maps F) (now : Int) (k : Bytes) (ks : List Bytes) : SetOp → Prop
  | inter => m.NotASet now k ∨
      ∃ x ∈ m.setAt now k, Loops.Reaches (m.NotASet now) (fun j => x ∈ m.setAt now j) ks
  | union => ∃ j ∈ k::ks, m.NotASet now j
  | diff => m.NotASet now k ∨
      ∃ x ∈ m.setAt now k, Loops.Reaches (m.NotASet now) (fun j => x ∉ m.setAt now j) ks

theorem Notices.notASet {now : Int} (h : op.Notices m now k ks) : ∃ j ∈ k::ks, m.NotASet now j := by
  rw [List.exists_mem_cons_iff]
  cases op with
  | inter => exact h.imp_right fun ⟨_,_,hreach⟩ => hreach.mem
  | union => exact (List.exists_mem_cons_iff _ _ _).mp h
  | diff => exact h.imp_right fun ⟨_,_,hreach⟩ => hreach.mem

theorem members_eq_error_iff {e : StoreError} :
    op.members m w (k::ks)=.error e ↔ e=.wrongType ∧ op.Notices m w.now k ks := by
  cases op with
  | inter => exact (m.setInter_sifted w k ks).error_iff e
  | diff => exact (m.setDiff_sifted w k ks).error_iff e
  | union =>
    rw [Notices,← Maps.unionLoop_eq_error_iff ∅,members,Maps.setUnion]
    cases m.unionLoop w.now ∅ (k::ks) <;> simp [Except.map]

theorem setUnion_ok (h : m.setUnion w ks=.ok xs) :
    ∃ all, m.unionLoop w.now ∅ ks=.ok all ∧ xs=w.rangeOrder all.toList := by
  rw [Maps.setUnion] at h
  cases hall : m.unionLoop w.now ∅ ks with
  | error e => simp [hall,Except.map] at h
  | ok all =>
    simp only [hall,Except.map,Except.ok.injEq] at h
    exact ⟨all,rfl,h.symm⟩

theorem members_nodup (h : op.members m w (k::ks)=.ok xs) : xs.Nodup := by
  cases op with
  | inter => exact (m.setInter_sifted w k ks).nodup xs h
  | diff => exact (m.setDiff_sifted w k ks).nodup xs h
  | union =>
    obtain ⟨all,_,rfl⟩ := setUnion_ok h
    rw [(w.rangeOrder_perm _).nodup_iff]
    exact all.nodup_toList

theorem mem_members (h : op.members m w (k::ks)=.ok xs) (x : Bytes) :
    x ∈ xs ↔ x ∈ op.combine (m.setAt w.now) k ks := by
  cases op with
  | inter => simp [(m.setInter_sifted w k ks).mem_iff xs h,combine]
  | diff => simp [(m.setDiff_sifted w k ks).mem_iff xs h,combine]
  | union =>
    obtain ⟨all,hall,rfl⟩ := setUnion_ok h
    rw [(w.rangeOrder_perm _).mem_iff,Std.ExtTreeSet.mem_toList,Maps.mem_unionLoop hall]
    simp [combine]

/-- The operation fails when it comes across a key that is not a set, and otherwise lists, each
once, the members it is for. -/
theorem members_cases (op : SetOp) (m : Maps F) (w : World) (k : Bytes) (ks : List Bytes) :
    (op.Notices m w.now k ks ∧ op.members m w (k::ks)=.error .wrongType) ∨
    (¬op.Notices m w.now k ks ∧ ∃ xs, op.members m w (k::ks)=.ok xs ∧ xs.Nodup ∧
      ∀ x, x ∈ xs ↔ x ∈ op.combine (m.setAt w.now) k ks) := by
  cases hrun : op.members m w (k::ks) with
  | error e =>
    obtain ⟨rfl,hnotices⟩ := members_eq_error_iff.mp hrun
    exact .inl ⟨hnotices,rfl⟩
  | ok xs =>
    refine .inr ⟨fun hnotices => ?_,xs,rfl,members_nodup hrun,mem_members hrun⟩
    rw [members_eq_error_iff.mpr ⟨rfl,hnotices⟩] at hrun
    cases hrun

theorem members_nil (op : SetOp) (m : Maps F) (w : World) : op.members m w []=.ok [] := by
  cases op with
  | inter => rfl
  | diff => rfl
  | union => exact congrArg Except.ok (w.rangeOrder_perm []).eq_nil

theorem members_alike {w' : World} (ht : ∀ j, m.typeOf w.now j=m.typeOf w'.now j) (op : SetOp)
    (ks : List Bytes) :
    (op.members m w ks=.error .wrongType ∧ op.members m w' ks=.error .wrongType) ∨
      ∃ xs ys, op.members m w ks=.ok xs ∧ op.members m w' ks=.ok ys ∧ xs.Perm ys := by
  have hbad : m.NotASet w.now=m.NotASet w'.now := by
    funext j
    simp only [Maps.NotASet,ht]
  have hsets : m.setAt w.now=m.setAt w'.now := by
    funext j
    simp only [Maps.setAt,ht]
  cases ks with
  | nil => exact .inr ⟨[],[],op.members_nil m w,op.members_nil m w',.nil⟩
  | cons k ks =>
    have hnotices : op.Notices m w.now k ks ↔ op.Notices m w'.now k ks := by
      cases op <;> simp only [Notices,hbad,hsets]
    rcases op.members_cases m w k ks with ⟨hn,hrun⟩ | ⟨hn,xs,hrun,hnodup,hmem⟩
    · exact .inl ⟨hrun,members_eq_error_iff.mpr ⟨rfl,hnotices.mp hn⟩⟩
    · rcases op.members_cases m w' k ks with ⟨hn',_⟩ | ⟨_,ys,hrun',hnodup',hmem'⟩
      · exact absurd (hnotices.mpr hn') hn
      · refine .inr ⟨xs,ys,hrun,hrun',(List.perm_ext_iff_of_nodup hnodup hnodup').mpr ?_⟩
        intro x
        rw [hmem,hmem',hsets]

end SetOp

theorem KeySet.size_eq_length {st : KeySet} {xs : List Bytes} (hxs : xs.Nodup)
    (h : ∀ x, x ∈ st ↔ x ∈ xs) : st.size=xs.length := by
  have hperm : st.toList.Perm xs := by
    rw [List.perm_ext_iff_of_nodup st.nodup_toList hxs]
    intro x
    rw [Std.ExtTreeSet.mem_toList,h]
  rw [← Std.ExtTreeSet.length_toList,hperm.length_eq]

namespace MemoryStore

theorem storeMembers_ok (s : MemoryStore F) (dst : Bytes) {xs : List Bytes} (hxs : xs.Nodup) :
    ∃ (st : KeySet) (s' : MemoryStore F), s.storeMembers dst (.ok xs)=.ok (st.size,s') ∧
      (∀ x, x ∈ st ↔ x ∈ xs) ∧
      s'.toMaps.row dst=(if st=∅ then .absent else { Row.absent with set := some st }) ∧
      ∀ j, j ≠ dst → s'.slot j=s.slot j := by
  obtain ⟨st,hst⟩ : ∃ st : KeySet, st=xs.foldl (fun acc x => acc.insert x) ∅ := ⟨_,rfl⟩
  have hmem : ∀ x, x ∈ st ↔ x ∈ xs := by
    intro x
    simp [hst,KeySet.mem_foldl_insert]
  by_cases hnil : xs=[]
  · subst hnil
    have hempty : st=∅ := hst
    refine ⟨st,s.deleteKey dst,?_,hmem,?_,fun j hj => ?_⟩
    · rw [hempty]
      rfl
    · rw [if_pos hempty,row_deleteKey_self]
    · rw [slot_deleteKey,Function.update_of_ne hj]
  · obtain ⟨x,hx⟩ := List.exists_mem_of_ne_nil xs hnil
    refine ⟨st,((s.deleteKey dst).putSet dst st).bumpVersion dst,?_,hmem,?_,fun j hj => ?_⟩
    · rw [storeMembers,if_neg hnil,KeySet.size_eq_length hxs hmem,hst]
    · rw [if_neg (KeySet.ne_empty_of_mem ((hmem x).mpr hx)),← slot_toRow,slot_storeSet,
        Function.update_self]
      rfl
    · rw [slot_storeSet,Function.update_of_ne hj]

end MemoryStore
end GoRedis
