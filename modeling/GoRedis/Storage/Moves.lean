import GoRedis.Storage.OneType
import GoRedis.Storage.Remains
/-!
# Moves between keys

`Rename` carries a whole key over, `LMove` and `SMove` carry one element. The two keys may be the
same: the element is taken first, which may remove the collection, and put back afterwards.
-/
namespace GoRedis
variable {F : Type} {s s' : MemoryStore F} {now : Int} {src dst k : Bytes}

section Rename
variable {t : KeyType}

theorem Maps.OneType.row_only (hs : s.OneType) (ht : s.typeOf now k=some t) :
    (s.row k).only t=s.row k ∧ (s.row k).drop t=.absent := by
  have hnone : ∀ t', t' ≠ t → ¬s.Holds t' k := fun t' hne h =>
    hne (hs k t' t h (Maps.typeOf_holds ht))
  cases t
  all_goals
    simp only [Row.only,Row.drop,Row.absent,Maps.row,Row.mk.injEq,eq_comm (a := none),and_true,
      true_and,and_self]
    refine ⟨?_,?_,?_,?_⟩
    all_goals
      apply Std.ExtTreeMap.getElem?_eq_none
      first
        | exact hnone .string (by decide)
        | exact hnone .hash (by decide)
        | exact hnone .list (by decide)
        | exact hnone .set (by decide)
        | exact hnone .zset (by decide)

theorem row_rename_of_oneType (hs : s.OneType) (hne : src ≠ dst) (ht : s.typeOf now src=some t) :
    ∃ s', s.rename now src dst=.ok (true,s') ∧
      s'.row=Function.update (Function.update s.row dst (s.row src)) src .absent := by
  obtain ⟨⟨b,s'⟩,h⟩ := s.rename_total now hne
  obtain ⟨rfl,_⟩ := MemoryStore.rename_ok ht h
  obtain ⟨honly,hdrop⟩ := hs.row_only ht
  refine ⟨s',h,?_⟩
  funext k
  rw [MemoryStore.row_renamed hne ht h,honly,hdrop,Function.update_apply,Function.update_apply]
  simp only [eq_comm (a := k)]

/-- `Rename` is an exact move. Back again, everything is as it was before, up to what may have
been left at the key that was free. -/
theorem rename_moves (s : MemoryStore F) (hs : s.OneType) (now : Int) (src dst : Bytes)
    (hne : src ≠ dst) :
    (s.typeOf now src ≠ none → ∃ s', s.rename now src dst=.ok (true,s') ∧
      s'.row dst=s.row src ∧ s'.row src=.absent ∧
      (∀ k, k ≠ src → k ≠ dst → s'.row k=s.row k) ∧
      ∀ now', s.typeOf now' src ≠ none → ∃ s'', s'.rename now' dst src=.ok (true,s'') ∧
        (s.row dst=.absent → s''.toMaps=s.toMaps) ∧
        ∀ t, s.typeOf t dst=none → ∀ k, s''.view t k=s.view t k) ∧
    (s.typeOf now src=none → s.rename now src dst=.ok (false,s)) := by
  refine ⟨fun hlive => ?_,fun hnone => MemoryStore.rename_none hnone dst⟩
  obtain ⟨t,ht⟩ := Option.ne_none_iff_exists'.mp hlive
  obtain ⟨s',h,hrow⟩ := row_rename_of_oneType hs hne ht
  have hdst : s'.row dst=s.row src := by
    rw [hrow,Function.update_of_ne hne.symm,Function.update_self]
  refine ⟨s',h,hdst,?_,?_,?_⟩
  · rw [hrow,Function.update_self]
  · intro k hs hd
    rw [hrow,Function.update_of_ne hs,Function.update_of_ne hd]
  · intro now' hlive'
    obtain ⟨t',ht'⟩ := Option.ne_none_iff_exists'.mp hlive'
    have htdst : s'.typeOf now' dst=some t' := by
      rw [Maps.typeOf_eq_row,hdst,← Maps.typeOf_eq_row,ht']
    obtain ⟨s'',h'',hrow''⟩ :=
      row_rename_of_oneType (MemoryStore.oneType_rename hs h) hne.symm htdst
    -- only the row of the free key may differ
    have hback : s''.row=Function.update s.row dst .absent := by
      rw [hrow'',hdst,hrow,Function.update_idem,Function.update_comm hne,Function.update_idem,
        Function.update_eq_self_iff,Function.update_of_ne hne]
    refine ⟨s'',h'',?_,?_⟩
    · intro habsent
      apply Maps.ext_row
      intro k
      rw [hback,← habsent,Function.update_eq_self]
    · intro t hfree k
      rw [Maps.typeOf_eq_row,← Row.view_eq_none_iff] at hfree
      by_cases hk : k=dst
      · rw [hk,Maps.view,hback,Function.update_self,Row.view_absent]
        exact hfree.symm
      · rw [Maps.view,hback,Function.update_of_ne hk]
        rfl

/-- A string with a deadline takes the place of one without. -/
theorem rename_moves_string :
    let s : MemoryStore Int := (MemoryStore.new.setWithTTL 0 (utf8 "a") (utf8 "v") 9).set
      (utf8 "b") (utf8 "w")
    ∃ s', s.rename 0 (utf8 "a") (utf8 "b")=.ok (true,s') ∧
      s'.row (utf8 "b")=s.row (utf8 "a") ∧ s'.row (utf8 "a")=.absent := by
  intro s
  have hs : s.OneType := MemoryStore.oneType_set
    (MemoryStore.oneType_setWithTTL oneType_new 0 (utf8 "a") (utf8 "v") 9)
    (utf8 "b") (utf8 "w")
  obtain ⟨s',h,hdst,hsrc,_⟩ :=
    (rename_moves s hs 0 (utf8 "a") (utf8 "b") (by decide)).1 (by decide)
  exact ⟨s',h,hdst,hsrc⟩

end Rename
/-- `v` is what `src` keeps of a collection, and then `put` is written to `dst`; the rest of the
store is as before. -/
structure MemoryStore.Moved (s s' : MemoryStore F) (src dst : Bytes) (v : Value F)
    (put : Row F → Value F) : Prop where
  row_dst : src ≠ dst → s'.row dst=(put (s.row dst)).into (s.row dst)
  row_src : src ≠ dst → s'.row src=(s.row src).keep v
  row_self : src=dst → s'.row src=(put ((s.row src).keep v)).into ((s.row src).keep v)
  others : ∀ k, k ≠ src → k ≠ dst → s'.slot k=s.slot k

theorem MemoryStore.moved_of_slot {u : MemoryStore F} {v : Value F} {put : Row F → Value F}
    (hu : u.slot=Function.update s.slot src ((s.slot src).setRow ((s.row src).keep v)))
    (hs' : s'.slot=Function.update u.slot dst
      ((u.slot dst).setRow ((put (u.row dst)).into (u.row dst)))) :
    Moved s ((s'.bumpVersion src).bumpVersion dst) src dst v put := by
  have hrow : ∀ k, s'.row k=(s'.slot k).toRow := fun _ => rfl
  have hrow' : ∀ k, u.row k=(u.slot k).toRow := fun _ => rfl
  refine ⟨fun hne => ?_,fun hne => ?_,fun heq => ?_,fun k hsrc hdst => ?_⟩
  · rw [bumpVersion_toMaps,bumpVersion_toMaps,hrow,hs',Function.update_self,Slot.setRow_toRow,
      hrow',hu,Function.update_of_ne hne.symm]
    rfl
  · rw [bumpVersion_toMaps,bumpVersion_toMaps,hrow,hs',Function.update_of_ne hne,hu,
      Function.update_self,Slot.setRow_toRow]
  · subst heq
    rw [bumpVersion_toMaps,bumpVersion_toMaps,hrow,hs',Function.update_self,Slot.setRow_toRow,
      hrow',hu,Function.update_self,Slot.setRow_toRow]
  · rw [slot_bumpVersion,Function.update_of_ne hdst,slot_bumpVersion,Function.update_of_ne hsrc,
      hs',Function.update_of_ne hdst,hu,Function.update_of_ne hsrc]

open MemoryStore

theorem MemoryStore.Moved.typeOf {v : Value F} {put : Row F → Value F}
    (h : Moved s s' src dst v put) (hv : v.type ≠ .string) (hput : ∀ r, (put r).type=v.type)
    (hsrc : s.typeOf now src=some v.type)
    (hdst : s.typeOf now dst=none ∨ s.typeOf now dst=some v.type)
    (hexp : s.keyExpiredNonStr now dst=false) :
    (src ≠ dst → s'.typeOf now dst=some v.type) ∧
      (src ≠ dst → v.isEmpty=false → s'.typeOf now src=some v.type) ∧
      (src=dst → s'.typeOf now src=some v.type) := by
  simp only [Maps.typeOf_eq_row] at hsrc hdst ⊢
  refine ⟨fun hne => ?_,fun hne hleft => ?_,fun heq => ?_⟩
  · rw [h.row_dst hne,← hput (s.row dst)]
    rw [← hput (s.row dst)] at hdst hv
    exact Row.typeOf_into_own hv hdst hexp
  · rw [h.row_src hne,Row.keep,hleft]
    exact Row.typeOf_into_own hv (.inr hsrc) (Row.not_expired_of_typeOf hsrc hv)
  · rw [h.row_self heq,← hput ((s.row src).keep v)]
    exact Row.typeOf_into_keep hv (hput _).symm hsrc

section Lists
variable {l rest : List Bytes} {x : Bytes}

/-- A list with one more element at one of its ends. -/
def attach (left : Bool) (x : Bytes) (l : List Bytes) : List Bytes :=
  if left then x::l else l++[x]

theorem attach_takeEnd (left : Bool) (hne : l ≠ []) :
    attach left (takeEnd left l).1 (takeEnd left l).2=l := by
  rcases List.eq_nil_or_concat l with rfl | ⟨m,y,rfl⟩
  · exact absurd rfl hne
  · cases left with
    | true => cases m <;> rfl
    | false => simp [attach,takeEnd]

theorem attach_ne_nil (left : Bool) (x : Bytes) (l : List Bytes) : attach left x l ≠ [] := by
  cases left <;> simp [attach]

theorem lMove_cases (s : MemoryStore F) (now : Int) (src dst : Bytes) (srcLeft dstLeft : Bool) :
    (¬(s.listGuard now src=true ∧ s.listGuard now dst=true) ∧
      s.lMove now src dst srcLeft dstLeft=.error .wrongType) ∨
    (s.listGuard now src=true ∧ s.listGuard now dst=true) ∧
      (s.lists.getD src []=[] ∧ s.lMove now src dst srcLeft dstLeft=.ok (none,s) ∨
        ∃ x rest s', s.lists.getD src []=attach srcLeft x rest ∧
          s.lMove now src dst srcLeft dstLeft=.ok (some x,s') ∧
          Moved s s' src dst (.list rest) fun r => .list (attach dstLeft x (r.list.getD []))) := by
  unfold lMove
  by_cases hsrc : s.listGuard now src=true
  · by_cases hdst : s.listGuard now dst=true
    · refine .inr ⟨⟨hsrc,hdst⟩,?_⟩
      rw [if_neg (not_not.mpr hsrc),if_neg (not_not.mpr hdst)]
      dsimp only
      by_cases hnil : s.lists.getD src []=[]
      · exact .inl ⟨hnil,if_pos hnil⟩
      · rw [if_neg hnil]
        refine .inr ⟨_,_,_,(attach_takeEnd srcLeft hnil).symm,rfl,?_⟩
        apply moved_of_slot (slot_keepList s src _)
        rw [slot_putList]
        simp only [attach,Std.ExtTreeMap.getD_eq_getD_getElem?]
        rfl
    · refine .inl ⟨fun h => hdst h.2,?_⟩
      rw [if_neg (not_not.mpr hsrc),if_pos hdst]
  · exact .inl ⟨fun h => hsrc h.1,if_pos hsrc⟩

/-- What a client sees of a move between lists: the element is taken from one end of `src` and put
at one end of `dst`, and nothing else changes. -/
structure ListMoved (now : Int) (s s' : MemoryStore F) (src dst : Bytes) (srcLeft dstLeft : Bool)
    (x : Bytes) (rest : List Bytes) : Prop where
  taken : s.getList now src=.ok (some (attach srcLeft x rest))
  left : src ≠ dst → s'.lists.getD src []=rest ∧
    (rest ≠ [] → s'.getList now src=.ok (some rest))
  put : src ≠ dst → ∃ ol, s.getList now dst=.ok ol ∧
    s'.getList now dst=.ok (some (attach dstLeft x (ol.getD [])))
  self : src=dst → s'.getList now src=.ok (some (attach dstLeft x rest))
  others : ∀ k, k ≠ src → k ≠ dst → s'.slot k=s.slot k

theorem MemoryStore.Moved.list {srcLeft dstLeft : Bool}
    (hguard : s.listGuard now src=true ∧ s.listGuard now dst=true)
    (hsrc : s.keyExpiredNonStr now src=false) (hdst : s.keyExpiredNonStr now dst=false)
    (hl : s.lists.getD src []=attach srcLeft x rest)
    (h : Moved s s' src dst (.list rest) fun r => .list (attach dstLeft x (r.list.getD []))) :
    ListMoved now s s' src dst srcLeft dstLeft x rest := by
  have hgs : s.typeOf now src=none ∨ s.typeOf now src=some .list := of_decide_eq_true hguard.1
  have hgd : s.typeOf now dst=none ∨ s.typeOf now dst=some .list := of_decide_eq_true hguard.2
  have htaken : s.getList now src=.ok (some (attach srcLeft x rest)) := by
    rw [Maps.getList_of_guard hgs hsrc]
    rw [Std.ExtTreeMap.getD_eq_getD_getElem?] at hl
    cases hsome : s.lists[src]? with
    | none =>
      rw [hsome] at hl
      exact absurd hl.symm (attach_ne_nil srcLeft x rest)
    | some l =>
      rw [hsome] at hl
      rw [← hl]
      rfl
  have ht := (Maps.getList_eq_some_iff.mp htaken).1
  obtain ⟨hdtype,hstype,hself⟩ := h.typeOf (by simp [Value.type]) (fun _ => rfl) ht hgd hdst
  have hkept : ((s.row src).keep (.list rest)).list.getD []=rest := by
    cases rest <;> rfl
  refine ⟨htaken,fun hne => ?_,fun hne => ?_,fun heq => ?_,h.others⟩
  · have hlist : s'.lists[src]?=((s.row src).keep (.list rest)).list :=
      congrArg Row.list (h.row_src hne)
    refine ⟨?_,fun hrest => ?_⟩
    · rw [Std.ExtTreeMap.getD_eq_getD_getElem?,hlist,hkept]
    · have hleft : (Value.list rest : Value F).isEmpty=false := by
        simpa [Value.isEmpty] using hrest
      rw [Row.keep,hleft] at hlist
      exact Maps.getList_eq_some_iff.mpr ⟨hstype hne hleft,hlist⟩
  · have hlist : s'.lists[dst]?=some (attach dstLeft x (s.lists[dst]?.getD [])) :=
      congrArg Row.list (h.row_dst hne)
    exact ⟨_,Maps.getList_of_guard hgd hdst,Maps.getList_eq_some_iff.mpr ⟨hdtype hne,hlist⟩⟩
  · have hlist := congrArg Row.list (h.row_self heq)
    rw [hkept] at hlist
    exact Maps.getList_eq_some_iff.mpr ⟨hself heq,hlist⟩

end Lists

section Sets
variable {x : Bytes}

theorem sMove_cases (s : MemoryStore F) (now : Int) (src dst x : Bytes) :
    (¬(s.setGuard now src=true ∧ s.setGuard now dst=true) ∧
      s.sMove now src dst x=.error .wrongType) ∨
    (s.setGuard now src=true ∧ s.setGuard now dst=true) ∧
      (x ∉ s.sets.getD src ∅ ∧ s.sMove now src dst x=.ok (false,s) ∨
        x ∈ s.sets.getD src ∅ ∧ ∃ s', s.sMove now src dst x=.ok (true,s') ∧
          Moved s s' src dst (.set ((s.sets.getD src ∅).erase x))
            fun r => .set ((r.set.getD ∅).insert x)) := by
  unfold sMove
  rw [Std.ExtTreeMap.getD_eq_getD_getElem?]
  by_cases hsrc : s.setGuard now src=true
  · by_cases hdst : s.setGuard now dst=true
    · refine .inr ⟨⟨hsrc,hdst⟩,?_⟩
      rw [if_neg (not_not.mpr hsrc),if_neg (not_not.mpr hdst)]
      cases hst : s.sets[src]? with
      | none => exact .inl ⟨Std.ExtTreeSet.not_mem_empty,rfl⟩
      | some st =>
        dsimp only [Option.getD_some]
        by_cases hx : x ∈ st
        · rw [if_neg (not_not.mpr hx)]
          refine .inr ⟨hx,_,rfl,?_⟩
          apply moved_of_slot (slot_keepSet s src _)
          rw [slot_putSet]
          simp only [Std.ExtTreeMap.getD_eq_getD_getElem?]
          rfl
        · exact .inl ⟨hx,if_pos hx⟩
    · refine .inl ⟨fun h => hdst h.2,?_⟩
      rw [if_neg (not_not.mpr hsrc),if_pos hdst]
  · exact .inl ⟨fun h => hsrc h.1,if_pos hsrc⟩

/-- What a client sees of a move between sets: the member is taken from `src` and put into `dst`,
and nothing else changes. -/
structure SetMoved (now : Int) (s s' : MemoryStore F) (src dst x : Bytes) (st : KeySet) :
    Prop where
  found : s.getSet now src=.ok (some st)
  member : x ∈ st
  left : src ≠ dst → s'.sets.getD src ∅=st.erase x ∧
    (st.erase x ≠ ∅ → s'.getSet now src=.ok (some (st.erase x)))
  put : src ≠ dst → ∃ ost, s.getSet now dst=.ok ost ∧
    s'.getSet now dst=.ok (some ((ost.getD ∅).insert x))
  self : src=dst → s'.getSet now src=.ok (some st)
  others : ∀ k, k ≠ src → k ≠ dst → s'.slot k=s.slot k

theorem KeySet.insert_erase {st : KeySet} (hx : x ∈ st) : (st.erase x).insert x=st := by
  apply Std.ExtTreeSet.ext_mem
  intro y
  rw [Std.ExtTreeSet.mem_insert,Std.ExtTreeSet.mem_erase,compare_eq_iff,ne_eq,compare_eq_iff]
  by_cases hy : x=y
  · subst hy
    simp [hx]
  · simp [hy]

theorem MemoryStore.Moved.set (hguard : s.setGuard now src=true ∧ s.setGuard now dst=true)
    (hsrc : s.keyExpiredNonStr now src=false) (hdst : s.keyExpiredNonStr now dst=false)
    (hx : x ∈ s.sets.getD src ∅)
    (h : Moved s s' src dst (.set ((s.sets.getD src ∅).erase x))
      fun r => .set ((r.set.getD ∅).insert x)) :
    SetMoved now s s' src dst x (s.sets.getD src ∅) := by
  have hgs : s.typeOf now src=none ∨ s.typeOf now src=some .set := of_decide_eq_true hguard.1
  have hgd : s.typeOf now dst=none ∨ s.typeOf now dst=some .set := of_decide_eq_true hguard.2
  have hfound : s.getSet now src=.ok (some (s.sets.getD src ∅)) := by
    rw [Maps.getSet_of_guard hgs hsrc]
    rw [Std.ExtTreeMap.getD_eq_getD_getElem?] at hx ⊢
    cases hsome : s.sets[src]? with
    | none =>
      rw [hsome] at hx
      exact absurd hx Std.ExtTreeSet.not_mem_empty
    | some st => rfl
  generalize s.sets.getD src ∅=st at *
  have ht := (Maps.getSet_eq_some_iff.mp hfound).1
  obtain ⟨hdtype,hstype,hself⟩ := h.typeOf (by simp [Value.type]) (fun _ => rfl) ht hgd hdst
  have hkept : ((s.row src).keep (.set (st.erase x))).set.getD ∅=st.erase x := by
    rw [Row.keep]
    split_ifs with hempty
    · exact (Std.ExtTreeSet.isEmpty_iff.mp hempty).symm
    · rfl
  refine ⟨hfound,hx,fun hne => ?_,fun hne => ?_,fun heq => ?_,h.others⟩
  · have hset : s'.sets[src]?=((s.row src).keep (.set (st.erase x))).set :=
      congrArg Row.set (h.row_src hne)
    refine ⟨?_,fun hrest => ?_⟩
    · rw [Std.ExtTreeMap.getD_eq_getD_getElem?,hset,hkept]
    · have hleft : (Value.set (st.erase x) : Value F).isEmpty=false := by
        simpa [Value.isEmpty] using hrest
      rw [Row.keep,hleft] at hset
      exact Maps.getSet_eq_some_iff.mpr ⟨hstype hne hleft,hset⟩
  · have hset : s'.sets[dst]?=some ((s.sets[dst]?.getD ∅).insert x) :=
      congrArg Row.set (h.row_dst hne)
    exact ⟨_,Maps.getSet_of_guard hgd hdst,Maps.getSet_eq_some_iff.mpr ⟨hdtype hne,hset⟩⟩
  · have hset := congrArg Row.set (h.row_self heq)
    rw [hkept,KeySet.insert_erase hx] at hset
    exact Maps.getSet_eq_some_iff.mpr ⟨hself heq,hset⟩

end Sets
end GoRedis
