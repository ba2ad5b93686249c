import GoRedis.Persistence.Recovery
import GoRedis.Storage.View
/-!
# `RENAME` across a restart

`appendToAOF` does not log a `RENAME` as such: it reads the destination back and writes a
`SET` or an `HSET` for it, followed by a `DEL` of the source. The deadline is not written,
`HSET` merges into what the destination held, and for the other three types nothing is
written about the destination at all.
-/
namespace GoRedis
open Journal

theorem pairsMap_flatMap (pairs : List (Bytes × Bytes)) (acc : Map Bytes) :
    pairsMap acc (pairs.flatMap fun p => [p.1,p.2])=
      pairs.foldl (fun h p => h.insert p.1 p.2) acc := by
  induction pairs generalizing acc with
  | nil => rfl
  | cons p pairs ih => exact ih (acc.insert p.1 p.2)

theorem pairsMap_entries (w : World) (h : Map Bytes) :
    pairsMap ∅ (((w.rangeOrder h.keys).map fun f => (f,h.getD f [])).flatMap fun p => [p.1,p.2])=h := by
  have hfst : ((w.rangeOrder h.keys).map fun f => (f,h.getD f [])).map Prod.fst=
      w.rangeOrder h.keys := by simp [Function.comp_def]
  rw [pairsMap_flatMap]
  apply Std.ExtTreeMap.ext_getElem?
  intro f
  cases hf : h[f]? with
  | none =>
    have hmem : f ∉ h := by simp [Std.ExtTreeMap.mem_iff_isSome_getElem?,hf]
    rw [Map.getElem?_foldl_insert_of_notMem]
    · simp
    · rw [hfst]
      simpa using hmem
  | some v =>
    have hmem : f ∈ h := by simp [Std.ExtTreeMap.mem_iff_isSome_getElem?,hf]
    apply Map.getElem?_foldl_insert_of_mem
    · rw [hfst]
      exact (w.rangeOrder_perm h.keys).nodup_iff.mpr Std.ExtTreeMap.nodup_keys
    · refine List.mem_map.mpr ⟨f,by simpa using hmem,?_⟩
      simp [Std.ExtTreeMap.getD_eq_getD_getElem?,hf]

theorem keys_eq_nil_iff (h : Map Bytes) : h.keys=[] ↔ h=∅ := by
  rw [Map.eq_empty_iff,List.eq_nil_iff_forall_not_mem]
  simp

theorem mergeFields_eq_iff (old fields : Map Bytes) :
    MemoryStore.mergeFields old fields=fields ↔ ∀ f ∈ old, f ∈ fields := by
  have hget : ∀ f : Bytes, (MemoryStore.mergeFields old fields)[f]?=fields[f]?.or old[f]? :=
    Map.getElem?_foldl_toList old fields
  constructor
  · intro h f hf
    rw [Std.ExtTreeMap.mem_iff_isSome_getElem?] at hf ⊢
    have hor := hget f
    rw [h] at hor
    rw [hor]
    simp [hf]
  · intro h
    apply Std.ExtTreeMap.ext_getElem?
    intro f
    rw [hget]
    cases hf : fields[f]? with
    | some v => rfl
    | none =>
      rw [Option.none_or]
      by_contra hne
      have hold : f ∈ old := Std.ExtTreeMap.mem_iff_isSome_getElem?.mpr
        (Option.isSome_iff_ne_none.mpr hne)
      have := Std.ExtTreeMap.mem_iff_isSome_getElem?.mp (h f hold)
      simp [hf] at this

section
variable {F : Type}

/-- When the records of `RENAME src dst` say everything about `dst`: a string has no deadline;
a hash covers the fields that `dst` held and the two deadlines agree; otherwise `dst` already
looked like `src`. -/
def RenameDurable (m : Maps F) (now : Int) (src dst : Bytes) : Prop :=
  match m.typeOf now src with
  | some .string => ∀ e ∈ m.strings[src]?, e.expiresAt=none
  | some .hash =>
    if m.hashes[src]?=some ∅ then m.view now dst=m.view now src
    else (∀ f ∈ m.hashes.getD dst ∅, f ∈ m.hashes.getD src ∅) ∧
      m.keyExpiry[dst]?=m.keyExpiry[src]?
  | _ => m.view now dst=m.view now src

/-- The store a replay reaches before it deletes the source. -/
def renameTarget (m : Maps F) (now : Int) (src dst : Bytes) (r : MemoryStore F) :
    MemoryStore F :=
  match m.typeOf now src with
  | some .string => r.set dst ((m.get now src).getD [])
  | some .hash =>
    if m.hashes[src]?=some ∅ then r else (r.hSet dst (m.hashes.getD src ∅)).2
  | _ => r

theorem row_renameTarget (m : Maps F) (now : Int) (src : Bytes) {dst k : Bytes}
    (r : MemoryStore F) (h : dst ≠ k) : (renameTarget m now src dst r).row k=r.row k := by
  unfold renameTarget
  split
  · rw [MemoryStore.row_set,if_neg h]
  · split
    · rfl
    · rw [MemoryStore.row_hSet,if_neg h]
  · rfl

theorem view_renameTarget_iff {s r : MemoryStore F} {now : Int} {src dst : Bytes} {t : KeyType}
    (hr : r.toMaps=s.toMaps) (ht : s.typeOf now src=some t) :
    (renameTarget s.toMaps now src dst r).view now dst=s.view now src ↔
      RenameDurable s.toMaps now src dst := by
  have hsame : r.view now dst=s.view now dst := by rw [hr]
  unfold renameTarget RenameDurable
  cases t with
  | string =>
    obtain ⟨e,he,hget,hview⟩ := Maps.view_of_string ht
    have hset : (r.set dst e.value).view now dst=some (.string e.value,none) := by
      rw [Maps.view,MemoryStore.row_set,if_pos rfl]
      simp [Row.ofString,Row.absent,Row.view,Row.typeOf,expired]
    simp only [ht,hget,he,Option.getD_some,hset,hview,Option.some.injEq,Prod.mk.injEq,true_and,
      Option.mem_def,forall_eq']
    exact eq_comm
  | hash =>
    obtain ⟨h,hh,_,hview,hexp⟩ := Maps.view_of_hash ht
    simp only [ht]
    split_ifs with hempty
    · rw [hsame]
    · have hd : s.hashes.getD src ∅=h := by simp [Std.ExtTreeMap.getD_eq_getD_getElem?,hh]
      rw [hview,hd,← mergeFields_eq_iff]
      simp only [Maps.view,MemoryStore.row_hSet,if_true,hr]
      by_cases hx : expired now s.keyExpiry[dst]?
      · have hne : s.keyExpiry[dst]? ≠ s.keyExpiry[src]? := by
          intro he
          rw [he,hexp] at hx
          cases hx
        simp [Row.view,Row.typeOf,Maps.row,hx,hne]
      · simp [Row.view,Row.typeOf,Maps.row,hx]
  | list => simp only [ht,hsame]
  | set => simp only [ht,hsame]
  | zset => simp only [ht,hsame]

theorem renameRecords_applied [Float64 F] {w : World} {world : Nat → World}
    (hnow : ∀ i, (world i).now=w.now) {name src dst : Bytes} (hne : src ≠ dst)
    {s s' r : MemoryStore F} {t : KeyType} (ht : s.typeOf w.now src=some t) {b : Bool}
    (h : s.rename w.now src dst=.ok (b,s')) :
    applyAll world (renameRecords w [name,src,dst] s'.toMaps) r=
      some ((renameTarget s.toMaps w.now src dst r).del w.now [src]).2 := by
  obtain ⟨_,hdst,_⟩ := MemoryStore.row_rename hne ht h
  have hrow : (s.row src).typeOf w.now=some t := by rw [← Maps.typeOf_eq_row,ht]
  have htype : s'.typeOf w.now dst=some t := by
    rw [Maps.typeOf_eq_row,hdst,Row.typeOf_only hrow]
  have hdel : ∀ i (u : MemoryStore F), applied world i (delRecord src) u=
      some (u.del w.now [src]).2 := by
    intro i u
    rw [applied_eq_some,applyCommand_del,hnow]
    rfl
  simp only [renameRecords,if_neg hne,Maps.type,htype,renameTarget,ht]
  cases t with
  | string =>
    obtain ⟨e,he,hget,_⟩ := Maps.view_of_string ht
    obtain ⟨e',he',hget',_⟩ := Maps.view_of_string htype
    have hee : e'=e := by
      have := congrArg Row.string hdst
      simpa [Maps.row,Row.only,he,he'] using this
    have hset : applied world 0 (setRecord dst e.value) r=some (r.set dst e.value) := by
      rw [applied_eq_some,applyCommand_set]
      rfl
    simp [hget,hget',hee,applyAll,redo,hset,hdel]
  | hash =>
    obtain ⟨f,hf,_,_⟩ := Maps.view_of_hash ht
    obtain ⟨f',hf',hlive',_⟩ := Maps.view_of_hash htype
    have hff : f'=f := by
      have := congrArg Row.hash hdst
      simpa [Maps.row,Row.only,hf,hf'] using this
    subst hff
    have hall : s'.hGetAll w dst=(w.rangeOrder f'.keys).map fun x => (x,f'.getD x []) := by
      rw [Maps.hGetAll,hlive']
    have hnil : s'.hGetAll w dst=[] ↔ f'=∅ := by
      rw [hall,List.map_eq_nil_iff,← List.length_eq_zero_iff,(w.rangeOrder_perm f'.keys).length_eq,
        List.length_eq_zero_iff]
      exact keys_eq_nil_iff f'
    by_cases hempty : f'=∅
    · simp [hf,hnil.mpr hempty,hempty,applyAll,redo,hdel]
    · have hset : applied world 0 (utf8 "HSET"::dst::(s'.hGetAll w dst).flatMap fun p => [p.1,p.2]) r=
          some (r.hSet dst f').2 := by
        rw [applied_eq_some,applyCommand_hset _ _ _ (mt hnil.mp hempty),hall,pairsMap_entries]
        rfl
      have hd : s.hashes.getD src ∅=f' := by simp [Std.ExtTreeMap.getD_eq_getD_getElem?,hf]
      simp [hf,mt hnil.mp hempty,hempty,applyAll,redo,hset,hdel,hd]
  | list => simp [applyAll,redo,hdel]
  | set => simp [applyAll,redo,hdel]
  | zset => simp [applyAll,redo,hdel]

/-- `RENAME` of one key to another survives a replay of its records exactly under the
condition: the destination looks as it did live, the source is gone, and every other key is
as it was. -/
theorem rename_durable_iff [Float64 F] (w : World) (world : Nat → World)
    (hnow : ∀ i, (world i).now=w.now) (name src dst : Bytes)
    (hname : lookup (toUpper name)=some (.write .rename)) (hne : src ≠ dst)
    (s r : MemoryStore F) (hr : r.toMaps=s.toMaps) (d : Dispatched F)
    (hd : dispatch w [name,src,dst] s=.ok d) (hok : d.resp.isError=false) :
    (∃ r', applyAll world d.records r=some r' ∧
      r'.view w.now dst=d.store.view w.now dst ∧ r'.view w.now src=none ∧
      ∀ k, k ≠ src → k ≠ dst → r'.view w.now k=d.store.view w.now k) ↔
      RenameDurable s.toMaps w.now src dst := by
  -- the command succeeded, so the source is live and the records are those of `renameRecords`
  obtain ⟨t,b,s',ht,hren,hstore,hrec⟩ : ∃ t b s', s.typeOf w.now src=some t ∧
      s.rename w.now src dst=.ok (b,s') ∧ d.store=s' ∧
      d.records=renameRecords w [name,src,dst] s'.toMaps := by
    simp only [dispatch,hname,execute,handleRename,if_neg hne] at hd
    cases hren : s.rename w.now src dst with
    | error p => simp [hren] at hd
    | ok res =>
      obtain ⟨b,s'⟩ := res
      cases ht : s.typeOf w.now src with
      | none =>
        simp only [MemoryStore.rename,ht] at hren
        cases hren
        simp only [MemoryStore.rename,ht] at hd
        cases hd
        cases hok
      | some t =>
        obtain ⟨rfl,_⟩ := MemoryStore.row_rename hne ht hren
        simp only [hren] at hd
        cases hd
        exact ⟨t,true,_,rfl,rfl,rfl,rfl⟩
  obtain ⟨_,hdst,hothers⟩ := MemoryStore.row_rename hne ht hren
  have hrow : (s.row src).typeOf w.now=some t := by rw [← Maps.typeOf_eq_row,ht]
  have hdstView : d.store.view w.now dst=s.view w.now src := by
    rw [hstore,Maps.view,hdst,Row.view_only hrow]
    rfl
  rw [← view_renameTarget_iff hr ht,← hdstView,hrec,renameRecords_applied hnow hne ht hren]
  set target := renameTarget s.toMaps w.now src dst r
  have hview : (target.del w.now [src]).2.view w.now dst=target.view w.now dst := by
    rw [Maps.view,MemoryStore.row_del_of_ne target w.now src hne]
    rfl
  constructor
  · rintro ⟨r',hr',hv,_,_⟩
    cases hr'
    rwa [hview] at hv
  · intro hv
    refine ⟨_,rfl,by rw [hview,hv],MemoryStore.view_del_self target w.now src,?_⟩
    intro k hks hkd
    rw [hstore,Maps.view,Maps.view,MemoryStore.row_del_of_ne target w.now src (Ne.symm hks),
      row_renameTarget _ _ _ _ (Ne.symm hkd),hothers k (Ne.symm hks) (Ne.symm hkd),hr]

end

/-- `SET a 1`, `RENAME a b`. -/
theorem rename_durable_string :
    ∃ d, dispatch (.plain 0) [utf8 "RENAME",[97],[98]] ((.new : MemoryStore Int).set [97] [49])=.ok d ∧
      ((∃ r', applyAll (fun _ => .plain 0) d.records ((.new : MemoryStore Int).set [97] [49])=some r' ∧
        r'.view 0 [98]=d.store.view 0 [98] ∧ r'.view 0 [97]=none ∧
        ∀ k, k ≠ [97] → k ≠ [98] → r'.view 0 k=d.store.view 0 k) ↔
        RenameDurable ((.new : MemoryStore Int).set [97] [49]).toMaps 0 [97] [98]) :=
  ⟨_,rfl,rename_durable_iff (.plain 0) (fun _ => .plain 0) (fun _ => rfl) (utf8 "RENAME") [97] [98]
    (by decide) (by decide) _ _ rfl _ rfl rfl⟩

/-- `LPUSH a x`, `RENAME a b`: live, `b` is the list; after a replay it is gone. -/
theorem rename_loses_list :
    ∃ (s : MemoryStore Int) (d : Dispatched Int) (r' : MemoryStore Int),
      MemoryStore.new.lPush 0 [97] [[120]]=.ok (1,s) ∧
      dispatch (.plain 0) [utf8 "RENAME",[97],[98]] s=.ok d ∧ d.resp=okReply ∧
      applyAll (fun _ => .plain 0) d.records s=some r' ∧
      d.store.view 0 [98]=some (.list [[120]],none) ∧ r'.view 0 [98]=none :=
  ⟨_,_,_,rfl,rfl,rfl,rfl,by decide,by decide⟩

end GoRedis
