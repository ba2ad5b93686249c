import GoRedis.Commands.Iteration
import GoRedis.Commands.Ranks
import GoRedis.Storage.Ranges
/-!
# Full iterations

The four scans page through a sorted list by position. While the list stays as it is, and no
deadline passes, a client that starts at cursor 0 and passes back each cursor gets every element
that the pattern picks exactly once. `SCAN` and `KEYS` then differ for the two patterns that the
scans do not hand to the matcher.
-/
namespace GoRedis

/-- The names that the scans return, for a matcher of the pattern. -/
def Picks (pattern : Bytes) (isMatch : Bytes → Option Bool) (name : Bytes) : Prop :=
  pattern=[] ∨ pattern=utf8 "*" ∨ isMatch name=some true

instance (pattern : Bytes) (isMatch : Bytes → Option Bool) (name : Bytes) :
    Decidable (Picks pattern isMatch name) := inferInstanceAs (Decidable (_ ∨ _ ∨ _))

/-- The calls did not come back to cursor 0 yet, and are fewer than the elements, or a single one
would have been needed; or they did, without an error, and what they returned has the property. -/
def ReadsAll (size : Nat) (calls : List (World × Int)) (P : List Bytes → Prop)
    (result : Except StoreError (Option (List Bytes))) : Prop :=
  result=.ok none ∧ calls.length < max 1 size ∨ ∃ returned, result=.ok (some returned) ∧ P returned

theorem scanPage_of_inside {α : Type} {items : List α} {cursor : Nat}
    (h : cursor < items.length ∨ cursor=0) (count : Int) : scanPage items cursor count=
      (if items.length ≤ cursor+pageSize count then 0 else cursor+pageSize count,
        (items.drop cursor).take (pageSize count)) := by
  by_cases hlt : cursor < items.length
  · exact scanPage_of_lt hlt count
  · obtain rfl := h.resolve_left hlt
    obtain rfl := List.length_eq_zero_iff.mp (Nat.eq_zero_of_not_pos hlt)
    simp [scanPage]

theorem readsAll_of_scanPage {α : Type} {items : List α} {p : α → Bool} {f : α → List Bytes}
    {calls : List (World × Int)} {call : World × Int → Nat → Except StoreError (Nat × List Bytes)}
    (hcall : ∀ c ∈ calls, ∀ cursor, call c cursor=.ok ((scanPage items cursor c.2).1,
      ((scanPage items cursor c.2).2.filter p).flatMap f)) {P : List Bytes → Prop}
    (hP : P ((items.filter p).flatMap f)) :
    ReadsAll items.length calls P (Paging.readAll (calls.map call) 0) := by
  have hpages : ∀ c ∈ calls.map call,
      Paging.Pages items (fun x => if p x then f x else []) c := by
    intro c hc
    obtain ⟨c,hmem,rfl⟩ := List.mem_map.mp hc
    refine ⟨pageSize c.2,pageSize_pos c.2,fun cursor hcursor => ?_⟩
    rw [hcall c hmem,scanPage_of_inside hcursor,Paging.flatMap_filter]
  rcases Paging.readAll_of_pages hpages (.inr rfl) with ⟨hnone,hfew⟩ | hsome
  · refine .inl ⟨hnone,?_⟩
    rcases hfew with hnil | hfew
    · rw [List.map_eq_nil_iff.mp hnil]
      simp
    · rw [List.length_map,Nat.zero_add] at hfew
      exact Nat.lt_of_lt_of_le hfew (Nat.le_max_right _ _)
  · rw [List.drop_zero,← Paging.flatMap_filter] at hsome
    exact .inr ⟨_,hsome,hP⟩

namespace Maps
variable {F : Type}

/-- A deadline of a key: its own or the one of its string. -/
def Deadline (m : Maps F) (k : Bytes) (t : Int) : Prop :=
  m.keyExpiry[k]?=some t ∨ ∃ e, m.strings[k]?=some e ∧ e.expiresAt=some t

/-- No deadline passes during these instants. -/
def Quiet (m : Maps F) (instants : List Int) : Prop :=
  ∀ k t, m.Deadline k t → (∀ now ∈ instants, now < t) ∨ ∀ now ∈ instants, t < now

variable {m : Maps F} {instants : List Int} {now now' : Int} {k : Bytes}

theorem Quiet.expired_eq (h : m.Quiet instants) (hnow : now ∈ instants) (hnow' : now' ∈ instants)
    {x : Option Int} (hx : ∀ t, x=some t → m.Deadline k t) : expired now x=expired now' x := by
  cases x with
  | none => rfl
  | some t =>
    simp only [expired,decide_eq_decide]
    rcases h k t (hx t rfl) with hlt | hlt
    · have h₁ := hlt now hnow
      have h₂ := hlt now' hnow'
      omega
    · have h₁ := hlt now hnow
      have h₂ := hlt now' hnow'
      omega

theorem Quiet.keyExpired_eq (h : m.Quiet instants) (hnow : now ∈ instants)
    (hnow' : now' ∈ instants) : m.keyExpiredNonStr now k=m.keyExpiredNonStr now' k :=
  h.expired_eq hnow hnow' fun _ ht => .inl ht

theorem Quiet.string_eq (h : m.Quiet instants) (hnow : now ∈ instants) (hnow' : now' ∈ instants)
    {e : StrEntry} (he : m.strings[k]?=some e) :
    expired now e.expiresAt=expired now' e.expiresAt :=
  h.expired_eq hnow hnow' fun _ ht => .inr ⟨e,he,ht⟩

theorem Quiet.liveString_eq (h : m.Quiet instants) (hnow : now ∈ instants)
    (hnow' : now' ∈ instants) : m.liveString now k=m.liveString now' k := by
  unfold liveString
  cases he : m.strings[k]? with
  | none => rfl
  | some e => simp only [Option.filter_some,h.string_eq hnow hnow' he]

theorem Quiet.typeOf_eq (h : m.Quiet instants) (hnow : now ∈ instants) (hnow' : now' ∈ instants) :
    m.typeOf now k=m.typeOf now' k := by
  unfold typeOf
  rw [h.liveString_eq hnow hnow',h.keyExpired_eq hnow hnow']

theorem Quiet.ne_now (h : m.Quiet instants) (hnow : now ∈ instants) {e : StrEntry}
    (he : m.strings[k]?=some e) : e.expiresAt ≠ some now := by
  intro ht
  rcases h k now (.inr ⟨e,he,ht⟩) with hlt | hlt
  · exact absurd (hlt now hnow) (lt_irrefl now)
  · exact absurd (hlt now hnow) (lt_irrefl now)

theorem OneType.collections_le (h : m.OneType) (now : Int) (k : Bytes) :
    m.strings[k]?.isSome.toNat+(m.row k).collections now ≤ 1 := by
  have hfew : ([.string,.hash,.list,.set,.zset].filter fun t => m.Holds t k).length ≤ 1 := by
    rw [← List.toFinset_card_of_nodup (List.Nodup.filter _ (by decide)),Finset.card_le_one_iff]
    intro t t' ht ht'
    simp only [List.mem_toFinset,List.mem_filter,decide_eq_true_iff] at ht ht'
    exact h k t t' ht.2 ht'.2
  have hsome : ∀ (t : KeyType) {V : Type} (a : Map V), (m.Holds t k ↔ k ∈ a) →
      (if m.Holds t k then 1 else 0)=a[k]?.isSome.toNat := by
    intro t V a ha
    rw [← Map.count_keys,Std.ExtTreeMap.nodup_keys.count]
    simp only [ha,Std.ExtTreeMap.mem_keys]
  simp only [← List.countP_eq_length_filter,List.countP_cons,List.countP_nil,
    decide_eq_true_iff] at hfew
  rw [hsome .string m.strings Iff.rfl,hsome .hash m.hashes Iff.rfl,hsome .list m.lists Iff.rfl,
    hsome .set m.sets Iff.rfl,hsome .zset m.zsets Iff.rfl] at hfew
  have hcollections : (m.row k).collections now ≤ m.hashes[k]?.isSome.toNat+
      m.lists[k]?.isSome.toNat+m.sets[k]?.isSome.toNat+m.zsets[k]?.isSome.toNat := by
    unfold Row.collections
    split_ifs
    · exact Nat.zero_le _
    · exact le_refl _
  omega

theorem Quiet.clear (h : m.Quiet instants) (hone : m.OneType) (hnow : now ∈ instants) (k : Bytes) :
    (m.row k).Clear now := by
  have hle := hone.collections_le now k
  unfold Row.Clear
  cases hs : m.strings[k]? with
  | none =>
    rw [hs] at hle
    simpa [row,hs] using hle
  | some e =>
    have hne : e.expiresAt ≠ some now := h.ne_now hnow hs
    rw [hs] at hle
    simpa [row,hs,hne] using hle

theorem Quiet.count_allKeys (h : m.Quiet instants) (hone : m.OneType) (hnow : now ∈ instants)
    (k : Bytes) : (m.allKeys now).count k=if m.typeOf now k=none then 0 else 1 := by
  rw [Maps.count_allKeys,typeOf_eq_row]
  split_ifs with htype
  · by_contra hpos
    exact Row.typeOf_ne_none_of_listed _ _ (Nat.pos_of_ne_zero hpos) htype
  · exact ((Row.clear_iff _ _).mp (h.clear hone hnow k)).1 htype

theorem Quiet.allKeys_eq (h : m.Quiet instants) (hone : m.OneType) (hnow : now ∈ instants)
    (hnow' : now' ∈ instants) : m.allKeys now=m.allKeys now' := by
  have hperm : (m.allKeys now).Perm (m.allKeys now') := by
    rw [List.perm_iff_count]
    intro k
    rw [h.count_allKeys hone hnow,h.count_allKeys hone hnow',h.typeOf_eq hnow hnow']
  exact hperm.eq_of_pairwise' (m.sorted_allKeys now) (m.sorted_allKeys now')

theorem Quiet.nodup_allKeys (h : m.Quiet instants) (hone : m.OneType) (hnow : now ∈ instants) :
    (m.allKeys now).Nodup := by
  rw [List.nodup_iff_count_le_one]
  intro k
  rw [h.count_allKeys hone hnow]
  split_ifs <;> omega

theorem Quiet.mem_allKeys (h : m.Quiet instants) (hone : m.OneType) (hnow : now ∈ instants) :
    k ∈ m.allKeys now ↔ k ∈ m.existing now := by
  rw [← List.count_pos_iff,h.count_allKeys hone hnow]
  show _ ↔ m.typeOf now k ≠ none
  split_ifs with htype <;> simp [htype]

theorem Quiet.length_allKeys (h : m.Quiet instants) (hone : m.OneType) (hnow : now ∈ instants) :
    (m.allKeys now).length=(m.existing now).ncard := by
  apply length_allKeys_of_once
  intro k hk
  have htype : m.typeOf now k ≠ none := hk
  rw [h.count_allKeys hone hnow,if_neg htype]

/-- `Scan` from cursor 0 on. -/
def fullScan (m : Maps F) (pattern : Bytes) (calls : List (World × Int)) :
    Except StoreError (Option (List Bytes)) :=
  Paging.readAll (calls.map fun c cursor => .ok (m.scan c.1 cursor pattern c.2)) 0

/-- `HScan` from cursor 0 on. -/
def fullHScan (m : Maps F) (key pattern : Bytes) (calls : List (World × Int)) :
    Except StoreError (Option (List Bytes)) :=
  Paging.readAll (calls.map fun c cursor => m.hScan c.1 key cursor pattern c.2) 0

/-- `SScan` from cursor 0 on. -/
def fullSScan (m : Maps F) (key pattern : Bytes) (calls : List (World × Int)) :
    Except StoreError (Option (List Bytes)) :=
  Paging.readAll (calls.map fun c cursor => m.sScan c.1 key cursor pattern c.2) 0

/-- `ZScan` from cursor 0 on. -/
def fullZScan [Float64 F] (m : Maps F) (key pattern : Bytes) (calls : List (World × Int)) :
    Except StoreError (Option (List Bytes)) :=
  Paging.readAll (calls.map fun c cursor => m.zScan c.1 key cursor pattern c.2) 0

variable {pattern : Bytes} {isMatch : Bytes → Option Bool} {calls : List (World × Int)}

theorem scanMatches_eq {w : World} (h : w.filepathMatch pattern=isMatch) :
    scanMatches w pattern=fun name => decide (Picks pattern isMatch name) := by
  funext name
  rw [scanMatches,h]
  rfl

theorem mem_instants {c : World × Int} (hc : c ∈ calls) :
    c.1.now ∈ calls.map fun c => c.1.now := List.mem_map_of_mem hc

theorem fullScan_readsAll (hmatch : ∀ c ∈ calls, c.1.filepathMatch pattern=isMatch)
    (hquiet : m.Quiet (calls.map fun c => c.1.now)) (hone : m.OneType)
    (hnow : now ∈ calls.map fun c => c.1.now) :
    ReadsAll (m.existing now).ncard calls (fun returned => returned.Nodup ∧
        ∀ k, k ∈ returned ↔ k ∈ m.existing now ∧ Picks pattern isMatch k)
      (m.fullScan pattern calls) := by
  rw [← hquiet.length_allKeys hone hnow]
  apply readsAll_of_scanPage (p := fun k => decide (Picks pattern isMatch k)) (f := fun k => [k])
  · intro c hc cursor
    rw [List.flatMap_singleton',scan,scanMatches_eq (hmatch c hc),
      hquiet.allKeys_eq hone (mem_instants hc) hnow]
  · rw [List.flatMap_singleton']
    refine ⟨(hquiet.nodup_allKeys hone hnow).filter _,fun k => ?_⟩
    rw [List.mem_filter,hquiet.mem_allKeys hone hnow,decide_eq_true_iff]

section Typed
variable {w : World} {key : Bytes}

theorem hScan_of_hash {h : Map Bytes} (htype : m.typeOf w.now key=some .hash)
    (hh : m.hashes[key]?=some h) (cursor : Nat) (count : Int) :
    m.hScan w key cursor pattern count=.ok ((scanPage (sortStrings h.keys) cursor count).1,
      ((scanPage (sortStrings h.keys) cursor count).2.filter (scanMatches w pattern)).flatMap
        fun f => [f,h.getD f []]) := by
  have hlive : m.liveHash w.now key=some h := (live_of_typeOf htype (by decide) m.hashes).trans hh
  simp only [hScan,hlive,htype,ne_eq,not_true_eq_false,if_false]

theorem sScan_of_set {st : KeySet} (htype : m.typeOf w.now key=some .set)
    (hst : m.sets[key]?=some st) (cursor : Nat) (count : Int) :
    m.sScan w key cursor pattern count=.ok ((scanPage (sortStrings st.toList) cursor count).1,
      (scanPage (sortStrings st.toList) cursor count).2.filter (scanMatches w pattern)) := by
  have hlive := (live_of_typeOf htype (by decide) m.sets).trans hst
  rw [live] at hlive
  simp only [sScan,hlive,htype,ne_eq,not_true_eq_false,if_false]

theorem zScan_of_zset [Float64 F] {z : Map F} (htype : m.typeOf w.now key=some .zset)
    (hz : m.zsets[key]?=some z) (cursor : Nat) (count : Int) :
    m.zScan w key cursor pattern count=.ok ((scanPage (sortedMembers z) cursor count).1,
      ((scanPage (sortedMembers z) cursor count).2.filter fun x =>
        scanMatches w pattern x.member).flatMap fun x => [x.member,formatScore x.score]) := by
  have hlive := (live_of_typeOf htype (by decide) m.zsets).trans hz
  rw [live] at hlive
  simp only [zScan,hlive,htype,ne_eq,not_true_eq_false,if_false,withScores,if_true]

theorem fullHScan_readsAll {h : Map Bytes}
    (hmatch : ∀ c ∈ calls, c.1.filepathMatch pattern=isMatch)
    (htype : ∀ c ∈ calls, m.typeOf c.1.now key=some .hash) (hh : m.hashes[key]?=some h) :
    ReadsAll h.size calls (fun returned => ∃ fields : List Bytes, fields.Nodup ∧
        (∀ f, f ∈ fields ↔ f ∈ h ∧ Picks pattern isMatch f) ∧
        returned=fields.flatMap fun f => [f,h.getD f []])
      (m.fullHScan key pattern calls) := by
  have hperm := sortStrings_perm h.keys
  have hlen : (sortStrings h.keys).length=h.size := by
    rw [hperm.length_eq,Std.ExtTreeMap.length_keys]
  rw [← hlen]
  apply readsAll_of_scanPage (p := fun f => decide (Picks pattern isMatch f))
    (f := fun f => [f,h.getD f []])
  · intro c hc cursor
    rw [hScan_of_hash (htype c hc) hh,scanMatches_eq (hmatch c hc)]
  · refine ⟨_,(hperm.nodup_iff.mpr Std.ExtTreeMap.nodup_keys).filter _,fun f => ?_,rfl⟩
    rw [List.mem_filter,hperm.mem_iff,Std.ExtTreeMap.mem_keys,decide_eq_true_iff]

theorem fullSScan_readsAll {st : KeySet}
    (hmatch : ∀ c ∈ calls, c.1.filepathMatch pattern=isMatch)
    (htype : ∀ c ∈ calls, m.typeOf c.1.now key=some .set) (hst : m.sets[key]?=some st) :
    ReadsAll st.size calls (fun returned => returned.Nodup ∧
        ∀ x, x ∈ returned ↔ x ∈ st ∧ Picks pattern isMatch x)
      (m.fullSScan key pattern calls) := by
  have hperm := sortStrings_perm st.toList
  have hlen : (sortStrings st.toList).length=st.size := by
    rw [hperm.length_eq,Std.ExtTreeSet.length_toList]
  rw [← hlen]
  apply readsAll_of_scanPage (p := fun x => decide (Picks pattern isMatch x)) (f := fun x => [x])
  · intro c hc cursor
    rw [List.flatMap_singleton',sScan_of_set (htype c hc) hst,scanMatches_eq (hmatch c hc)]
  · rw [List.flatMap_singleton']
    refine ⟨(hperm.nodup_iff.mpr (KeySet.nodup_toList st)).filter _,fun x => ?_⟩
    rw [List.mem_filter,hperm.mem_iff,Std.ExtTreeSet.mem_toList,decide_eq_true_iff]

theorem fullZScan_readsAll [Float64 F] {z : Map F}
    (hmatch : ∀ c ∈ calls, c.1.filepathMatch pattern=isMatch)
    (htype : ∀ c ∈ calls, m.typeOf c.1.now key=some .zset) (hz : m.zsets[key]?=some z) :
    ReadsAll z.size calls (fun returned => ∃ ms : List (ZMember F), (ms.map ZMember.member).Nodup ∧
        (∀ x, x ∈ ms ↔ z[x.member]?=some x.score ∧ Picks pattern isMatch x.member) ∧
        returned=ms.flatMap fun x => [x.member,formatScore x.score])
      (m.fullZScan key pattern calls) := by
  rw [← length_sortedMembers]
  apply readsAll_of_scanPage (p := fun x => decide (Picks pattern isMatch x.member))
    (f := fun x => [x.member,formatScore x.score])
  · intro c hc cursor
    rw [zScan_of_zset (htype c hc) hz,scanMatches_eq (hmatch c hc)]
  · refine ⟨_,?_,fun x => ?_,rfl⟩
    · exact (sortedMembers_keys_nodup z).sublist (List.filter_sublist.map _)
    · rw [List.mem_filter,mem_sortedMembers,decide_eq_true_iff]

end Typed

/-- Full iterations while nothing is written and no deadline passes, with any page sizes and any
matcher. `SCAN` returns the keys that exist, `HSCAN` the fields with their values, `SSCAN` the
members and `ZSCAN` the members with their scores, each one that the pattern picks exactly once.
As many calls as there are elements are enough, and one for an empty list. -/
theorem quiet_scans [Float64 F] (m : Maps F) (pattern : Bytes) (isMatch : Bytes → Option Bool)
    (calls : List (World × Int)) (hmatch : ∀ c ∈ calls, c.1.filepathMatch pattern=isMatch)
    (hquiet : m.Quiet (calls.map fun c => c.1.now)) (now : Int)
    (hnow : now ∈ calls.map fun c => c.1.now) :
    (m.OneType → ReadsAll (m.existing now).ncard calls
      (fun returned => returned.Nodup ∧
        ∀ k, k ∈ returned ↔ k ∈ m.existing now ∧ Picks pattern isMatch k)
      (m.fullScan pattern calls)) ∧
    (∀ key h, m.typeOf now key=some .hash → m.hashes[key]?=some h → ReadsAll h.size calls
      (fun returned => ∃ fields : List Bytes, fields.Nodup ∧
        (∀ f, f ∈ fields ↔ f ∈ h ∧ Picks pattern isMatch f) ∧
        returned=fields.flatMap fun f => [f,h.getD f []])
      (m.fullHScan key pattern calls)) ∧
    (∀ key st, m.typeOf now key=some .set → m.sets[key]?=some st → ReadsAll st.size calls
      (fun returned => returned.Nodup ∧ ∀ x, x ∈ returned ↔ x ∈ st ∧ Picks pattern isMatch x)
      (m.fullSScan key pattern calls)) ∧
    ∀ key z, m.typeOf now key=some .zset → m.zsets[key]?=some z → ReadsAll z.size calls
      (fun returned => ∃ ms : List (ZMember F), (ms.map ZMember.member).Nodup ∧
        (∀ x, x ∈ ms ↔ z[x.member]?=some x.score ∧ Picks pattern isMatch x.member) ∧
        returned=ms.flatMap fun x => [x.member,formatScore x.score])
      (m.fullZScan key pattern calls) := by
  have hkeep : ∀ {key t}, m.typeOf now key=some t → ∀ c ∈ calls, m.typeOf c.1.now key=some t :=
    fun htype c hc => (hquiet.typeOf_eq (mem_instants hc) hnow).trans htype
  refine ⟨fun hone => fullScan_readsAll hmatch hquiet hone hnow,?_,?_,?_⟩
  · intro key h htype hh
    exact fullHScan_readsAll hmatch (hkeep htype) hh
  · intro key st htype hst
    exact fullSScan_readsAll hmatch (hkeep htype) hst
  · intro key z htype hz
    exact fullZScan_readsAll hmatch (hkeep htype) hz

theorem Lasting.not_deadline (h : m.Lasting) (k : Bytes) (t : Int) : ¬m.Deadline k t := by
  rintro (ht | ⟨e,he,ht⟩)
  · have hnone : m.keyExpiry[k]?=none := (h k).1
    rw [hnone] at ht
    cases ht
  · have hnone : e.expiresAt=none := (h k).2 e he
    rw [hnone] at ht
    cases ht

theorem oneType_threeKeys : threeKeys.OneType :=
  MemoryStore.oneType_storeMembers (MemoryStore.oneType_set
    (MemoryStore.oneType_setWithTTL oneType_new 0 (utf8 "a") [] 5) (utf8 "b") []) (utf8 "s")
    (.ok [utf8 "x",utf8 "y",utf8 "z"])

theorem deadline_threeKeys {k : Bytes} {t : Int} (h : threeKeys.toMaps.Deadline k t) : t=5 := by
  have hstrings : ∀ (k : Bytes) (e : StrEntry), threeKeys.strings[k]?=some e →
      e.expiresAt=none ∨ e.expiresAt=some 5 := Map.forall_of_toList (by decide)
  rcases h with h | ⟨e,he,ht⟩
  · cases h
  · rcases hstrings k e he with hx | hx
    · cases hx.symm.trans ht
    · exact (Option.some.inj (hx.symm.trans ht)).symm

/-- Three keys and three members in pages of two, before the deadline of one of the keys. -/
theorem quiet_scans_pages : threeKeys.toMaps.Deadline (utf8 "a") 5 ∧
    threeKeys.toMaps.fullScan (utf8 "*") [(World.plain 0,2),(World.plain 1,2)]=
      .ok (some [utf8 "a",utf8 "b",utf8 "s"]) ∧
    (∀ k, k ∈ [utf8 "a",utf8 "b",utf8 "s"] ↔ k ∈ threeKeys.toMaps.existing 1 ∧
      Picks (utf8 "*") ((World.plain 0).filepathMatch (utf8 "*")) k) ∧
    threeKeys.toMaps.fullSScan (utf8 "s") (utf8 "*") [(World.plain 0,2),(World.plain 1,2)]=
      .ok (some [utf8 "x",utf8 "y",utf8 "z"]) ∧
    ∀ x, x ∈ [utf8 "x",utf8 "y",utf8 "z"] ↔ x ∈ ({utf8 "x",utf8 "y",utf8 "z"} : KeySet) ∧
      Picks (utf8 "*") ((World.plain 0).filepathMatch (utf8 "*")) x := by
  have hscan : threeKeys.toMaps.fullScan (utf8 "*") [(World.plain 0,2),(World.plain 1,2)]=
      .ok (some [utf8 "a",utf8 "b",utf8 "s"]) := by
    simp only [fullScan,List.map_cons,List.map_nil,scan,World.plain,allKeys_threeKeys]
    decide
  have hsscan : threeKeys.toMaps.fullSScan (utf8 "s") (utf8 "*")
      [(World.plain 0,2),(World.plain 1,2)]=.ok (some [utf8 "x",utf8 "y",utf8 "z"]) := by decide
  have hquiet : threeKeys.toMaps.Quiet ([(World.plain 0,(2:Int)),(World.plain 1,2)].map
      fun c => c.1.now) := by
    intro k t ht
    rw [deadline_threeKeys ht]
    decide
  obtain ⟨hkeys,_,hmembers,_⟩ := quiet_scans threeKeys.toMaps (utf8 "*")
    ((World.plain 0).filepathMatch (utf8 "*")) [(World.plain 0,2),(World.plain 1,2)]
    (by simp [World.plain]) hquiet 1 (by simp [World.plain])
  refine ⟨.inr ⟨_,rfl,rfl⟩,hscan,?_,hsscan,?_⟩
  · rcases hkeys oneType_threeKeys with ⟨hfew,_⟩ | ⟨returned,hall,_,hmem⟩
    · cases hscan.symm.trans hfew
    · cases hscan.symm.trans hall
      exact hmem
  · rcases hmembers (utf8 "s") {utf8 "x",utf8 "y",utf8 "z"} (by decide) (by decide) with
      ⟨hfew,_⟩ | ⟨returned,hall,_,hmem⟩
    · cases hsscan.symm.trans hfew
    · cases hsscan.symm.trans hall
      exact hmem

/-- Every deadline has passed. -/
def NonePending (m : Maps F) (now : Int) : Prop := ∀ k t, m.Deadline k t → t < now

theorem quiet_of_nonePending (h : ∀ now ∈ instants, m.NonePending now) : m.Quiet instants :=
  fun k t ht => .inr fun now hnow => h now hnow k t ht

theorem mem_keys (w : World) (pattern k : Bytes) : k ∈ m.keys w pattern ↔
    k ∈ m.existing w.now ∧ w.filepathMatch pattern k=some true := by
  have hlive : k ∈ (m.strings.filter fun _ e => !expired w.now e.expiresAt).keys ↔
      ∃ e, (m.row k).string=some e ∧ expired w.now e.expiresAt=false := by
    rw [Std.ExtTreeMap.mem_keys,Std.ExtTreeMap.mem_iff_isSome_getElem?,
      Std.ExtTreeMap.getElem?_filter',Option.isSome_filter,Option.any_eq_true]
    simp [row]
  have hcoll : k ∈ m.collectionKeys w.now ↔ 0 < (m.row k).collections w.now := by
    rw [← List.count_pos_iff,count_collectionKeys]
  have hexists : k ∈ m.existing w.now ↔ (m.row k).typeOf w.now ≠ none := by
    rw [← typeOf_eq_row]
    rfl
  rw [keys,List.mem_filter,World.mem_rangeOrder,List.mem_append,hlive,hcoll,hexists,
    Row.typeOf_ne_none_iff,decide_eq_true_iff]

end Maps

/-- What `filepath.Match` is documented to do with two patterns: `*` matches any sequence of bytes
other than the separator `/`, and the empty pattern matches the empty name. -/
structure DocumentedMatch (filepathMatch : Bytes → Bytes → Option Bool) : Prop where
  star : ∀ name, filepathMatch (utf8 "*") name=some (decide (47 ∉ name))
  empty : ∀ name, filepathMatch [] name=some (decide (name=[]))

/-- A full iteration of `SCAN` from a cursor on: the requests have options that make `pattern` the
pattern, each passes back the cursor of the reply before, and the last reply has cursor 0. -/
inductive ScanIteration {F : Type} (m : Maps F) (pattern : Bytes) :
    Bytes → List World → List Bytes → Prop
  | last {w : World} {cursor : Bytes} {opts keys : List Bytes} {count : Int}
      (hopts : parseScanArgs opts (utf8 "*") 10=.ok (pattern,count))
      (hreply : handleScan w (utf8 "SCAN"::cursor::opts) m=
        .array [.bulkString (utf8 "0"),.bulks keys]) :
      ScanIteration m pattern cursor [w] keys
  | more {w : World} {cursor next : Bytes} {opts keys rest : List Bytes} {ws : List World}
      {count : Int} (hopts : parseScanArgs opts (utf8 "*") 10=.ok (pattern,count))
      (hreply : handleScan w (utf8 "SCAN"::cursor::opts) m=
        .array [.bulkString next,.bulks keys])
      (hnext : next ≠ utf8 "0") (hrest : ScanIteration m pattern next ws rest) :
      ScanIteration m pattern cursor (w::ws) (keys++rest)

namespace ScanIteration
variable {F : Type} {m : Maps F} {pattern : Bytes}

theorem formatNat_eq_zero_iff (n : Nat) : formatNat n=utf8 "0" ↔ n=0 := by
  constructor
  · intro h
    have hparse := parseNat_formatNat n
    rw [h] at hparse
    exact (Option.some.inj hparse).symm
  · rintro rfl
    rfl

theorem scan_of_reply {w : World} {cursor : Nat} {opts keys : List Bytes} {count : Int}
    {next : Bytes} (hopts : parseScanArgs opts (utf8 "*") 10=.ok (pattern,count))
    (hreply : handleScan w (utf8 "SCAN"::formatNat cursor::opts) m=
      .array [.bulkString next,.bulks keys]) :
    next=formatNat (m.scan w cursor (if pattern=utf8 "*" then [] else pattern) count).1 ∧
      keys=(m.scan w cursor (if pattern=utf8 "*" then [] else pattern) count).2 := by
  simp only [handleScan,scanWith,parseUint,parseNat_formatNat,Option.bind_some,hopts] at hreply
  by_cases hcursor : cursor < 2^64
  · simp only [if_pos hcursor,replyOf,scanReply,Response.array.injEq,List.cons.injEq,
      Response.bulkString.injEq,and_true] at hreply
    exact ⟨hreply.1.symm,(bulks_inj.mp hreply.2).symm⟩
  · simp only [if_neg hcursor,notInteger] at hreply
    cases hreply

theorem readAll {cursor : Bytes} {ws : List World} {returned : List Bytes}
    (h : ScanIteration m pattern cursor ws returned) {pos : Nat} (hcursor : cursor=formatNat pos) :
    ∃ calls : List (World × Int), calls.map Prod.fst=ws ∧
      Paging.readAll (calls.map fun c cursor => (.ok (m.scan c.1 cursor
        (if pattern=utf8 "*" then [] else pattern) c.2) : Except StoreError _)) pos=
        .ok (some returned) := by
  induction h generalizing pos with
  | @last w cursor opts keys count hopts hreply =>
    subst hcursor
    obtain ⟨hnext,hkeys⟩ := scan_of_reply hopts hreply
    have hzero := (formatNat_eq_zero_iff _).mp hnext.symm
    refine ⟨[(w,count)],rfl,?_⟩
    simp [Paging.readAll,Except.bind,hzero,hkeys]
  | @more w cursor next opts keys rest ws count hopts hreply hne hrest ih =>
    subst hcursor
    obtain ⟨hnext,hkeys⟩ := scan_of_reply hopts hreply
    have hzero : (m.scan w pos (if pattern=utf8 "*" then [] else pattern) count).1 ≠ 0 := by
      intro hzero
      rw [hzero] at hnext
      exact hne hnext
    obtain ⟨calls,hcalls,hread⟩ := ih hnext
    refine ⟨(w,count)::calls,by rw [List.map_cons,hcalls],?_⟩
    simp only [List.map_cons,Paging.readAll,Except.bind,if_neg hzero,hread]
    rw [hkeys]
    rfl

theorem mem_returned {ws : List World} {returned : List Bytes}
    {filepathMatch : Bytes → Bytes → Option Bool} {now : Int}
    (h : ScanIteration m pattern (utf8 "0") ws returned) (hone : m.OneType)
    (hnone : ∀ t ∈ now::ws.map World.now, m.NonePending t)
    (hmatch : ∀ w ∈ ws, w.filepathMatch=filepathMatch) (k : Bytes) :
    k ∈ returned ↔ k ∈ m.existing now ∧ Picks pattern (filepathMatch pattern) k := by
  obtain ⟨calls,rfl,hread⟩ := h.readAll (show utf8 "0"=formatNat 0 from rfl)
  have hpicks : ∀ k, Picks (if pattern=utf8 "*" then [] else pattern)
      (filepathMatch (if pattern=utf8 "*" then [] else pattern)) k ↔
      Picks pattern (filepathMatch pattern) k := by
    intro k
    split_ifs with hstar
    · simp [Picks,hstar]
    · rfl
  have hmatch' : ∀ c ∈ calls, c.1.filepathMatch (if pattern=utf8 "*" then [] else pattern)=
      filepathMatch (if pattern=utf8 "*" then [] else pattern) := by
    intro c hc
    rw [hmatch c.1 (List.mem_map_of_mem hc)]
  have hquiet := Maps.quiet_of_nonePending hnone
  cases calls with
  | nil => cases hread
  | cons c calls =>
    have hmem : c.1.now ∈ now::((c::calls).map Prod.fst).map World.now := by simp
    have hcalls : m.Quiet ((c::calls).map fun c => c.1.now) := by
      intro k t ht
      rcases hquiet k t ht with hlt | hlt
      · exact .inl fun t' ht' => hlt t' (List.mem_cons_of_mem _ (by simpa using ht'))
      · exact .inr fun t' ht' => hlt t' (List.mem_cons_of_mem _ (by simpa using ht'))
    have hfirst : c.1.now ∈ (c::calls).map fun c => c.1.now := by simp
    rcases Maps.fullScan_readsAll hmatch' hcalls hone hfirst with ⟨hfew,_⟩ | ⟨all,hall,_,hkeys⟩
    · cases hread.symm.trans hfew
    · cases hread.symm.trans hall
      rw [hkeys k,hpicks k]
      show m.typeOf c.1.now k ≠ none ∧ _ ↔ m.typeOf now k ≠ none ∧ _
      rw [hquiet.typeOf_eq hmem (List.mem_cons_self ..)]

theorem reply_of_scan {w : World} {cursor next : Nat} {opts keys : List Bytes} {count : Int}
    (hopts : parseScanArgs opts (utf8 "*") 10=.ok (pattern,count)) (hcursor : cursor < 2^64)
    (h : m.scan w cursor (if pattern=utf8 "*" then [] else pattern) count=(next,keys)) :
    handleScan w (utf8 "SCAN"::formatNat cursor::opts) m=
      .array [.bulkString (formatNat next),.bulks keys] := by
  have hparse : parseUint (formatNat cursor)=some cursor := by
    rw [parseUint,parseNat_formatNat,Option.bind_some,if_pos hcursor]
  simp only [handleScan,scanWith,hparse,hopts,h]
  rfl

theorem single {w : World} {keys : List Bytes}
    (h : m.scan w 0 (if pattern=utf8 "*" then [] else pattern) 10=(0,keys)) :
    ScanIteration m pattern (utf8 "0") [w] keys := by
  have hopts : parseScanArgs [utf8 "MATCH",pattern] (utf8 "*") 10=.ok (pattern,10) := by
    have hword : toUpper (utf8 "MATCH")=utf8 "MATCH" := by decide
    simp only [parseScanArgs,hword,if_true]
  exact .last hopts (reply_of_scan hopts (by decide) h)

end ScanIteration

/-- While no deadline is pending, a full iteration of `SCAN` with a pattern and `KEYS` with it
return the same keys, and both every live key for the pattern `*`, exactly when the pattern is not
`*`, or no key contains `/`, and when it is not empty, or there is no key but the empty one. -/
theorem scan_agrees_keys_iff {F : Type} (m : Maps F) (w : World) (pattern : Bytes)
    (ws : List World) (returned keys : List Bytes) (hone : m.OneType)
    (hnone : ∀ t ∈ w.now::ws.map World.now, m.NonePending t)
    (hmatch : ∀ w' ∈ ws, w'.filepathMatch=w.filepathMatch) (hdoc : DocumentedMatch w.filepathMatch)
    (hscan : ScanIteration m pattern (utf8 "0") ws returned)
    (hkeys : handleKeys w [utf8 "KEYS",pattern] m=.bulks keys) :
    ((∀ k, k ∈ returned ↔ k ∈ keys) ∧
      (pattern=utf8 "*" → ∀ k ∈ m.existing w.now, k ∈ returned ∧ k ∈ keys)) ↔
      (pattern=utf8 "*" → ∀ k ∈ m.existing w.now, 47 ∉ k) ∧
      (pattern=[] → ∀ k ∈ m.existing w.now, k=[]) := by
  have hreturned := hscan.mem_returned hone hnone hmatch
  have hmem : ∀ k, k ∈ keys ↔ k ∈ m.existing w.now ∧ w.filepathMatch pattern k=some true := by
    intro k
    have hk : keys=m.keys w pattern := by
      unfold handleKeys at hkeys
      dsimp only at hkeys
      split_ifs at hkeys
      · cases hkeys
      · exact (bulks_inj.mp hkeys).symm
    rw [hk,Maps.mem_keys]
  simp only [hreturned,hmem]
  constructor
  · rintro ⟨h,_⟩
    refine ⟨?_,?_⟩
    · rintro rfl k hk
      have hpick := ((h k).mp ⟨hk,.inr (.inl rfl)⟩).2
      simpa [hdoc.star] using hpick
    · rintro rfl k hk
      have hpick := ((h k).mp ⟨hk,.inl rfl⟩).2
      simpa [hdoc.empty] using hpick
  · rintro ⟨hstar,hempty⟩
    refine ⟨fun k => and_congr_right fun hk => ?_,?_⟩
    · unfold Picks
      by_cases hp : pattern=utf8 "*"
      · simp [hp,hdoc.star,hstar hp k hk]
      · by_cases hp' : pattern=[]
        · simp [hp',hdoc.empty,hempty hp' k hk]
        · simp [hp,hp']
    · rintro rfl k hk
      exact ⟨⟨hk,.inr (.inl rfl)⟩,hk,by simp [hdoc.star,hstar rfl k hk]⟩

/-- Plain surroundings with a matcher that knows the `*` by itself, as documented, and takes other
patterns for names. -/
def globbing (now : Int) : World := { World.plain now with
  filepathMatch := fun pattern name =>
    some (decide (if pattern=utf8 "*" then 47 ∉ name else pattern=name)) }

theorem globbing_documented (now : Int) : DocumentedMatch (globbing now).filepathMatch := by
  have hne : ([] : Bytes) ≠ utf8 "*" := by decide
  constructor
  · intro name
    rfl
  · intro name
    simp [globbing,hne,eq_comm]

/-- A store of one key without a deadline. -/
def oneKey (k : Bytes) : Maps Int := (MemoryStore.new.set k []).toMaps

theorem oneType_oneKey (k : Bytes) : (oneKey k).OneType := MemoryStore.oneType_set oneType_new _ _

/-- The store of three keys once the deadline of the first has passed, in pages of one key. -/
theorem scan_agrees_keys_pages : ∃ keys,
    ScanIteration threeKeys.toMaps (utf8 "*") (utf8 "0") [globbing 6,globbing 7]
      [utf8 "b",utf8 "s"] ∧
    handleKeys (globbing 6) [utf8 "KEYS",utf8 "*"] threeKeys.toMaps=.bulks keys ∧
    (∀ k, k ∈ [utf8 "b",utf8 "s"] ↔ k ∈ keys) ∧
    ∀ k ∈ threeKeys.toMaps.existing 6, k ∈ [utf8 "b",utf8 "s"] ∧ k ∈ keys := by
  have hopts : parseScanArgs [utf8 "COUNT",utf8 "1",utf8 "MATCH",utf8 "*"] (utf8 "*") 10=
      .ok (utf8 "*",1) := rfl
  have hkeys : threeKeys.toMaps.allKeys 6=[utf8 "b",utf8 "s"] ∧
      threeKeys.toMaps.allKeys 7=[utf8 "b",utf8 "s"] := by
    rw [Maps.allKeys_eq_sort,Maps.allKeys_eq_sort]
    decide
  have hfirst : threeKeys.toMaps.scan (globbing 6) 0 [] 1=(1,[utf8 "b"]) := by
    rw [Maps.scan_all]
    exact congrArg (fun l => scanPage l 0 1) hkeys.1
  have hsecond : threeKeys.toMaps.scan (globbing 7) 1 [] 1=(0,[utf8 "s"]) := by
    rw [Maps.scan_all]
    exact congrArg (fun l => scanPage l 1 1) hkeys.2
  have hscan : ScanIteration threeKeys.toMaps (utf8 "*") (utf8 "0") [globbing 6,globbing 7]
      [utf8 "b",utf8 "s"] :=
    .more hopts (ScanIteration.reply_of_scan hopts (by decide) hfirst) (by decide)
      (.last hopts (ScanIteration.reply_of_scan hopts (by decide) hsecond))
  have hpassed : ∀ t ∈ (globbing 6).now::[globbing 6,globbing 7].map World.now,
      threeKeys.toMaps.NonePending t := by
    intro t ht k d hd
    rw [Maps.deadline_threeKeys hd]
    have ht' : t=6 ∨ t=7 := by simpa [globbing,World.plain] using ht
    omega
  have hmatch : ∀ w ∈ [globbing 6,globbing 7], w.filepathMatch=(globbing 6).filepathMatch := by
    simp [globbing]
  have hplain : ∀ k ∈ threeKeys.toMaps.existing 6, 47 ∉ k := by
    have hreturned : ∀ k ∈ [utf8 "b",utf8 "s"], 47 ∉ k := by decide
    intro k hk
    exact hreturned k ((hscan.mem_returned Maps.oneType_threeKeys hpassed hmatch k).mpr
      ⟨hk,.inr (.inl rfl)⟩)
  obtain ⟨hsame,hall⟩ := (scan_agrees_keys_iff threeKeys.toMaps (globbing 6) (utf8 "*") _ _ _
    Maps.oneType_threeKeys hpassed hmatch (globbing_documented 6) hscan rfl).mpr
    ⟨fun _ => hplain,fun h => absurd h (by decide)⟩
  exact ⟨_,hscan,rfl,hsame,hall rfl⟩

/-- `SET a/b ""`: `SCAN 0 MATCH *` returns the key and `KEYS *` does not. -/
theorem scan_disagrees_keys : (oneKey (utf8 "a/b")).OneType ∧ (oneKey (utf8 "a/b")).NonePending 0 ∧
    DocumentedMatch (globbing 0).filepathMatch ∧ ∃ keys,
      ScanIteration (oneKey (utf8 "a/b")) (utf8 "*") (utf8 "0") [globbing 0] [utf8 "a/b"] ∧
      handleKeys (globbing 0) [utf8 "KEYS",utf8 "*"] (oneKey (utf8 "a/b"))=.bulks keys ∧
      utf8 "a/b" ∉ keys := by
  refine ⟨oneType_oneKey _,?_,globbing_documented 0,_,.single ?_,rfl,?_⟩
  · intro k d hd
    exact absurd hd (Maps.Lasting.not_deadline (by decide) k d)
  · rw [if_pos rfl,Maps.scan_all,Maps.allKeys_eq_sort]
    decide
  · rw [Maps.mem_keys]
    rintro ⟨_,hmatch⟩
    exact absurd hmatch (by decide)

end GoRedis
