import GoRedis.Commands.Locality
import GoRedis.Lib.Machine
import GoRedis.Lib.Paging
import GoRedis.Persistence.Reachable
import GoRedis.Storage.Listing
/-!
# Iterating over the keys

A client that wants all keys starts `SCAN` at cursor 0, passes back each cursor it gets and stops
when it gets 0. The cursor is a position in the sorted list of the keys, which is made anew for
every call. On a store that stays as it is the calls together return that list. Where others
write in between, a key is passed over when something before the cursor goes away.
-/
namespace GoRedis
open MemoryStore

/-- The number of keys that a call with this `COUNT` goes on by. -/
def pageSize (count : Int) : Nat := (if count ≤ 0 then 10 else count).toNat

theorem pageSize_pos (count : Int) : 0 < pageSize count := by
  unfold pageSize
  split_ifs <;> omega

theorem scanPage_of_lt {α : Type} {items : List α} {cursor : Nat} (h : cursor < items.length)
    (count : Int) : scanPage items cursor count=
      (if items.length ≤ cursor+pageSize count then 0 else cursor+pageSize count,
        (items.drop cursor).take (pageSize count)) := by
  have hlen : ((items.drop cursor).take (pageSize count)).length=
      min (pageSize count) (items.length-cursor) := by simp
  unfold scanPage
  rw [if_neg (Nat.not_le.mpr h)]
  dsimp only
  rw [← pageSize,hlen]
  congr 1
  split_ifs <;> omega

variable {F : Type}

theorem Maps.scan_all (m : Maps F) (w : World) (cursor : Nat) (count : Int) :
    m.scan w cursor [] count=scanPage (m.allKeys w.now) cursor count := by
  have hall : scanMatches w []=fun _ => true := by
    funext k
    simp [scanMatches]
  simp only [scan,hall,List.filter_true]

/-- A client on its way through the keys: the store, the cursor it passes next, what it was
returned so far, and whether it is through. -/
structure Iteration (F : Type) where
  store : MemoryStore F
  cursor : Nat
  returned : List Bytes
  done : Bool

inductive IterationEvent
  /-- The next call of the client. -/
  | scan (w : World) (count : Int)
  /-- A request of another client. -/
  | request (w : World) (args : List Bytes)

namespace Iteration

def start (s : MemoryStore F) : Iteration F := ⟨s,0,[],false⟩

variable [Float64 F]

def step : IterationEvent → Iteration F → Go (Iteration F)
  | .scan w count,it =>
    if it.done then .ok it
    else
      let (next,keys) := it.store.scan w it.cursor [] count
      .ok { it with cursor := next,returned := it.returned++keys,done := next=0 }
  | .request w args,it => (dispatch w args it.store).map fun d => { it with store := d.store }

def run (evs : List IterationEvent) (it : Iteration F) : Go (Iteration F) :=
  Machine.run step evs it

variable {it it' : Iteration F} {w : World} {count : Int}

theorem step_scan {keys : List Bytes} (hdone : it.done=false)
    (hkeys : it.store.allKeys w.now=keys) : step (.scan w count) it=.ok { it with
      cursor := (scanPage keys it.cursor count).1
      returned := it.returned++(scanPage keys it.cursor count).2
      done := (scanPage keys it.cursor count).1=0 } := by
  rw [step,if_neg (by simp [hdone]),Maps.scan_all,hkeys]

theorem step_scan_of_lt (hdone : it.done=false)
    (hlt : it.cursor < (it.store.allKeys w.now).length) :
    step (.scan w count) it=.ok { it with
      cursor := if (it.store.allKeys w.now).length ≤ it.cursor+pageSize count then 0
        else it.cursor+pageSize count
      returned := it.returned++((it.store.allKeys w.now).drop it.cursor).take (pageSize count)
      done := decide ((it.store.allKeys w.now).length ≤ it.cursor+pageSize count) } := by
  have hpos := pageSize_pos count
  rw [step_scan hdone rfl,scanPage_of_lt hlt]
  dsimp only
  split_ifs with hlen
  · simp [hlen]
  · have hne : it.cursor+pageSize count ≠ 0 := by omega
    rw [decide_eq_false hne,decide_eq_false hlen]

theorem step_scan_empty (hdone : it.done=false) (h : it.store.allKeys w.now=[]) :
    step (.scan w count) it=.ok { it with cursor := 0,done := true } := by
  rw [step_scan hdone h]
  simp [scanPage]

/-- The client has the first part of the list, up to its cursor, or all of it. -/
def Paged (s : MemoryStore F) (now : Int) (it : Iteration F) : Prop :=
  it.store=s ∧
    (it.done=false → it.returned=(s.allKeys now).take it.cursor ∧
      (it.cursor < (s.allKeys now).length ∨ s.allKeys now=[])) ∧
    (it.done=true → it.returned=s.allKeys now)

omit [Float64 F] in
theorem paged_start (s : MemoryStore F) (now : Int) : Paged s now (start s) := by
  refine ⟨rfl,fun _ => ⟨rfl,?_⟩,fun h => by cases h⟩
  by_cases h : s.allKeys now=[]
  · exact .inr h
  · exact .inl (List.length_pos_iff.mpr h)

theorem Paged.step {s : MemoryStore F} (h : Paged s w.now it)
    (hstep : Iteration.step (.scan w count) it=.ok it') : Paged s w.now it' := by
  obtain ⟨rfl,hpart,hall⟩ := h
  cases hdone : it.done with
  | true =>
    rw [Iteration.step,if_pos hdone] at hstep
    cases hstep
    exact ⟨rfl,hpart,hall⟩
  | false =>
    obtain ⟨hret,hlt | hempty⟩ := hpart hdone
    · rw [step_scan_of_lt hdone hlt] at hstep
      cases hstep
      have hnext : it.returned++((it.store.allKeys w.now).drop it.cursor).take (pageSize count)=
          (it.store.allKeys w.now).take (it.cursor+pageSize count) := by
        rw [hret,List.take_add]
      refine ⟨rfl,fun hnot => ?_,fun hlast => ?_⟩
      · have hlen := of_decide_eq_false hnot
        dsimp only
        rw [if_neg hlen]
        exact ⟨hnext,.inl (Nat.lt_of_not_le hlen)⟩
      · have hlen := of_decide_eq_true hlast
        exact hnext.trans (List.take_of_length_le hlen)
    · rw [step_scan_empty hdone hempty] at hstep
      cases hstep
      refine ⟨rfl,fun hnot => (by cases hnot),fun _ => ?_⟩
      simp [hret,hempty]

theorem returned_eq_allKeys {s : MemoryStore F} {counts : List Int}
    (hrun : run (counts.map (.scan w)) (start s)=.ok it) (hdone : it.done=true) :
    it.returned=s.allKeys w.now := by
  have hinv : ∀ (counts : List Int) (it₀ : Iteration F), Paged s w.now it₀ →
      run (counts.map (.scan w)) it₀=.ok it → Paged s w.now it := by
    intro counts
    induction counts with
    | nil =>
      intro it₀ h hrun
      cases hrun
      exact h
    | cons count counts ih =>
      intro it₀ h hrun
      obtain ⟨u,hu,hrun⟩ := Machine.run_cons_ok.mp hrun
      exact ih u (h.step hu) hrun
  exact (hinv counts _ (paged_start s w.now) hrun).2.2 hdone

theorem Paged.progress {s : MemoryStore F} (h : Paged s w.now it) (count : Int) :
    ∃ it', Iteration.step (.scan w count) it=.ok it' ∧
      (it'.done=true ∨ it.done=false ∧ it.cursor < it'.cursor ∧
        it'.cursor < (s.allKeys w.now).length) := by
  obtain ⟨rfl,hpart,_⟩ := h
  cases hdone : it.done with
  | true => exact ⟨it,if_pos hdone,.inl hdone⟩
  | false =>
    obtain ⟨_,hlt | hempty⟩ := hpart hdone
    · refine ⟨_,step_scan_of_lt hdone hlt,?_⟩
      by_cases hlen : (it.store.allKeys w.now).length ≤ it.cursor+pageSize count
      · exact .inl (decide_eq_true hlen)
      · have hpos := pageSize_pos count
        refine .inr ⟨rfl,?_⟩
        dsimp only
        rw [if_neg hlen]
        exact ⟨by omega,by omega⟩
    · exact ⟨_,step_scan_empty hdone hempty,.inl rfl⟩

theorem run_scans_done (s : MemoryStore F) {counts : List Int} (hne : counts ≠ [])
    (hlen : (s.allKeys w.now).length ≤ counts.length) :
    ∃ it, run (counts.map (.scan w)) (start s)=.ok it ∧ it.done=true := by
  have hend : ∀ (counts : List Int) (it₀ : Iteration F), Paged s w.now it₀ →
      (it₀.done=true ∨ counts ≠ [] ∧ (s.allKeys w.now).length ≤ it₀.cursor+counts.length) →
      ∃ it, run (counts.map (.scan w)) it₀=.ok it ∧ it.done=true := by
    intro counts
    induction counts with
    | nil =>
      intro it₀ _ hgo
      exact ⟨it₀,rfl,hgo.resolve_right fun h => h.1 rfl⟩
    | cons count counts ih =>
      intro it₀ h hgo
      obtain ⟨u,hu,hnext⟩ := h.progress count
      have hpaged := h.step hu
      have hgo' : u.done=true ∨
          counts ≠ [] ∧ (s.allKeys w.now).length ≤ u.cursor+counts.length := by
        cases hud : u.done with
        | true => exact .inl rfl
        | false =>
          obtain ⟨hnot,hlt,hin⟩ := hnext.resolve_left (by simp [hud])
          have hle := (hgo.resolve_left (by simp [hnot])).2
          rw [List.length_cons] at hle
          refine .inr ⟨?_,by omega⟩
          -- the cursor lies inside the list, so there is a call left
          rintro rfl
          rw [List.length_nil] at hle
          omega
      obtain ⟨it,hrun,hdone⟩ := ih u hpaged hgo'
      exact ⟨it,Machine.run_cons_ok.mpr ⟨u,hu,hrun⟩,hdone⟩
  exact hend counts _ (paged_start s w.now) (.inr ⟨hne,by simpa [start] using hlen⟩)

end Iteration

/-- `DBSIZE`, `SCAN`, `EXISTS` and `TTL` speak of the keys that have a type. -/
structure ViewsAgree (m : Maps F) (now : Int) (scanned : List Bytes) : Prop where
  len : m.len now=(m.existing now).ncard
  scan : scanned.length=(m.existing now).ncard
  once : ∀ k ∈ m.existing now, scanned.count k=1
  exists_ : ∀ k, m.exists_ now [k]=1 ↔ k ∈ m.existing now
  ttl : ∀ k, m.ttl now k=-2*second ↔ k ∉ m.existing now

theorem Maps.viewsAgree_iff (m : Maps F) (now : Int) :
    ViewsAgree m now (m.allKeys now) ↔ ∀ k, (m.row k).Clear now := by
  have hmem : ∀ k, k ∈ m.existing now ↔ (m.row k).typeOf now ≠ none := fun k => by
    rw [← typeOf_eq_row]
    rfl
  constructor
  · intro h k
    rw [Row.clear_iff,← m.count_allKeys,← ttl_eq_missing_iff,h.ttl k,hmem k]
    exact ⟨fun hk => h.once k ((hmem k).mpr hk),not_not⟩
  · intro h
    have hclear : ∀ k, _ := fun k => (Row.clear_iff _ _).mp (h k)
    have honce : ∀ k ∈ m.existing now, (m.allKeys now).count k=1 := by
      intro k hk
      rw [count_allKeys]
      exact (hclear k).1 ((hmem k).mp hk)
    have hlen := m.length_allKeys_of_once now honce
    refine ⟨(m.len_eq_length_allKeys now).trans hlen,hlen,honce,fun k => ?_,fun k => ?_⟩
    · rw [hmem k,← typeOf_eq_row]
      cases htype : m.typeOf now k <;> simp [exists_,htype]
    · rw [ttl_eq_missing_iff,(hclear k).2,hmem k,ne_eq,not_not]

/-- All views agree, whatever pages the keys are returned in, exactly when no key has more than
one live entry, or a string beside a collection, or a string at the instant of its deadline that
no collection stands in for. -/
theorem views_agree_iff [Float64 F] (s : MemoryStore F) (w : World) :
    (∀ counts : List Int, counts ≠ [] → (s.allKeys w.now).length ≤ counts.length →
      ∃ it, Iteration.run (counts.map (.scan w)) (.start s)=.ok it ∧ it.done=true) ∧
    ∀ (counts : List Int) (it : Iteration F),
      Iteration.run (counts.map (.scan w)) (.start s)=.ok it → it.done=true →
      (ViewsAgree s.toMaps w.now it.returned ↔ ∀ k, (s.toMaps.row k).Clear w.now) := by
  refine ⟨fun counts hne hlen => Iteration.run_scans_done s hne hlen,fun counts it hrun hdone => ?_⟩
  rw [Iteration.returned_eq_allKeys hrun hdone]
  exact s.toMaps.viewsAgree_iff w.now

/-- Two strings, one of them with a deadline, and a set. -/
def threeKeys : MemoryStore Int :=
  let s := (MemoryStore.new.setWithTTL 0 (utf8 "a") [] 5).set (utf8 "b") []
  dropError s (s.storeMembers (utf8 "s") (.ok [utf8 "x",utf8 "y",utf8 "z"]))

theorem allKeys_threeKeys :
    threeKeys.allKeys 0=[utf8 "a",utf8 "b",utf8 "s"] ∧
      threeKeys.allKeys 1=[utf8 "a",utf8 "b",utf8 "s"] := by
  rw [Maps.allKeys_eq_sort,Maps.allKeys_eq_sort]
  decide

theorem clear_threeKeys (k : Bytes) : (threeKeys.toMaps.row k).Clear 0 := by
  have hsets : threeKeys.sets[k]?=if utf8 "s"=k then some {utf8 "x",utf8 "y",utf8 "z"} else none := by
    have heq : threeKeys.sets=(∅ : Map KeySet).insert (utf8 "s") {utf8 "x",utf8 "y",utf8 "z"} := by
      decide
    rw [heq,Map.getElem?_insert]
    rfl
  have hahead : ∀ k e, threeKeys.strings[k]?=some e → e.expiresAt ≠ some 0 ∧ k ≠ utf8 "s" :=
    Map.forall_of_toList (by decide)
  have hrow : threeKeys.toMaps.row k=⟨threeKeys.strings[k]?,none,none,threeKeys.sets[k]?,none,none⟩ :=
    rfl
  rw [hrow,hsets,Row.Clear]
  cases he : threeKeys.strings[k]? with
  | none => split_ifs <;> decide
  | some e =>
    obtain ⟨hne,hk⟩ := hahead k e he
    rw [if_neg (Ne.symm hk)]
    simp [hne,Row.collections]

/-- Three keys, scanned in pages of two. -/
theorem views_agree_iff_pages : ∃ it : Iteration Int,
    Iteration.run [.scan (World.plain 0) 2,.scan (World.plain 0) 2] (.start threeKeys)=.ok it ∧
      it.done=true ∧ it.returned=[utf8 "a",utf8 "b",utf8 "s"] ∧
      ViewsAgree threeKeys.toMaps 0 it.returned := by
  obtain ⟨it,hrun,hdone,hreturned⟩ : ∃ it : Iteration Int,
      Iteration.run [.scan (World.plain 0) 2,.scan (World.plain 0) 2] (.start threeKeys)=.ok it ∧
        it.done=true ∧ it.returned=[utf8 "a",utf8 "b",utf8 "s"] :=
    ⟨_,Machine.run_cons_ok.mpr ⟨_,Iteration.step_scan rfl allKeys_threeKeys.1,
      Machine.run_cons_ok.mpr ⟨_,Iteration.step_scan rfl allKeys_threeKeys.1,rfl⟩⟩,rfl,rfl⟩
  exact ⟨it,hrun,hdone,hreturned,
    ((views_agree_iff threeKeys (World.plain 0)).2 [2,2] it hrun hdone).mpr clear_threeKeys⟩

/-- A string at the very instant of its deadline: it is there, but neither counted nor listed. -/
theorem views_disagree : ∃ (s : MemoryStore Int) (it : Iteration Int), Reachable s ∧
    Iteration.run [.scan (World.plain 1000000) 10] (.start s)=.ok it ∧ it.done=true ∧
    s.type 1000000 (utf8 "k")=some .string ∧ s.len 1000000=0 ∧ it.returned=[] := by
  have hset : Reachable _ := .dispatch (F := Int) (World.plain 0)
    [utf8 "SET",utf8 "k",utf8 "v",utf8 "PX",utf8 "1"] .new rfl
  refine ⟨_,_,hset,Machine.run_cons_ok.mpr ⟨_,Iteration.step_scan_empty rfl ?_,rfl⟩,rfl,by decide,
    ?_,rfl⟩
  · show Maps.allKeys _ 1000000=[]
    rw [Maps.allKeys_eq_sort]
    decide
  · rw [Maps.len_eq_length_allKeys,Maps.allKeys_eq_sort]
    decide

namespace Iteration
variable [Float64 F] {it it' : Iteration F} {w : World} {count : Int} {args : List Bytes} {k : Bytes}

/-- The keys that the client has passed. -/
def passed (it : Iteration F) (now : Int) : List Bytes := (it.store.allKeys now).take it.cursor

/-- A `DEL` names none of the keys that the client has passed, and a `SET` none that is listed
more than once among them, which it would make one. -/
def LeavesPassed (ev : IterationEvent) (it : Iteration F) : Prop :=
  ∀ w args, ev=.request w args →
    (commandOf args=some (.write .del) → ∀ k ∈ args.drop 1, k ∉ it.passed w.now) ∧
    (commandOf args=some (.write .set) → ∀ k ∈ (args.drop 1).take 1, (it.passed w.now).count k ≤ 1)

/-- The key was returned, or stands at the cursor or behind it. -/
def Ahead (k : Bytes) (it : Iteration F) : Prop :=
  k ∈ it.returned ∨ it.done=false ∧ it.cursor ≤ Paging.rank notAfter (it.store.allKeys 0) k

theorem mem_returned_step {ev : IterationEvent} (h : k ∈ it.returned) (hstep : step ev it=.ok it') :
    k ∈ it'.returned := by
  cases ev with
  | scan w count =>
    rw [step] at hstep
    split_ifs at hstep
    · cases hstep
      exact h
    · cases hstep
      exact List.mem_append_left _ h
  | request w args =>
    obtain ⟨d,_,rfl⟩ := Go.map_eq_ok.mp hstep
    exact h

theorem Ahead.scan {now : Int} (h : Ahead k it) (hlast : it.store.Lasting)
    (hk : it.store.typeOf now k ≠ none) (hstep : step (.scan w count) it=.ok it') : Ahead k it' := by
  have hkeys : it.store.allKeys w.now=it.store.allKeys 0 := hlast.allKeys_eq _ _
  have hmem : k ∈ it.store.allKeys 0 := by
    rw [hlast.allKeys_eq 0 now]
    exact hlast.mem_allKeys hk
  cases hdone : it.done with
  | true =>
    rw [step,if_pos hdone] at hstep
    cases hstep
    exact h
  | false =>
    rcases h with hret | ⟨_,hrank⟩
    · exact .inl (mem_returned_step hret hstep)
    · have hlt : it.cursor < (it.store.allKeys w.now).length := by
        rw [hkeys]
        exact hrank.trans_lt (Paging.rank_lt_length hmem)
      rw [step_scan_of_lt hdone hlt] at hstep
      cases hstep
      rw [Ahead]
      dsimp only
      rw [hkeys]
      rcases Paging.mem_page_or_ahead (n := pageSize count) (it.store.sorted_allKeys 0) hmem hrank
        with hpage | hahead
      · exact .inl (List.mem_append_right _ hpage)
      · have hlen : ¬(it.store.allKeys 0).length ≤ it.cursor+pageSize count := by
          have := Paging.rank_lt_length (r := notAfter) hmem
          omega
        rw [if_neg hlen]
        exact .inr ⟨decide_eq_false hlen,hahead⟩

theorem set_mem_allKeys {s : MemoryStore F} {d : Dispatched F}
    (hc : commandOf args=some (.write .set)) (hd : dispatch w args s=.ok d) (hlast : d.store.Lasting)
    (hk : k ∈ (args.drop 1).take 1) (hmem : k ∈ s.allKeys 0) : k ∈ d.store.allKeys 0 := by
  rw [dispatch_write hc] at hd
  obtain ⟨p,hp,rfl⟩ := Go.map_eq_ok.mp hd
  cases hp
  rcases handleSet_cases w args s with hsame | ⟨name,key,rest,e,rfl,hset⟩
  · dsimp only
    rw [hsame]
    exact hmem
  · obtain rfl : k=key := by simpa using hk
    have hslot := congrFun (slot_setString s k e) k
    rw [Function.update_self] at hslot
    have hstring : ((handleSet w (name::k::rest) s).2.toMaps.row k).string=some e := by
      rw [hset]
      exact congrArg (fun r : Slot F => r.string) hslot
    have hlive : expired 0 e.expiresAt=false := by
      rw [(hlast k).2 e hstring]
      rfl
    apply hlast.mem_allKeys
    rw [Maps.typeOf_eq_row,(Row.typeOf_eq_string_iff _ _).mpr ⟨e,hstring,hlive⟩]
    exact Option.some_ne_none _

theorem passed_subperm {d : Dispatched F} (hlast : it.store.Lasting) (hlast' : d.store.Lasting)
    (hcmd : commandOf args=some (.write .set) ∨ commandOf args=some (.write .del))
    (hleaves : LeavesPassed (.request w args) it) (hd : dispatch w args it.store=.ok d) :
    (it.passed 0).Subperm (d.store.allKeys 0) := by
  have hpassed : it.passed w.now=it.passed 0 := by rw [passed,hlast.allKeys_eq w.now 0,passed]
  obtain ⟨hdel,hset⟩ := hleaves w args rfl
  rw [hpassed] at hdel hset
  rw [List.subperm_ext_iff]
  intro x hx
  have hmem : x ∈ it.store.allKeys 0 := List.mem_of_mem_take hx
  by_cases hnamed : x ∈ keysNamed args
  · rcases hcmd with hc | hc
    · have hnamed' : x ∈ (args.drop 1).take 1 := by rwa [keysNamed,hc] at hnamed
      have hpos := List.count_pos_iff.mpr (set_mem_allKeys hc hd hlast' hnamed' hmem)
      exact (hset hc x hnamed').trans hpos
    · have hnamed' : x ∈ args.drop 1 := by rwa [keysNamed,hc] at hnamed
      exact absurd hx (hdel hc x hnamed')
  · have hkeeps : KeepsToKeys args := by
      rcases hcmd with hc | hc
      · exact keepsToKeys_of_command hc rfl
      · exact keepsToKeys_of_command hc rfl
    have hslot : d.store.slot x=it.store.slot x :=
      (outcome_local hkeeps).frame (outcome_of_dispatch hd) hnamed
    have hrow : d.store.toMaps.row x=it.store.toMaps.row x := congrArg Slot.toRow hslot
    rw [Maps.count_allKeys,hrow,← Maps.count_allKeys]
    exact (List.take_sublist _ _).count_le x

theorem Ahead.request (h : Ahead k it) (hlast : it.store.Lasting) (hlast' : it'.store.Lasting)
    (hcmd : commandOf args=some (.write .set) ∨ commandOf args=some (.write .del))
    (hleaves : LeavesPassed (.request w args) it) (hstep : step (.request w args) it=.ok it') :
    Ahead k it' := by
  rcases h with hret | ⟨hdone,hrank⟩
  · exact .inl (mem_returned_step hret hstep)
  · obtain ⟨d,hd,rfl⟩ := Go.map_eq_ok.mp hstep
    have hsub := passed_subperm hlast hlast' hcmd hleaves hd
    exact .inr ⟨hdone,Paging.ahead_of_subperm (it.store.sorted_allKeys 0) hrank hsub⟩

/-- Every key that is there from the first call to the last is returned, provided that nothing
the client has passed is taken away before it is through. -/
theorem scan_returns (s : MemoryStore F) (evs : List IterationEvent) (it : Iteration F) (k : Bytes)
    (now : Int) (hrun : run evs (start s)=.ok it) (hdone : it.done=true)
    (hcmds : ∀ w args, .request w args ∈ evs →
      commandOf args=some (.write .set) ∨ commandOf args=some (.write .del))
    (hlast : ∀ pre u, pre <+: evs → run pre (start s)=.ok u → u.store.Lasting)
    (hk : ∀ pre u, pre <+: evs → run pre (start s)=.ok u → u.store.typeOf now k ≠ none)
    (hcond : Machine.Along step LeavesPassed evs (start s)) : k ∈ it.returned := by
  have hcmds' : ∀ ev ∈ evs, ∀ w args, ev=.request w args →
      commandOf args=some (.write .set) ∨ commandOf args=some (.write .del) := by
    rintro ev hev w args rfl
    exact hcmds w args hev
  have halong := ((Machine.along_of_states hlast).and (Machine.along_of_states hk)).and
    ((Machine.along_of_mem hcmds' (start s)).and hcond)
  have hinv : Ahead k it := by
    apply halong.invariant ?_ hrun (.inr ⟨rfl,Nat.zero_le _⟩)
    rintro ev u u' hahead ⟨⟨⟨hl,hl'⟩,hex,_⟩,hcmd,hleaves⟩ hstep
    cases ev with
    | scan w count => exact hahead.scan hl hex hstep
    | request w args => exact hahead.request hl (hl' u' hstep) (hcmd w args rfl) hleaves hstep
  rcases hinv with hret | ⟨hnot,_⟩
  · exact hret
  · rw [hdone] at hnot
    cases hnot

/-- The keys `a`, `b` and `c`. -/
def threeKeys : MemoryStore Int :=
  ((MemoryStore.new.set (utf8 "a") []).set (utf8 "b") []).set (utf8 "c") []

theorem allKeys_threeKeys : (start threeKeys).store.allKeys (World.plain 0).now=
    [utf8 "a",utf8 "b",utf8 "c"] := by
  rw [Maps.allKeys_eq_sort]
  decide

theorem scan_threeKeys : step (.scan (World.plain 0) 1) (start threeKeys)=
    .ok ⟨threeKeys,1,[utf8 "a"],false⟩ := by
  rw [step_scan rfl allKeys_threeKeys]
  rfl

/-- A key that comes in between the calls pushes the others on. -/
theorem scan_returns_set : ∃ it : Iteration Int,
    run [.scan (World.plain 0) 1,.request (World.plain 0) [utf8 "SET",utf8 "aa",utf8 "x"],
      .scan (World.plain 0) 10] (start threeKeys)=.ok it ∧ utf8 "b" ∈ it.returned := by
  let it₂ : Iteration Int := ⟨(threeKeys.setAdv 0 (utf8 "aa") (utf8 "x") 0 {}).2.2,1,[utf8 "a"],false⟩
  have h₂ : step (.request (World.plain 0) [utf8 "SET",utf8 "aa",utf8 "x"])
      ⟨threeKeys,1,[utf8 "a"],false⟩=.ok it₂ := rfl
  have h₃ : step (.scan (World.plain 0) 10) it₂=
      .ok ⟨it₂.store,0,[utf8 "a",utf8 "aa",utf8 "b",utf8 "c"],true⟩ := by
    have hkeys : it₂.store.allKeys (World.plain 0).now=
        [utf8 "a",utf8 "aa",utf8 "b",utf8 "c"] := by
      rw [Maps.allKeys_eq_sort]
      decide
    rw [step_scan rfl hkeys]
    rfl
  have hrun : run [.scan (World.plain 0) 1,.request (World.plain 0) [utf8 "SET",utf8 "aa",utf8 "x"],
      .scan (World.plain 0) 10] (start threeKeys)=
        .ok ⟨it₂.store,0,[utf8 "a",utf8 "aa",utf8 "b",utf8 "c"],true⟩ :=
    Machine.run_cons_ok.mpr ⟨_,scan_threeKeys,
      Machine.run_cons_ok.mpr ⟨_,h₂,Machine.run_cons_ok.mpr ⟨_,h₃,rfl⟩⟩⟩
  have hstates : ∀ I : Iteration Int → Prop, I (start threeKeys) →
      I ⟨threeKeys,1,[utf8 "a"],false⟩ → I it₂ →
      I ⟨it₂.store,0,[utf8 "a",utf8 "aa",utf8 "b",utf8 "c"],true⟩ → ∀ pre u, pre <+:
        [.scan (World.plain 0) 1,.request (World.plain 0) [utf8 "SET",utf8 "aa",utf8 "x"],
          .scan (World.plain 0) 10] → run pre (start threeKeys)=.ok u → I u := by
    intro I hi₀ hi₁ hi₂ hi₃
    refine Machine.states_cons.mpr ⟨hi₀,fun u₁ hu₁ => ?_⟩
    obtain rfl := Except.ok.inj (scan_threeKeys.symm.trans hu₁)
    refine Machine.states_cons.mpr ⟨hi₁,fun u₂ hu₂ => ?_⟩
    obtain rfl := Except.ok.inj (h₂.symm.trans hu₂)
    refine Machine.states_cons.mpr ⟨hi₂,fun u₃ hu₃ => ?_⟩
    obtain rfl := Except.ok.inj (h₃.symm.trans hu₃)
    exact Machine.states_nil.mpr hi₃
  refine ⟨_,hrun,scan_returns _ _ _ _ 0 hrun rfl ?_
    (hstates _ (by decide) (by decide) (by decide) (by decide))
    (hstates _ (by decide) (by decide) (by decide) (by decide)) ?_⟩
  · intro w args hmem
    obtain ⟨rfl,rfl⟩ : w=World.plain 0 ∧ args=[utf8 "SET",utf8 "aa",utf8 "x"] := by simpa using hmem
    exact .inl rfl
  · refine ⟨fun w args h => (by cases h),fun u₁ hu₁ => ?_⟩
    obtain rfl := Except.ok.inj (scan_threeKeys.symm.trans hu₁)
    refine ⟨?_,fun u₂ _ => ⟨fun w args h => (by cases h),fun _ _ => trivial⟩⟩
    rintro w args ⟨⟩
    refine ⟨fun hdel => absurd hdel (by decide),fun _ k _ => ?_⟩
    exact List.count_le_length.trans (List.length_take_le _ _)

/-- The key that the client has got is deleted, and the next key takes its place: `b` is there all
the time and is not returned. -/
theorem scan_passes_over : ∃ it₁ it₂ it₃ : Iteration Int,
    step (.scan (World.plain 0) 1) (start threeKeys)=.ok it₁ ∧
    step (.request (World.plain 0) [utf8 "DEL",utf8 "a"]) it₁=.ok it₂ ∧
    step (.scan (World.plain 0) 10) it₂=.ok it₃ ∧ it₃.done=true ∧
    (∀ u ∈ [start threeKeys,it₁,it₂,it₃], u.store.Lasting ∧ u.store.typeOf 0 (utf8 "b") ≠ none) ∧
    utf8 "b" ∉ it₃.returned := by
  let it₂ : Iteration Int := ⟨(threeKeys.del 0 [utf8 "a"]).2,1,[utf8 "a"],false⟩
  have hkeys' : it₂.store.allKeys (World.plain 0).now=[utf8 "b",utf8 "c"] := by
    rw [Maps.allKeys_eq_sort]
    decide
  have h₃ : step (.scan (World.plain 0) 10) it₂=.ok ⟨it₂.store,0,[utf8 "a",utf8 "c"],true⟩ := by
    rw [step_scan rfl hkeys']
    rfl
  refine ⟨_,it₂,_,scan_threeKeys,rfl,h₃,rfl,?_,by decide⟩
  simp only [List.forall_mem_cons]
  exact ⟨by decide,by decide,by decide,by decide,by simp⟩

end Iteration
end GoRedis
