import GoRedis.Persistence.Recovery
import GoRedis.Persistence.Sync
/-!
# Crashes

A crash leaves some first part of the file that reaches at least to its stable mark. Since the log
has no holes, `Replay` then finds the records of some first calls of `Append`: those that were
synced are among them, whatever the policy, and a part of the record behind them is no command.
-/
namespace GoRedis
open Durable Machine

theorem encode_ne_nil (args : List Bytes) : encode args ≠ [] :=
  List.ne_nil_of_length_pos (encode_length_pos args)

theorem flatten_take_encode (log : List (List Bytes)) (k : Nat) :
    ((log.map encode).take k).flatten=encodeAll (log.take k) := by
  rw [← List.map_take,encodeAll,List.flatMap_def]

namespace LogSession
variable {base : Bytes} {s t : LogSession} {k m : Nat} {tail tail' : Bytes}

theorem ne_nil_of_mem_encode (log : List (List Bytes)) : ∀ c ∈ log.map encode, c ≠ [] := by
  intro c hc
  obtain ⟨args,_,rfl⟩ := List.mem_map.mp hc
  exact encode_ne_nil args

theorem length_lt_of_part {log : List (List Bytes)} (hpart : Part (log.map encode) k tail)
    (hkm : k < m) (hm : m ≤ log.length) :
    (encodeAll (log.take k)++tail).length < (encodeAll (log.take m)).length := by
  have h := hpart.lt (ne_nil_of_mem_encode log) hkm (by simpa using hm)
  rwa [flatten_take_encode,flatten_take_encode] at h

theorem Holds.content_inj (hs : s.Holds base k tail) (ht : t.Holds base m tail')
    (hcalls : s.calls <+: t.calls) (hcontent : t.aof.file.content=s.aof.file.content) : m=k := by
  obtain ⟨more,hmore⟩ := hcalls
  have hrecords : t.records=s.records++more.map Prod.fst := by simp [records,← hmore]
  have htake : s.records.take k=t.records.take k := by
    rw [hrecords,List.take_append_of_le_length (by rw [records_length]; exact hs.le)]
  have hpart : Part (t.records.map encode) k tail := by
    rw [hrecords,List.map_append]
    exact hs.part.append _
  have hlen : (encodeAll (t.records.take m)++tail').length=
      (encodeAll (t.records.take k)++tail).length := by
    have := congrArg List.length hcontent
    rw [ht.content,hs.content,htake,List.append_assoc,List.append_assoc] at this
    simpa using this
  have hkm : k ≤ t.records.length := by
    have := hs.le
    rw [records_length,← hmore,List.length_append]
    omega
  have hml : m ≤ t.records.length := by
    rw [records_length]
    exact ht.le
  rcases Nat.lt_trichotomy m k with hlt | rfl | hgt
  · have := length_lt_of_part ht.part hlt hkm
    simp only [List.length_append] at this hlen
    omega
  · rfl
  · have := length_lt_of_part hpart hgt hml
    simp only [List.length_append] at this hlen
    omega

/-- After a `Close` that returned no error, in a session in which no sync has failed, the log is
final: it holds every record that was appended before, a crash leaves all of it, and whoever
still calls `Append` is told that nothing was written. -/
theorem close_final (f : File) (policy : SyncPolicy) (evs evs' : List AOFEvent) {s s' : LogSession}
    (hrun : run step evs (start f policy)=.ok s) (hclose : s.aof.close.1=none)
    (hsuspect : s.aof.close.2.file.suspect=false)
    (hrun' : run step evs' { s with aof := s.aof.close.2 }=.ok s') :
    s'.aof.file.content=f.content++encodeAll s.records ∧
      (∀ image, s'.aof.file.Leaves image → image=s'.aof.file.content) ∧
      ∀ i c, s.calls.length ≤ i → s'.calls[i]?=some c → Lost c.2 := by
  have hsound := ((sound_start f policy).run hrun).1
  obtain ⟨k,tail,hholds⟩ := hsound.holds
  have honly := AOF.close_onlySyncs hsound.idle
  have hafter := hsound.syncs honly.file honly.err honly.buf honly.policy
  obtain ⟨hsound',hadv,_,hcalls⟩ := hafter.run hrun'
  rcases AOF.close_of_idle hsound.idle with ⟨hbad,_⟩ | ⟨herr,hsync,heq⟩
  · exact absurd hclose hbad
  -- the sync and the close of the file have both succeeded
  have hfile : s.aof.close.2.file=s.aof.file.sync.2.close.2 := by rw [heq]; rfl
  have hres : s.aof.file.sync.2.close.1=none := by
    rw [heq] at hclose
    exact Option.map_eq_none_iff.mp hclose
  have hclosed : s.aof.close.2.file.closed=true ∧
      s.aof.close.2.file.stable=s.aof.file.sync.2.stable ∧
      s.aof.close.2.file.suspect=s.aof.file.sync.2.suspect := by
    rw [hfile]
    unfold File.close at hres ⊢
    split_ifs at hres ⊢
    exact ⟨rfl,rfl,rfl⟩
  obtain ⟨hclosed,hstable,hsus⟩ := hclosed
  obtain ⟨hcontent,_⟩ := hadv.shut hclosed
  have hsame : s'.aof.file.content=s.aof.file.content := hcontent.trans honly.file.content
  obtain ⟨rfl,rfl⟩ := hholds.healthy herr
  have hall : s.aof.file.content=f.content++encodeAll s.records := by
    have h := hholds.content
    rwa [List.append_nil,List.take_of_length_le s.records_length.le] at h
  refine ⟨hsame.trans hall,?_,?_⟩
  · intro image himage
    have hset := File.sync_settles hsync (hsus.symm.trans hsuspect)
    have hreach := himage.reaches
    have hmono := hadv.stable
    have hle := himage.part.length_le
    refine himage.part.eq_of_length (le_antisymm hle ?_)
    rw [hsame]
    have : s.aof.close.2.file.stable ≤ s'.aof.file.stable := hmono
    omega
  · intro i c hi hc
    obtain ⟨m,tail',hholds'⟩ := hsound'.holds
    obtain rfl := hholds.content_inj hholds' hcalls hsame
    exact (hholds'.lost i c hc).mpr hi

/-- `SET k v` is appended before `Close`, and `DEL k` after it. -/
theorem close_final_late_append :
    ∃ s s', run step [.append [utf8 "SET",[107],[118]],.tick]
        (start ⟨⟨[42],0,Nat.zero_le _⟩,[],[],false,false⟩ .everysec)=.ok s ∧
      run step [.append [utf8 "DEL",[107]],.tick] { s with aof := s.aof.close.2 }=.ok s' ∧
      s'.aof.file.content=42::encodeAll [[utf8 "SET",[107],[118]]] ∧
      ∀ image, s'.aof.file.Leaves image → image=s'.aof.file.content := by
  obtain ⟨hcontent,himage,_⟩ := close_final ⟨⟨[42],0,Nat.zero_le _⟩,[],[],false,false⟩ .everysec
    [.append [utf8 "SET",[107],[118]],.tick] [.append [utf8 "DEL",[107]],.tick] rfl rfl rfl rfl
  exact ⟨_,_,rfl,rfl,hcontent,himage⟩

end LogSession

section
variable {F : Type} [Float64 F] {world : Nat → World}

theorem ne_nil_of_redo {log : List (List Bytes)} {i : Nat} {r r' : MemoryStore F}
    (h : Journal.redo (applied world) i log r=some r') : ∀ c ∈ log, c ≠ [] := by
  induction log generalizing i r with
  | nil => simp
  | cons c log ih =>
    obtain ⟨u,hu,hrest⟩ := Option.bind_eq_some_iff.mp h
    intro d hd
    rcases List.mem_cons.mp hd with rfl | hd
    · exact ne_nil_of_applied hu
    · exact ih hrest d hd

/-- `Replay` of the first records of a log and a part of the next one applies these records, if
they are accepted. -/
theorem replay_image {log : List (List Bytes)} {r : MemoryStore F} (s₀ : MemoryStore F)
    (hfit : ∀ c ∈ log, Fits c ∧ c ≠ []) {j : Nat} (hj : j ≤ log.length)
    (happly : applyAll world (log.take j) .new=some r) {tail : Bytes}
    (hpart : Part (log.map encode) j tail) :
    ∃ err, replay world (some (encodeAll (log.take j)++tail)) s₀=.ok ⟨j,err,r⟩ := by
  obtain ⟨fuel,hreplay⟩ := replay_encodeAll world (log.take j) tail s₀ r
    (fun c hc => (hfit c (List.mem_of_mem_take hc)).1) happly
  rw [List.length_take_of_le hj] at hreplay
  rcases hpart with rfl | ⟨p,hp,hpre,hne⟩
  · exact ⟨none,hreplay⟩
  · rw [List.getElem?_map] at hp
    obtain ⟨c,hc,rfl⟩ := Option.map_eq_some_iff.mp hp
    obtain ⟨hfits,hcne⟩ := hfit c (List.mem_of_getElem? hc)
    obtain ⟨e,he⟩ := (readCommand_decodes c hcne hfits).cut tail hpre hne
    refine ⟨if e.isEOF then none else some (.parse (j+1) e),?_⟩
    rw [hreplay,replayLoop,he]

namespace LogSession
variable {s u : LogSession} {L : List (List Bytes)} {k : Nat} {tail : Bytes}

theorem Holds.log (h : s.Holds (encodeAll L) k tail) :
    s.aof.file.content=encodeAll ((L++s.records).take (L.length+k))++tail ∧
      Part ((L++s.records).map encode) (L.length+k) tail := by
  constructor
  · rw [h.content,List.take_length_add_append,encodeAll_append]
  · rcases h.part with rfl | ⟨c,hc,hpre⟩
    · exact .inl rfl
    · refine .inr ⟨c,?_,hpre⟩
      rw [List.map_append,List.getElem?_append_right (by simp),← hc]
      simp

theorem tick_covers (hsound : u.Sound (encodeAll L)) (hsync : u.aof.file.sync.1=none)
    (hsuspect : u.aof.file.suspect=false) : u.aof.tick.file.stable=u.aof.file.content.length := by
  rw [AOF.tick_of_idle hsound.idle]
  refine File.sync_settles hsync ?_
  unfold File.sync at hsync ⊢
  split_ifs at hsync ⊢
  · exact hsuspect
  · exact hsuspect

/-- What was written before a round of `syncLoop` that syncs without error is stable from then
on. -/
theorem Sound.ticked {s₀ : LogSession} (h : s₀.Sound (encodeAll L)) {pre rest : List AOFEvent}
    (hu : Machine.run LogSession.step pre s₀=.ok u)
    (hrun : Machine.run LogSession.step (pre++.tick::rest) s₀=.ok s)
    (hsync : u.aof.file.sync.1=none) (hsuspect : u.aof.file.suspect=false) {i : Nat}
    {c : List Bytes × Option AOFError} (hc : u.calls[i]?=some c) (hlost : ¬Lost c.2) :
    s.calls[i]?=some c ∧
      (encodeAll L++encodeAll (s.records.take (i+1))).length ≤ s.aof.file.stable := by
  obtain ⟨u',hu',hrest⟩ := run_append_ok.mp hrun
  obtain rfl : u=u' := Except.ok.inj (hu.symm.trans hu')
  obtain ⟨v,hv,hrest⟩ := run_cons_ok.mp hrest
  obtain ⟨_,rfl⟩ := guarded_ok.mp hv
  have hsound := (h.run hu).1
  obtain ⟨m,tail,hholds⟩ := hsound.holds
  have honly := AOF.tick_onlySyncs hsound.idle
  obtain ⟨_,hadv,_,more,hmore⟩ :=
    (hsound.syncs honly.file honly.err honly.buf honly.policy).run hrest
  -- the calls of the session go on behind those of `u`
  have hi : i < u.calls.length := (List.getElem?_eq_some_iff.mp hc).1
  have htake : s.records.take (i+1)=u.records.take (i+1) := by
    have hrecords : s.records=u.records++more.map Prod.fst := by simp [records,← hmore]
    rw [hrecords]
    exact List.take_append_of_le_length (by rw [records_length]; omega)
  refine ⟨?_,?_⟩
  · rw [← hmore]
    exact (List.getElem?_append_left hi).trans hc
  · -- the record was in the file, and the file was stable as a whole
    have him : ¬m ≤ i := fun h => hlost ((hholds.lost i c hc).mpr h)
    have hpart : (encodeAll (u.records.take (i+1))).length ≤
        (encodeAll (u.records.take m)).length := by
      have := length_take_mono (u.records.map encode) (show i+1 ≤ m by omega)
      rwa [flatten_take_encode,flatten_take_encode] at this
    have hcovers := tick_covers hsound hsync hsuspect
    have hmono : u.aof.tick.file.stable ≤ s.aof.file.stable := hadv.stable
    have hlen := congrArg List.length hholds.content
    rw [htake]
    simp only [List.length_append] at hlen ⊢
    omega

/-- After a crash at any moment of a session on a file with a log `L`, `Replay` gives the store of
the first `j` records of `L` and the session. Under the policy `always`, unless a sync has failed,
these include every record whose `Append` returned no error; and under any policy every record
that was in the file when `syncLoop` synced it. -/
theorem crash_recovers (world : Nat → World) (L : List (List Bytes)) (f : File)
    (hf : f.content=encodeAll L) (policy : SyncPolicy) (evs : List AOFEvent) {s : LogSession}
    (hrun : run step evs (start f policy)=.ok s) {image : Bytes}
    (himage : s.aof.file.Leaves image) (s₀ r : MemoryStore F)
    (hfit : ∀ c ∈ L++s.records, Fits c) (happly : applyAll world (L++s.records) .new=some r) :
    ∃ j err r', j ≤ (L++s.records).length ∧
      replay world (some image) s₀=.ok ⟨j,err,r'⟩ ∧
      applyAll world ((L++s.records).take j) .new=some r' ∧
      (policy=.always → s.aof.file.suspect=false → ∀ i args, s.calls[i]?=some (args,none) →
        L.length+i < j) ∧
      ∀ pre u, pre++[.tick] <+: evs → run step pre (start f policy)=.ok u →
        u.aof.file.sync.1=none → u.aof.file.suspect=false →
        ∀ i c, u.calls[i]?=some c → ¬Lost c.2 → L.length+i < j := by
  have hstart := sound_start f policy
  rw [hf] at hstart
  obtain ⟨hsound,_,hpolicy,_⟩ := hstart.run hrun
  obtain ⟨k,tail,hholds⟩ := hsound.holds
  obtain ⟨hcontent,hpart⟩ := hholds.log
  have hk : L.length+k ≤ (L++s.records).length := by
    have := hholds.le
    rw [List.length_append,records_length]
    omega
  rw [← flatten_take_encode] at hcontent
  obtain ⟨j,hjk,tail',hpart',himg,hstable⟩ :=
    himage.whole (ne_nil_of_mem_encode _) (by simpa using hk) hpart hcontent
  rw [flatten_take_encode] at himg
  have hsplit := happly
  rw [← List.take_append_drop j (L++s.records),applyAll,Journal.redo_append] at hsplit
  obtain ⟨r',hr',_⟩ := Option.bind_eq_some_iff.mp hsplit
  have hne := ne_nil_of_redo happly
  obtain ⟨err,hreplay⟩ :=
    replay_image s₀ (fun c hc => ⟨hfit c hc,hne c hc⟩) (hjk.trans hk) hr' hpart'
  -- a record before the stable mark is among the first `j`
  have hcovers : ∀ i < k, (encodeAll L++encodeAll (s.records.take (i+1))).length ≤
      s.aof.file.stable → L.length+i < j := by
    intro i hi hle
    refine hstable (L.length+(i+1)) (by omega) ?_
    rw [flatten_take_encode,List.take_length_add_append,encodeAll_append]
    exact hle
  refine ⟨j,err,r',hjk.trans hk,himg ▸ hreplay,hr',?_,?_⟩
  · intro halways hsuspect i args hi
    have hlt : ¬k ≤ i := fun h => not_lost_none ((hholds.lost i _ hi).mpr h)
    exact hcovers i (by omega) (hsound.acked (hpolicy.trans halways) hsuspect i args hi)
  · intro pre u hpre hu hsync hsuspect i c hc hlost
    obtain ⟨rest,rfl⟩ := hpre
    rw [List.append_assoc] at hrun
    obtain ⟨hc',hle⟩ := hstart.ticked hu hrun hsync hsuspect hc hlost
    have hlt : ¬k ≤ i := fun h => hlost ((hholds.lost i c hc').mpr h)
    exact hcovers i (by omega) hle

end LogSession
end

/-- `SET k v` and `DEL k` behind it, and what a crash may leave of the file. -/
theorem LogSession.crash_recovers_set_del :
    ∃ s, run step [.append (setRecord [107] [118]),.tick,.append (delRecord [107])]
        (start ⟨⟨[],0,Nat.zero_le _⟩,[],[],false,false⟩ .everysec)=.ok s ∧
      ∃ j err r', replay (F := Int) (fun _ => .plain 0) (some s.aof.file.content) .new=
          .ok ⟨j,err,r'⟩ ∧ j ≤ 2 := by
  obtain ⟨j,err,r',hj,hreplay,_⟩ := crash_recovers (F := Int) (fun _ => .plain 0) []
    ⟨⟨[],0,Nat.zero_le _⟩,[],[],false,false⟩ rfl .everysec
    [.append (setRecord [107] [118]),.tick,.append (delRecord [107])] rfl
    ⟨List.prefix_rfl,Device.stable_le _⟩ .new _ (by decide) rfl
  exact ⟨_,rfl,j,err,r',hreplay,hj⟩

end GoRedis
