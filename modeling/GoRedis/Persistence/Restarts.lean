import GoRedis.Persistence.Crash
import GoRedis.Persistence.Refinement
/-!
# Restarts

A server process with its log: requests are served and their records appended, `syncLoop` makes
its rounds, and at any moment the process or the machine may go down. The next process replays
what is left of the file and goes on writing behind it, as `main` does.
-/
namespace GoRedis
open Durable Machine

/-- The store of a server process and its `AOF`. -/
structure Life (F : Type) where
  store : MemoryStore F
  session : LogSession

/-- A request or a sweep, an event of the `AOF`, or the end of the process and the start of the
next one on a file as the crash has left it. -/
inductive LifeEvent
  | serve (ev : Event)
  | tick
  | stop
  | close
  | restart (f : File) (policy : SyncPolicy) (world : Nat → World)

namespace Life
variable {F : Type} [Float64 F]

/-- A first process on an empty file. -/
def start (f : File) (policy : SyncPolicy) : Life F := ⟨.new,.start f policy⟩

def withSession (l : Life F) (s : LogSession) : Life F := { l with session := s }

/-- One event. The router drops the results of `Append`. What is stable stays stable in a
crash, whatever else is left. -/
def step : LifeEvent → Life F → Except Unit (Life F)
  | .serve ev,l => match GoRedis.serve ev l.store with
    | .error _ => .error ()
    | .ok (s,records) => .ok ⟨s,records.foldl LogSession.append l.session⟩
  | .tick,l => (LogSession.step .tick l.session).map l.withSession
  | .stop,l => (LogSession.step .stop l.session).map l.withSession
  | .close,l => (LogSession.step .close l.session).map l.withSession
  | .restart f policy world,l =>
    if l.session.aof.file.Leaves f.content ∧ l.session.aof.file.stable ≤ f.stable then
      match setupAOF world (some f.content) .new with
      | .error _ => .error ()
      | .ok (s,_) => .ok ⟨s,.start f policy⟩
    else .error ()

end Life

/-- The bytes are those of whole records. -/
def WholeRecords (file : Bytes) : Prop :=
  ∃ log : List (List Bytes), (∀ rec ∈ log, Fits rec ∧ rec ≠ []) ∧ file=encodeAll log

/-- Requests without deadlines and with records that fit, and restarts on whole records. -/
def LifeEvent.Plain (F : Type) [Float64 F] : LifeEvent → Prop
  | .serve ev => TimelessEvent F ev ∧ ∀ (s s' : MemoryStore F) records,
      GoRedis.serve ev s=.ok (s',records) → ∀ rec ∈ records, Fits rec
  | .restart f _ _ => WholeRecords f.content
  | _ => True

section
variable {F : Type}

/-- No record, or one that is not empty. -/
def AtMostOne (records : List (List Bytes)) : Prop := ∀ rec ∈ records, rec ≠ [] ∧ records=[rec]

theorem AtMostOne.one {rec : List Bytes} (h : rec ≠ []) : AtMostOne [rec] := by
  intro rec' hrec'
  obtain rfl := List.mem_singleton.mp hrec'
  exact ⟨h,rfl⟩

theorem AtMostOne.nil : AtMostOne [] := by simp [AtMostOne]

theorem AtMostOne.ite {p : Prop} [Decidable p] {l l' : List (List Bytes)} (h : AtMostOne l)
    (h' : AtMostOne l') : AtMostOne (if p then l else l') := by
  split_ifs
  · exact h
  · exact h'

theorem appendToAOF_timeless {w : World} {c : WriteCommand} {args : List Bytes}
    (hargs : args ≠ []) (h : TimelessCommand c args) (resp : Response) (m : Maps F) :
    AtMostOne (appendToAOF w c args resp m) := by
  cases c
  case setex | psetex | expire | pexpire | expireat | pexpireat | spop | rename => exact h.elim
  case getex => exact .nil
  case setnx | hincrby | hincrbyfloat => exact .ite (.one (List.cons_ne_nil _ _)) .nil
  case getdel => exact .ite .nil (.one (List.cons_ne_nil _ _))
  case lpop | rpop | lmove | rpoplpush | zpopmin | zpopmax => exact .ite .nil (.one hargs)
  case lrem => exact .ite (.one hargs) .nil
  case getset | incr | incrby | decr | decrby | incrbyfloat => exact .one (List.cons_ne_nil _ _)
  all_goals exact .one hargs

variable [Float64 F]

theorem serve_atMostOne {ev : Event} {s s' : MemoryStore F} {records : List (List Bytes)}
    (h : TimelessEvent F ev) (hrun : serve ev s=.ok (s',records)) : AtMostOne records := by
  cases ev with
  | sweep now =>
    cases hrun
    exact .nil
  | request w args =>
    obtain ⟨d,hd,rfl,rfl⟩ := serve_request.mp hrun
    rcases dispatch_effect hd with ⟨_,hnil⟩ | ⟨name,rest,c,rfl,hname,_,_,hrec⟩
    · rw [hnil]
      exact .nil
    · rw [hrec]
      exact appendToAOF_timeless (List.cons_ne_nil _ _) (h.1.command hname) _ _

end

namespace Life
variable {F : Type} [Float64 F]

/-- The log that is whole in the file, traced back to a moment `l₀` when it had `n` records. These
are stable; for every larger number of records there is a moment since then at which the store
was what replaying that many gives; and as long as the writer has not failed, replaying all of
them gives the store. -/
structure Traced (l₀ : Life F) (n : Nat) (evs : List LifeEvent) (l : Life F)
    (log : List (List Bytes)) : Prop where
  file : ∃ L k tail, l.session.Sound (encodeAll L) ∧ l.session.Holds (encodeAll L) k tail ∧
    log=L++l.session.records.take k ∧ ∀ rec ∈ L++l.session.records, Fits rec ∧ rec ≠ []
  le : n ≤ log.length
  stable : (encodeAll (log.take n)).length ≤ l.session.aof.file.stable
  shown : ∀ i, n ≤ i → i ≤ log.length → ∃ pre u, pre <+: evs ∧ run step pre l₀=.ok u ∧
    ∀ world, ∃ r, applyAll world (log.take i) .new=some r ∧ Mirrors u.store r
  live : l.session.aof.writer.err=none → ∀ world, ∃ r, applyAll world log .new=some r ∧
    Mirrors l.store r

variable {l₀ l l' : Life F} {n : Nat} {evs : List LifeEvent} {log : List (List Bytes)}

theorem Traced.shown_concat (h : Traced l₀ n evs l log) (ev : LifeEvent) :
    ∀ i, n ≤ i → i ≤ log.length → ∃ pre u, pre <+: evs++[ev] ∧ run step pre l₀=.ok u ∧
      ∀ world, ∃ r, applyAll world (log.take i) .new=some r ∧ Mirrors u.store r := by
  intro i hn hi
  obtain ⟨pre,u,hpre,hrun,hr⟩ := h.shown i hn hi
  exact ⟨pre,u,hpre.trans (List.prefix_append _ _),hrun,hr⟩

theorem Traced.onlySyncs (h : Traced l₀ n evs l log) (ev : LifeEvent) {a : AOF}
    (ha : l.session.aof.OnlySyncs a) :
    Traced l₀ n (evs++[ev]) (l.withSession { l.session with aof := a }) log := by
  obtain ⟨L,k,tail,hsound,hholds,hlog,hfit⟩ := h.file
  refine ⟨⟨L,k,tail,hsound.syncs ha.file ha.err ha.buf ha.policy,hholds.syncs ha.file ha.err,
    hlog,hfit⟩,h.le,h.stable.trans ha.file.stable,h.shown_concat ev,fun herr => ?_⟩
  exact h.live (ha.err.symm.trans herr)

theorem redo_concat {ev : Event} {s s' : MemoryStore F} {records : List (List Bytes)}
    (htime : TimelessEvent F ev) (hserve : serve ev s=.ok (s',records))
    (h : ∀ world, ∃ r, applyAll world log .new=some r ∧ Mirrors s r) (world : Nat → World) :
    ∃ r, applyAll world (log++records) .new=some r ∧ Mirrors s' r := by
  obtain ⟨r,hr,hm⟩ := h world
  obtain ⟨r',hr',hm'⟩ := serve_redone world ev s s' records (0+log.length) r htime hserve hm
  refine ⟨r',?_,hm'⟩
  rw [applyAll,Journal.redo_append,← applyAll,hr,Option.bind_some,hr']

theorem Traced.append (h : Traced l₀ n evs l log) {ev : Event} {s' : MemoryStore F}
    {rec : List Bytes} (hrun : run step (evs++[.serve ev]) l₀=.ok ⟨s',l.session.append rec⟩)
    (htime : TimelessEvent F ev) (hserve : serve ev l.store=.ok (s',[rec]))
    (hrec : Fits rec ∧ rec ≠ []) :
    ∃ log', Traced l₀ n (evs++[.serve ev]) ⟨s',l.session.append rec⟩ log' := by
  obtain ⟨L,k,tail,hsound,hholds,hlog,hfit⟩ := h.file
  have hrecords : (l.session.append rec).records=l.session.records++[rec] := by
    simp [LogSession.append,LogSession.records]
  have hfit' : ∀ c ∈ L++(l.session.append rec).records, Fits c ∧ c ≠ [] := by
    intro c hc
    rw [hrecords,← List.append_assoc] at hc
    rcases List.mem_append.mp hc with hc | hc
    · exact hfit c hc
    · obtain rfl := List.mem_singleton.mp hc
      exact hrec
  have hlen := l.session.records_length
  rcases hholds.append hsound.idle rec with ⟨herr,herr',hwhole⟩ | ⟨herr',hstable,tail',hlost⟩
  · -- the record is in the file
    obtain ⟨rfl,rfl⟩ := hholds.healthy herr
    have hlog' : log++[rec]=L++(l.session.append rec).records.take (l.session.calls.length+1) := by
      rw [hlog,hrecords,List.take_of_length_le hlen.le,List.take_of_length_le (by simp [hlen]),
        List.append_assoc]
    have hlive := redo_concat htime hserve (h.live herr)
    refine ⟨log++[rec],⟨⟨L,_,_,hsound.append rec,hwhole,hlog',hfit'⟩,
      h.le.trans (by simp),?_,?_,fun _ => hlive⟩⟩
    · rw [List.take_append_of_le_length h.le]
      exact h.stable.trans (LogSession.append_advances _ _).1.stable
    · intro i hn hi
      rcases Nat.lt_or_ge log.length i with hlt | hle
      · rw [List.take_of_length_le (by simp; omega)]
        exact ⟨_,_,List.prefix_rfl,hrun,hlive⟩
      · rw [List.take_append_of_le_length hle]
        exact h.shown_concat _ i hn hle
  · have hlog' : log=L++(l.session.append rec).records.take k := by
      rw [hlog,hrecords,List.take_append_of_le_length (by rw [hlen]; exact hholds.le)]
    refine ⟨log,⟨⟨L,k,tail',hsound.append rec,hlost,hlog',hfit'⟩,h.le,?_,h.shown_concat _,
      fun herr => absurd herr herr'⟩⟩
    exact h.stable.trans hstable.ge

theorem eq_nil_of_wholeRecords {recs log : List (List Bytes)} {tail : Bytes}
    (hrecs : ∀ rec ∈ recs, Fits rec ∧ rec ≠ []) (hlog : ∀ rec ∈ log, Fits rec ∧ rec ≠ [])
    (htail : tail=[] ∨ ∃ c, (Fits c ∧ c ≠ []) ∧ tail <+: encode c ∧ tail ≠ encode c)
    (h : encodeAll recs=encodeAll log++tail) : tail=[] := by
  have hread : ∀ rec (rest : Bytes), Fits rec ∧ rec ≠ [] →
      readCommand (encode rec++rest)=.ok (.ok (rec,rest)) :=
    fun rec rest hrec => (readCommand_decodes rec hrec.2 hrec.1).full rest
  induction log generalizing recs with
  | nil =>
    rcases htail with htail | ⟨c,hc,hpre,hne⟩
    · exact htail
    cases recs with
    | nil => exact h.symm
    | cons rec recs =>
      -- a command would be read off the part
      obtain ⟨e,he⟩ := (readCommand_decodes c hc.2 hc.1).cut tail hpre hne
      have hok := hread rec (encodeAll recs) (hrecs rec List.mem_cons_self)
      rw [← encodeAll_cons,h,encodeAll_nil,List.nil_append,he] at hok
      cases hok
  | cons rec' log ih =>
    cases recs with
    | nil =>
      have hlen := congrArg List.length h
      have := encode_length_pos rec'
      simp only [encodeAll_nil,encodeAll_cons,List.length_append,List.length_nil] at hlen
      omega
    | cons rec recs =>
      rw [List.forall_mem_cons] at hrecs hlog
      have hok := hread rec (encodeAll recs) hrecs.1
      have hok' := hread rec' (encodeAll log++tail) hlog.1
      rw [encodeAll_cons,encodeAll_cons,List.append_assoc] at h
      rw [h,hok'] at hok
      simp only [Except.ok.injEq,Prod.mk.injEq] at hok
      exact ih hrecs.2 hlog.2 hok.2.symm

/-- What a crash leaves: some first records of the log, at least the ones that are stable since
the moment to which it is traced back, and a part of another one. -/
theorem Traced.image (h : Traced l₀ n evs l log) {image : Bytes}
    (himage : l.session.aof.file.Leaves image) :
    ∃ j full tail, n ≤ j ∧ j ≤ log.length ∧ log <+: full ∧
      (∀ rec ∈ full, Fits rec ∧ rec ≠ []) ∧ Part (full.map encode) j tail ∧
      image=encodeAll (log.take j)++tail := by
  obtain ⟨L,k,tail,_,hholds,hlog,hfit⟩ := h.file
  obtain ⟨hcontent,hpart⟩ := hholds.log
  have htake : (L++l.session.records).take (L.length+k)=log := by
    rw [hlog,List.take_length_add_append]
  have hk : L.length+k ≤ (L++l.session.records).length := by
    have := hholds.le
    rw [List.length_append,LogSession.records_length]
    omega
  have hlen : log.length=L.length+k := by rw [← htake,List.length_take_of_le hk]
  rw [← flatten_take_encode] at hcontent
  obtain ⟨j,hj,tail',hpart',himg,hstable⟩ :=
    himage.whole (LogSession.ne_nil_of_mem_encode _) (by simpa using hk) hpart hcontent
  have htake' : ∀ i ≤ L.length+k, (L++l.session.records).take i=log.take i := by
    intro i hi
    rw [← htake,List.take_take,Nat.min_eq_left hi]
  have hnk : n ≤ L.length+k := hlen ▸ h.le
  refine ⟨j,L++l.session.records,tail',hstable n hnk ?_,hlen ▸ hj,htake ▸ List.take_prefix _ _,
    hfit,hpart',?_⟩
  · rw [flatten_take_encode,htake' n hnk]
    exact h.stable
  · rw [himg,flatten_take_encode,htake' j hj]

theorem Traced.content (h : Traced l₀ n evs l log) (herr : l.session.aof.writer.err=none) :
    l.session.aof.file.content=encodeAll log ∧ WholeRecords (encodeAll log) := by
  obtain ⟨L,k,tail,_,hholds,hlog,hfit⟩ := h.file
  obtain ⟨rfl,rfl⟩ := hholds.healthy herr
  constructor
  · rw [hholds.content,hlog,encodeAll_append,List.append_nil]
  · refine ⟨log,fun rec hrec => hfit rec ?_,rfl⟩
    rwa [hlog,List.take_of_length_le (LogSession.records_length _).le] at hrec

/-- The next process starts with the store of a moment since the one to which the log is traced
back. -/
theorem Traced.setup (h : Traced l₀ n evs l log) {image : Bytes}
    (himage : l.session.aof.file.Leaves image) (world : Nat → World) :
    ∃ j tail, ∃ r : MemoryStore F, n ≤ j ∧ j ≤ log.length ∧
      image=encodeAll (log.take j)++tail ∧
      (WholeRecords image → tail=[]) ∧ applyAll world (log.take j) .new=some r ∧
      setupAOF world (some image) .new=.ok (r,image) := by
  obtain ⟨j,full,tail,hn,hj,hpre,hfit,hpart,himg⟩ := h.image himage
  obtain ⟨_,_,_,_,hr⟩ := h.shown j hn hj
  obtain ⟨r,hr,_⟩ := hr world
  have htake : full.take j=log.take j := by
    obtain ⟨rest,rfl⟩ := hpre
    exact List.take_append_of_le_length hj
  have hfull : j ≤ full.length := hj.trans hpre.length_le
  obtain ⟨err,hreplay⟩ := replay_image (.new : MemoryStore F) hfit hfull (htake ▸ hr) hpart
  rw [htake,← himg] at hreplay
  refine ⟨j,tail,r,hn,hj,himg,?_,hr,?_⟩
  · rintro ⟨recs,hrecs,heq⟩
    have hlog : ∀ rec ∈ log.take j, Fits rec ∧ rec ≠ [] :=
      fun rec hrec => hfit rec (hpre.subset (List.mem_of_mem_take hrec))
    refine eq_nil_of_wholeRecords hrecs hlog ?_ (heq.symm.trans himg)
    rcases hpart with hnil | ⟨p,hp,hpart⟩
    · exact .inl hnil
    · rw [List.getElem?_map] at hp
      obtain ⟨c,hc,rfl⟩ := Option.map_eq_some_iff.mp hp
      exact .inr ⟨c,hfit c (List.mem_of_getElem? hc),hpart⟩
  · rw [setupAOF,hreplay]
    rfl

omit [Float64 F] in
theorem mirrors_of_mirrors {s r r' : MemoryStore F} (h : Mirrors s r) (h' : Mirrors s r') :
    Mirrors r r' := by
  have hmaps := h.maps
  refine ⟨⟨hmaps.symm.trans h'.maps,?_⟩,?_⟩
  · exact hmaps ▸ h.free
  · exact hmaps ▸ h.noEmpty

theorem Traced.restart (h : Traced l₀ n evs l log) {f : File} {policy : SyncPolicy}
    {world : Nat → World} (hwhole : WholeRecords f.content)
    (hstep : step (.restart f policy world) l=.ok l') :
    ∃ log', Traced l₀ n (evs++[.restart f policy world]) l' log' := by
  rw [step] at hstep
  split_ifs at hstep with hguard
  obtain ⟨himage,hstable⟩ := hguard
  obtain ⟨j,tail,r,hn,hj,himg,htail,hr,hsetup⟩ := h.setup himage world
  rw [hsetup] at hstep
  cases hstep
  obtain rfl := htail hwhole
  rw [List.append_nil] at himg
  obtain ⟨_,full,_,_,_,hpre,hfit,_,_⟩ := h.image himage
  have hsound := LogSession.sound_start f policy
  rw [himg] at hsound
  obtain ⟨k,tail,hholds⟩ := hsound.holds
  have hrecords : (LogSession.start f policy).records=[] := rfl
  have hmin : ∀ {i}, i ≤ j → (log.take j).take i=log.take i := by
    intro i hi
    rw [List.take_take,Nat.min_eq_left hi]
  have hlen : (log.take j).length=j := List.length_take_of_le hj
  refine ⟨log.take j,⟨⟨log.take j,k,tail,hsound,hholds,by simp [hrecords],?_⟩,hn.trans hlen.ge,
    ?_,?_,?_⟩⟩
  · intro rec hrec
    rw [hrecords,List.append_nil] at hrec
    exact hfit rec (hpre.subset (List.mem_of_mem_take hrec))
  · rw [hmin hn]
    exact h.stable.trans hstable
  · intro i hin hij
    rw [hlen] at hij
    rw [hmin hij]
    exact h.shown_concat _ i hin (hij.trans hj)
  · intro _ world'
    obtain ⟨_,_,_,_,hshown⟩ := h.shown j hn hj
    obtain ⟨r₁,hr₁,hm₁⟩ := hshown world
    obtain ⟨r₂,hr₂,hm₂⟩ := hshown world'
    cases hr.symm.trans hr₁
    exact ⟨r₂,hr₂,mirrors_of_mirrors hm₁ hm₂⟩

omit [Float64 F] in
theorem map_withSession {x : Except Unit LogSession} (h : x.map l.withSession=.ok l') :
    ∃ s, x=.ok s ∧ l.withSession s=l' := by
  cases x with
  | error e => cases h
  | ok s => exact ⟨s,rfl,Except.ok.inj h⟩

theorem Traced.step (h : Traced l₀ n evs l log) (hrun : run step evs l₀=.ok l) {ev : LifeEvent}
    (hplain : ev.Plain F) (hstep : Life.step ev l=.ok l') :
    ∃ log', Traced l₀ n (evs++[ev]) l' log' := by
  have hrun' : run Life.step (evs++[ev]) l₀=.ok l' :=
    run_append_ok.mpr ⟨l,hrun,run_cons_ok.mpr ⟨l',hstep,rfl⟩⟩
  obtain ⟨L,k,tail,hsound,_⟩ := h.file
  cases ev with
  | serve ev =>
    rw [Life.step] at hstep
    cases hserve : serve ev l.store with
    | error p => simp [hserve] at hstep
    | ok p =>
      obtain ⟨s',records⟩ := p
      simp only [hserve,Except.ok.injEq] at hstep
      subst hstep
      cases hrecords : records with
      | nil =>
        subst hrecords
        refine ⟨log,⟨h.file,h.le,h.stable,h.shown_concat _,fun herr world => ?_⟩⟩
        have hlive := redo_concat hplain.1 hserve (h.live herr) world
        rwa [List.append_nil] at hlive
      | cons rec rest =>
        obtain ⟨hne,hone⟩ := serve_atMostOne hplain.1 hserve rec (by simp [hrecords])
        subst hone
        cases hrecords
        have hfits := hplain.2 _ _ _ hserve rec List.mem_cons_self
        exact h.append hrun' hplain.1 hserve ⟨hfits,hne⟩
  | tick =>
    obtain ⟨s,hs,rfl⟩ := map_withSession hstep
    obtain ⟨_,rfl⟩ := guarded_ok.mp hs
    exact ⟨log,h.onlySyncs _ (AOF.tick_onlySyncs hsound.idle)⟩
  | stop =>
    obtain ⟨s,hs,rfl⟩ := map_withSession hstep
    obtain ⟨_,rfl⟩ := guarded_ok.mp hs
    exact ⟨log,h.onlySyncs _ ⟨⟨rfl,le_rfl,id,id⟩,rfl,rfl,rfl⟩⟩
  | close =>
    obtain ⟨s,hs,rfl⟩ := map_withSession hstep
    obtain ⟨_,rfl⟩ := guarded_ok.mp hs
    exact ⟨log,h.onlySyncs _ (AOF.close_onlySyncs hsound.idle)⟩
  | restart f policy world => exact h.restart hplain hstep

theorem Traced.run {more : List LifeEvent} (h : Traced l₀ n evs l log)
    (hrun : run Life.step evs l₀=.ok l) (hplain : ∀ ev ∈ more, ev.Plain F)
    (hmore : Machine.run Life.step more l=.ok l') : ∃ log', Traced l₀ n (evs++more) l' log' := by
  induction more generalizing evs l log with
  | nil =>
    cases hmore
    exact ⟨log,by simpa using h⟩
  | cons ev more ih =>
    obtain ⟨u,hu,hmore⟩ := run_cons_ok.mp hmore
    rw [List.forall_mem_cons] at hplain
    obtain ⟨log',h'⟩ := h.step hrun hplain.1 hu
    have hrun' : Machine.run Life.step (evs++[ev]) l₀=.ok u :=
      run_append_ok.mpr ⟨l,hrun,run_cons_ok.mpr ⟨u,hu,rfl⟩⟩
    obtain ⟨log'',h''⟩ := ih h' hrun' hplain.2 hmore
    exact ⟨log'',by simpa using h''⟩

theorem Traced.settled {m : Nat} (h : Traced l₀ m evs l log) (herr : l.session.aof.writer.err=none)
    (hset : l.session.aof.Settled) : Traced l log.length [] l log := by
  have hlive := h.live herr
  refine ⟨h.file,le_rfl,?_,fun i hle hi => ?_,fun _ => hlive⟩
  · obtain ⟨L,k,tail,_,hholds,hlog,_⟩ := h.file
    have hcontent := hholds.content
    rw [List.take_length,hset,hcontent,hlog,encodeAll_append]
    exact (List.prefix_append _ _).length_le
  · obtain rfl : i=log.length := le_antisymm hi hle
    rw [List.take_length]
    exact ⟨[],l,List.prefix_rfl,rfl,hlive⟩

end Life
end GoRedis
