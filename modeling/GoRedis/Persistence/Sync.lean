import GoRedis.Go.Files
import GoRedis.Lib.Machine
import GoRedis.Persistence.AOF
/-!
# The append-only file and its sync policy

`Append` puts a record through the buffer into the file, all of it under the lock of the `AOF`.
When the file is synced is a matter of the policy: by every `Append`, by `syncLoop` once a
second, or never; `Close` syncs it in any case. Whatever fails, the file holds the records of the
first calls and perhaps a part of the next one, and never a record behind a part.
-/
namespace GoRedis
open Durable Machine

inductive SyncPolicy
  | always
  | everysec
  | no
  deriving DecidableEq

/-- The errors of `Append` and of `Close`, by the call they wrap. -/
inductive AOFError
  | write (cause : FileError)
  | flush (cause : FileError)
  | sync (cause : FileError)
  | closeFlush (cause : FileError)
  | closeSync (cause : FileError)
  | close (cause : FileError)
  deriving DecidableEq

/-- The fields of an `AOF`, whose file is the one of its writer, and whether `syncLoop` runs. -/
structure AOF where
  writer : Writer
  policy : SyncPolicy
  done : Bool
  looping : Bool

namespace AOF

def file (a : AOF) : File := a.writer.wr

/-- `Open` of a file the system has opened. -/
def openFile (f : File) (policy : SyncPolicy) : AOF :=
  ⟨.new f (64*1024),policy,false,policy=.everysec⟩

/-- `a.file.Sync()` -/
def syncFile (a : AOF) : Option FileError × AOF :=
  (a.file.sync.1,{ a with writer := { a.writer with wr := a.file.sync.2 } })

/-- `a.file.Close()` -/
def closeFile (a : AOF) : Option FileError × AOF :=
  (a.file.close.1,{ a with writer := { a.writer with wr := a.file.close.2 } })

/-- `a.writer.Flush()` -/
def flush (a : AOF) : Option FileError × AOF :=
  (a.writer.flush.1,{ a with writer := a.writer.flush.2 })

def append (a : AOF) (args : List Bytes) : Option AOFError × AOF :=
  let w := a.writer.writeString (encode args)
  let a₁ := { a with writer := w.2 }
  match w.1 with
  | some e => (some (.write e),a₁)
  | none => match a₁.flush.1 with
    | some e => (some (.flush e),a₁.flush.2)
    | none =>
      if a.policy=.always then (a₁.flush.2.syncFile.1.map .sync,a₁.flush.2.syncFile.2)
      else (none,a₁.flush.2)

/-- What `syncLoop` does when its ticker fires; it drops both errors. -/
def tick (a : AOF) : AOF := a.flush.2.syncFile.2

/-- `Close`, which closes the channel `done` and must not be called again. -/
def close (a : AOF) : Option AOFError × AOF :=
  let a₁ := { a with done := true }
  match a₁.flush.1 with
  | some e => (some (.closeFlush e),a₁.flush.2)
  | none => match a₁.flush.2.syncFile.1 with
    | some e => (some (.closeSync e),a₁.flush.2.syncFile.2)
    | none =>
      let a₂ := a₁.flush.2.syncFile.2
      (a₂.closeFile.1.map .close,a₂.closeFile.2)

/-- Between two calls the buffer is empty, unless there was an error. -/
def Idle (a : AOF) : Prop := a.writer.err=none → a.writer.buf=[]

/-- Everything in the file is stable. -/
def Settled (a : AOF) : Prop := a.file.stable=a.file.content.length

end AOF

/-- The record is not in the file, or only a part of it. -/
def AOFError.loses : AOFError → Bool
  | write _ => true
  | flush _ => true
  | _ => false

namespace File
variable {f : File}

/-- `g` has the content of `f` and may be stable further on. -/
structure Syncs (f g : File) : Prop where
  content : g.content=f.content
  stable : f.stable ≤ g.stable
  suspect : f.suspect=true → g.suspect=true
  closed : f.closed=true → g.closed=true

theorem sync_syncs (f : File) : f.Syncs f.sync.2 := by
  unfold sync
  split_ifs with hclosed hfails hsuspect
  · exact ⟨rfl,le_rfl,id,id⟩
  · exact ⟨rfl,le_rfl,fun _ => rfl,id⟩
  · exact ⟨rfl,le_rfl,id,id⟩
  · exact ⟨rfl,f.stable_le,id,id⟩

theorem sync_settles (h : f.sync.1=none) (hsuspect : f.sync.2.suspect=false) :
    f.sync.2.stable=f.content.length := by
  unfold sync at h hsuspect ⊢
  split_ifs at h hsuspect ⊢ with hclosed hfails hfailed
  · exact absurd (hfailed.symm.trans hsuspect) (by decide)
  · rfl

theorem close_syncs (f : File) : f.Syncs f.close.2 := by
  unfold close
  split_ifs with hclosed
  · exact ⟨rfl,le_rfl,id,id⟩
  · exact ⟨rfl,le_rfl,id,fun _ => rfl⟩

end File

namespace AOF
variable {a : AOF} {args : List Bytes}

theorem flush_of_idle (h : a.Idle) : a.flush=(a.writer.err,a) := by
  unfold flush Writer.flush
  by_cases herr : a.writer.err=none
  · rw [if_neg (by simp [herr]),if_pos (h herr),herr]
  · rw [if_pos herr]

theorem append_of_err (h : a.writer.err ≠ none) (args : List Bytes) :
    ∃ e, a.append args=(some (.write e),a) := by
  obtain ⟨hgave,hres⟩ := a.writer.writeString_gave (encode args)
  obtain ⟨e,he⟩ := Option.ne_none_iff_exists'.mp h
  refine ⟨e,?_⟩
  rw [append,hres,hgave.frozen h,he]

/-- The writer after the write and the flush of an `Append`. -/
def written (a : AOF) (args : List Bytes) : Writer :=
  (a.writer.writeString (encode args)).2.flush.2

theorem written_gave (a : AOF) (args : List Bytes) :
    a.writer.Gave (a.written args) (encode args) ∧
      ((a.written args).err=none → (a.written args).buf=[]) := by
  obtain ⟨hgave,_⟩ := a.writer.writeString_gave (encode args)
  obtain ⟨hflush,_,hempty⟩ := (a.writer.writeString (encode args)).2.flush_gave
  have := hgave.trans hflush
  rw [List.append_nil] at this
  exact ⟨this,hempty⟩

theorem append_eq (a : AOF) (args : List Bytes) :
    ((a.written args).err ≠ none ∧ ∃ e, e.loses=true ∧
        a.append args=(some e,{ a with writer := a.written args })) ∨
      (a.written args).err=none ∧ a.append args=
        if a.policy=.always then
          (((({ a with writer := a.written args } : AOF).syncFile).1.map .sync),
            (({ a with writer := a.written args } : AOF).syncFile).2)
        else (none,{ a with writer := a.written args }) := by
  have hres := (a.writer.writeString_gave (encode args)).2
  have hflush := (a.writer.writeString (encode args)).2.flush_gave
  unfold append
  dsimp only
  rw [hres]
  cases hw : (a.writer.writeString (encode args)).2.err with
  | some e =>
    -- the flush of a writer with an error does nothing
    have hsame : a.written args=(a.writer.writeString (encode args)).2 :=
      hflush.1.frozen (by simp [hw])
    refine .inl ⟨by simp [hsame,hw],.write e,rfl,?_⟩
    rw [hsame]
  | none =>
    have hfl : (AOF.flush { a with writer := (a.writer.writeString (encode args)).2 }).1=
        (a.written args).err := hflush.2.1
    dsimp only
    rw [hfl]
    cases hw' : (a.written args).err with
    | some e => exact .inl ⟨by simp,.flush e,rfl,rfl⟩
    | none => exact .inr ⟨rfl,rfl⟩

end AOF

/-- A call of `Append` by any goroutine, a round of `syncLoop` or its end, or a call of `Close`. -/
inductive AOFEvent
  | append (args : List Bytes)
  | tick
  | stop
  | close

/-- An `AOF` since it was opened, with the calls of `Append` and their results in the order in
which they had the lock. -/
structure LogSession where
  aof : AOF
  calls : List (List Bytes × Option AOFError)

namespace LogSession

def start (f : File) (policy : SyncPolicy) : LogSession := ⟨.openFile f policy,[]⟩

/-- A call of `Append`. -/
def append (s : LogSession) (args : List Bytes) : LogSession :=
  ⟨(s.aof.append args).2,s.calls++[(args,(s.aof.append args).1)]⟩

/-- One event. `syncLoop` may still make rounds after `done` was closed, until it notices. -/
def step : AOFEvent → LogSession → Except Unit LogSession
  | .append args,s => .ok (s.append args)
  | .tick,s => guarded (s.aof.looping=true) { s with aof := s.aof.tick }
  | .stop,s =>
    guarded (s.aof.looping=true ∧ s.aof.done=true) { s with aof := { s.aof with looping := false } }
  | .close,s => guarded (s.aof.done=false) { s with aof := s.aof.close.2 }

/-- The records that `Append` was called with. -/
def records (s : LogSession) : List (List Bytes) := s.calls.map Prod.fst

/-- The call was answered with an error of the writer. -/
def Lost (res : Option AOFError) : Prop := ∃ e ∈ res, e.loses=true

/-- The file has `base`, the records of the first `k` calls and then `tail`, a part of the next
one. The calls from there on are the ones that reported an error of the writer. -/
structure Holds (base : Bytes) (s : LogSession) (k : Nat) (tail : Bytes) : Prop where
  le : k ≤ s.calls.length
  content : s.aof.file.content=base++encodeAll (s.records.take k)++tail
  part : Part (s.records.map encode) k tail
  healthy : s.aof.writer.err=none → k=s.calls.length ∧ tail=[]
  lost : ∀ i c, s.calls[i]?=some c → (Lost c.2 ↔ k ≤ i)

/-- What holds between any two events. -/
structure Sound (base : Bytes) (s : LogSession) : Prop where
  idle : s.aof.Idle
  holds : ∃ k tail, s.Holds base k tail
  acked : s.aof.policy=.always → s.aof.file.suspect=false → ∀ i args,
    s.calls[i]?=some (args,none) →
      (base++encodeAll (s.records.take (i+1))).length ≤ s.aof.file.stable

variable {base : Bytes} {s s' : LogSession} {k : Nat} {tail : Bytes}

theorem records_length (s : LogSession) : s.records.length=s.calls.length := List.length_map _

theorem Holds.syncs (h : s.Holds base k tail) {a : AOF} (hf : s.aof.file.Syncs a.file)
    (herr : a.writer.err=s.aof.writer.err) : Holds base { s with aof := a } k tail where
  le := h.le
  content := hf.content.trans h.content
  part := h.part
  healthy he := h.healthy (herr ▸ he)
  lost := h.lost

theorem Sound.syncs (h : s.Sound base) {a : AOF} (hf : s.aof.file.Syncs a.file)
    (herr : a.writer.err=s.aof.writer.err) (hbuf : a.writer.buf=s.aof.writer.buf)
    (hpolicy : a.policy=s.aof.policy) : Sound base { s with aof := a } where
  idle he := hbuf.trans (h.idle (herr ▸ he))
  holds := by
    obtain ⟨k,tail,hk⟩ := h.holds
    exact ⟨k,tail,hk.syncs hf herr⟩
  acked ha hsus i args hi := by
    have hsus' : s.aof.file.suspect=false := by
      cases hs : s.aof.file.suspect with
      | false => rfl
      | true => exact absurd (hf.suspect hs) (by simp [hsus])
    exact (h.acked (hpolicy ▸ ha) hsus' i args hi).trans hf.stable

theorem not_lost_none : ¬Lost none := by
  rintro ⟨e,he,_⟩
  cases he

theorem not_lost_sync (res : Option FileError) : ¬Lost (res.map .sync) := by
  rintro ⟨e,he,hloses⟩
  obtain ⟨_,_,rfl⟩ := Option.map_eq_some_iff.mp he
  cases hloses

theorem Holds.append_lost (h : s.Holds base k tail) {a : AOF} {args : List Bytes} {e : AOFError}
    (he : e.loses=true) (herr : a.writer.err ≠ none) {p : Bytes}
    (hcontent : a.file.content=s.aof.file.content++p)
    (hp : s.aof.writer.err=none ∧ p <+: encode args ∧ p ≠ encode args ∨ p=[]) :
    ∃ tail, Holds base ⟨a,s.calls++[(args,some e)]⟩ k tail := by
  have hrecords : records ⟨a,s.calls++[(args,some e)]⟩=s.records++[args] := by simp [records]
  have hlost : Lost (some e) := ⟨e,rfl,he⟩
  have hsome : ∀ i c, (s.calls++[(args,some e)])[i]?=some c → (Lost c.2 ↔ k ≤ i) := by
    intro i c hi
    rcases Nat.lt_trichotomy i s.calls.length with hlt | rfl | hgt
    · rw [List.getElem?_append_left hlt] at hi
      exact h.lost i c hi
    · rw [List.getElem?_append_right le_rfl,Nat.sub_self] at hi
      cases hi
      exact iff_of_true hlost h.le
    · rw [List.getElem?_eq_none (by simp; omega)] at hi
      cases hi
  have htake : (s.records++[args]).take k=s.records.take k :=
    List.take_append_of_le_length (by rw [records_length]; exact h.le)
  rcases hp with ⟨hok,hpre,hne⟩ | rfl
  · obtain ⟨rfl,rfl⟩ := h.healthy hok
    refine ⟨p,⟨by simp,?_,?_,fun h => absurd h herr,hsome⟩⟩
    · rw [hrecords,htake,hcontent,h.content,List.append_nil]
    · rw [hrecords]
      refine .inr ⟨encode args,?_,hpre,hne⟩
      rw [← s.records_length]
      simp
  · refine ⟨tail,⟨h.le.trans (by simp),?_,?_,fun h => absurd h herr,hsome⟩⟩
    · rw [hrecords,htake,hcontent,h.content,List.append_nil]
    · rw [hrecords,List.map_append]
      exact h.part.append _

theorem Holds.append_whole (h : s.Holds base k tail) {a : AOF} {args : List Bytes}
    {res : Option AOFError} (hres : ¬Lost res) (herr : s.aof.writer.err=none)
    (hcontent : a.file.content=s.aof.file.content++encode args) :
    Holds base ⟨a,s.calls++[(args,res)]⟩ (s.calls.length+1) [] := by
  obtain ⟨rfl,rfl⟩ := h.healthy herr
  have hrecords : records ⟨a,s.calls++[(args,res)]⟩=s.records++[args] := by simp [records]
  refine ⟨by simp,?_,.inl rfl,fun _ => ⟨by simp,rfl⟩,?_⟩
  · have hlen := s.records_length
    have hwhole : s.records.take s.calls.length=s.records := List.take_of_length_le hlen.le
    have hwhole' : (s.records++[args]).take (s.calls.length+1)=s.records++[args] :=
      List.take_of_length_le (by simp [hlen])
    have hcont := h.content
    rw [hwhole,List.append_nil] at hcont
    rw [hrecords,hwhole',hcontent,hcont,encodeAll_append]
    simp
  · intro i c hi
    rcases Nat.lt_trichotomy i s.calls.length with hlt | rfl | hgt
    · rw [List.getElem?_append_left hlt] at hi
      rw [h.lost i c hi]
      omega
    · rw [List.getElem?_append_right le_rfl,Nat.sub_self] at hi
      cases hi
      exact iff_of_false hres (by omega)
    · rw [List.getElem?_eq_none (by simp; omega)] at hi
      cases hi

/-- The stable part never shrinks, once a sync has failed this is remembered, and a closed file
stays as it is. -/
structure Advances (f g : File) : Prop where
  stable : f.stable ≤ g.stable
  suspect : g.suspect=false → f.suspect=false
  shut : f.closed=true → g.content=f.content ∧ g.closed=true

theorem Advances.refl (f : File) : Advances f f := ⟨le_rfl,id,fun h => ⟨rfl,h⟩⟩

theorem Advances.of_syncs {f g : File} (h : f.Syncs g) : Advances f g where
  stable := h.stable
  suspect hg := by
    cases hf : f.suspect with
    | false => rfl
    | true => exact absurd ((h.suspect hf).symm.trans hg) (by decide)
  shut hf := ⟨h.content,h.closed hf⟩

theorem Advances.of_grows {f g : File} {p : Bytes} (h : f.Grows g p) : Advances f g where
  stable := h.stable.ge
  suspect hg := h.suspect.symm.trans hg
  shut hf := by
    rw [h.content,h.shut hf,List.append_nil]
    exact ⟨rfl,h.closed.trans hf⟩

theorem Advances.trans {f g h : File} (hfg : Advances f g) (hgh : Advances g h) : Advances f h where
  stable := hfg.stable.trans hgh.stable
  suspect hh := hfg.suspect (hgh.suspect hh)
  shut hf := by
    obtain ⟨hg,hclosed⟩ := hfg.shut hf
    obtain ⟨hh,hclosed'⟩ := hgh.shut hclosed
    exact ⟨hh.trans hg,hclosed'⟩

theorem append_advances (a : AOF) (args : List Bytes) :
    Advances a.file (a.append args).2.file ∧ (a.append args).2.policy=a.policy := by
  obtain ⟨p,hp⟩ := (a.written_gave args).1.grows
  rcases a.append_eq args with ⟨_,e,_,heq⟩ | ⟨_,heq⟩
  · rw [heq]
    exact ⟨.of_grows hp,rfl⟩
  · rw [heq]
    split_ifs
    · exact ⟨(Advances.of_grows hp).trans (.of_syncs (File.sync_syncs _)),rfl⟩
    · exact ⟨.of_grows hp,rfl⟩

theorem Sound.acked_append (h : s.Sound base) {a : AOF} {args : List Bytes}
    {res : Option AOFError} (hadv : Advances s.aof.file a.file) (hpolicy : a.policy=s.aof.policy)
    (hlast : a.policy=.always → a.file.suspect=false → res=none →
      (base++encodeAll (s.records++[args])).length ≤ a.file.stable) :
    a.policy=.always → a.file.suspect=false → ∀ i args',
      (s.calls++[(args,res)])[i]?=some (args',none) →
        (base++encodeAll ((records ⟨a,s.calls++[(args,res)]⟩).take (i+1))).length ≤
          a.file.stable := by
  intro ha hsus i args' hi
  have hrecords : records ⟨a,s.calls++[(args,res)]⟩=s.records++[args] := by simp [records]
  have hlen := s.records_length
  rw [hrecords]
  rcases Nat.lt_trichotomy i s.calls.length with hlt | rfl | hgt
  · rw [List.getElem?_append_left hlt] at hi
    rw [List.take_append_of_le_length (by omega)]
    exact (h.acked (hpolicy.symm.trans ha) (hadv.suspect hsus) i args' hi).trans hadv.stable
  · rw [List.getElem?_append_right le_rfl,Nat.sub_self] at hi
    rw [List.take_of_length_le (by simp [hlen])]
    exact hlast ha hsus (congrArg Prod.snd (Option.some.inj hi))
  · rw [List.getElem?_eq_none (by simp; omega)] at hi
    cases hi

theorem append_idle (a : AOF) (args : List Bytes) : (a.append args).2.Idle := by
  have hempty := (a.written_gave args).2
  rcases a.append_eq args with ⟨_,e,_,heq⟩ | ⟨_,heq⟩
  · rw [heq]
    exact hempty
  · rw [heq]
    split_ifs
    · exact hempty
    · exact hempty

/-- After one more call, its record is in the file, or there is an error of the writer and the
records in the file are the same as before. -/
theorem Holds.append (h : s.Holds base k tail) (hidle : s.aof.Idle) (args : List Bytes) :
    s.aof.writer.err=none ∧ (s.append args).aof.writer.err=none ∧
        (s.append args).Holds base (s.calls.length+1) [] ∨
      (s.append args).aof.writer.err ≠ none ∧ (s.append args).aof.file.stable=s.aof.file.stable ∧
        ∃ tail', (s.append args).Holds base k tail' := by
  unfold LogSession.append
  by_cases herr : s.aof.writer.err=none
  swap
  · -- the writer has failed before
    obtain ⟨e,heq⟩ := s.aof.append_of_err herr args
    rw [heq]
    exact .inr ⟨herr,rfl,h.append_lost rfl herr (by simp) (.inr rfl)⟩
  have hbuf := hidle herr
  obtain ⟨hgave,hempty⟩ := s.aof.written_gave args
  obtain ⟨p,hp⟩ := hgave.grows
  rcases s.aof.append_eq args with ⟨hfail,e,he,heq⟩ | ⟨hok,heq⟩
  · -- it fails now: a part of the record is written
    have hpre : p <+: encode args ∧ p ≠ encode args := by
      have hpart := hgave.part
      have hshort := hgave.short herr hfail
      rw [hp.content,hbuf,List.append_nil] at hpart hshort
      rw [List.prefix_append_right_inj] at hpart
      exact ⟨hpart,fun hpe => hshort (by rw [hpe])⟩
    rw [heq]
    exact .inr ⟨hfail,hp.stable,h.append_lost he hfail hp.content (.inl ⟨herr,hpre⟩)⟩
  · -- the record is written
    have hwhole : (s.aof.written args).wr.content=s.aof.file.content++encode args := by
      have := hgave.whole herr hok
      rwa [hempty hok,hbuf,List.append_nil,List.append_nil] at this
    rw [heq]
    split_ifs
    · have hsync := File.sync_syncs (s.aof.written args).wr
      exact .inl ⟨herr,hok,h.append_whole (not_lost_sync _) herr (hsync.content.trans hwhole)⟩
    · exact .inl ⟨herr,hok,h.append_whole not_lost_none herr hwhole⟩

/-- A call that returns no error under the policy `always`, if no sync has failed, has made the
whole file stable. -/
theorem append_always {a : AOF} {args : List Bytes} (halways : (a.append args).2.policy=.always)
    (hsuspect : (a.append args).2.file.suspect=false) (hres : (a.append args).1=none) :
    (a.append args).2.file.stable=(a.append args).2.file.content.length := by
  rw [(append_advances a args).2] at halways
  rcases a.append_eq args with ⟨_,e,_,heq⟩ | ⟨_,heq⟩
  · rw [heq] at hres
    cases hres
  · rw [if_pos halways] at heq
    rw [heq] at hsuspect hres ⊢
    have hnone : (a.written args).wr.sync.1=none := Option.map_eq_none_iff.mp hres
    have hsame := (File.sync_syncs (a.written args).wr).content
    exact (File.sync_settles hnone hsuspect).trans (congrArg List.length hsame.symm)

theorem Sound.append (h : s.Sound base) (args : List Bytes) : (s.append args).Sound base := by
  obtain ⟨k,tail,hk⟩ := h.holds
  obtain ⟨hadv,hpolicy⟩ := append_advances s.aof args
  have hholds : ∃ m tail', (s.append args).Holds base m tail' := by
    rcases hk.append h.idle args with ⟨_,_,hwhole⟩ | ⟨_,_,tail',hlost⟩
    · exact ⟨_,_,hwhole⟩
    · exact ⟨k,tail',hlost⟩
  refine ⟨append_idle s.aof args,hholds,h.acked_append hadv hpolicy ?_⟩
  intro halways hsuspect hres
  obtain ⟨m,tail',hm⟩ := hholds
  have hlast : (s.append args).calls[s.calls.length]?=some (args,(s.aof.append args).1) := by
    simp [LogSession.append]
  have hnot := hm.lost _ _ hlast
  rw [hres] at hnot
  have hlt : ¬m ≤ s.calls.length := fun hle => not_lost_none (hnot.mpr hle)
  -- the last call is not lost, so all records are in the file
  have hall : (s.append args).records.take m=s.records++[args] := by
    have hrecords : (s.append args).records=s.records++[args] := by simp [LogSession.append,records]
    rw [hrecords]
    have := s.records_length
    exact List.take_of_length_le (by simp; omega)
  have hstable : (s.append args).aof.file.stable=(s.append args).aof.file.content.length :=
    append_always halways hsuspect hres
  rw [hstable,hm.content,hall]
  exact (List.prefix_append _ _).length_le

end LogSession

namespace AOF
variable {a : AOF}

/-- What a round of `syncLoop` or a `Close` changes, when nothing is in the buffer. -/
structure OnlySyncs (a b : AOF) : Prop where
  file : a.file.Syncs b.file
  err : b.writer.err=a.writer.err
  buf : b.writer.buf=a.writer.buf
  policy : b.policy=a.policy

theorem tick_of_idle (h : a.Idle) : a.tick=a.syncFile.2 := by rw [tick,flush_of_idle h]

theorem tick_onlySyncs (h : a.Idle) : a.OnlySyncs a.tick := by
  rw [tick_of_idle h]
  exact ⟨File.sync_syncs _,rfl,rfl,rfl⟩

theorem close_of_idle (h : a.Idle) :
    (a.close.1 ≠ none ∧ (a.close.2={ a with done := true } ∨
        a.close.2={ a.syncFile.2 with done := true })) ∨
      a.writer.err=none ∧ a.file.sync.1=none ∧ a.close=(a.syncFile.2.closeFile.1.map .close,
        { a.syncFile.2.closeFile.2 with done := true }) := by
  have hidle : Idle { a with done := true } := h
  unfold close
  dsimp only
  rw [flush_of_idle hidle]
  dsimp only
  cases a.writer.err with
  | some e => exact .inl ⟨by simp,.inl rfl⟩
  | none =>
    have hsync : (syncFile { a with done := true }).1=a.file.sync.1 := rfl
    dsimp only
    rw [hsync]
    cases a.file.sync.1 with
    | some e => exact .inl ⟨by simp,.inr rfl⟩
    | none => exact .inr ⟨rfl,rfl,rfl⟩

theorem close_onlySyncs (h : a.Idle) : a.OnlySyncs a.close.2 := by
  have hsync := File.sync_syncs a.file
  have hclose := File.close_syncs a.file.sync.2
  rcases close_of_idle h with ⟨_,heq | heq⟩ | ⟨_,_,heq⟩
  · rw [heq]
    exact ⟨⟨rfl,le_rfl,id,id⟩,rfl,rfl,rfl⟩
  · rw [heq]
    exact ⟨hsync,rfl,rfl,rfl⟩
  · rw [heq]
    refine ⟨⟨hclose.content.trans hsync.content,hsync.stable.trans hclose.stable,?_,?_⟩,
      rfl,rfl,rfl⟩
    · exact fun h => hclose.suspect (hsync.suspect h)
    · exact fun h => hclose.closed (hsync.closed h)

end AOF

namespace LogSession
variable {base : Bytes} {s s' : LogSession}

theorem Sound.step (h : s.Sound base) {ev : AOFEvent} (hstep : step ev s=.ok s') :
    s'.Sound base ∧ Advances s.aof.file s'.aof.file ∧ s'.aof.policy=s.aof.policy ∧
      s.calls <+: s'.calls := by
  have honly : ∀ {b : AOF}, s.aof.OnlySyncs b → Sound base { s with aof := b } ∧
      Advances s.aof.file b.file ∧ b.policy=s.aof.policy ∧ s.calls <+: s.calls := fun hb =>
    ⟨h.syncs hb.file hb.err hb.buf hb.policy,.of_syncs hb.file,hb.policy,List.prefix_rfl⟩
  cases ev with
  | append args =>
    cases hstep
    obtain ⟨hadv,hpolicy⟩ := append_advances s.aof args
    exact ⟨h.append args,hadv,hpolicy,List.prefix_append _ _⟩
  | tick =>
    obtain ⟨_,rfl⟩ := guarded_ok.mp hstep
    exact honly (AOF.tick_onlySyncs h.idle)
  | stop =>
    obtain ⟨_,rfl⟩ := guarded_ok.mp hstep
    exact honly ⟨⟨rfl,le_rfl,id,id⟩,rfl,rfl,rfl⟩
  | close =>
    obtain ⟨_,rfl⟩ := guarded_ok.mp hstep
    exact honly (AOF.close_onlySyncs h.idle)

theorem Sound.run {evs : List AOFEvent} (h : s.Sound base)
    (hrun : run LogSession.step evs s=.ok s') :
    s'.Sound base ∧ Advances s.aof.file s'.aof.file ∧ s'.aof.policy=s.aof.policy ∧
      s.calls <+: s'.calls := by
  induction evs generalizing s with
  | nil =>
    cases hrun
    exact ⟨h,.refl _,rfl,List.prefix_rfl⟩
  | cons ev evs ih =>
    obtain ⟨u,hu,hrun⟩ := run_cons_ok.mp hrun
    obtain ⟨hsound,hadv,hpolicy,hcalls⟩ := h.step hu
    obtain ⟨hsound',hadv',hpolicy',hcalls'⟩ := ih hsound hrun
    exact ⟨hsound',hadv.trans hadv',hpolicy'.trans hpolicy,hcalls.trans hcalls'⟩

theorem sound_start (f : File) (policy : SyncPolicy) : (start f policy).Sound f.content where
  idle _ := rfl
  holds := ⟨0,[],⟨le_rfl,by simp [start,AOF.openFile,AOF.file,Writer.new,records],.inl rfl,
    fun _ => ⟨rfl,rfl⟩,by simp [start]⟩⟩
  acked _ _ i args hi := by simp [start] at hi

/-- Whatever the file does and whoever calls, the log has no holes: the file holds what was there
when it was opened, the records of the first calls of `Append` and at most a part of the next
one, and exactly the calls from that one on have reported that they could not write. -/
theorem no_holes (f : File) (policy : SyncPolicy) (evs : List AOFEvent) (s : LogSession)
    (hrun : run step evs (start f policy)=.ok s) : ∃ k tail, s.Holds f.content k tail :=
  ((sound_start f policy).run hrun).1.holds

/-- Two records, of which the file takes the first three bytes of the first. -/
theorem no_holes_short_write :
    ∃ s : LogSession, run step [.append [utf8 "DEL",[107]],.append [utf8 "DEL",[108]]]
        (start ⟨⟨[42],0,Nat.zero_le _⟩,[some 3],[],false,false⟩ .always)=.ok s ∧
      ∃ k tail, s.Holds [42] k tail :=
  ⟨_,rfl,no_holes ⟨⟨[42],0,Nat.zero_le _⟩,[some 3],[],false,false⟩ .always
    [.append [utf8 "DEL",[107]],.append [utf8 "DEL",[108]]] _ rfl⟩

end LogSession
end GoRedis
