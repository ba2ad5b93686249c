import GoRedis.Go.Bytes
import GoRedis.Lib.Durable
/-!
# Files and buffered writers

A file opened for appending, as `os.File` has it, and a `bufio.Writer` over it. How much of a
write is taken and whether a sync succeeds is up to the operating system: a file carries what
becomes of the calls to come, and what holds of every file holds whatever they do.
-/
namespace GoRedis
open Durable

inductive FileError
  | failed
  | closed
  | shortWrite
  deriving DecidableEq

/-- A file opened with `O_APPEND`. For each write to come, `writes` has the number of bytes after
which it fails, if it does; for each sync to come, `syncs` has whether it succeeds. After a sync
has failed the system may have dropped pages, so that later ones promise nothing. -/
structure File extends Device UInt8 where
  writes : List (Option Nat)
  syncs : List Bool
  suspect : Bool
  closed : Bool

namespace File

/-- `Write` and `WriteString`: the number of bytes taken and the error if these are not all. -/
def write (f : File) (p : Bytes) : Nat × Option FileError × File :=
  if f.closed then (0,some .closed,f)
  else
    let n := min (f.writes.head?.join.getD p.length) p.length
    (n,if n < p.length then some .failed else none,
      { f with
        content := f.content++p.take n
        stable_le := f.stable_le.trans (by simp)
        writes := f.writes.tail })

def sync (f : File) : Option FileError × File :=
  if f.closed then (some .closed,f)
  else if f.syncs.head?=some false then
    (some .failed,{ f with syncs := f.syncs.tail, suspect := true })
  else
    (none,{ f with
      syncs := f.syncs.tail
      stable := if f.suspect then f.stable else f.content.length
      stable_le := by split_ifs; exacts [f.stable_le,le_rfl] })

def close (f : File) : Option FileError × File :=
  if f.closed then (some .closed,f) else (none,{ f with closed := true })

/-- `g` is `f` with these bytes behind, and none if `f` was closed. -/
structure Grows (f g : File) (p : Bytes) : Prop where
  content : g.content=f.content++p
  stable : g.stable=f.stable
  suspect : g.suspect=f.suspect
  closed : g.closed=f.closed
  shut : f.closed=true → p=[]

theorem Grows.refl (f : File) : f.Grows f [] := ⟨by simp,rfl,rfl,rfl,fun _ => rfl⟩

theorem Grows.trans {f g h : File} {p q : Bytes} (hfg : f.Grows g p) (hgh : g.Grows h q) :
    f.Grows h (p++q) where
  content := by rw [hgh.content,hfg.content,List.append_assoc]
  stable := hgh.stable.trans hfg.stable
  suspect := hgh.suspect.trans hfg.suspect
  closed := hgh.closed.trans hfg.closed
  shut hf := by rw [hfg.shut hf,hgh.shut (hfg.closed.trans hf),List.append_nil]

theorem write_grows (f : File) {p : Bytes} (hp : p ≠ []) :
    f.Grows (f.write p).2.2 (p.take (f.write p).1) ∧
      ((f.write p).2.1=none ∧ (f.write p).1=p.length ∨
        (f.write p).2.1 ≠ none ∧ (f.write p).1 < p.length) := by
  have hpos := List.length_pos_iff.mpr hp
  unfold write
  split_ifs with hclosed
  · exact ⟨.refl f,.inr ⟨by simp,hpos⟩⟩
  · refine ⟨⟨rfl,rfl,rfl,rfl,fun h => absurd h hclosed⟩,?_⟩
    dsimp only
    split_ifs with hlt
    · exact .inr ⟨by simp,hlt⟩
    · exact .inl ⟨rfl,by omega⟩

end File

/-- A `bufio.Writer` over a file. -/
structure Writer where
  wr : File
  size : Nat
  buf : Bytes
  err : Option FileError
  buf_le : buf.length ≤ size

namespace Writer

def available (b : Writer) : Nat := b.size-b.buf.length

/-- `NewWriterSize` -/
def new (f : File) (size : Nat) : Writer := ⟨f,size,[],none,Nat.zero_le _⟩

/-- `copy(b.buf[b.n:], s)` -/
def copy (b : Writer) (s : Bytes) : Writer :=
  { b with
    buf := b.buf++s.take b.available
    buf_le := by
      have := b.buf_le
      simp only [List.length_append,List.length_take,available]
      omega }

/-- `Flush`. After an error the bytes that were not taken stay in the buffer, and the error. -/
def flush (b : Writer) : Option FileError × Writer :=
  if b.err ≠ none then (b.err,b)
  else if b.buf=[] then (none,b)
  else
    let out := b.wr.write b.buf
    let err := if out.1 < b.buf.length ∧ out.2.1=none then some .shortWrite else out.2.1
    if err ≠ none then
      (err,{ b with
        wr := out.2.2
        buf := b.buf.drop out.1
        err := err
        buf_le := (List.drop_sublist _ _).length_le.trans b.buf_le })
    else (none,{ b with wr := out.2.2, buf := [], buf_le := Nat.zero_le _ })

/-- The loop of `WriteString`, while there is more than the buffer has room for: with an empty
buffer it hands all to the file, else it fills the buffer and flushes it. -/
def writeRounds : Nat → Bytes → Writer → Bytes × Writer
  | 0,s,b => (s,b)
  | rounds+1,s,b =>
    if s.length ≤ b.available ∨ b.err ≠ none then (s,b)
    else if b.buf=[] then
      let out := b.wr.write s
      writeRounds rounds (s.drop out.1) { b with wr := out.2.2, err := out.2.1 }
    else writeRounds rounds (s.drop b.available) (b.copy s).flush.2

/-- `WriteString`. The loop never makes more than two rounds: after the first one the buffer is
empty, and the second leaves nothing to write. -/
def writeString (b : Writer) (s : Bytes) : Option FileError × Writer :=
  let r := writeRounds 2 s b
  if r.2.err ≠ none then (r.2.err,r.2) else (none,r.2.copy r.1)

/-- `b'` is `b` after it was given `s`: once there was an error nothing happens; without one all
is in the file or in the buffer; with one, a part without the end is in the file. -/
structure Gave (b b' : Writer) (s : Bytes) : Prop where
  frozen : b.err ≠ none → b'=b
  grows : ∃ p, b.wr.Grows b'.wr p
  part : b'.wr.content <+: b.wr.content++b.buf++s
  whole : b.err=none → b'.err=none → b'.wr.content++b'.buf=b.wr.content++b.buf++s
  short : b.err=none → b'.err ≠ none → b'.wr.content ≠ b.wr.content++b.buf++s

theorem Gave.refl (b : Writer) : b.Gave b [] where
  frozen _ := rfl
  grows := ⟨[],.refl _⟩
  part := by simp
  whole _ _ := by simp
  short h h' := absurd h h'

theorem Gave.trans {b b' b'' : Writer} {s t : Bytes} (h : b.Gave b' s) (h' : b'.Gave b'' t) :
    b.Gave b'' (s++t) := by
  by_cases hb : b.err=none
  swap
  · -- an error before: nothing happens at all
    obtain rfl := h.frozen hb
    obtain rfl := h'.frozen hb
    exact ⟨fun _ => rfl,h.grows,by simp,fun h => absurd h hb,fun h => absurd h hb⟩
  have hgrows : ∃ p, b.wr.Grows b''.wr p := by
    obtain ⟨p,hp⟩ := h.grows
    obtain ⟨q,hq⟩ := h'.grows
    exact ⟨p++q,hp.trans hq⟩
  by_cases hb' : b'.err=none
  · have hwhole := h.whole hb hb'
    have heq : b.wr.content++b.buf++(s++t)=b'.wr.content++b'.buf++t := by
      rw [hwhole]
      simp
    refine ⟨fun he => absurd hb he,hgrows,?_,?_,?_⟩
    · rw [heq]
      exact h'.part
    · intro _ hb''
      rw [heq]
      exact h'.whole hb' hb''
    · intro _ hb''
      rw [heq]
      exact h'.short hb' hb''
  · obtain rfl := h'.frozen hb'
    have hpart : b''.wr.content <+: b.wr.content++b.buf++(s++t) := by
      rw [← List.append_assoc]
      exact h.part.trans (List.prefix_append _ _)
    refine ⟨fun he => absurd hb he,hgrows,hpart,fun _ he => absurd he hb',fun _ _ heq => ?_⟩
    -- the file is shorter than what was given first
    have hle := h.part.length_le
    have hne : b''.wr.content.length ≠ (b.wr.content++b.buf++s).length :=
      fun e => h.short hb hb' (h.part.eq_of_length e)
    have hlen := congrArg List.length heq
    simp only [List.length_append] at hle hne hlen
    omega

theorem flush_gave (b : Writer) :
    b.Gave b.flush.2 [] ∧ b.flush.1=b.flush.2.err ∧ (b.flush.2.err=none → b.flush.2.buf=[]) := by
  by_cases herr : b.err=none
  swap
  · rw [flush,if_pos herr]
    exact ⟨.refl b,rfl,fun h => absurd h herr⟩
  by_cases hbuf : b.buf=[]
  · rw [flush,if_neg (by simp [herr]),if_pos hbuf]
    exact ⟨.refl b,herr.symm,fun _ => hbuf⟩
  rw [flush,if_neg (by simp [herr]),if_neg hbuf]
  obtain ⟨hgrows,hout⟩ := b.wr.write_grows hbuf
  -- the file never takes less than all without an error of its own
  have hnot : ¬((b.wr.write b.buf).1 < b.buf.length ∧ (b.wr.write b.buf).2.1=none) := by
    rintro ⟨hlt,hok⟩
    rcases hout with ⟨_,hall⟩ | ⟨hbad,_⟩
    · omega
    · exact hbad hok
  dsimp only
  rw [if_neg hnot]
  rcases hout with ⟨hok,hall⟩ | ⟨hbad,hlt⟩
  · rw [hall,List.take_length] at hgrows
    rw [if_neg (by simp [hok])]
    refine ⟨⟨fun h => absurd herr h,⟨_,hgrows⟩,?_,?_,?_⟩,herr.symm,fun _ => rfl⟩
    · rw [hgrows.content,List.append_nil]
    · intro _ _
      rw [hgrows.content]
    · intro _ h
      exact absurd herr h
  · rw [if_pos hbad]
    refine ⟨⟨fun h => absurd herr h,⟨_,hgrows⟩,?_,fun _ h => absurd h hbad,?_⟩,rfl,
      fun h => absurd h hbad⟩
    · rw [hgrows.content,List.append_nil,List.prefix_append_right_inj]
      exact List.take_prefix _ _
    · intro _ _ heq
      rw [hgrows.content,List.append_nil,List.append_cancel_left_eq] at heq
      have hlen := congrArg List.length heq
      rw [List.length_take] at hlen
      omega

theorem copy_gave {b : Writer} (hb : b.err=none) (s : Bytes) :
    b.Gave (b.copy s) (s.take b.available) where
  frozen h := absurd hb h
  grows := ⟨[],.refl _⟩
  part := by simp [copy]
  whole _ _ := by simp [copy]
  short _ h := absurd hb h

theorem Gave.of_err {b b' : Writer} {s t : Bytes} (h : b.Gave b' t) (hb' : b'.err ≠ none)
    (hts : t <+: s) : b.Gave b' s := by
  obtain ⟨u,rfl⟩ := hts
  exact h.trans ⟨fun _ => rfl,⟨[],.refl _⟩,by simp,fun h => absurd h hb',fun h => absurd h hb'⟩

theorem writeRounds_of_stop (rounds : Nat) {s : Bytes} {b : Writer}
    (h : s.length ≤ b.available ∨ b.err ≠ none) : writeRounds rounds s b=(s,b) := by
  cases rounds with
  | zero => rfl
  | succ rounds => rw [writeRounds,if_pos h]

section
variable {s : Bytes} {b : Writer} (hstop : ¬(s.length ≤ b.available ∨ b.err ≠ none))
include hstop

theorem writeRounds_direct (rounds : Nat) (hbuf : b.buf=[]) :
    ∃ rest b', writeRounds (rounds+1) s b=(rest,b') ∧ b.Gave b' s ∧
      (b'.err ≠ none ∨ rest=[] ∧ b'.err=none) := by
  rw [not_or,not_not] at hstop
  obtain ⟨hlong,hb⟩ := hstop
  have hs : s ≠ [] := by
    rintro rfl
    exact hlong (Nat.zero_le _)
  rw [writeRounds,if_neg (by simp [hlong,hb]),if_pos hbuf]
  obtain ⟨hgrows,⟨hok,hall⟩ | ⟨hbad,hlt⟩⟩ := b.wr.write_grows hs
  · rw [hall,List.take_length] at hgrows
    refine ⟨_,_,writeRounds_of_stop rounds (.inl ?_),?_,.inr ⟨?_,hok⟩⟩
    · simp [hall]
    · refine ⟨fun h => absurd hb h,⟨_,hgrows⟩,?_,fun _ _ => ?_,fun _ h => absurd hok h⟩
      · rw [hgrows.content,hbuf,List.append_nil]
      · rw [hgrows.content,hbuf,List.append_nil,List.append_nil]
    · rw [hall,List.drop_length]
  · refine ⟨_,_,writeRounds_of_stop rounds (.inr hbad),?_,.inl hbad⟩
    refine ⟨fun h => absurd hb h,⟨_,hgrows⟩,?_,fun _ h => absurd h hbad,fun _ _ heq => ?_⟩
    · rw [hgrows.content,hbuf,List.append_nil,List.prefix_append_right_inj]
      exact List.take_prefix _ _
    · rw [hgrows.content,hbuf,List.append_nil,List.append_cancel_left_eq] at heq
      have hlen := congrArg List.length heq
      rw [List.length_take] at hlen
      omega

theorem fill_gave : b.Gave (b.copy s).flush.2 (s.take b.available) ∧
    ((b.copy s).flush.2.err=none → (b.copy s).flush.2.buf=[]) := by
  rw [not_or,not_not] at hstop
  obtain ⟨hflush,_,hempty⟩ := (b.copy s).flush_gave
  have hgave := (copy_gave hstop.2 s).trans hflush
  rw [List.append_nil] at hgave
  exact ⟨hgave,hempty⟩

end

/-- Two rounds are enough, whatever more are allowed: the string was given, or what is left of it
fits into the buffer. -/
theorem writeRounds_gave (rounds : Nat) (s : Bytes) (b : Writer) :
    ∃ t rest b', writeRounds (rounds+2) s b=(rest,b') ∧
      (b.err ≠ none ∧ b'=b ∨ b.err=none ∧ b'.err ≠ none ∧ b.Gave b' s ∨
        b.err=none ∧ b'.err=none ∧ b.Gave b' t ∧ s=t++rest ∧ rest.length ≤ b'.available) := by
  by_cases hstop : s.length ≤ b.available ∨ b.err ≠ none
  · refine ⟨[],s,b,writeRounds_of_stop _ hstop,?_⟩
    by_cases hb : b.err=none
    · have hfit := hstop.resolve_right fun h => h hb
      exact .inr (.inr ⟨hb,hb,.refl b,rfl,hfit⟩)
    · exact .inl ⟨hb,rfl⟩
  have hb : b.err=none := by
    by_contra h
    exact hstop (.inr h)
  by_cases hbuf : b.buf=[]
  · obtain ⟨rest,b',heq,hgave,hbad | ⟨rfl,hok⟩⟩ := writeRounds_direct hstop (rounds+1) hbuf
    · exact ⟨s,rest,b',heq,.inr (.inl ⟨hb,hbad,hgave⟩)⟩
    · exact ⟨s,[],b',heq,.inr (.inr ⟨hb,hok,hgave,by simp,Nat.zero_le _⟩)⟩
  rw [writeRounds,if_neg hstop,if_neg hbuf]
  obtain ⟨hgave,hempty⟩ := fill_gave hstop
  have hsplit : s=s.take b.available++s.drop b.available := (List.take_append_drop _ _).symm
  by_cases hflush : (b.copy s).flush.2.err=none
  swap
  · refine ⟨s,_,_,writeRounds_of_stop _ (.inr hflush),.inr (.inl ⟨hb,hflush,?_⟩)⟩
    exact hgave.of_err hflush (List.take_prefix _ _)
  by_cases hstop' : (s.drop b.available).length ≤ (b.copy s).flush.2.available
  · exact ⟨_,_,_,writeRounds_of_stop _ (.inl hstop'),
      .inr (.inr ⟨hb,hflush,hgave,hsplit,hstop'⟩)⟩
  · have hmore : ¬((s.drop b.available).length ≤ (b.copy s).flush.2.available ∨
        (b.copy s).flush.2.err ≠ none) := not_or.mpr ⟨hstop',fun h => h hflush⟩
    obtain ⟨rest,b',heq,hgave',hbad | ⟨rfl,hok⟩⟩ :=
      writeRounds_direct hmore rounds (hempty hflush)
    · refine ⟨s,rest,b',heq,.inr (.inl ⟨hb,hbad,?_⟩)⟩
      rw [hsplit]
      exact hgave.trans hgave'
    · refine ⟨s,[],b',heq,.inr (.inr ⟨hb,hok,?_,by simp,Nat.zero_le _⟩)⟩
      rw [hsplit]
      exact hgave.trans hgave'

theorem writeString_gave (b : Writer) (s : Bytes) :
    b.Gave (b.writeString s).2 s ∧ (b.writeString s).1=(b.writeString s).2.err := by
  obtain ⟨t,rest,b',heq,h⟩ := writeRounds_gave 0 s b
  rw [writeString,heq]
  rcases h with ⟨hb,rfl⟩ | ⟨hb,hb',hgave⟩ | ⟨hb,hb',hgave,rfl,hfit⟩
  · rw [if_pos hb]
    refine ⟨⟨fun _ => rfl,⟨[],.refl _⟩,?_,fun h => absurd h hb,fun h => absurd h hb⟩,rfl⟩
    rw [List.append_assoc]
    exact List.prefix_append _ _
  · rw [if_pos hb']
    exact ⟨hgave,rfl⟩
  · rw [if_neg (by simp [hb'])]
    have hcopy := copy_gave hb' rest
    rw [List.take_of_length_le hfit] at hcopy
    exact ⟨hgave.trans hcopy,hb'.symm⟩

end Writer
end GoRedis
