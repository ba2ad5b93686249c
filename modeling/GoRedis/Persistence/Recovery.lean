import GoRedis.Lib.Journal
import GoRedis.Persistence.Replay
import GoRedis.Protocol.RoundTrip
/-!
# What `Replay` makes of a file

A file that holds encoded commands is the journal of those commands: `Replay` redoes them in
order and then looks at what is behind the last one. A torn tail is never taken for a
command; but since `Open` keeps it, it does swallow what is appended later.
-/
namespace GoRedis
open PrefixCode Journal

section
variable {F : Type} [Float64 F]

/-- The `i`-th record applied in its world, when `applyCommand` accepts it. -/
def applied (world : Nat → World) (i : Nat) (args : List Bytes) (s : MemoryStore F) :
    Option (MemoryStore F) :=
  match applyCommand (world i) args s with
  | .ok (.ok s') => some s'
  | _ => none

/-- Commands applied in order, all of them accepted. -/
def applyAll (world : Nat → World) (log : List (List Bytes)) (s : MemoryStore F) :
    Option (MemoryStore F) := redo (applied world) 0 log s

theorem applied_eq_some {world : Nat → World} {i : Nat} {args : List Bytes}
    {s s' : MemoryStore F} :
    applied world i args s=some s' ↔ applyCommand (world i) args s=.ok (.ok s') := by
  unfold applied
  split
  · simp_all
  · simp_all

theorem ne_nil_of_applied {world : Nat → World} {i : Nat} {args : List Bytes}
    {s s' : MemoryStore F} (h : applied world i args s=some s') : args ≠ [] := by
  rintro rfl
  rw [applied_eq_some] at h
  cases h

theorem encode_length_pos (args : List Bytes) : 1 ≤ (encode args).length := by
  rw [encode_eq,List.length_cons]
  omega

theorem encodeAll_length (log : List (List Bytes)) : log.length ≤ (encodeAll log).length := by
  induction log with
  | nil => simp
  | cons args log ih =>
    have := encode_length_pos args
    simp only [encodeAll_cons,List.length_append,List.length_cons]
    omega

theorem replayLoop_encodeAll (world : Nat → World) (log : List (List Bytes)) (tail : Bytes)
    (fuel n : Nat) (s s' : MemoryStore F) (hfit : ∀ a ∈ log, Fits a)
    (h : redo (applied world) n log s=some s') :
    replayLoop world (log.length+fuel) n (encodeAll log++tail) s=
      replayLoop world fuel (n+log.length) tail s' := by
  induction log generalizing n s with
  | nil =>
    cases h
    simp
  | cons args log ih =>
    obtain ⟨u,hu,hrest⟩ := Option.bind_eq_some_iff.mp h
    have hread := (readCommand_decodes args (ne_nil_of_applied hu)
      (hfit args List.mem_cons_self)).full (encodeAll log++tail)
    have hfuel : (args::log).length+fuel=(log.length+fuel)+1 := by
      simp only [List.length_cons]
      omega
    have hn : n+(args::log).length=n+1+log.length := by
      simp only [List.length_cons]
      omega
    rw [hfuel,encodeAll_cons,List.append_assoc,replayLoop,hread]
    simp only [readOk,applied_eq_some.mp hu]
    rw [ih (n+1) u (fun a ha => hfit a (List.mem_cons_of_mem _ ha)) hrest,hn]

theorem replay_encodeAll (world : Nat → World) (log : List (List Bytes)) (tail : Bytes)
    (s₀ s : MemoryStore F) (hfit : ∀ a ∈ log, Fits a) (h : applyAll world log .new=some s) :
    ∃ fuel, replay world (some (encodeAll log++tail)) s₀=
      replayLoop world (fuel+1) log.length tail s := by
  have hle := encodeAll_length log
  obtain ⟨fuel,hfuel⟩ : ∃ fuel, (encodeAll log++tail).length+1=log.length+(fuel+1) := by
    refine ⟨(encodeAll log++tail).length-log.length,?_⟩
    simp only [List.length_append]
    omega
  refine ⟨fuel,?_⟩
  simp only [replay,MemoryStore.flush]
  rw [hfuel,replayLoop_encodeAll world log tail (fuel+1) 0 .new s hfit h,Nat.zero_add]

theorem replay_log (world : Nat → World) (log : List (List Bytes)) (s₀ s : MemoryStore F)
    (hfit : ∀ a ∈ log, Fits a) (h : applyAll world log .new=some s) :
    replay world (some (encodeAll log)) s₀=.ok ⟨log.length,none,s⟩ := by
  obtain ⟨fuel,hr⟩ := replay_encodeAll world log [] s₀ s hfit h
  rw [List.append_nil] at hr
  rw [hr]
  rfl

/-- The torn tail of a crash costs nothing but itself: every complete command is replayed,
and the tail is not taken for a command. -/
theorem replay_torn_tail (world : Nat → World) (log : List (List Bytes)) (c : List Bytes)
    (p : Bytes) (s₀ s : MemoryStore F) (hlog : ∀ a ∈ log, Fits a)
    (happly : applyAll world log .new=some s) (hc : c ≠ []) (hfit : Fits c)
    (hp : p <+: encode c) (hne : p ≠ encode c) :
    (∃ err, replay world (some (encodeAll log++p)) s₀=.ok ⟨log.length,err,s⟩) ∧
      ∀ args rest, readCommand p ≠ .ok (.ok (args,rest)) := by
  obtain ⟨e,he⟩ := (readCommand_decodes c hc hfit).cut p hp hne
  obtain ⟨fuel,hr⟩ := replay_encodeAll world log p s₀ s hlog happly
  refine ⟨⟨if e.isEOF then none else some (.parse (log.length+1) e),?_⟩,?_⟩
  · rw [hr,replayLoop,he]
  · intro args rest h
    rw [he] at h
    cases h

end

/-- Two whole commands and the first ten bytes of a third. -/
theorem replay_torn_tail_set_del :
    (∃ err, replay (F := Int) (fun _ => .plain 0)
        (some (encodeAll [setRecord [107] [118],delRecord [107]]++(encode (setRecord [107] [119])).take 10))
        .new=.ok ⟨2,err,(MemoryStore.new.set [107] [118]).del 0 [[107]] |>.2⟩) ∧
      ∀ args rest, readCommand ((encode (setRecord [107] [119])).take 10) ≠ .ok (.ok (args,rest)) :=
  replay_torn_tail (F := Int) (fun _ => .plain 0) [setRecord [107] [118],delRecord [107]]
    (setRecord [107] [119]) _ .new _ (by decide) rfl (by decide) (by decide)
    (List.take_prefix _ _) (by decide)

end GoRedis
