import GoRedis.Persistence.Recovery
/-!
# Which damaged tails `Replay` reports

`Replay` stops without an error where `errors.Is` finds `io.EOF` under the parser's error. Of
the ways a record can be cut off, only two leave something else there: inside the payload of an
argument, and between the two bytes of the line end behind it.
-/
namespace GoRedis
open PrefixCode

/-- A read that failed, and not for the end of the file exactly when `torn`. -/
def Ends {α : Type} (torn : Prop) (r : Read α) : Prop :=
  ∃ e, r=.ok (.error e) ∧ (e.isEOF=false ↔ torn)

/-- The same for the helpers that cannot panic. -/
def LineEnds {α : Type} (torn : Prop) (r : Except ReadError α) : Prop :=
  ∃ e, r=.error e ∧ (e.isEOF=false ↔ torn)

theorem readLine_cuts (n : Nat) : Cuts LineEnds readLine (formatNat n++crlf) ∅ where
  proper _ h := h.elim
  cut p hp hne := by
    refine ⟨.readingLine .eof,?_,iff_of_false (by decide) id⟩
    rw [readLine,splitLine_eq_none (noLF_of_cut (formatNat_noLF n) hp hne)]

theorem readFull_cuts (data : Bytes) :
    Cuts LineEnds (readFull data.length) data {p | p ≠ [] ∧ p <+: data ∧ p ≠ data} where
  proper _ h := h.2
  cut p hp hne := by
    have hlt : ¬data.length ≤ p.length := by
      intro hle
      exact hne (hp.eq_of_length (le_antisymm hp.length_le hle))
    by_cases hnil : p=[]
    · refine ⟨.eof,?_,iff_of_false (by decide) fun h => h.1 hnil⟩
      rw [readFull,if_neg hlt,if_pos hnil]
    · refine ⟨.unexpectedEOF,?_,iff_of_true rfl ⟨hnil,hp,hne⟩⟩
      rw [readFull,if_neg hlt,if_neg hnil]

theorem consumeCRLF_cuts : Cuts LineEnds consumeCRLF crlf {p | p ≠ [] ∧ p <+: crlf ∧ p ≠ crlf} := by
  refine (readFull_cuts crlf).map ?_
  rintro P input ⟨e,he,hiff⟩
  have he' : readFull 2 input=.error e := he
  exact ⟨.readingCRLF e,by rw [consumeCRLF,he'],hiff⟩

/-- What is left of a payload and its line end where the cut is reported. -/
def tornPayload (a : Bytes) : Set Bytes :=
  {p | p ≠ [] ∧ p <+: a ∧ p ≠ a} ∪ (a++·) '' {p | p ≠ [] ∧ p <+: crlf ∧ p ≠ crlf}

theorem readPayload_cuts (a : Bytes) :
    Cuts Ends (readPayload a.length) (a++crlf) (tornPayload a) := by
  have hend : Cuts Ends (afterPayload a) crlf {p | p ≠ [] ∧ p <+: crlf ∧ p ≠ crlf} := by
    apply consumeCRLF_cuts.map
    rintro P input ⟨e,he,hiff⟩
    exact ⟨e,by rw [afterPayload,he],hiff⟩
  apply Cuts.seq (readFull_decodes a) (readFull_cuts a) hend
  · rintro P input ⟨e,he,hiff⟩
    exact ⟨.readingBulkData e,by rw [readPayload,he],hiff⟩
  · intro input rest hr
    exact readPayload_of_data hr

theorem readBulkString_cuts (a : Bytes) (h : MakeOk 1 a.length) :
    Cuts Ends readBulkString (formatNat a.length++crlf++(a++crlf))
      (∅ ∪ (formatNat a.length++crlf++·) '' tornPayload a) := by
  apply Cuts.seq (readLine_formatNat a.length) (readLine_cuts a.length) (readPayload_cuts a)
  · rintro P input ⟨e,he,hiff⟩
    exact ⟨e,by rw [readBulkString,he],hiff⟩
  · intro input rest hr
    exact readBulkString_of_line h hr

theorem readValueDepth_cuts {d : Bytes → Read Response} {c : Bytes} {T : Set Bytes}
    (h : Cuts Ends d c T) (depth : Nat) (b : UInt8)
    (hb : ∀ rest, readValueDepth (depth+1) (b::rest)=d rest) :
    Cuts Ends (readValueDepth (depth+1)) (b::c) ((b::·) '' T) where
  proper := by
    rintro p ⟨q,hq,rfl⟩
    obtain ⟨hpre,hne⟩ := h.proper q hq
    exact ⟨List.cons_prefix_cons.mpr ⟨rfl,hpre⟩,fun he => hne (List.cons.inj he).2⟩
  cut p hp hne := by
    cases p with
    | nil => exact ⟨.eof,rfl,iff_of_false (by decide) (by simp)⟩
    | cons x p =>
      obtain ⟨rfl,hp'⟩ := List.cons_prefix_cons.mp hp
      rw [hb,List.cons_injective.mem_set_image]
      exact h.cut p hp' fun he => hne (by rw [he])

/-- What is left of a bulk string where the cut is reported. -/
def tornBulk (a : Bytes) : Set Bytes :=
  (fun q => 36::(formatNat a.length++crlf++q)) '' tornPayload a

theorem readValueDepth_bulk_cuts (depth : Nat) (a : Bytes) (h : MakeOk 1 a.length) :
    Cuts Ends (readValueDepth (depth+1)) (encodeBulk a) (tornBulk a) := by
  have he : encodeBulk a=36::(formatNat a.length++crlf++(a++crlf)) := by simp [encodeBulk]
  have ht : tornBulk a=(36::·) '' (∅ ∪ (formatNat a.length++crlf++·) '' tornPayload a) := by
    rw [Set.empty_union,Set.image_image]
    rfl
  rw [he,ht]
  exact readValueDepth_cuts (readBulkString_cuts a h) depth 36 fun rest => rfl

/-- What is left of a list of bulk strings where the cut is reported. -/
def tornBulks : List Bytes → Set Bytes
  | [] => ∅
  | a::args => tornBulk a ∪ (encodeBulk a++·) '' tornBulks args

theorem readElems_cuts (depth : Nat) (args : List Bytes) (h : ∀ a ∈ args, MakeOk 1 a.length)
    (i : Nat) : Cuts Ends (readElems (readValueDepth (depth+1)) args.length i)
      (args.flatMap encodeBulk) (tornBulks args) := by
  induction args generalizing i with
  | nil => exact .nil
  | cons a args ih =>
    have hrest := ih (fun x hx => h x (List.mem_cons_of_mem _ hx)) (i+1)
    have hcons : Cuts Ends (fun input => consElem (.bulkString a)
        (readElems (readValueDepth (depth+1)) args.length (i+1) input))
        (args.flatMap encodeBulk) (tornBulks args) := by
      apply hrest.map
      rintro P input ⟨e,he,hiff⟩
      exact ⟨e,by rw [he,consElem],hiff⟩
    have ha := h a List.mem_cons_self
    rw [List.flatMap_cons,List.length_cons]
    apply Cuts.seq (readValueDepth_bulk depth a ha) (readValueDepth_bulk_cuts depth a ha) hcons
    · rintro P input ⟨e,he,hiff⟩
      exact ⟨.readingElement i e,by rw [readElems,he],hiff⟩
    · intro input rest hr
      exact readElems_of_value hr

/-- What is left of a record where the cut is reported: it ends inside the payload of an
argument or inside the line end behind one. -/
def tornRecord (args : List Bytes) : Set Bytes :=
  (fun q => 42::(formatNat args.length++crlf++q)) '' tornBulks args

theorem readValueDepth_record_cuts (depth : Nat) (args : List Bytes) (h : Fits args) :
    Cuts Ends (readValueDepth (depth+2)) (encode args) (tornRecord args) := by
  have ht : tornRecord args=
      (42::·) '' (∅ ∪ (formatNat args.length++crlf++·) '' tornBulks args) := by
    rw [Set.empty_union,Set.image_image]
    rfl
  have helems : Cuts Ends
      (fun input => arrayOf (readElems (readValueDepth (depth+1)) args.length 0 input))
      (args.flatMap encodeBulk) (tornBulks args) := by
    apply (readElems_cuts depth args h.bytes 0).map
    rintro P input ⟨e,he,hiff⟩
    exact ⟨e,by rw [he,arrayOf],hiff⟩
  rw [encode_eq,ht]
  refine readValueDepth_cuts (d := readArray (readValueDepth (depth+1))) ?_ (depth+1) 42
    fun rest => rfl
  apply Cuts.seq (readLine_formatNat args.length) (readLine_cuts args.length) helems
  · rintro P input ⟨e,he,hiff⟩
    exact ⟨e,by rw [readArray,he],hiff⟩
  · intro input rest hr
    exact readArray_of_line h.elems hr

theorem readCommand_cut (args : List Bytes) (h : Fits args) {p : Bytes} (hp : p <+: encode args)
    (hne : p ≠ encode args) : Ends (p ∈ tornRecord args) (readCommand p) := by
  have hvalue : Ends (p ∈ tornRecord args) (readValue p) := by
    cases p with
    | nil => exact ⟨.eof,rfl,iff_of_false (by decide) (by simp [tornRecord])⟩
    | cons b p =>
      rw [readValue,List.length_cons]
      exact (readValueDepth_record_cuts p.length args h).cut _ hp hne
  obtain ⟨e,he,hiff⟩ := hvalue
  exact ⟨e,by rw [readCommand,he],hiff⟩

variable {F : Type} [Float64 F]

/-- `Replay` of a log with a record cut off behind it returns no error exactly when nothing is
left of the record, but for cuts that tear an argument apart. -/
theorem replay_reports_iff (world : Nat → World) (log : List (List Bytes)) (args : List Bytes)
    (p : Bytes) (s₀ s : MemoryStore F) (hlog : ∀ a ∈ log, Fits a)
    (happly : applyAll world log .new=some s) (hfit : Fits args) (hp : p <+: encode args)
    (hne : p ≠ encode args) :
    ∃ err, replay world (some (encodeAll log++p)) s₀=.ok ⟨log.length,err,s⟩ ∧
      ((err=none ↔ p=[]) ↔ (p=[] ∨ p ∈ tornRecord args)) := by
  obtain ⟨e,he,hiff⟩ := readCommand_cut args hfit hp hne
  obtain ⟨fuel,hr⟩ := replay_encodeAll world log p s₀ s hlog happly
  refine ⟨if e.isEOF then none else some (.parse (log.length+1) e),?_,?_⟩
  · rw [hr,replayLoop,he]
  · rw [← hiff]
    by_cases hnil : p=[]
    · subst hnil
      cases he
      simp [ReadError.isEOF]
    · cases heof : e.isEOF <;> simp [hnil]

/-- A record cut off in the middle of its value is reported. -/
theorem replay_reports_torn_value :
    ∃ err, replay (F := Int) (fun _ => .plain 0)
        (some (encodeAll [setRecord [107] [118]]++(encode (setRecord [107] [118,119])).take 25)) .new=
        .ok ⟨1,err,MemoryStore.new.set [107] [118]⟩ ∧ err ≠ none := by
  have htorn : (encode (setRecord [107] [118,119])).take 25 ∈ tornRecord (setRecord [107] [118,119]) :=
    ⟨_,.inr ⟨_,.inr ⟨_,.inl ⟨[118],.inl ⟨by decide,by decide,by decide⟩,rfl⟩,rfl⟩,rfl⟩,rfl⟩
  obtain ⟨err,hreplay,hiff⟩ := replay_reports_iff (F := Int) (fun _ => .plain 0)
    [setRecord [107] [118]] (setRecord [107] [118,119]) _ .new _ (by decide) rfl (by decide)
    (List.take_prefix 25 _) (by decide)
  exact ⟨err,hreplay,fun h => absurd ((hiff.mpr (.inr htorn)).mp h) (by decide)⟩

/-- Cut off behind its first word, a record disappears without an error. -/
theorem replay_ignores_half_record :
    (encode (setRecord [107] [118,119])).take 13 ≠ [] ∧
    replay (F := Int) (fun _ => .plain 0)
      (some (encodeAll [setRecord [107] [118]]++(encode (setRecord [107] [118,119])).take 13)) .new=
      .ok ⟨1,none,MemoryStore.new.set [107] [118]⟩ := by
  refine ⟨by decide,?_⟩
  rfl

end GoRedis
