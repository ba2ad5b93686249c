import GoRedis.Protocol.Values
/-!
# Streams of any bytes

`ReadCommand` allocates what a header announces before it reads on. On every stream it comes back
with a command or an error, unless it gets to a header that announces more than `make` accepts.
What it gets past are complete values, described here by their bytes alone.
-/
namespace GoRedis

/-- The line, without its line feed, announces the number. -/
def Announces (line : Bytes) (n : Int) : Prop := 10 ∉ line ∧ parseInt (trimRight line)=some n

/-- The bytes of one value that the parser accepts, in whatever spelling. -/
inductive Wire : Bytes → Prop
  | text {b : UInt8} {line : Bytes} (hb : b=43 ∨ b=45) (hline : 10 ∉ line) : Wire (b::(line++[10]))
  | integer {line : Bytes} {n : Int} (hline : Announces line n) : Wire (58::(line++[10]))
  | null {b : UInt8} {line : Bytes} (hb : b=36 ∨ b=42) (hline : Announces line (-1)) :
      Wire (b::(line++[10]))
  | bulk {line data : Bytes} (hline : Announces line data.length) (hmake : MakeOk 1 data.length) :
      Wire (36::(line++10::(data++crlf)))
  | array {line : Bytes} {elems : List Bytes} (hline : Announces line elems.length)
      (hmake : MakeOk responseSize elems.length) (helems : ∀ e ∈ elems, Wire e) :
      Wire (42::(line++10::elems.flatten))

/-- Behind complete values stands a header that announces a bulk string of more than `maxAlloc`
bytes, or an array whose elements would take more. -/
inductive Oversized : Bytes → Prop
  | bulk {line rest : Bytes} {n : Int} (hline : Announces line n) (hbig : maxAlloc < n) :
      Oversized (36::(line++10::rest))
  | array {line rest : Bytes} {n : Int} (hline : Announces line n)
      (hbig : maxAlloc < n*responseSize) : Oversized (42::(line++10::rest))
  | element {line rest : Bytes} {n : Int} {elems : List Bytes} (hline : Announces line n)
      (hlen : elems.length < n) (helems : ∀ e ∈ elems, Wire e) (hrest : Oversized rest) :
      Oversized (42::(line++10::(elems.flatten++rest)))

theorem splitLine_eq_some_iff {input line rest : Bytes} :
    splitLine input=some (line,rest) ↔ 10 ∉ line ∧ input=line++10::rest := by
  constructor
  · intro h
    refine ⟨splitLine_noLF h,?_⟩
    induction input generalizing line with
    | nil => cases h
    | cons b input ih =>
      rw [splitLine] at h
      split_ifs at h with hb
      · cases h
        rw [hb]
        rfl
      · obtain ⟨⟨line',rest'⟩,hsplit,heq⟩ := Option.map_eq_some_iff.mp h
        cases heq
        rw [ih hsplit]
        rfl
  · rintro ⟨hline,rfl⟩
    exact splitLine_append line rest hline

theorem readLine_line {line : Bytes} (h : 10 ∉ line) (rest : Bytes) :
    readLine (line++10::rest)=.ok (trimRight line,rest) := by
  rw [readLine,splitLine_append line rest h]

theorem readLine_eq_ok {input text rest : Bytes} (h : readLine input=.ok (text,rest)) :
    ∃ line, 10 ∉ line ∧ text=trimRight line ∧ input=line++10::rest := by
  rw [readLine] at h
  split at h
  · cases h
  · rename_i line rest' hsplit
    cases h
    obtain ⟨hline,hinput⟩ := splitLine_eq_some_iff.mp hsplit
    exact ⟨line,hline,rfl,hinput⟩

theorem readElems_append {read : Bytes → Read Response} {elems : List Bytes}
    (h : ∀ e ∈ elems, ∀ rest, ∃ r, read (e++rest)=readOk r rest) (n i : Nat) (rest : Bytes) :
    ∃ vs : List Response, readElems read (elems.length+n) i (elems.flatten++rest)=
      vs.foldr consElem (readElems read n (i+elems.length) rest) := by
  induction elems generalizing i with
  | nil => exact ⟨[],by simp⟩
  | cons e elems ih =>
    obtain ⟨v,hv⟩ := h e List.mem_cons_self (elems.flatten++rest)
    obtain ⟨vs,hvs⟩ := ih (fun x hx => h x (List.mem_cons_of_mem _ hx)) (i+1)
    refine ⟨v::vs,?_⟩
    have hlen : (e::elems).length+n=(elems.length+n)+1 := by
      rw [List.length_cons]
      omega
    have hi : i+1+elems.length=i+(e::elems).length := by
      rw [List.length_cons]
      omega
    rw [hlen,List.flatten_cons,List.append_assoc,readElems_of_value hv,hvs,hi]
    rfl

theorem foldr_consElem_error (vs : List Response) (p : Panic) :
    vs.foldr consElem (.error p)=.error p := by
  induction vs with
  | nil => rfl
  | cons v vs ih => rw [List.foldr_cons,ih,consElem]

theorem foldr_consElem_ok (vs ws : List Response) (rest : Bytes) :
    vs.foldr consElem (readOk ws rest)=readOk (vs++ws) rest := by
  induction vs with
  | nil => rfl
  | cons v vs ih =>
    rw [List.foldr_cons,ih]
    rfl

theorem readElems_eq_ok {read : Bytes → Read Response}
    (hread : ∀ input r rest, read input=.ok (.ok (r,rest)) → ∃ v, Wire v ∧ input=v++rest)
    {n i : Nat} {input rest : Bytes} {vs : List Response}
    (h : readElems read n i input=.ok (.ok (vs,rest))) :
    ∃ elems : List Bytes, elems.length=n ∧ (∀ e ∈ elems, Wire e) ∧ input=elems.flatten++rest := by
  induction n generalizing i input vs with
  | zero =>
    cases h
    exact ⟨[],rfl,by simp,rfl⟩
  | succ n ih =>
    rw [readElems] at h
    split at h
    · cases h
    · cases h
    · rename_i v tail hv
      split at h
      · cases h
      · cases h
      · rename_i ws rest' htail
        cases h
        obtain ⟨e,he,rfl⟩ := hread _ _ _ hv
        obtain ⟨elems,hlen,helems,rfl⟩ := ih htail
        refine ⟨e::elems,congrArg Nat.succ hlen,List.forall_mem_cons.mpr ⟨he,helems⟩,?_⟩
        rw [List.flatten_cons,List.append_assoc]

theorem readElems_eq_error {read : Bytes → Read Response}
    (hread : ∀ input r rest, read input=.ok (.ok (r,rest)) → ∃ v, Wire v ∧ input=v++rest)
    {n i : Nat} {input : Bytes} {p : Panic} (h : readElems read n i input=.error p) :
    ∃ (elems : List Bytes) (rest : Bytes), elems.length < n ∧ (∀ e ∈ elems, Wire e) ∧
      input=elems.flatten++rest ∧ read rest=.error p := by
  induction n generalizing i input with
  | zero => cases h
  | succ n ih =>
    rw [readElems] at h
    split at h
    · rename_i p' hp
      cases h
      exact ⟨[],input,Nat.succ_pos n,by simp,rfl,hp⟩
    · cases h
    · rename_i v tail hv
      split at h
      · rename_i p' htail
        cases h
        obtain ⟨e,he,rfl⟩ := hread _ _ _ hv
        obtain ⟨elems,rest,hlen,helems,rfl,hp⟩ := ih htail
        refine ⟨e::elems,rest,Nat.succ_lt_succ hlen,List.forall_mem_cons.mpr ⟨he,helems⟩,?_,hp⟩
        rw [List.flatten_cons,List.append_assoc]
      · cases h
      · cases h

/-- What `readBulkString` and `readArray` share: the length line, the allocation, and then what is
read when that many bytes or elements are to follow. -/
def readCounted (bad : Bytes → ReadError) (neg : Int → ReadError) (null : Response) (size : Nat)
    (body : Nat → Bytes → Read Response) (input : Bytes) : Read Response :=
  match readLine input with
  | .error e => .ok (.error e)
  | .ok (line,rest) => match parseInt line with
    | none => .ok (.error (bad line))
    | some n =>
      if n=-1 then readOk null rest
      else if n < 0 then .ok (.error (neg n))
      else if ¬MakeOk size n then .error .makeLen
      else body n.toNat rest

theorem readBulkString_eq : readBulkString=readCounted .invalidBulkLength .negativeBulkLength
    .nullBulkString 1 readPayload := rfl

theorem readArray_eq (read : Bytes → Read Response) : readArray read=readCounted
    .invalidArrayLength .negativeArrayLength .nullArray responseSize
      fun n rest => arrayOf (readElems read n 0 rest) := rfl

section
variable {bad : Bytes → ReadError} {neg : Int → ReadError} {null : Response} {size : Nat}
  {body : Nat → Bytes → Read Response} {line input : Bytes} {n : Int}

theorem readCounted_null (h : Announces line (-1)) (rest : Bytes) :
    readCounted bad neg null size body (line++10::rest)=readOk null rest := by
  simp only [readCounted,readLine_line h.1,h.2,if_true]

theorem readCounted_body (h : Announces line n) (hmake : MakeOk size n) (rest : Bytes) :
    readCounted bad neg null size body (line++10::rest)=body n.toNat rest := by
  have hpos := hmake.1
  simp only [readCounted,readLine_line h.1,h.2]
  rw [if_neg (by omega),if_neg (by omega),if_neg (not_not.mpr hmake)]

theorem readCounted_panic (h : Announces line n) (hbig : maxAlloc < n*size) (rest : Bytes) :
    readCounted bad neg null size body (line++10::rest)=.error .makeLen := by
  have hpos : 0 < n := by
    by_contra hn
    have hle : n*size ≤ 0 := mul_nonpos_of_nonpos_of_nonneg (by omega) (by omega)
    omega
  have hmake : ¬MakeOk size n := fun h => by
    have := h.2
    omega
  simp only [readCounted,readLine_line h.1,h.2]
  rw [if_neg (by omega),if_neg (by omega),if_pos hmake]

theorem readCounted_cases (input : Bytes) :
    (∃ e, readCounted bad neg null size body input=.ok (.error e)) ∨
    ∃ line n rest, Announces line n ∧ input=line++10::rest ∧
      (n=-1 ∧ readCounted bad neg null size body input=readOk null rest ∨
        maxAlloc < n*size ∨
        MakeOk size n ∧ readCounted bad neg null size body input=body n.toNat rest) := by
  cases hline : readLine input with
  | error e =>
    left
    exact ⟨e,by rw [readCounted,hline]⟩
  | ok p =>
    obtain ⟨text,rest⟩ := p
    obtain ⟨line,hlf,rfl,rfl⟩ := readLine_eq_ok hline
    cases hn : parseInt (trimRight line) with
    | none =>
      refine .inl ⟨bad (trimRight line),?_⟩
      simp only [readCounted,hline,hn]
    | some n =>
      have hann : Announces line n := ⟨hlf,hn⟩
      by_cases hnull : n=-1
      · subst hnull
        exact .inr ⟨line,-1,rest,hann,rfl,.inl ⟨rfl,readCounted_null hann rest⟩⟩
      · by_cases hneg : n < 0
        · refine .inl ⟨neg n,?_⟩
          simp only [readCounted,hline,hn,if_neg hnull,if_pos hneg]
        · by_cases hmake : MakeOk size n
          · exact .inr ⟨line,n,rest,hann,rfl,.inr (.inr ⟨hmake,readCounted_body hann hmake rest⟩)⟩
          · refine .inr ⟨line,n,rest,hann,rfl,.inr (.inl ?_)⟩
            unfold MakeOk at hmake
            omega

theorem readCounted_eq_ok {r : Response} {rest : Bytes}
    (h : readCounted bad neg null size body input=.ok (.ok (r,rest))) :
    ∃ line n tail, Announces line n ∧ input=line++10::tail ∧
      (n=-1 ∧ tail=rest ∨ MakeOk size n ∧ body n.toNat tail=.ok (.ok (r,rest))) := by
  rcases @readCounted_cases bad neg null size body input with ⟨e,he⟩ | ⟨line,n,tail,hann,rfl,hcase⟩
  · rw [he] at h
    cases h
  · refine ⟨line,n,tail,hann,rfl,?_⟩
    rcases hcase with ⟨hn,hnull⟩ | hbig | ⟨hmake,hbody⟩
    · rw [hnull] at h
      cases h
      exact .inl ⟨hn,rfl⟩
    · rw [readCounted_panic hann hbig] at h
      cases h
    · exact .inr ⟨hmake,hbody.symm.trans h⟩

theorem readCounted_eq_error {p : Panic}
    (h : readCounted bad neg null size body input=.error p) :
    ∃ line n tail, Announces line n ∧ input=line++10::tail ∧
      (maxAlloc < n*size ∨ MakeOk size n ∧ body n.toNat tail=.error p) := by
  rcases @readCounted_cases bad neg null size body input with ⟨e,he⟩ | ⟨line,n,tail,hann,rfl,hcase⟩
  · rw [he] at h
    cases h
  · refine ⟨line,n,tail,hann,rfl,?_⟩
    rcases hcase with ⟨_,hnull⟩ | hbig | ⟨hmake,hbody⟩
    · rw [hnull] at h
      cases h
    · exact .inl hbig
    · exact .inr ⟨hmake,hbody.symm.trans h⟩

end

theorem readPayload_ne_error (n : Nat) (input : Bytes) (p : Panic) :
    readPayload n input ≠ .error p := by
  unfold readPayload afterPayload
  split
  · exact fun h => by cases h
  · split
    · exact fun h => by cases h
    · exact fun h => by cases h

theorem readPayload_bytes {n : Nat} {input rest : Bytes} {r : Response}
    (h : readPayload n input=readOk r rest) :
    ∃ data : Bytes, data.length=n ∧ input=data++crlf++rest := by
  obtain ⟨data,tail,hdata,hend⟩ := readPayload_eq_ok h
  have hlen := readFull_length hdata
  have hinput : input=data++tail := by
    rw [readFull] at hdata
    split_ifs at hdata
    cases hdata
    exact (List.take_append_drop n input).symm
  have htail : tail=crlf++rest := by
    rw [consumeCRLF,readFull] at hend
    by_cases h2 : 2 ≤ tail.length
    · rw [if_pos h2] at hend
      dsimp only at hend
      split_ifs at hend with hcrlf
      cases hend
      rw [← hcrlf,List.take_append_drop]
    · rw [if_neg h2] at hend
      by_cases hempty : tail=[]
      · rw [if_pos hempty] at hend
        cases hend
      · rw [if_neg hempty] at hend
        cases hend
  exact ⟨data,hlen,by rw [hinput,htail,List.append_assoc]⟩

theorem readLineValue_line_ok {build : Bytes → Except ReadError Response} {line : Bytes}
    {r : Response} (hline : 10 ∉ line) (hbuild : build (trimRight line)=.ok r) (rest : Bytes) :
    readLineValue build (line++10::rest)=readOk r rest := by
  simp only [readLineValue,readLine_line hline,hbuild]
  rfl

theorem readLineValue_ne_error (build : Bytes → Except ReadError Response) (input : Bytes)
    (p : Panic) : readLineValue build input ≠ .error p := by
  unfold readLineValue
  split
  · exact fun h => by cases h
  · split
    · exact fun h => by cases h
    · exact fun h => by cases h

theorem readLineValue_bytes {build : Bytes → Except ReadError Response} {input rest : Bytes}
    {r : Response} (h : readLineValue build input=.ok (.ok (r,rest))) :
    ∃ line, 10 ∉ line ∧ build (trimRight line)=.ok r ∧ input=line++10::rest := by
  rw [readLineValue] at h
  split at h
  · cases h
  · rename_i text rest' hline
    split at h
    · cases h
    · rename_i r' hbuild
      cases h
      obtain ⟨line,hlf,rfl,rfl⟩ := readLine_eq_ok hline
      exact ⟨line,hlf,hbuild,rfl⟩

theorem readValueDepth_text {b : UInt8} (hb : b=43 ∨ b=45) (d : Nat) {line : Bytes}
    (hline : 10 ∉ line) (rest : Bytes) :
    ∃ r, readValueDepth (d+1) (b::(line++10::rest))=readOk r rest := by
  rcases hb with rfl | rfl
  · exact ⟨.simpleString (trimRight line),
      @readLineValue_line_ok (fun line => .ok (.simpleString line)) _ _ hline rfl rest⟩
  · exact ⟨.error (trimRight line),
      @readLineValue_line_ok (fun line => .ok (.error line)) _ _ hline rfl rest⟩

theorem readValueDepth_bulkTag (d : Nat) (rest : Bytes) :
    readValueDepth (d+1) (36::rest)=readCounted .invalidBulkLength .negativeBulkLength
      .nullBulkString 1 readPayload rest := rfl

theorem readValueDepth_arrayTag (d : Nat) (rest : Bytes) :
    readValueDepth (d+1) (42::rest)=readCounted .invalidArrayLength .negativeArrayLength
      .nullArray responseSize
        (fun n rest => arrayOf (readElems (readValueDepth d) n 0 rest)) rest := rfl

theorem depth_succ {b : UInt8} {v : Bytes} {depth : Nat} (h : (b::v).length ≤ depth) :
    ∃ d, depth=d+1 := by
  rw [List.length_cons] at h
  exact ⟨depth-1,by omega⟩

theorem Wire.read {v : Bytes} (h : Wire v) {depth : Nat} (hdepth : v.length ≤ depth) (rest : Bytes) :
    ∃ r, readValueDepth depth (v++rest)=readOk r rest := by
  induction h generalizing depth rest with
  | @text b line hb hline =>
    obtain ⟨d,rfl⟩ := depth_succ hdepth
    have hv : b::(line++[10])++rest=b::(line++10::rest) := by simp
    rw [hv]
    exact readValueDepth_text hb d hline rest
  | @integer line n hline =>
    obtain ⟨d,rfl⟩ := depth_succ hdepth
    have hv : 58::(line++[10])++rest=58::(line++10::rest) := by simp
    have hbuild : buildInteger (trimRight line)=.ok (.integer n) := by
      simp only [buildInteger,hline.2]
    rw [hv]
    exact ⟨_,readLineValue_line_ok hline.1 hbuild rest⟩
  | @null b line hb hline =>
    obtain ⟨d,rfl⟩ := depth_succ hdepth
    have hv : b::(line++[10])++rest=b::(line++10::rest) := by simp
    rw [hv]
    rcases hb with rfl | rfl
    · exact ⟨_,by rw [readValueDepth_bulkTag,readCounted_null hline]⟩
    · exact ⟨_,by rw [readValueDepth_arrayTag,readCounted_null hline]⟩
  | @bulk line data hline hmake =>
    obtain ⟨d,rfl⟩ := depth_succ hdepth
    have hv : 36::(line++10::(data++crlf))++rest=36::(line++10::(data++crlf++rest)) := by simp
    refine ⟨.bulkString data,?_⟩
    rw [hv,readValueDepth_bulkTag,readCounted_body hline hmake,Int.toNat_natCast,
      (readPayload_decodes data).full]
  | @array line elems hline hmake _ ih =>
    obtain ⟨d,rfl⟩ := depth_succ hdepth
    have hv : 42::(line++10::elems.flatten)++rest=42::(line++10::(elems.flatten++rest)) := by simp
    have helems : ∀ e ∈ elems, ∀ rest, ∃ r, readValueDepth d (e++rest)=readOk r rest := by
      intro e he rest
      have hle := (List.sublist_flatten_of_mem he).length_le
      refine ih e he ?_ rest
      simp only [List.length_cons,List.length_append] at hdepth
      omega
    obtain ⟨vs,hvs⟩ := readElems_append helems 0 0 rest
    have hread : readElems (readValueDepth d) elems.length 0 (elems.flatten++rest)=readOk vs rest := by
      rw [← Nat.add_zero elems.length,hvs,readElems,← readOk,foldr_consElem_ok,List.append_nil]
    refine ⟨.array vs,?_⟩
    rw [hv,readValueDepth_arrayTag,readCounted_body hline hmake,Int.toNat_natCast,hread]
    rfl

theorem arrayOf_eq_ok {x : Read (List Response)} {r : Response} {rest : Bytes}
    (h : arrayOf x=.ok (.ok (r,rest))) : ∃ vs, x=.ok (.ok (vs,rest)) := by
  unfold arrayOf at h
  split at h
  · cases h
  · cases h
  · cases h
    exact ⟨_,rfl⟩

theorem arrayOf_eq_error {x : Read (List Response)} {p : Panic} (h : arrayOf x=.error p) :
    x=.error p := by
  unfold arrayOf at h
  split at h
  · cases h
    rfl
  · cases h
  · cases h

theorem wire_of_readValueDepth (depth : Nat) (input : Bytes) (r : Response) (rest : Bytes)
    (h : readValueDepth depth input=.ok (.ok (r,rest))) : ∃ v, Wire v ∧ input=v++rest := by
  induction depth generalizing input r rest with
  | zero => cases h
  | succ depth ih =>
    cases input with
    | nil => cases h
    | cons b input =>
      by_cases htext : b=43 ∨ b=45
      · obtain ⟨line,hline,rfl⟩ : ∃ line, 10 ∉ line ∧ input=line++10::rest := by
          rcases htext with rfl | rfl
          · rw [readValueDepth,if_pos rfl] at h
            obtain ⟨line,hline,_,hinput⟩ := readLineValue_bytes h
            exact ⟨line,hline,hinput⟩
          · rw [readValueDepth,if_neg (by decide),if_pos rfl] at h
            obtain ⟨line,hline,_,hinput⟩ := readLineValue_bytes h
            exact ⟨line,hline,hinput⟩
        exact ⟨_,.text htext hline,by simp⟩
      · rw [readValueDepth,if_neg fun hb => htext (.inl hb),if_neg fun hb => htext (.inr hb)] at h
        split_ifs at h with hint hbulk harray
        · subst hint
          obtain ⟨line,hline,hbuild,rfl⟩ := readLineValue_bytes h
          rw [buildInteger] at hbuild
          split at hbuild
          · cases hbuild
          · rename_i n hn
            exact ⟨_,.integer ⟨hline,hn⟩,by simp⟩
        · subst hbulk
          rw [readBulkString_eq] at h
          obtain ⟨line,n,tail,hann,rfl,⟨rfl,rfl⟩ | ⟨hmake,hbody⟩⟩ := readCounted_eq_ok h
          · exact ⟨_,.null (.inl rfl) hann,by simp⟩
          · obtain ⟨data,hlen,rfl⟩ := readPayload_bytes hbody
            have hn : (data.length:Int)=n := by
              have := hmake.1
              omega
            rw [← hn] at hann hmake
            exact ⟨_,.bulk hann hmake,by simp⟩
        · subst harray
          rw [readArray_eq] at h
          obtain ⟨line,n,tail,hann,rfl,⟨rfl,rfl⟩ | ⟨hmake,hbody⟩⟩ := readCounted_eq_ok h
          · exact ⟨_,.null (.inr rfl) hann,by simp⟩
          · obtain ⟨vs,hvs⟩ := arrayOf_eq_ok hbody
            obtain ⟨elems,hlen,helems,rfl⟩ := readElems_eq_ok ih hvs
            have hn : (elems.length:Int)=n := by
              have := hmake.1
              omega
            rw [← hn] at hann hmake
            exact ⟨_,.array hann hmake helems,by simp⟩
        · cases h

theorem oversized_of_readValueDepth {depth : Nat} {input : Bytes} {p : Panic}
    (hdepth : input.length < depth) (h : readValueDepth depth input=.error p) : Oversized input := by
  induction depth generalizing input with
  | zero => omega
  | succ depth ih =>
    cases input with
    | nil => cases h
    | cons b input =>
      rw [readValueDepth] at h
      split_ifs at h with hstr herr hint hbulk harray
      · exact absurd h (readLineValue_ne_error _ _ _)
      · exact absurd h (readLineValue_ne_error _ _ _)
      · exact absurd h (readLineValue_ne_error _ _ _)
      · subst hbulk
        rw [readBulkString_eq] at h
        obtain ⟨line,n,tail,hann,rfl,hbig | ⟨_,hbody⟩⟩ := readCounted_eq_error h
        · exact .bulk hann (by simpa using hbig)
        · exact absurd hbody (readPayload_ne_error _ _ _)
      · subst harray
        rw [readArray_eq] at h
        obtain ⟨line,n,tail,hann,rfl,hbig | ⟨_,hbody⟩⟩ := readCounted_eq_error h
        · exact .array hann hbig
        · obtain ⟨elems,rest,hlen,helems,rfl,hp⟩ :=
            readElems_eq_error (wire_of_readValueDepth depth) (arrayOf_eq_error hbody)
          -- what is left is shorter than the array that it stands in
          simp only [List.length_cons,List.length_append] at hdepth
          exact .element hann (by omega) helems (ih (by omega) hp)

theorem Oversized.panics {input : Bytes} (h : Oversized input) {depth : Nat}
    (hdepth : input.length < depth) : readValueDepth depth input=.error .makeLen := by
  induction h generalizing depth with
  | bulk hann hbig =>
    obtain ⟨d,rfl⟩ := depth_succ hdepth.le
    rw [readValueDepth_bulkTag]
    exact readCounted_panic hann (by simpa using hbig) _
  | array hann hbig =>
    obtain ⟨d,rfl⟩ := depth_succ hdepth.le
    rw [readValueDepth_arrayTag]
    exact readCounted_panic hann hbig _
  | @element line rest n elems hann hlen helems _ ih =>
    obtain ⟨d,rfl⟩ := depth_succ hdepth.le
    simp only [List.length_cons,List.length_append] at hdepth
    rw [readValueDepth_arrayTag]
    by_cases hmake : MakeOk responseSize n
    · have hread : ∀ e ∈ elems, ∀ rest, ∃ r, readValueDepth d (e++rest)=readOk r rest := by
        intro e he rest
        have hle := (List.sublist_flatten_of_mem he).length_le
        exact (helems e he).read (by omega) rest
      obtain ⟨k,hk⟩ : ∃ k, n.toNat=elems.length+(k+1) := ⟨n.toNat-elems.length-1,by omega⟩
      obtain ⟨vs,hvs⟩ := readElems_append hread (k+1) 0 rest
      have hpanic : readValueDepth d rest=.error .makeLen := ih (by omega)
      rw [readCounted_body hann hmake,hk,hvs,readElems,hpanic,foldr_consElem_error,arrayOf]
    · have hpos : 0 ≤ n := by omega
      refine readCounted_panic hann ?_ _
      unfold MakeOk at hmake
      omega

theorem commandParts_length {i : Nat} {es : List Response} {parts : List Bytes}
    (h : commandParts i es=.ok parts) : parts.length=es.length := by
  induction es generalizing i parts with
  | nil =>
    cases h
    rfl
  | cons e es ih =>
    cases e with
    | bulkString s =>
      rw [commandParts] at h
      split at h
      · cases h
      · rename_i tail htail
        cases h
        rw [List.length_cons,List.length_cons,ih htail]
    | _ => cases h

theorem readCommand_of_value {input : Bytes} {x : Except ReadError (Response × Bytes)}
    (h : readValue input=.ok x) :
    (∃ args rest, args ≠ [] ∧ readCommand input=.ok (.ok (args,rest))) ∨
      ∃ e, readCommand input=.ok (.error e) := by
  unfold readCommand
  rw [h]
  cases x with
  | error e => exact .inr ⟨e,rfl⟩
  | ok p =>
    obtain ⟨v,rest⟩ := p
    cases v with
    | array es =>
      cases es with
      | nil => exact .inr ⟨_,rfl⟩
      | cons e es =>
        cases hparts : commandParts 0 (e::es) with
        | error err => exact .inr ⟨err,by simp only [hparts]⟩
        | ok parts =>
          have hlen := commandParts_length hparts
          refine .inl ⟨parts,rest,?_,by simp only [hparts]⟩
          rintro rfl
          cases hlen
    | _ => exact .inr ⟨_,rfl⟩

/-- `ReadCommand` returns, with a command that is not empty or with an error, from exactly those
streams in which it does not get to a header that announces more than `make` accepts. -/
theorem readCommand_returns_iff (input : Bytes) :
    ((∃ args rest, args ≠ [] ∧ readCommand input=.ok (.ok (args,rest))) ∨
      ∃ e, readCommand input=.ok (.error e)) ↔ ¬Oversized input := by
  constructor
  · intro hreturns hover
    have hpanic : readValue input=.error .makeLen := hover.panics (Nat.lt_succ_self _)
    have hcommand : readCommand input=.error .makeLen := by rw [readCommand,hpanic]
    rcases hreturns with ⟨args,rest,_,h⟩ | ⟨e,h⟩
    · rw [hcommand] at h
      cases h
    · rw [hcommand] at h
      cases h
  · intro hfits
    cases h : readValue input with
    | error p => exact absurd (oversized_of_readValueDepth (Nat.lt_succ_self _) h) hfits
    | ok x => exact readCommand_of_value h

/-- One byte more than the address space has. -/
theorem readCommand_panics : readCommand (utf8 "$281474976710657\r\n")=.error .makeLen := rfl

end GoRedis
