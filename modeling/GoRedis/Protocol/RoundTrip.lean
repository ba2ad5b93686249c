import GoRedis.Lib.PrefixCode
import GoRedis.Persistence.AOF
/-!
# The parser reads back what the serializer writes

Every encoded command is a codeword of `ReadCommand`: it is read with any bytes behind it,
and cut anywhere it is refused without a panic.
-/
namespace GoRedis
open PrefixCode

/-- A successful read, in the shape the parser returns it. -/
def readOk {α : Type} (v : α) (rest : Bytes) : Read α := .ok (.ok (v,rest))

/-- A read that returned an error. -/
def Refused {α : Type} (r : Read α) : Prop := ∃ e, r=.ok (.error e)

/-- The same for the helpers that cannot panic. -/
def lineOk {α : Type} (v : α) (rest : Bytes) : Except ReadError (α × Bytes) := .ok (v,rest)

def LineRefused {α : Type} (r : Except ReadError α) : Prop := ∃ e, r=.error e

theorem splitLine_append (t rest : Bytes) (ht : 10 ∉ t) :
    splitLine (t++10::rest)=some (t,rest) := by
  induction t with
  | nil => simp [splitLine]
  | cons b t ih =>
    have hb : b ≠ 10 := fun h => ht (by simp [h])
    simp [splitLine,hb,ih fun h => ht (List.mem_cons_of_mem _ h)]

theorem splitLine_eq_none {t : Bytes} (ht : 10 ∉ t) : splitLine t=none := by
  induction t with
  | nil => rfl
  | cons b t ih =>
    have hb : b ≠ 10 := fun h => ht (by simp [h])
    simp [splitLine,hb,ih fun h => ht (List.mem_cons_of_mem _ h)]

/-- The byte a line ends in is no line end. -/
def CleanEnd (t : Bytes) : Prop := ∀ b ∈ t.getLast?, b ≠ 13 ∧ b ≠ 10

theorem trimRight_line (t : Bytes) (ht : CleanEnd t) : trimRight (t++[13])=t := by
  have hkeep : t.reverse.dropWhile (fun b => b=13 ∨ b=10)=t.reverse := by
    cases h : t.reverse with
    | nil => rfl
    | cons b s =>
      have hb := ht b (by rw [← List.head?_reverse,h]; rfl)
      simp [hb.1,hb.2]
  have hcr : trimRight (t++[13])=(t.reverse.dropWhile fun b => b=13 ∨ b=10).reverse := by
    simp [trimRight]
  rw [hcr,hkeep,List.reverse_reverse]

theorem noLF_of_cut {t p : Bytes} (hlf : 10 ∉ t) (hp : p <+: t++crlf) (hne : p ≠ t++crlf) :
    (10:UInt8) ∉ p := by
  have hs : t++crlf=(t++[13])++[10] := by simp [crlf]
  have hp' : p <+: t++[13] := by
    rw [hs] at hp hne
    rcases prefix_append_cases hp hne with h' | ⟨q,rfl,hq,hqne⟩
    · exact h'.1
    · rcases List.prefix_cons_iff.mp hq with rfl | ⟨r,rfl,hr⟩
      · simp
      · simp [List.prefix_nil.mp hr] at hqne
  intro h
  have hmem := hp'.subset h
  simp only [List.mem_append,List.mem_singleton] at hmem
  exact hmem.elim hlf (by decide)

theorem readLine_decodes (t : Bytes) (hlf : 10 ∉ t) (ht : CleanEnd t) :
    Decodes lineOk LineRefused readLine (t++crlf) t where
  full rest := by
    have hno : (10:UInt8) ∉ t++[13] := by simpa using hlf
    have hs : t++crlf++rest=(t++[13])++10::rest := by simp [crlf]
    rw [hs,readLine,splitLine_append _ _ hno]
    simp [trimRight_line t ht,lineOk]
  cut p hp hne := ⟨_,by rw [readLine,splitLine_eq_none (noLF_of_cut hlf hp hne)]⟩

theorem formatNat_noLF (n : Nat) : (10:UInt8) ∉ formatNat n := by
  intro h
  exact absurd (formatNat_digits n _ h).1 (by decide)

theorem formatNat_cleanEnd (n : Nat) : CleanEnd (formatNat n) := by
  intro b hb
  have hd := (formatNat_digits n b (List.mem_of_getLast? hb)).1
  constructor <;> rintro rfl <;> exact absurd hd (by decide)

theorem readLine_formatNat (n : Nat) :
    Decodes lineOk LineRefused readLine (formatNat n++crlf) (formatNat n) :=
  readLine_decodes _ (formatNat_noLF n) (formatNat_cleanEnd n)

theorem parseInt_formatNat {n : Nat} (h : n < 2^63) : parseInt (formatNat n)=some (n:Int) := by
  have he : formatNat n=formatInt n := by simp [formatInt]
  rw [he]
  exact parseInt_formatInt (by unfold InInt64; omega)

theorem readFull_decodes (data : Bytes) :
    Decodes lineOk LineRefused (readFull data.length) data data where
  full rest := by simp [readFull,lineOk]
  cut p hp hne := by
    have hlt : p.length < data.length := by
      have hle := hp.length_le
      rcases Nat.lt_or_eq_of_le hle with h | h
      · exact h
      · exact absurd (hp.eq_of_length h) hne
    unfold readFull
    rw [if_neg (by omega)]
    split
    · exact ⟨_,rfl⟩
    · exact ⟨_,rfl⟩

theorem consumeCRLF_decodes :
    Decodes (fun (_ : Unit) rest => (.ok rest : Except ReadError Bytes)) LineRefused consumeCRLF
      crlf () := by
  apply (readFull_decodes crlf).map
  · rintro input ⟨e,he⟩
    exact ⟨_,by rw [consumeCRLF]; simp only [crlf,List.length_cons,List.length_nil] at he; rw [he]⟩
  · intro input rest h
    simp only [crlf,List.length_cons,List.length_nil,lineOk] at h
    rw [consumeCRLF,h]
    simp [crlf]

theorem MakeOk.lt {size n : Nat} (hsize : 0 < size) (h : MakeOk size n) : n < 2^63 := by
  obtain ⟨_,h⟩ := h
  have hle : n*1 ≤ n*size := Nat.mul_le_mul_left n hsize
  unfold maxAlloc at h
  omega

/-- What `readBulkString` does behind the payload. -/
def afterPayload (data input : Bytes) : Read Response :=
  match consumeCRLF input with
  | .error e => .ok (.error e)
  | .ok rest => readOk (.bulkString data) rest

/-- What it does behind the length line. -/
def readPayload (n : Nat) (input : Bytes) : Read Response :=
  match readFull n input with
  | .error e => .ok (.error (.readingBulkData e))
  | .ok (data,rest) => afterPayload data rest

theorem readPayload_of_data {n : Nat} {input data rest : Bytes}
    (h : readFull n input=lineOk data rest) : readPayload n input=afterPayload data rest := by
  rw [readPayload,h]
  rfl

theorem readPayload_eq_ok {n : Nat} {input rest : Bytes} {v : Response}
    (h : readPayload n input=readOk v rest) :
    ∃ data tail, readFull n input=.ok (data,tail) ∧ consumeCRLF tail=.ok rest := by
  unfold readPayload at h
  split at h
  · cases h
  · rename_i data tail hdata
    refine ⟨data,tail,hdata,?_⟩
    unfold afterPayload at h
    split at h
    · cases h
    · rename_i rest' hend
      cases h
      exact hend

theorem readBulkString_of_line {input rest : Bytes} {n : Nat} (hn : MakeOk 1 n)
    (h : readLine input=lineOk (formatNat n) rest) : readBulkString input=readPayload n rest := by
  rw [readBulkString,h]
  simp only [lineOk,parseInt_formatNat (hn.lt one_pos),Int.toNat_natCast]
  rw [if_neg (by omega),if_neg (by omega),if_neg (by simpa using hn)]
  rfl

/-- The elements of an array have been read. -/
def arrayOf : Read (List Response) → Read Response
  | .error p => .error p
  | .ok (.error e) => .ok (.error e)
  | .ok (.ok (vs,rest)) => readOk (.array vs) rest

theorem readArray_of_line {readValue : Bytes → Read Response} {input rest : Bytes} {n : Nat}
    (hn : MakeOk responseSize n) (h : readLine input=lineOk (formatNat n) rest) :
    readArray readValue input=arrayOf (readElems readValue n 0 rest) := by
  rw [readArray,h]
  simp only [lineOk,parseInt_formatNat (hn.lt (by decide)),Int.toNat_natCast]
  rw [if_neg (by omega),if_neg (by omega),if_neg (by simpa using hn)]
  rfl

/-- The elements behind the first one have been read. -/
def consElem (v : Response) : Read (List Response) → Read (List Response)
  | .error p => .error p
  | .ok (.error e) => .ok (.error e)
  | .ok (.ok (vs,rest)) => readOk (v::vs) rest

theorem readElems_of_value {readValue : Bytes → Read Response} {n i : Nat} {input rest : Bytes}
    {v : Response} (h : readValue input=readOk v rest) :
    readElems readValue (n+1) i input=consElem v (readElems readValue n (i+1) rest) := by
  rw [readElems,h]
  rfl

theorem readPayload_decodes (data : Bytes) :
    Decodes readOk Refused (readPayload data.length) (data++crlf) (.bulkString data) := by
  have hend : Decodes readOk Refused (afterPayload data) crlf (.bulkString data) := by
    apply consumeCRLF_decodes.map
    · rintro input ⟨e,he⟩
      exact ⟨e,by rw [afterPayload,he]⟩
    · intro input rest hr
      rw [afterPayload,hr]
  apply (readFull_decodes data).seq hend
  · rintro input ⟨e,he⟩
    exact ⟨_,by rw [readPayload,he]⟩
  · intro input rest hr
    exact readPayload_of_data hr

theorem readBulkString_decodes (data : Bytes) (h : MakeOk 1 data.length) :
    Decodes readOk Refused readBulkString (formatNat data.length++crlf++(data++crlf))
      (.bulkString data) := by
  apply (readLine_formatNat data.length).seq (readPayload_decodes data)
  · rintro input ⟨e,he⟩
    exact ⟨_,by rw [readBulkString,he]⟩
  · intro input rest hr
    exact readBulkString_of_line h hr

theorem readValueDepth_tagged {d : Bytes → Read Response} {c : Bytes} {v : Response}
    (h : Decodes readOk Refused d c v) (depth : Nat) (b : UInt8)
    (hb : ∀ rest, readValueDepth (depth+1) (b::rest)=d rest) :
    Decodes readOk Refused (readValueDepth (depth+1)) (b::c) v where
  full rest := by rw [List.cons_append,hb,h.full]
  cut p hp hne := by
    cases p with
    | nil => exact ⟨_,rfl⟩
    | cons a p =>
      obtain ⟨rfl,hp'⟩ := List.cons_prefix_cons.mp hp
      rw [hb]
      exact h.cut p hp' fun he => hne (by rw [he])

theorem readValueDepth_bulk (depth : Nat) (data : Bytes) (h : MakeOk 1 data.length) :
    Decodes readOk Refused (readValueDepth (depth+1)) (encodeBulk data) (.bulkString data) := by
  have he : encodeBulk data=36::(formatNat data.length++crlf++(data++crlf)) := by
    simp [encodeBulk]
  rw [he]
  exact readValueDepth_tagged (readBulkString_decodes data h) depth 36 fun rest => rfl

theorem readElems_decodes (depth : Nat) (args : List Bytes) (h : ∀ a ∈ args, MakeOk 1 a.length)
    (i : Nat) :
    Decodes readOk Refused (readElems (readValueDepth (depth+1)) args.length i)
      (args.flatMap encodeBulk) (args.map Response.bulkString) := by
  induction args generalizing i with
  | nil => exact .nil fun rest => rfl
  | cons a args ih =>
    have hrest := ih (fun x hx => h x (List.mem_cons_of_mem _ hx)) (i+1)
    have hcons : Decodes readOk Refused (fun input => consElem (.bulkString a)
        (readElems (readValueDepth (depth+1)) args.length (i+1) input))
        (args.flatMap encodeBulk) (.bulkString a::args.map Response.bulkString) := by
      apply hrest.map
      · rintro input ⟨e,he⟩
        exact ⟨e,by rw [he,consElem]⟩
      · intro input rest hr
        rw [hr]
        rfl
    rw [List.flatMap_cons,List.map_cons,List.length_cons]
    apply (readValueDepth_bulk depth a (h a List.mem_cons_self)).seq hcons
    · rintro input ⟨e,he⟩
      exact ⟨_,by rw [readElems,he]⟩
    · intro input rest hr
      exact readElems_of_value hr

theorem readValueDepth_encode (depth : Nat) (args : List Bytes) (h : Fits args) :
    Decodes readOk Refused (readValueDepth (depth+2)) (encode args) (Response.bulks args) := by
  rw [encode_eq]
  refine readValueDepth_tagged (d := readArray (readValueDepth (depth+1))) ?_ (depth+1) 42
    fun rest => rfl
  have helems : Decodes readOk Refused
      (fun input => arrayOf (readElems (readValueDepth (depth+1)) args.length 0 input))
      (args.flatMap encodeBulk) (Response.bulks args) := by
    apply (readElems_decodes depth args h.bytes 0).map
    · rintro input ⟨e,he⟩
      exact ⟨e,by rw [he,arrayOf]⟩
    · intro input rest hr
      rw [hr]
      rfl
  apply (readLine_formatNat args.length).seq helems
  · rintro input ⟨e,he⟩
    exact ⟨_,by rw [readArray,he]⟩
  · intro input rest hr
    exact readArray_of_line h.elems hr

theorem readValue_decodes (args : List Bytes) (h : Fits args) :
    Decodes readOk Refused readValue (encode args) (Response.bulks args) where
  full rest := by
    have hlen : ∃ d, (encode args++rest).length=d+1 :=
      ⟨_,by rw [encode_eq,List.cons_append,List.length_cons]⟩
    obtain ⟨d,hd⟩ := hlen
    rw [readValue,hd]
    exact (readValueDepth_encode d args h).full rest
  cut p hp hne := by
    cases p with
    | nil => exact ⟨_,rfl⟩
    | cons b p =>
      rw [readValue,List.length_cons]
      exact (readValueDepth_encode p.length args h).cut _ hp hne

theorem commandParts_bulks (args : List Bytes) (i : Nat) :
    commandParts i (args.map Response.bulkString)=.ok args := by
  induction args generalizing i with
  | nil => rfl
  | cons a args ih => simp [commandParts,ih]

theorem readCommand_decodes (args : List Bytes) (hne : args ≠ []) (h : Fits args) :
    Decodes readOk Refused readCommand (encode args) args := by
  apply (readValue_decodes args h).map
  · rintro input ⟨e,he⟩
    exact ⟨_,by rw [readCommand,he]⟩
  · intro input rest hr
    obtain ⟨a,as,rfl⟩ := List.exists_cons_of_ne_nil hne
    have hparts := commandParts_bulks (a::as) 0
    rw [List.map_cons] at hparts
    simp only [readCommand,hr,readOk,Response.bulks,List.map_cons,hparts]

end GoRedis
