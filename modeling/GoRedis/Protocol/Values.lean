import GoRedis.Protocol.RoundTrip
/-!
# Every value survives the wire

Two halves meet at one description of the values the wire can carry. A value that a Go program
can hold and whose lines are lines is read back from its serialization, whatever follows. Every
value that the parser returns, from whatever bytes, is one of them.
-/
namespace GoRedis

namespace Response

/-- `P` holds of a value, of its elements, of their elements and so on. -/
inductive Every (P : Response → Prop) : Response → Prop
  | intro {r : Response} (here : P r) (elems : ∀ e ∈ r.elems, Every P e) : Every P r

theorem Every.here {P : Response → Prop} {r : Response} (h : r.Every P) : P r := by
  cases h with
  | intro here _ => exact here

theorem Every.elems {P : Response → Prop} {r : Response} (h : r.Every P) :
    ∀ e ∈ r.elems, e.Every P := by
  cases h with
  | intro _ elems => exact elems

theorem every_array {P : Response → Prop} {es : List Response} :
    (array es).Every P ↔ P (array es) ∧ ∀ e ∈ es, e.Every P :=
  ⟨fun h => ⟨h.here,h.elems⟩,fun h => .intro h.1 h.2⟩

theorem every_leaf {P : Response → Prop} {r : Response} (he : r.elems=[]) : r.Every P ↔ P r := by
  constructor
  · exact Every.here
  · intro h
    apply Every.intro h
    rw [he]
    intro e hmem
    exact absurd hmem List.not_mem_nil

mutual
def decideEvery (P : Response → Prop) [DecidablePred P] : (r : Response) → Decidable (r.Every P)
  | array es =>
    have := decideAll P es
    decidable_of_iff _ every_array.symm
  | simpleString _ | error _ | integer _ | bulkString _ | nullBulkString | nullArray =>
    decidable_of_iff _ (every_leaf rfl).symm

def decideAll (P : Response → Prop) [DecidablePred P] :
    (es : List Response) → Decidable (∀ e ∈ es, e.Every P)
  | [] => .isTrue fun _ h => absurd h List.not_mem_nil
  | e::es =>
    have := decideEvery P e
    have := decideAll P es
    decidable_of_iff _ List.forall_mem_cons.symm
end

instance (P : Response → Prop) [DecidablePred P] : DecidablePred (Every P) := decideEvery P

theorem Every.and {P Q : Response → Prop} {r : Response} (hP : r.Every P) (hQ : r.Every Q) :
    r.Every fun r => P r ∧ Q r := by
  induction hP with
  | intro here _ ih => exact .intro ⟨here,hQ.here⟩ fun e he => ih e he (hQ.elems e he)

theorem Every.mono {P Q : Response → Prop} {r : Response} (h : r.Every P) (hPQ : ∀ r, P r → Q r) :
    r.Every Q := by
  induction h with
  | intro here _ ih => exact .intro (hPQ _ here) ih

/-- The values a Go program can hold: an `int64`, a string and a slice that fit in memory. -/
def Held : Response → Prop
  | integer n => InInt64 n
  | bulkString s => MakeOk 1 s.length
  | array es => MakeOk responseSize es.length
  | _ => True

instance : DecidablePred Held
  | integer n => inferInstanceAs (Decidable (InInt64 n))
  | bulkString s => inferInstanceAs (Decidable (MakeOk 1 s.length))
  | array es => inferInstanceAs (Decidable (MakeOk responseSize es.length))
  | simpleString _ | error _ | nullBulkString | nullArray => .isTrue trivial

/-- The line of a simple string or an error has no line feed and no carriage return at its end. -/
def OneLine : Response → Prop
  | simpleString s | error s => 10 ∉ s ∧ s.getLast? ≠ some 13
  | _ => True

instance : DecidablePred OneLine
  | simpleString s | error s => inferInstanceAs (Decidable (10 ∉ s ∧ s.getLast? ≠ some 13))
  | integer _ | bulkString _ | array _ | nullBulkString | nullArray => .isTrue trivial

end Response
open Response

theorem cleanEnd_of_noLF {s : Bytes} (hlf : 10 ∉ s) (hcr : s.getLast? ≠ some 13) :
    CleanEnd s := by
  intro b hb
  constructor
  · intro h
    exact hcr (h ▸ hb)
  · intro h
    exact hlf (h ▸ List.mem_of_getLast? hb)

theorem formatInt_noLF (n : Int) : (10:UInt8) ∉ formatInt n := by
  unfold formatInt
  have hnat := formatNat_noLF n.natAbs
  split
  · simpa using hnat
  · exact hnat

theorem formatInt_cleanEnd (n : Int) : CleanEnd (formatInt n) := by
  apply cleanEnd_of_noLF (formatInt_noLF n)
  have hnat := formatNat_cleanEnd n.natAbs
  have hne := formatNat_ne_nil n.natAbs
  unfold formatInt
  split
  · rw [List.getLast?_cons,List.getLast?_eq_some_getLast hne]
    intro h
    exact (hnat 13 (by rw [List.getLast?_eq_some_getLast hne]; simpa using h)).1 rfl
  · intro h
    exact (hnat 13 h).1 rfl

theorem readElems_serializeAll (read : Bytes → Read Response) (es : List Response)
    (h : ∀ e ∈ es, ∀ rest, read (serialize e++rest)=readOk e rest) (i : Nat) (rest : Bytes) :
    readElems read es.length i (serializeAll es++rest)=readOk es rest := by
  induction es generalizing i with
  | nil => rfl
  | cons e es ih =>
    have hhead := h e List.mem_cons_self (serializeAll es++rest)
    have htail := ih (fun x hx => h x (List.mem_cons_of_mem _ hx)) (i+1)
    rw [serializeAll,List.append_assoc,List.length_cons,readElems,hhead]
    simp only [readOk] at htail ⊢
    rw [htail]

theorem length_serialize_le {e : Response} {es : List Response} (h : e ∈ es) :
    (serialize e).length ≤ (serializeAll es).length := by
  induction es with
  | nil => exact absurd h List.not_mem_nil
  | cons x es ih =>
    rw [serializeAll,List.length_append]
    rcases List.mem_cons.mp h with rfl | h
    · omega
    · have := ih h
      omega

theorem length_serialize_pos (r : Response) : 0 < (serialize r).length := by
  cases r with
  | nullBulkString => decide
  | nullArray => decide
  | _ => exact Nat.succ_pos _

theorem readLineValue_line {build : Bytes → Except ReadError Response} {s : Bytes} {r : Response}
    (hlf : 10 ∉ s) (hend : CleanEnd s) (hbuild : build s=.ok r) (rest : Bytes) :
    readLineValue build (s++crlf++rest)=readOk r rest := by
  have hline := (readLine_decodes s hlf hend).full rest
  rw [readLineValue,hline]
  simp only [lineOk,hbuild]
  rfl

theorem readValueDepth_serialize {r : Response} (h : r.Every fun r => r.Held ∧ r.OneLine)
    (depth : Nat) (hdepth : (serialize r).length ≤ depth) (rest : Bytes) :
    readValueDepth depth (serialize r++rest)=readOk r rest := by
  induction h generalizing depth rest with
  | @intro r here _ ih =>
    obtain ⟨held,line⟩ := here
    have hpos := length_serialize_pos r
    obtain ⟨d,rfl⟩ : ∃ d, depth=d+1 := ⟨depth-1,by omega⟩
    cases r with
    | simpleString s =>
      rw [serialize,List.cons_append,readValueDepth,if_pos rfl]
      exact readLineValue_line line.1 (cleanEnd_of_noLF line.1 line.2) rfl rest
    | error s =>
      rw [serialize,List.cons_append,readValueDepth,if_neg (by decide),if_pos rfl]
      exact readLineValue_line line.1 (cleanEnd_of_noLF line.1 line.2) rfl rest
    | integer n =>
      rw [serialize,List.cons_append,readValueDepth,if_neg (by decide),if_neg (by decide),if_pos rfl]
      have hn : parseInt (formatInt n)=some n := parseInt_formatInt held
      apply readLineValue_line (formatInt_noLF n) (formatInt_cleanEnd n)
      rw [buildInteger,hn]
    | bulkString s =>
      exact (readValueDepth_bulk d s held).full rest
    | nullBulkString =>
      rfl
    | nullArray =>
      rfl
    | array es =>
      simp only [serialize,List.length_cons,List.length_append] at hdepth
      have helems : ∀ e ∈ es, ∀ rest, readValueDepth d (serialize e++rest)=readOk e rest := by
        intro e he rest
        have hle := length_serialize_le he
        exact ih e he d (by omega) rest
      have hline := (readLine_formatNat es.length).full (serializeAll es++rest)
      have hread : readValueDepth (d+1) (serialize (.array es)++rest)
          =readArray (readValueDepth d) (formatNat es.length++crlf++(serializeAll es++rest)) := by
        rw [serialize,List.cons_append,List.append_assoc]
        rfl
      rw [hread,readArray_of_line held hline,
        readElems_serializeAll _ es helems 0 rest]
      rfl

/-- Decoding undoes encoding and reads not one byte more: a value that a Go program can hold,
with simple strings and errors of one line each, is read back from its serialization, and what
follows is left unread. -/
theorem readValue_serialize (r : Response) (held : r.Every Held) (line : r.Every OneLine)
    (rest : Bytes) : readValue (serialize r++rest)=.ok (.ok (r,rest)) := by
  apply readValueDepth_serialize (held.and line)
  rw [List.length_append]
  omega

/-- A nested array with every kind of value, read in front of other bytes. -/
theorem readValue_serialize_nested : readValue (serialize (.array [.bulkString (utf8 "$1\r\n"),
    .array [.integer (-7),.nullBulkString,.array []],.nullArray,.simpleString (utf8 "OK")])++utf8 "+")
    =.ok (.ok (.array [.bulkString (utf8 "$1\r\n"),
      .array [.integer (-7),.nullBulkString,.array []],.nullArray,.simpleString (utf8 "OK")],
        utf8 "+")) := by
  apply readValue_serialize
  · decide
  · decide

theorem splitLine_noLF {input line rest : Bytes} (h : splitLine input=some (line,rest)) :
    10 ∉ line := by
  induction input generalizing line rest with
  | nil => cases h
  | cons b input ih =>
    rw [splitLine] at h
    split at h
    · cases h
      exact List.not_mem_nil
    · rename_i hb
      obtain ⟨⟨line',rest'⟩,hsplit,heq⟩ := Option.map_eq_some_iff.mp h
      cases heq
      intro hmem
      rcases List.mem_cons.mp hmem with hb' | hmem
      · exact hb hb'.symm
      · exact ih hsplit hmem

theorem mem_of_mem_trimRight {line : Bytes} {b : UInt8} (h : b ∈ trimRight line) : b ∈ line := by
  rw [trimRight,List.mem_reverse] at h
  exact List.mem_reverse.mp ((List.dropWhile_sublist _).subset h)

theorem trimRight_getLast (line : Bytes) : (trimRight line).getLast? ≠ some 13 := by
  rw [trimRight,List.getLast?_reverse]
  intro h
  have hkept := List.head?_dropWhile_not (fun b => decide (b=13 ∨ b=10)) line.reverse
  rw [h] at hkept
  exact absurd hkept (by decide)

theorem readLine_oneLine {input line rest : Bytes} (h : readLine input=.ok (line,rest)) :
    10 ∉ line ∧ line.getLast? ≠ some 13 := by
  rw [readLine] at h
  split at h
  · cases h
  · rename_i line' rest' hsplit
    cases h
    exact ⟨fun hmem => splitLine_noLF hsplit (mem_of_mem_trimRight hmem),trimRight_getLast _⟩

theorem readLineValue_inv {build : Bytes → Except ReadError Response} {input rest : Bytes}
    {r : Response} (h : readLineValue build input=.ok (.ok (r,rest))) :
    ∃ line, build line=.ok r ∧ 10 ∉ line ∧ line.getLast? ≠ some 13 := by
  rw [readLineValue] at h
  split at h
  · cases h
  · rename_i line rest' hline
    split at h
    · cases h
    · rename_i r' hbuild
      cases h
      exact ⟨line,hbuild,readLine_oneLine hline⟩

theorem readFull_length {n : Nat} {input data rest : Bytes}
    (h : readFull n input=.ok (data,rest)) : data.length=n := by
  rw [readFull] at h
  split at h
  · cases h
    rw [List.length_take]
    omega
  · split at h <;> cases h

theorem readBulkString_inv {input rest : Bytes} {r : Response}
    (h : readBulkString input=.ok (.ok (r,rest))) :
    r=.nullBulkString ∨ ∃ s, r=.bulkString s ∧ MakeOk 1 s.length := by
  rw [readBulkString] at h
  split at h
  · cases h
  · split at h
    · cases h
    · rename_i n _
      split_ifs at h with hnull hneg hmake
      · cases h
        exact .inl rfl
      · cases h
      · split at h
        · cases h
        · rename_i data rest' hfull
          split at h
          · cases h
          · cases h
            have hlen : (data.length:Int)=n := by
              rw [readFull_length hfull]
              omega
            exact .inr ⟨data,rfl,by rw [hlen]; exact hmake⟩

theorem readElems_inv {read : Bytes → Read Response} {P : Response → Prop}
    (hP : ∀ input r rest, read input=.ok (.ok (r,rest)) → P r) {n i : Nat} {input rest : Bytes}
    {es : List Response} (h : readElems read n i input=.ok (.ok (es,rest))) :
    es.length=n ∧ ∀ e ∈ es, P e := by
  induction n generalizing i input es rest with
  | zero =>
    cases h
    exact ⟨rfl,fun e he => absurd he List.not_mem_nil⟩
  | succ n ih =>
    rw [readElems] at h
    split at h
    · cases h
    · cases h
    · rename_i v rest' hread
      split at h
      · cases h
      · cases h
      · rename_i vs rest'' htail
        cases h
        obtain ⟨hlen,hall⟩ := ih htail
        refine ⟨congrArg Nat.succ hlen,?_⟩
        intro e he
        rcases List.mem_cons.mp he with rfl | he
        · exact hP _ _ _ hread
        · exact hall e he

theorem readArray_inv {read : Bytes → Read Response} {P : Response → Prop}
    (hP : ∀ input r rest, read input=.ok (.ok (r,rest)) → P r) {input rest : Bytes}
    {r : Response} (h : readArray read input=.ok (.ok (r,rest))) :
    r=.nullArray ∨ ∃ es, r=.array es ∧ MakeOk responseSize es.length ∧ ∀ e ∈ es, P e := by
  rw [readArray] at h
  split at h
  · cases h
  · split at h
    · cases h
    · rename_i n _
      split_ifs at h with hnull hneg hmake
      · cases h
        exact .inl rfl
      · cases h
      · split at h
        · cases h
        · cases h
        · rename_i es rest' helems
          cases h
          obtain ⟨hlen,hall⟩ := readElems_inv hP helems
          have hcast : (es.length:Int)=n := by omega
          exact .inr ⟨es,rfl,by rw [hcast]; exact hmake,hall⟩

theorem readValueDepth_image (depth : Nat) (input : Bytes) (r : Response) (rest : Bytes)
    (h : readValueDepth depth input=.ok (.ok (r,rest))) :
    r.Every fun r => r.Held ∧ r.OneLine := by
  induction depth generalizing input r rest with
  | zero => cases h
  | succ depth ih =>
    cases input with
    | nil => cases h
    | cons b input =>
      rw [readValueDepth] at h
      split_ifs at h
      · obtain ⟨line,hbuild,hline⟩ := readLineValue_inv h
        cases hbuild
        exact (every_leaf rfl).mpr ⟨trivial,hline⟩
      · obtain ⟨line,hbuild,hline⟩ := readLineValue_inv h
        cases hbuild
        exact (every_leaf rfl).mpr ⟨trivial,hline⟩
      · obtain ⟨line,hbuild,_⟩ := readLineValue_inv h
        rw [buildInteger] at hbuild
        split at hbuild
        · cases hbuild
        · rename_i n hn
          cases hbuild
          exact (every_leaf rfl).mpr ⟨parseInt_inInt64 hn,trivial⟩
      · rcases readBulkString_inv h with rfl | ⟨s,rfl,hs⟩
        · exact (every_leaf rfl).mpr ⟨trivial,trivial⟩
        · exact (every_leaf rfl).mpr ⟨hs,trivial⟩
      · rcases readArray_inv ih h with rfl | ⟨es,rfl,hlen,hall⟩
        · exact (every_leaf rfl).mpr ⟨trivial,trivial⟩
        · exact .intro ⟨hlen,trivial⟩ hall
      · cases h

/-- Encoding undoes decoding on everything the parser accepts: the serialization of a value that
was read, from canonical bytes or not, is read as that value with nothing left over. -/
theorem readValue_canonical (b : Bytes) (r : Response) (rest : Bytes)
    (h : readValue b=.ok (.ok (r,rest))) : readValue (serialize r)=.ok (.ok (r,[])) := by
  have hr := readValueDepth_image _ b r rest h
  have hback := readValueDepth_serialize hr ((serialize r).length+1) (by omega) []
  rw [List.append_nil] at hback
  exact hback

/-- A bare line feed, a plus sign, leading zeros and a second carriage return. -/
theorem readValue_canonical_tolerated :
    readValue (utf8 "*+02\n:007\n$3\r\r\na\r\n\r\n")
        =.ok (.ok (.array [.integer 7,.bulkString (utf8 "a\r\n")],[]))
      ∧ readValue (serialize (.array [.integer 7,.bulkString (utf8 "a\r\n")]))
        =.ok (.ok (.array [.integer 7,.bulkString (utf8 "a\r\n")],[])) := by
  have h : readValue (utf8 "*+02\n:007\n$3\r\r\na\r\n\r\n")
      =.ok (.ok (.array [.integer 7,.bulkString (utf8 "a\r\n")],[])) := rfl
  exact ⟨h,readValue_canonical _ _ _ h⟩

end GoRedis
