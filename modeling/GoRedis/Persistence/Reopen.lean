import GoRedis.Persistence.Recovery
/-!
# Appending behind a torn tail

`setupAOF` replays a file with a torn tail and then opens it as it is, so the commands of
the next lifetime are written behind the tail. The second `Replay` parses across that seam.
-/
namespace GoRedis
open PrefixCode Journal

section Seam

theorem parseDigits_eq_none {s : Bytes} {b : UInt8} (hb : b ∈ s) (hd : digitVal b=none)
    (acc : Nat) : parseDigits acc s=none := by
  induction s generalizing acc with
  | nil => cases hb
  | cons c s ih =>
    rw [parseDigits]
    rcases List.mem_cons.mp hb with rfl | hs
    · rw [hd]
    · cases digitVal c with
      | none => rfl
      | some d => exact ih hs _

theorem parseNat_star {s : Bytes} (h : (42:UInt8) ∈ s) : parseNat s=none := by
  unfold parseNat
  split
  · rfl
  · exact parseDigits_eq_none h rfl 0

theorem mem_of_stripByte {s t : Bytes} {b c : UInt8} (h : stripByte b s=some t) (hc : c ∈ s)
    (hne : c ≠ b) : c ∈ t := by
  cases s with
  | nil => cases h
  | cons d s =>
    rw [stripByte] at h
    split at h
    · cases h
      exact (List.mem_cons.mp hc).resolve_left fun he => hne (by simp_all)
    · cases h

theorem parseInt_star {s : Bytes} (h : (42:UInt8) ∈ s) : parseInt s=none := by
  unfold parseInt
  cases h45 : stripByte 45 s with
  | some t => simp [parseNat_star (mem_of_stripByte h45 h (by decide))]
  | none =>
    cases h43 : stripByte 43 s with
    | some t => simp [parseNat_star (mem_of_stripByte h43 h (by decide))]
    | none => simp [parseNat_star h]

theorem readLine_seam (q : Bytes) (m : List Bytes) (hq : 10 ∉ q) :
    ∃ rest, readLine (q++encode m)=.ok (q++42::formatNat m.length,rest) := by
  have hlf : (10:UInt8) ∉ q++42::formatNat m.length := by
    simp only [List.mem_append,List.mem_cons,not_or]
    exact ⟨hq,by decide,formatNat_noLF _⟩
  have hend : CleanEnd (q++42::formatNat m.length) := by
    intro b hb
    apply formatNat_cleanEnd m.length
    rw [List.getLast?_append,List.getLast?_cons] at hb
    rw [List.getLast?_eq_some_getLast (formatNat_ne_nil _)] at hb ⊢
    simpa using hb
  refine ⟨m.flatMap encodeBulk,?_⟩
  have hs : q++encode m=(q++42::formatNat m.length)++crlf++m.flatMap encodeBulk := by
    simp [encode_eq]
  rw [hs]
  exact (readLine_decodes _ hlf hend).full _

theorem take_of_consumeCRLF {x rest : Bytes} (h : consumeCRLF x=.ok rest) : x.take 2=crlf := by
  unfold consumeCRLF readFull at h
  split at h
  · cases h
  · rename_i got r hf
    split at hf
    · cases hf
      split at h
      · assumption
      · cases h
    · split at hf <;> cases hf

/-- Where the line end of a torn payload is looked for, there is none: `r` bytes of what is
behind the seam are taken for the missing ones. -/
theorem drop_seam {data d : Bytes} (m : List Bytes) (hd : d <+: data++crlf)
    (hne : d ≠ data++crlf) (hm : ((encode m).drop (data.length-d.length)).take 2 ≠ crlf) :
    ((d++encode m).drop data.length).take 2 ≠ crlf := by
  have hshort : d.length ≤ data.length → ((d++encode m).drop data.length).take 2 ≠ crlf := by
    intro hle
    rwa [List.drop_append,List.drop_eq_nil_of_le hle,List.nil_append]
  rcases prefix_append_cases hd hne with ⟨hp,_⟩ | ⟨e,rfl,he,hene⟩
  · exact hshort hp.length_le
  · rcases List.prefix_cons_iff.mp he with rfl | ⟨e',rfl,he'⟩
    · exact hshort (by simp)
    · -- the carriage return made it to the file, the line feed did not
      have hnil : e'=[] := by
        rcases List.prefix_cons_iff.mp he' with rfl | ⟨e'',rfl,he''⟩
        · rfl
        · simp [List.prefix_nil.mp he'',crlf] at hene
      simp [hnil,encode_eq,crlf]

theorem readBulkString_seam (data q : Bytes) (h : MakeOk 1 data.length)
    (hq : q <+: formatNat data.length++crlf++(data++crlf))
    (hne : q ≠ formatNat data.length++crlf++(data++crlf)) :
    ∃ r, ∀ m, ((encode m).drop r).take 2 ≠ crlf →
      ∀ v rest, readBulkString (q++encode m) ≠ readOk v rest := by
  rcases prefix_append_cases hq hne with ⟨hq,hne⟩ | ⟨d,rfl,hd,hdne⟩
  · refine ⟨0,fun m _ v rest hr => ?_⟩
    obtain ⟨tail,ht⟩ := readLine_seam q m (noLF_of_cut (formatNat_noLF _) hq hne)
    rw [readBulkString,ht] at hr
    simp only [parseInt_star (s := q++42::formatNat m.length) (by simp)] at hr
    cases hr
  · refine ⟨data.length-d.length,fun m hm v rest hr => ?_⟩
    rw [List.append_assoc,readBulkString_of_line h ((readLine_formatNat _).full _)] at hr
    obtain ⟨got,tail,hdata,hend⟩ := readPayload_eq_ok hr
    unfold readFull at hdata
    split at hdata
    · cases hdata
      exact drop_seam m hd hdne hm (take_of_consumeCRLF hend)
    · split at hdata <;> cases hdata

theorem readValueDepth_array {depth : Nat} {rest rest' : Bytes} {v : Response}
    (h : readValueDepth depth (42::rest)=readOk v rest') (s : Bytes) : v ≠ .bulkString s := by
  rintro rfl
  cases depth with
  | zero => cases h
  | succ depth =>
    change readArray (readValueDepth depth) rest=_ at h
    unfold readArray at h
    split at h
    · cases h
    · split at h
      · cases h
      · split_ifs at h
        · cases h
        · cases h
        · split at h <;> cases h
        · cases h

theorem readElems_seam (args : List Bytes) (hmake : ∀ a ∈ args, MakeOk 1 a.length) (q : Bytes)
    (hq : q <+: args.flatMap encodeBulk) (hne : q ≠ args.flatMap encodeBulk) :
    ∃ r, ∀ m, ((encode m).drop r).take 2 ≠ crlf → ∀ depth i vs rest,
      readElems (readValueDepth depth) args.length i (q++encode m)=readOk vs rest →
      ∃ v ∈ vs, ∀ s, v ≠ .bulkString s := by
  induction args generalizing q with
  | nil => exact absurd (List.prefix_nil.mp hq) hne
  | cons a args ih =>
    rw [List.flatMap_cons] at hq hne
    rcases prefix_append_cases hq hne with ⟨hq,hne⟩ | ⟨q',rfl,hq,hne⟩
    · cases q with
      | nil =>
        refine ⟨0,fun m _ depth i vs rest hr => ?_⟩
        rw [List.nil_append,List.length_cons,readElems] at hr
        split at hr
        · cases hr
        · cases hr
        · rename_i v tail hv
          split at hr
          · cases hr
          · cases hr
          · cases hr
            rw [encode_eq] at hv
            exact ⟨v,List.mem_cons_self,readValueDepth_array hv⟩
      | cons b q =>
        have he : encodeBulk a=36::(formatNat a.length++crlf++(a++crlf)) := by simp [encodeBulk]
        rw [he] at hq hne
        obtain ⟨rfl,hq'⟩ := List.cons_prefix_cons.mp hq
        obtain ⟨r,hr⟩ := readBulkString_seam a q (hmake a List.mem_cons_self) hq'
          fun h => hne (by rw [h])
        refine ⟨r,fun m hm depth i vs rest hread => ?_⟩
        rw [List.cons_append,List.length_cons,readElems] at hread
        split at hread
        · cases hread
        · cases hread
        · rename_i v tail hv
          cases depth with
          | zero => cases hv
          | succ depth => exact absurd hv (hr m hm v tail)
    · obtain ⟨r,hr⟩ := ih (fun x hx => hmake x (List.mem_cons_of_mem _ hx)) q' hq hne
      refine ⟨r,fun m hm depth i vs rest hread => ?_⟩
      cases depth with
      | zero =>
        rw [List.length_cons,readElems] at hread
        cases hread
      | succ depth =>
        rw [List.append_assoc,List.length_cons,readElems,
          (readValueDepth_bulk depth a (hmake a List.mem_cons_self)).full] at hread
        simp only [readOk] at hread
        split at hread
        · cases hread
        · cases hread
        · rename_i ws tail hws
          cases hread
          obtain ⟨v,hv,hvs⟩ := hr m hm (depth+1) (i+1) ws rest hws
          exact ⟨v,List.mem_cons_of_mem _ hv,hvs⟩

theorem commandParts_ok {vs : List Response} {i : Nat} {parts : List Bytes}
    (h : commandParts i vs=.ok parts) : vs=parts.map Response.bulkString := by
  induction vs generalizing i parts with
  | nil =>
    cases h
    rfl
  | cons v vs ih =>
    unfold commandParts at h
    split at h
    · simp_all
    · rename_i s es heq
      cases heq
      split at h
      · cases h
      · rename_i ps hps
        cases h
        rw [ih hps,List.map_cons]
    · cases h

/-- No command is read across the seam, unless the bytes behind it happen to hold a line end
`r` bytes in. -/
theorem readCommand_seam (c : List Bytes) (hfit : Fits c) (p : Bytes) (hp : p <+: encode c)
    (hne : p ≠ encode c) (hnil : p ≠ []) :
    ∃ r, ∀ m, ((encode m).drop r).take 2 ≠ crlf →
      ∀ args rest, readCommand (p++encode m) ≠ readOk args rest := by
  obtain ⟨b,p,rfl⟩ := List.exists_cons_of_ne_nil hnil
  rw [encode_eq] at hp hne
  obtain ⟨rfl,hp'⟩ := List.cons_prefix_cons.mp hp
  have hne' : p ≠ formatNat c.length++crlf++c.flatMap encodeBulk := fun h => hne (by rw [h])
  rcases prefix_append_cases hp' hne' with ⟨hq,hqne⟩ | ⟨q,rfl,hq,hqne⟩
  · refine ⟨0,fun m _ args rest hr => ?_⟩
    obtain ⟨tail,ht⟩ := readLine_seam p m (noLF_of_cut (formatNat_noLF _) hq hqne)
    have hval : readValue (42::p++encode m)=
        .ok (.error (.invalidArrayLength (p++42::formatNat m.length))) := by
      change readArray _ (p++encode m)=_
      rw [readArray,ht]
      simp only [parseInt_star (s := p++42::formatNat m.length) (by simp)]
    rw [readCommand,hval] at hr
    cases hr
  · obtain ⟨r,hr⟩ := readElems_seam c hfit.bytes q hq hqne
    refine ⟨r,fun m hm args rest hread => ?_⟩
    have hline : readLine (formatNat c.length++crlf++q++encode m)=
        lineOk (formatNat c.length) (q++encode m) := by
      rw [List.append_assoc (formatNat c.length++crlf)]
      exact (readLine_formatNat _).full _
    obtain ⟨depth,hval⟩ : ∃ depth, readValue (42::(formatNat c.length++crlf++q)++encode m)=
        readArray (readValueDepth depth) (formatNat c.length++crlf++q++encode m) := ⟨_,rfl⟩
    rw [readCommand,hval,readArray_of_line hfit.elems hline] at hread
    cases hel : readElems (readValueDepth depth) c.length 0 (q++encode m) with
    | error e =>
      rw [hel] at hread
      cases hread
    | ok res =>
      cases res with
      | error e =>
        rw [hel] at hread
        cases hread
      | ok pair =>
        obtain ⟨vs,tail⟩ := pair
        obtain ⟨v,hv,hvs⟩ := hr m hm depth 0 vs tail hel
        rw [hel] at hread
        cases vs with
        | nil => cases hv
        | cons w vs =>
          simp only [arrayOf,readOk] at hread
          split at hread
          · cases hread
          · rename_i parts hparts
            rw [commandParts_ok hparts] at hv
            obtain ⟨s,_,rfl⟩ := List.mem_map.mp hv
            exact hvs s rfl

end Seam

section Restart
variable {F : Type} [Float64 F]

/-- Start on a file that a crash left behind, append commands, and start once more. -/
def restartTwice (world₁ world₂ : Nat → World) (file : Bytes) (M : List (List Bytes)) :
    Go (Replayed F) :=
  match setupAOF (F := F) world₁ (some file) .new with
  | .error p => .error p
  | .ok (_,opened) => replay world₂ (some (M.foldl append opened)) .new

/-- The first start changes nothing in the file, so the second one sees the torn tail with
the new commands behind it. -/
theorem restartTwice_eq (world₁ world₂ : Nat → World) (L M : List (List Bytes)) (c : List Bytes)
    (p : Bytes) (s₁ : MemoryStore F) (hL : ∀ a ∈ L, Fits a)
    (h₁ : applyAll world₁ L .new=some s₁) (hc : c ≠ []) (hfit : Fits c) (hp : p <+: encode c)
    (hne : p ≠ encode c) :
    restartTwice (F := F) world₁ world₂ (encodeAll L++p) M=
      replay world₂ (some (encodeAll L++(p++encodeAll M))) .new := by
  obtain ⟨e,he⟩ := (readCommand_decodes c hc hfit).cut p hp hne
  obtain ⟨fuel,hr⟩ := replay_encodeAll world₁ L p .new s₁ hL h₁
  simp only [restartTwice,setupAOF,hr,replayLoop,he,openAppend,Option.getD_some,foldl_append,
    List.append_assoc]

/-- Two commands that store `v` under one key. Their encodings have line ends at different
places. -/
def setProbe (v : UInt8) : List Bytes := setRecord [107] [v]

def msetProbe (v : UInt8) : List Bytes :=
  utf8 "MSET"::(List.replicate 5 [[107],[v]]).flatten

theorem probes_disagree (v : UInt8) (hv : v=97 ∨ v=98) (r : Nat) :
    ((encode (setProbe v)).drop r).take 2 ≠ crlf ∨
      ((encode (msetProbe v)).drop r).take 2 ≠ crlf := by
  by_cases hr : r < 27
  · have h97 : ∀ r < 27, ((encode (setProbe 97)).drop r).take 2 ≠ crlf ∨
        ((encode (msetProbe 97)).drop r).take 2 ≠ crlf := by decide
    have h98 : ∀ r < 27, ((encode (setProbe 98)).drop r).take 2 ≠ crlf ∨
        ((encode (msetProbe 98)).drop r).take 2 ≠ crlf := by decide
    rcases hv with rfl | rfl
    · exact h97 r hr
    · exact h98 r hr
  · have hlen : (encode (setProbe v)).length ≤ r := by
      have : (encode (setProbe v)).length=27 := by rcases hv with rfl | rfl <;> decide
      omega
    left
    rw [List.drop_eq_nil_of_le hlen]
    decide

theorem probe_applied (world : Nat → World) (i : Nat) (v : UInt8) (s : MemoryStore F)
    (m : List Bytes) (hm : m=setProbe v ∨ m=msetProbe v) :
    ∃ s', applied world i m s=some s' ∧ s'.strings[([107] : Bytes)]?=some ⟨[v],none⟩ := by
  rcases hm with rfl | rfl
  · refine ⟨s.set [107] [v],rfl,?_⟩
    simp [MemoryStore.set,MemoryStore.putString,MemoryStore.bumpVersion]
  · have hl : lookup (toUpper (utf8 "MSET"))=some (.write .mset) := by decide
    refine ⟨msetLoop s (List.replicate 5 [[107],[v]]).flatten,?_,?_⟩
    · rw [applied_eq_some,msetProbe,applyCommand_of_lookup hl]
      simp [applyWrite,done]
    · simp [List.replicate,msetLoop,MemoryStore.set,MemoryStore.putString,MemoryStore.bumpVersion]

/-- Commands appended after a restart survive the next one exactly when the crash left no torn
tail: behind a tail, some accepted command is lost. -/
theorem reopen_recovers_iff (world₁ world₂ : Nat → World) (L : List (List Bytes))
    (c : List Bytes) (p : Bytes) (s₁ s : MemoryStore F) (hL : ∀ a ∈ L, Fits a)
    (h₁ : applyAll world₁ L .new=some s₁) (h₂ : applyAll world₂ L .new=some s) (hc : c ≠ [])
    (hfit : Fits c) (hp : p <+: encode c) (hne : p ≠ encode c) :
    (∀ M s', (∀ a ∈ M, Fits a) → applyAll world₂ (L++M) .new=some s' →
      ∃ r : Replayed F, restartTwice world₁ world₂ (encodeAll L++p) M=.ok r ∧
        r.store.toMaps=s'.toMaps) ↔ p=[] := by
  constructor
  · intro h
    by_contra hnil
    obtain ⟨r,hr⟩ := readCommand_seam c hfit p hp hne hnil
    -- a value that the key does not hold yet
    obtain ⟨v,hv,hs⟩ : ∃ v : UInt8, (v=97 ∨ v=98) ∧
        s.strings[([107] : Bytes)]? ≠ some ⟨[v],none⟩ := by
      by_cases ha : s.strings[([107] : Bytes)]?=some ⟨[97],none⟩
      · exact ⟨98,.inr rfl,by rw [ha]; decide⟩
      · exact ⟨97,.inl rfl,ha⟩
    -- a command whose bytes do not repair the torn payload
    obtain ⟨m,hm,hseam,hmfit⟩ : ∃ m, (m=setProbe v ∨ m=msetProbe v) ∧
        ((encode m).drop r).take 2 ≠ crlf ∧ Fits m := by
      rcases probes_disagree v hv r with h' | h'
      · exact ⟨_,.inl rfl,h',by rcases hv with rfl | rfl <;> decide⟩
      · exact ⟨_,.inr rfl,h',by rcases hv with rfl | rfl <;> decide⟩
    obtain ⟨s',happ,hs'⟩ := probe_applied world₂ L.length v s m hm
    have hall : applyAll world₂ (L++[m]) .new=some s' := by
      unfold applyAll at h₂ ⊢
      rw [redo_append,h₂,Option.bind_some,Nat.zero_add]
      simp [redo,happ]
    obtain ⟨res,hres,hmaps⟩ := h [m] s' (by simpa using hmfit) hall
    obtain ⟨fuel,hreplay⟩ := replay_encodeAll world₂ L (p++encodeAll [m]) .new s hL h₂
    rw [restartTwice_eq world₁ world₂ L [m] c p s₁ hL h₁ hc hfit hp hne,hreplay,encodeAll_cons,
      encodeAll_nil,List.append_nil,replayLoop] at hres
    -- nothing is read behind the first log, so the store is the one of that log
    split at hres
    · cases hres
    · cases hres
      exact hs (by rw [congrArg Maps.strings hmaps,hs'])
    · rename_i args rest hread
      exact hr m hseam args rest hread
  · rintro rfl M s' hM hall
    refine ⟨⟨(L++M).length,none,s'⟩,?_,rfl⟩
    rw [restartTwice_eq world₁ world₂ L M c [] s₁ hL h₁ hc hfit hp hne,List.nil_append,
      ← encodeAll_append]
    refine replay_log world₂ (L++M) .new s' ?_ hall
    intro a ha
    exact (List.mem_append.mp ha).elim (hL a) (hM a)

end Restart

/-- Without a torn tail, a `SET` of the second lifetime is there after the next start. -/
theorem reopen_recovers_set :
    (∀ M s', (∀ a ∈ M, Fits a) →
      applyAll (F := Int) (fun _ => .plain 0) ([setRecord [97] [49]]++M) .new=some s' →
      ∃ r : Replayed Int, restartTwice (fun _ => .plain 0) (fun _ => .plain 0)
        (encodeAll [setRecord [97] [49]]++[]) M=.ok r ∧ r.store.toMaps=s'.toMaps) ↔
      ([] : Bytes)=[] :=
  reopen_recovers_iff (F := Int) (fun _ => .plain 0) (fun _ => .plain 0) [setRecord [97] [49]]
    (setRecord [98] [50]) [] _ _ (by decide) rfl rfl (by decide) (by decide) List.nil_prefix
    (by decide)

/-- `SET a 1` is on file, `SET b 2` was cut after twenty bytes; `SET c 3` is acknowledged in
the next lifetime and gone in the one after. -/
theorem reopen_loses_set :
    ∃ (r : Replayed Int) (s' : MemoryStore Int),
      restartTwice (fun _ => .plain 0) (fun _ => .plain 0)
        (encodeAll [setRecord [97] [49]]++(encode (setRecord [98] [50])).take 20)
        [setRecord [99] [51]]=.ok r ∧
      applyAll (fun _ => .plain 0) [setRecord [97] [49],setRecord [99] [51]] .new=some s' ∧
      s'.get 0 [99]=some [51] ∧ r.store.get 0 [99]=none ∧ r.store.get 0 [97]=some [49] :=
  ⟨_,_,rfl,rfl,by decide,by decide,by decide⟩

end GoRedis
