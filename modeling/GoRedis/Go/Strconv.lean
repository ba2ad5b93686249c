import GoRedis.Go.Bytes
/-!
# Machine integers and `strconv`

`int` and `int64` values are mathematical integers; arithmetic that the source performs on
them wraps through `wrap64`. `strconv.Atoi` and `strconv.ParseInt(s, 10, 64)` accept the
same texts on a 64-bit machine and are one function here.
-/
namespace GoRedis

/-- The values an `int64` can hold. -/
def InInt64 (n : Int) : Prop := -2^63 ≤ n ∧ n < 2^63

instance (n : Int) : Decidable (InInt64 n) := inferInstanceAs (Decidable (_ ∧ _))

/-- Two's complement reduction to the `int64` range. -/
def wrap64 (n : Int) : Int := (n+2^63)%2^64-2^63

theorem wrap64_of_inInt64 {n : Int} (h : InInt64 n) : wrap64 n=n := by
  unfold InInt64 at h
  unfold wrap64
  omega

theorem wrap64_inInt64 (n : Int) : InInt64 (wrap64 n) := by
  unfold InInt64 wrap64
  omega

/-- The value of a decimal digit. -/
def digitVal (b : UInt8) : Option Nat :=
  if 48 ≤ b ∧ b ≤ 57 then some (b.toNat-48) else none

def parseDigits : Nat → Bytes → Option Nat
  | acc,[] => some acc
  | acc,b::s => match digitVal b with
    | none => none
    | some d => parseDigits (10*acc+d) s

/-- A non-empty run of decimal digits. -/
def parseNat (s : Bytes) : Option Nat := if s=[] then none else parseDigits 0 s

/-- `strconv.ParseInt(s, 10, 64)` and `strconv.Atoi(s)`; `none` is the error. -/
def parseInt (s : Bytes) : Option Int :=
  match stripByte 45 s with
  | some t => (parseNat t).bind fun n => if n ≤ 2^63 then some (-(n:Int)) else none
  | none => (parseNat ((stripByte 43 s).getD s)).bind fun n =>
      if n < 2^63 then some (n:Int) else none

/-- `strconv.ParseUint(s, 10, 64)`. -/
def parseUint (s : Bytes) : Option Nat :=
  (parseNat s).bind fun n => if n < 2^64 then some n else none

def formatNat (n : Nat) : Bytes :=
  if n=0 then [48] else (Nat.digits 10 n).reverse.map fun d => UInt8.ofNat (48+d)

/-- `strconv.FormatInt(n, 10)`, `strconv.Itoa(n)` and `%d`. -/
def formatInt (n : Int) : Bytes :=
  if n < 0 then 45::formatNat n.natAbs else formatNat n.natAbs

theorem digitVal_digit {d : Nat} (h : d < 10) : digitVal (UInt8.ofNat (48+d))=some d := by
  interval_cases d <;> rfl

theorem parseDigits_append (acc : Nat) (s t : Bytes) :
    parseDigits acc (s++t) = (parseDigits acc s).bind fun n => parseDigits n t := by
  induction s generalizing acc with
  | nil => rfl
  | cons b s ih =>
    simp only [List.cons_append,parseDigits]
    cases digitVal b with
    | none => rfl
    | some d => exact ih _

theorem parseDigits_digits (ds : List Nat) (h : ∀ d ∈ ds, d < 10) :
    parseDigits 0 (ds.reverse.map fun d => UInt8.ofNat (48+d)) = some (Nat.ofDigits 10 ds) := by
  induction ds with
  | nil => rfl
  | cons d ds ih =>
    rw [List.reverse_cons,List.map_append,parseDigits_append,
      ih (fun x hx => h x (List.mem_cons_of_mem _ hx))]
    simp only [List.map_cons,List.map_nil,Option.bind_some,parseDigits,
      digitVal_digit (h d List.mem_cons_self),Nat.ofDigits_cons]
    rw [Nat.add_comm]

theorem formatNat_ne_nil (n : Nat) : formatNat n ≠ [] := by
  unfold formatNat
  split
  · simp
  · simp only [ne_eq,List.map_eq_nil_iff,List.reverse_eq_nil_iff]
    exact Nat.digits_ne_nil_iff_ne_zero.mpr ‹_›

theorem parseNat_formatNat (n : Nat) : parseNat (formatNat n)=some n := by
  unfold parseNat
  rw [if_neg (formatNat_ne_nil n)]
  unfold formatNat
  split
  · subst n
    rfl
  · rw [parseDigits_digits _ (fun d hd => Nat.digits_lt_base (by decide) hd),Nat.ofDigits_digits]

theorem formatNat_digits (n : Nat) : ∀ b ∈ formatNat n, 48 ≤ b ∧ b ≤ 57 := by
  intro b hb
  unfold formatNat at hb
  split at hb
  · simp only [List.mem_singleton] at hb
    subst b
    decide
  · obtain ⟨d,hd,rfl⟩ := List.mem_map.mp hb
    have hlt : d < 10 := Nat.digits_lt_base (by decide) (List.mem_reverse.mp hd)
    interval_cases d <;> decide

theorem stripByte_formatNat (n : Nat) (b : UInt8) (hb : b < 48) :
    stripByte b (formatNat n)=none := by
  have hd := formatNat_digits n
  cases h : formatNat n with
  | nil => rfl
  | cons c s =>
    have hc := (hd c (by simp [h])).1
    have hne : c ≠ b := by
      rintro rfl
      exact absurd hb (UInt8.not_lt.mpr hc)
    simp [stripByte,hne]

theorem parseInt_formatInt {n : Int} (h : InInt64 n) : parseInt (formatInt n)=some n := by
  unfold InInt64 at h
  unfold formatInt
  split
  · have hle : n.natAbs ≤ 2^63 := by omega
    simp only [parseInt,stripByte,if_true,parseNat_formatNat,Option.bind_some,hle]
    congr 1
    omega
  · have hlt : n.natAbs < 2^63 := by omega
    simp only [parseInt,stripByte_formatNat _ 45 (by decide),
      stripByte_formatNat _ 43 (by decide),Option.getD_none,parseNat_formatNat,
      Option.bind_some,hlt,if_true]
    congr 1
    omega

theorem parseInt_inInt64 {s : Bytes} {n : Int} (h : parseInt s=some n) : InInt64 n := by
  unfold parseInt at h
  unfold InInt64
  split at h
  · obtain ⟨m,_,hm⟩ := Option.bind_eq_some_iff.mp h
    split at hm
    · cases hm
      omega
    · cases hm
  · obtain ⟨m,_,hm⟩ := Option.bind_eq_some_iff.mp h
    split at hm
    · cases hm
      omega
    · cases hm

end GoRedis
