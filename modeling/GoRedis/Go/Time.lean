import GoRedis.Go.Strconv
/-!
# Clock instants and durations

Instants are nanoseconds since the Unix epoch, durations `int64` nanoseconds. Deadlines
are only ever built as the current instant plus a duration, about 292 years at most, so
none of them is Go's zero time (year 1), which the store reads as "no deadline" and which
the model writes `none`.
-/
namespace GoRedis

def second : Int := 10^9

def millisecond : Int := 10^6

/-- `time.Duration(n) * unit`, in wrapping `int64` arithmetic. -/
def scale (n : Int) (unit : Int) : Int := wrap64 (n*unit)

/-- Seconds from year 1, where `time.Time` counts from, to the Unix epoch. -/
def unixToInternal : Int := 62135596800

/-- `time.Unix(sec, 0)`: the stored count from year 1 is an `int64` and wraps. -/
def unix (sec : Int) : Int := (wrap64 (sec+unixToInternal)-unixToInternal)*second

/-- `time.UnixMilli(ms)`. -/
def unixMilli (ms : Int) : Int := ms*millisecond

/-- `t.UnixMilli()`. -/
def toUnixMilli (t : Int) : Int := t/millisecond

/-- `time.Until(t)` at instant `now`: the exact difference, saturated to the `int64` range. -/
def timeUntil (now t : Int) : Int :=
  if t-now < -2^63 then -2^63 else if 2^63 ≤ t-now then 2^63-1 else t-now

/-- `time.Now().UnixMilli() + ms` in wrapping `int64` arithmetic. -/
def absMilli (now : Int) (ms : Int) : Int := wrap64 (toUnixMilli now+ms)

theorem scale_of_inInt64 {n : Int} {unit : Int} (h : InInt64 (n*unit)) :
    scale n unit=n*unit := wrap64_of_inInt64 h

theorem timeUntil_of_inInt64 {now t : Int} (h : InInt64 (t-now)) : timeUntil now t=t-now := by
  unfold InInt64 at h
  unfold timeUntil
  split_ifs <;> omega

theorem timeUntil_nonpos_iff (now t : Int) : timeUntil now t ≤ 0 ↔ t ≤ now := by
  unfold timeUntil
  split_ifs <;> omega

end GoRedis
