/-!
Spans of time, exact to the nanosecond, and the window around now within which a time range is
trusted.
-/

namespace WriteAhead

/-- Whole seconds, and what is left of a second. -/
structure Duration where
  seconds : UInt64
  nanoseconds : Fin 1000000000
  deriving DecidableEq

namespace Duration

def zero : Duration := ⟨0, 0⟩

def ofSeconds (n : UInt64) : Duration := ⟨n, 0⟩

def ofMilliseconds (n : UInt64) : Duration := ⟨n / 1000, ⟨n.toNat % 1000 * 1000000, by omega⟩⟩

end Duration

/-- A start before the window and an end behind it are each replaced by `now`. The window reaches
`slack` to both sides, and `additional` further back; of each only whole seconds count. Sums are of
64 bits, and wrap around. -/
def adjustRange (now : UInt32) (slack additional : Duration) (start stop : UInt32) : UInt32 × UInt32 :=
  -- Unlike the sums, the difference stops at zero.
  let lower := now.toNat - (slack.seconds + additional.seconds).toNat
  let upper := now.toUInt64 + slack.seconds
  (if start.toNat < lower then now else start, if upper < stop.toUInt64 then now else stop)

/-- In terms of natural numbers, whether or not a sum is too large for 64 bits. -/
theorem adjustRange_eq (now : UInt32) (slack additional : Duration) (start stop : UInt32) :
    adjustRange now slack additional start stop =
      (if now.toNat ≤ start.toNat + (slack.seconds.toNat + additional.seconds.toNat) % UInt64.size then start else now,
        if stop.toNat ≤ (now.toNat + slack.seconds.toNat) % UInt64.size then stop else now) := by
  have hback : (slack.seconds + additional.seconds).toNat =
      (slack.seconds.toNat + additional.seconds.toNat) % UInt64.size := UInt64.toNat_add _ _
  have hahead : now.toUInt64 + slack.seconds < stop.toUInt64 ↔
      (now.toNat + slack.seconds.toNat) % UInt64.size < stop.toNat := by
    rw [UInt64.lt_iff_toNat_lt, UInt64.toNat_add, UInt32.toNat_toUInt64, UInt32.toNat_toUInt64]
  simp only [adjustRange, hback, hahead]
  apply Prod.ext
  · dsimp only
    split <;> split <;> first | rfl | omega
  · dsimp only
    split <;> split <;> first | rfl | omega

/-- Two minutes and the longest span of all together come to less than two minutes. -/
example : adjustRange 1700000000 (.ofSeconds 120) ⟨18446744073709551615, 999999999⟩ 1600000000 1700000000 =
    (1700000000, 1700000000) := by decide

end WriteAhead
