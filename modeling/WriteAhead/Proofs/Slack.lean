import Mathlib.Data.Rat.Floor
import WriteAhead.Duration

/-!
The window in which a time range is trusted, against the one that is meant. Main statement: unless a sum overflows, the
end is kept exactly as far ahead as the slack reaches, and the start exactly as far back as both slacks reach together,
but for the last whole second, which is lost if it is made up of fractions of both (`trusts_unless_lost`).
-/

namespace WriteAhead

namespace Duration

/-- In seconds, with what is less than a second. -/
def toRat (d : Duration) : ℚ := (d.seconds.toNat : ℚ) + (d.nanoseconds.val : ℚ) / (1000000000 : Nat)

@[simp] theorem seconds_ofSeconds (n : UInt64) : (ofSeconds n).seconds = n := rfl

theorem toRat_ofSeconds (n : UInt64) : (ofSeconds n).toRat = n.toNat := by
  simp [toRat, ofSeconds]

theorem floor_toRat (d : Duration) : ⌊d.toRat⌋ = d.seconds.toNat := by
  have hpart : ⌊(d.nanoseconds.val : ℚ) / (1000000000 : Nat)⌋ = 0 := by
    rw [Rat.floor_natCast_div_natCast]
    exact_mod_cast Nat.div_eq_of_lt d.nanoseconds.isLt
  rw [toRat, Int.floor_natCast_add, hpart, add_zero]

/-- The fractions of two durations make up at most one more second. -/
theorem floor_add_toRat (d e : Duration) : ⌊d.toRat + e.toRat⌋ =
    d.seconds.toNat + e.seconds.toNat + (if 1 ≤ Int.fract d.toRat + Int.fract e.toRat then 1 else 0) := by
  rw [← floor_toRat, ← floor_toRat]
  have hd := Int.floor_add_fract d.toRat
  have he := Int.floor_add_fract e.toRat
  have hsum : d.toRat + e.toRat =
      ((⌊d.toRat⌋ + ⌊e.toRat⌋ : ℤ) : ℚ) + (Int.fract d.toRat + Int.fract e.toRat) := by
    push_cast
    linarith only [hd, he]
  have hlow := add_nonneg (Int.fract_nonneg d.toRat) (Int.fract_nonneg e.toRat)
  have hhigh := add_lt_add (Int.fract_lt_one d.toRat) (Int.fract_lt_one e.toRat)
  rw [hsum, Int.floor_intCast_add]
  congr 1
  split
  · next hcarry => exact Int.floor_eq_iff.2 ⟨by exact_mod_cast hcarry, by push_cast; linarith only [hhigh]⟩
  · next hcarry => exact Int.floor_eq_zero_iff.2 ⟨hlow, not_le.1 hcarry⟩

end Duration

/-- Neither of the sums of which the window is made overflows. -/
structure Fits (now : UInt32) (slack additional : Duration) : Prop where
  back : slack.seconds.toNat + additional.seconds.toNat < UInt64.size
  ahead : now.toNat + slack.seconds.toNat < UInt64.size

section

variable {now : UInt32} {slack additional : Duration}

theorem start_adjustRange (hf : Fits now slack additional) (start stop : UInt32) :
    (adjustRange now slack additional start stop).1 =
      if (now.toNat : ℤ) - start.toNat ≤ slack.seconds.toNat + additional.seconds.toNat then start else now := by
  rw [adjustRange_eq, Nat.mod_eq_of_lt hf.back]
  dsimp only
  split <;> split <;> first | rfl | omega

theorem stop_adjustRange (hf : Fits now slack additional) (start stop : UInt32) :
    (adjustRange now slack additional start stop).2 =
      if (stop.toNat : ℤ) - now.toNat ≤ slack.seconds.toNat then stop else now := by
  rw [adjustRange_eq, Nat.mod_eq_of_lt hf.ahead]
  dsimp only
  split <;> split <;> first | rfl | omega

variable (now slack additional) (start stop : UInt32)

/-- The start is no further back than both slacks reach together. -/
def InWindow : Prop := (now.toNat : ℚ) - start.toNat ≤ slack.toRat + additional.toRat

/-- Both slacks together reach a second further back than their whole seconds do, and it is in this second that the
start is. -/
def IsLost : Prop := 1 ≤ Int.fract slack.toRat + Int.fract additional.toRat ∧
  (now.toNat : ℤ) - start.toNat = ⌊slack.toRat + additional.toRat⌋

/-- The start is kept if `kept`, and the end if it is no further ahead than the slack reaches. What is not kept becomes
`now`, and then there is nothing more to change. -/
structure Trusts (kept : Prop) : Prop where
  start_iff : (adjustRange now slack additional start stop).1 = start ↔ kept
  start_reset : ¬ kept → (adjustRange now slack additional start stop).1 = now
  stop_iff : (adjustRange now slack additional start stop).2 = stop ↔ (stop.toNat : ℚ) - now.toNat ≤ slack.toRat
  stop_reset : ¬ (stop.toNat : ℚ) - now.toNat ≤ slack.toRat → (adjustRange now slack additional start stop).2 = now
  again : adjustRange now slack additional (adjustRange now slack additional start stop).1
    (adjustRange now slack additional start stop).2 = adjustRange now slack additional start stop

variable {now slack additional start stop}

theorem sub_le_floor_iff (a b : UInt32) (x : ℚ) : (a.toNat : ℤ) - b.toNat ≤ ⌊x⌋ ↔ (a.toNat : ℚ) - b.toNat ≤ x := by
  rw [Int.le_floor]
  push_cast
  rfl

/-- Whole seconds are enough to tell, unless the fractions matter. -/
theorem whole_seconds_iff : (now.toNat : ℤ) - start.toNat ≤ slack.seconds.toNat + additional.seconds.toNat ↔
    InWindow now slack additional start ∧ ¬ IsLost now slack additional start := by
  rw [InWindow, IsLost, ← sub_le_floor_iff, Duration.floor_add_toRat]
  split
  · next hcarry =>
    simp only [hcarry, true_and]
    omega
  · next hcarry => simp only [hcarry, false_and, not_false_eq_true, and_true, add_zero]

theorem inWindow_of_isLost (h : IsLost now slack additional start) : InWindow now slack additional start :=
  (sub_le_floor_iff now start _).1 (Int.le_of_eq h.2)

/-- A slack of whole seconds loses nothing. -/
theorem not_isLost_ofSeconds (n : UInt64) : ¬ IsLost now (.ofSeconds n) additional start := by
  rintro ⟨hcarry, -⟩
  rw [Duration.toRat_ofSeconds, Int.fract_natCast, zero_add] at hcarry
  exact absurd hcarry (not_le.2 (Int.fract_lt_one _))

theorem ite_eq_left_iff_of {kept : Prop} [Decidable kept] {time other : UInt32} (h : other = time → kept) :
    (if kept then time else other) = time ↔ kept := by
  split
  · next hkept => exact iff_of_true rfl hkept
  · next hkept => exact iff_of_false (mt h hkept) hkept

/-- What was replaced is not replaced again, even if a sum overflows. -/
theorem adjustRange_adjustRange : adjustRange now slack additional (adjustRange now slack additional start stop).1
    (adjustRange now slack additional start stop).2 = adjustRange now slack additional start stop := by
  simp only [adjustRange_eq]
  apply Prod.ext
  · by_cases hkept : now.toNat ≤ start.toNat + (slack.seconds.toNat + additional.seconds.toNat) % UInt64.size
    · simp only [if_pos hkept]
    · simp only [if_neg hkept, ite_self]
  · by_cases hkept : stop.toNat ≤ (now.toNat + slack.seconds.toNat) % UInt64.size
    · simp only [if_pos hkept]
    · simp only [if_neg hkept, ite_self]

theorem trusts_inWindow_and (hf : Fits now slack additional) : Trusts now slack additional start stop
    (InWindow now slack additional start ∧ ¬ IsLost now slack additional start) := by
  have hstop : (stop.toNat : ℤ) - now.toNat ≤ slack.seconds.toNat ↔
      (stop.toNat : ℚ) - now.toNat ≤ slack.toRat := by
    rw [← sub_le_floor_iff, Duration.floor_toRat]
  refine ⟨?_, fun hkept => ?_, ?_, fun hkept => ?_, adjustRange_adjustRange⟩
  · rw [start_adjustRange hf, ← whole_seconds_iff]
    apply ite_eq_left_iff_of
    rintro rfl
    omega
  · rw [start_adjustRange hf, if_neg (mt whole_seconds_iff.1 hkept)]
  · rw [stop_adjustRange hf, ← hstop]
    apply ite_eq_left_iff_of
    rintro rfl
    omega
  · rw [stop_adjustRange hf, if_neg (mt hstop.1 hkept)]

/-- Unless a sum overflows, the window is kept exactly, whatever the durations are, but for a start in a second that is
lost. -/
theorem trusts_unless_lost (now : UInt32) (slack additional : Duration) (start stop : UInt32)
    (hf : Fits now slack additional) :
    Trusts now slack additional start stop
        (InWindow now slack additional start ∧ ¬ IsLost now slack additional start) ∧
      (Trusts now slack additional start stop (InWindow now slack additional start) ↔
        ¬ IsLost now slack additional start) := by
  have htrusts := @trusts_inWindow_and now slack additional start stop hf
  refine ⟨htrusts, fun hexact hlost => ?_, fun hkept => ?_⟩
  · have hstart := hexact.start_iff.2 (inWindow_of_isLost hlost)
    exact (htrusts.start_iff.1 hstart).2 hlost
  · rw [and_iff_left hkept] at htrusts
    exact htrusts

end

theorem trusts_two_minutes : Fits 1700000000 (.ofSeconds 120) (.ofMilliseconds 600) ∧
    Trusts 1700000000 (.ofSeconds 120) (.ofMilliseconds 600) 1699999880 1700000121
      (InWindow 1700000000 (.ofSeconds 120) (.ofMilliseconds 600) 1699999880) := by
  have hf : Fits 1700000000 (.ofSeconds 120) (.ofMilliseconds 600) := ⟨by decide, by decide⟩
  exact ⟨hf, (trusts_unless_lost _ _ _ _ _ hf).2.2 (not_isLost_ofSeconds 120)⟩

/-- Of two slacks of 600 milliseconds not even one second is left. -/
theorem not_forall_trusts : ¬ ∀ now slack additional start stop, Fits now slack additional →
    Trusts now slack additional start stop (InWindow now slack additional start) := by
  intro hall
  have hwindow : InWindow 1700000000 (.ofMilliseconds 600) (.ofMilliseconds 600) 1699999999 := by
    have hhalf : (Duration.ofMilliseconds 600).toRat = 600000000 / 1000000000 := by
      have hseconds : (Duration.ofMilliseconds 600).seconds.toNat = 0 := by decide
      have hrest : (Duration.ofMilliseconds 600).nanoseconds.val = 600000000 := by decide
      rw [Duration.toRat, hseconds, hrest]
      norm_num
    have hnow : (1700000000 : UInt32).toNat = 1700000000 := rfl
    have hstart : (1699999999 : UInt32).toNat = 1699999999 := rfl
    rw [InWindow, hhalf, hnow, hstart]
    norm_num
  have hkept := (hall 1700000000 (.ofMilliseconds 600) (.ofMilliseconds 600) 1699999999 1700000000
    ⟨by decide, by decide⟩).start_iff.2 hwindow
  exact absurd hkept (by decide)

end WriteAhead
