import Mathlib.Data.Nat.Bitwise
import Mathlib.Logic.Function.Iterate
import WriteAhead.Checksum.Crc32

/-!
What the checksum tells apart. Dividing out a bit is linear in exclusive or, so the difference of two
registers follows a register of its own. Main statement: bytes that are the same but for four in a row
have different checksums (`crc32_ne_of_burst`).
-/

namespace WriteAhead

namespace Crc32

section

variable {r r' : UInt32}

theorem and_one_eq_one_iff (r : UInt32) : r &&& 1 = 1 ↔ r.toNat % 2 = 1 := by
  rw [← UInt32.toNat_inj, UInt32.toNat_and]
  exact Nat.and_one_is_mod r.toNat ▸ Iff.rfl

theorem shift_of_even (h : r.toNat % 2 = 0) : shift r = r >>> 1 :=
  if_neg fun hodd => by
    rw [and_one_eq_one_iff, h] at hodd
    cases hodd

theorem shift_of_odd (h : r.toNat % 2 = 1) : shift r = (r >>> 1) ^^^ 0xEDB88320 :=
  if_pos ((and_one_eq_one_iff r).2 h)

theorem toNat_shiftRight_one (r : UInt32) : (r >>> 1).toNat = r.toNat / 2 := by
  rw [UInt32.toNat_shiftRight]
  exact Nat.shiftRight_one r.toNat

theorem shift_xor (a b : UInt32) : shift (a ^^^ b) = shift a ^^^ shift b := by
  have hparity : (a ^^^ b).toNat % 2 = (a.toNat + b.toNat) % 2 := by
    rw [UInt32.toNat_xor, Nat.xor_mod_two_eq]
  obtain ha | ha := Nat.mod_two_eq_zero_or_one a.toNat <;> obtain hb | hb := Nat.mod_two_eq_zero_or_one b.toNat
  · rw [shift_of_even (hparity.trans (by omega)), shift_of_even ha, shift_of_even hb, UInt32.shiftRight_xor]
  · rw [shift_of_odd (hparity.trans (by omega)), shift_of_even ha, shift_of_odd hb, UInt32.shiftRight_xor,
      UInt32.xor_assoc]
  · rw [shift_of_odd (hparity.trans (by omega)), shift_of_odd ha, shift_of_even hb, UInt32.shiftRight_xor,
      UInt32.xor_assoc, UInt32.xor_assoc, UInt32.xor_comm (b >>> 1)]
  · -- the polynomial was divided out of both, and cancels
    rw [shift_of_even (hparity.trans (by omega)), shift_of_odd ha, shift_of_odd hb, UInt32.shiftRight_xor,
      UInt32.xor_assoc, UInt32.xor_comm (b >>> 1), ← UInt32.xor_assoc 0xEDB88320, UInt32.xor_self, UInt32.zero_xor]

/-- A bit that was divided out shows at the top. -/
theorem toNat_of_shift_lt (h : (shift r).toNat < 2 ^ 31) : r.toNat = 2 * (shift r).toNat := by
  obtain heven | hodd := Nat.mod_two_eq_zero_or_one r.toNat
  · rw [shift_of_even heven, toNat_shiftRight_one]
    omega
  · have hlow : (r.toNat / 2).testBit 31 = false := Nat.testBit_lt_two_pow (by have := r.toNat_lt; omega)
    have hpoly : (0xEDB88320 : UInt32).toNat.testBit 31 = true := by decide
    have htop := Nat.testBit_lt_two_pow h
    rw [shift_of_odd hodd, UInt32.toNat_xor, toNat_shiftRight_one, Nat.testBit_xor, hlow, hpoly] at htop
    cases htop

theorem iterate_shift_xor (n : Nat) (a b : UInt32) : shift^[n] (a ^^^ b) = shift^[n] a ^^^ shift^[n] b := by
  induction n with
  | zero => rfl
  | succ n ih => simp only [Function.iterate_succ_apply', ih, shift_xor]

theorem toNat_of_iterate_shift_lt {n : Nat} (hn : n ≤ 32) (h : (shift^[n] r).toNat < 2 ^ (32 - n)) :
    r.toNat = 2 ^ n * (shift^[n] r).toNat := by
  induction n with
  | zero => exact (Nat.one_mul _).symm
  | succ n ih =>
    have hhalf : 2 ^ (32 - n) = 2 * 2 ^ (32 - (n + 1)) := by
      rw [← Nat.pow_succ']
      congr 1
      omega
    have htop : (2 : Nat) ^ (32 - (n + 1)) ≤ 2 ^ 31 := Nat.pow_le_pow_right (by decide) (by omega)
    rw [Function.iterate_succ_apply'] at h ⊢
    have hlast := toNat_of_shift_lt (Nat.lt_of_lt_of_le h htop)
    rw [ih (by omega) (by omega), hlast, Nat.pow_succ, Nat.mul_assoc]

theorem step_eq (r : UInt32) (b : UInt8) : step r b = shift^[8] (r ^^^ b.toUInt32) := rfl

/-- Of the difference of two registers a step loses nothing while there is room below for it. -/
theorem toNat_xor_of_step {b b' : UInt8} (h : (step r b ^^^ step r' b').toNat < 2 ^ 24) :
    (r.toNat ^^^ r'.toNat) ^^^ (b.toNat ^^^ b'.toNat) = 256 * (step r b ^^^ step r' b').toNat := by
  have hregisters : (r ^^^ b.toUInt32) ^^^ (r' ^^^ b'.toUInt32) = (r ^^^ r') ^^^ (b.toUInt32 ^^^ b'.toUInt32) := by
    rw [UInt32.xor_assoc, UInt32.xor_assoc, ← UInt32.xor_assoc b.toUInt32, UInt32.xor_comm b.toUInt32 r',
      UInt32.xor_assoc]
  have hnumbers : ((r ^^^ b.toUInt32) ^^^ (r' ^^^ b'.toUInt32)).toNat =
      (r.toNat ^^^ r'.toNat) ^^^ (b.toNat ^^^ b'.toNat) := by
    rw [hregisters, UInt32.toNat_xor, UInt32.toNat_xor, UInt32.toNat_xor, UInt8.toNat_toUInt32, UInt8.toNat_toUInt32]
  rw [step_eq, step_eq, ← iterate_shift_xor] at h ⊢
  rw [← hnumbers]
  exact toNat_of_iterate_shift_lt (by decide) h

end

/-- Registers that become equal over so many bytes differed in no more bits than these have. -/
theorem eq_of_run {w w' : Bytes} (hl : w.length = w'.length) (hw : w.length ≤ 4) {r r' : UInt32}
    (h : run r w = run r' w') : r.toNat ^^^ r'.toNat < 2 ^ (8 * w.length) ∧ (r = r' → w = w') := by
  induction w generalizing w' r r' with
  | nil =>
    cases List.length_eq_zero_iff.1 hl.symm
    obtain rfl : r = r' := h
    exact ⟨by simp, fun _ => rfl⟩
  | cons b w ih =>
    obtain ⟨b', w', rfl⟩ := List.exists_cons_of_length_eq_add_one hl.symm
    obtain ⟨hlt, hsame⟩ := ih (Nat.succ.inj hl) (Nat.le_of_succ_le hw) h
    rw [← UInt32.toNat_xor] at hlt
    have hroom : 2 ^ (8 * w.length) ≤ 2 ^ 24 := Nat.pow_le_pow_right (by decide) (by simp at hw; omega)
    have hstep := toNat_xor_of_step (Nat.lt_of_lt_of_le hlt hroom)
    have hbytes : b.toNat ^^^ b'.toNat < 2 ^ 8 := Nat.xor_lt_two_pow b.toNat_lt b'.toNat_lt
    constructor
    · have hgrown : 256 * (step r b ^^^ step r' b').toNat < 2 ^ (8 * (b :: w).length) := by
        rw [List.length_cons, Nat.mul_succ, Nat.pow_add]
        omega
      have hfits : b.toNat ^^^ b'.toNat < 2 ^ (8 * (b :: w).length) :=
        Nat.lt_of_lt_of_le hbytes (Nat.pow_le_pow_right (by decide) (by rw [List.length_cons]; omega))
      rw [← hstep] at hgrown
      have hboth := Nat.xor_lt_two_pow hgrown hfits
      rwa [Nat.xor_assoc, Nat.xor_self, Nat.xor_zero] at hboth
    · rintro rfl
      rw [Nat.xor_self, Nat.zero_xor] at hstep
      have hzero : b.toNat ^^^ b'.toNat = 0 := by omega
      obtain rfl : b = b' := UInt8.toNat_inj.1 (Nat.xor_eq_zero_iff.1 hzero)
      rw [hsame rfl]

/-- A difference does not go away again over bytes that are the same. -/
theorem run_injective (w : Bytes) : Function.Injective fun r => run r w := by
  induction w with
  | nil => exact fun _ _ h => h
  | cons b w ih =>
    intro r r' h
    have hstep : step r b = step r' b := ih h
    have hzero : (step r b ^^^ step r' b).toNat = 0 := by rw [hstep, UInt32.xor_self]; rfl
    have hsmall : (step r b ^^^ step r' b).toNat < 2 ^ 24 := by rw [hzero]; decide
    have hxor := toNat_xor_of_step hsmall
    rw [hzero, Nat.xor_self, Nat.xor_zero] at hxor
    exact UInt32.toNat_inj.1 (Nat.xor_eq_zero_iff.1 hxor)

end Crc32

/-- What was in four bytes in a row, or in fewer, can be told from the checksum. -/
theorem crc32_ne_of_burst (front back : Bytes) {w w' : Bytes} (hl : w.length = w'.length) (hw : w.length ≤ 4)
    (hne : w ≠ w') : crc32 (front ++ (w ++ back)) ≠ crc32 (front ++ (w' ++ back)) := by
  intro h
  have hrun := (UInt32.xor_left_inj _).1 h
  simp only [Crc32.run_append] at hrun
  exact hne ((Crc32.eq_of_run hl hw (Crc32.run_injective back hrun)).2 rfl)

end WriteAhead
