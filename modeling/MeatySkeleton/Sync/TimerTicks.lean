import MeatySkeleton.Sync.Sleeping
import Mathlib.Algebra.Order.Floor.Div
import Mathlib.Tactic.Ring

/-!
# Milliseconds and ticks

`timer_ms_to_ticks` converts whole seconds and the rest of a second apart, the rest rounded
up. The two parts always add up to the exact ceiling, modulo 2^64: neither the product nor the
sum is checked. So a sleep is as long as it was asked to be exactly if the number of ticks fits
(`sound_iff`), apart from the numbers of ticks that wrap to the largest value there is.
`timer_uptime_ms` splits in the same way, and what it returns is exact whenever it fits.
-/

namespace MeatySkeleton.Sync

open Scheduler

/-- `UINT64_MAX`. -/
def uint64Max : Nat := 2 ^ 64 - 1

/-- `timer_uptime_ms`, after `ticks` ticks. -/
def timerUptimeMs (frequency ticks : Nat) : Nat :=
  if frequency = 0 then 0
  else (ticks / frequency * 1000 % 2 ^ 64 + ticks % frequency * 1000 % 2 ^ 64 / frequency) % 2 ^ 64

/-- The number of ticks that last for `milliseconds`. -/
def exactTicks (frequency milliseconds : Nat) : Nat := (milliseconds * frequency) ⌈/⌉ 1000

/-- What the conversion of a duration promises, and `task_sleep` with it; where a number does
not fit, the largest one there is stands for it. -/
structure Sound (frequency milliseconds : Nat) : Prop where
  atLeast : min (exactTicks frequency milliseconds) uint64Max ≤
    timerMsToTicks frequency milliseconds
  monotone : ∀ shorter ≤ milliseconds,
    timerMsToTicks frequency shorter ≤ timerMsToTicks frequency milliseconds
  sleeps : ∀ s t now s', s.frequency = frequency → taskSleep s t now milliseconds = some s' →
    min (now + exactTicks frequency milliseconds) uint64Max ≤ s'.queue.wakeTick t

variable {frequency milliseconds shorter ticks now delay : Nat}

theorem exactTicks_eq (frequency milliseconds : Nat) : exactTicks frequency milliseconds =
    milliseconds / 1000 * frequency + (milliseconds % 1000 * frequency + 999) / 1000 := by
  have hsplit : milliseconds * frequency =
      milliseconds / 1000 * frequency * 1000 + milliseconds % 1000 * frequency := by
    calc milliseconds * frequency
        = (1000 * (milliseconds / 1000) + milliseconds % 1000) * frequency := by
          rw [Nat.div_add_mod]
      _ = milliseconds / 1000 * frequency * 1000 + milliseconds % 1000 * frequency := by ring
  rw [exactTicks, Nat.ceilDiv_eq_add_pred_div, hsplit]
  omega

theorem exactTicks_mono (h : shorter ≤ milliseconds) :
    exactTicks frequency shorter ≤ exactTicks frequency milliseconds := by
  simp only [exactTicks, Nat.ceilDiv_eq_add_pred_div]
  exact Nat.div_le_div_right (Nat.sub_le_sub_right (Nat.add_le_add_right
    (Nat.mul_le_mul_right frequency h) 1000) 1)

/-- The conversion is exact modulo 2^64. -/
theorem timerMsToTicks_eq (hf : 0 < frequency) (milliseconds : Nat) :
    timerMsToTicks frequency milliseconds = exactTicks frequency milliseconds % 2 ^ 64 := by
  rw [timerMsToTicks, if_neg (Nat.ne_of_gt hf), exactTicks_eq, Nat.mod_add_mod]

theorem wakeTickAfter_ge (now delay : Nat) : min (now + delay) uint64Max ≤ wakeTickAfter now delay := by
  rw [wakeTickAfter, uint64Max]
  by_cases hzero : delay = 0
  · rw [if_pos hzero, hzero]
    split <;> omega
  · rw [if_neg hzero]
    split <;> omega

/-- Entering the queue does not touch the wake ticks. -/
theorem sleepQueueInsert_wakeTick {fuel : Nat} {queue queue' : SleepQueue} {t : TaskPtr}
    (h : sleepQueueInsert fuel queue t = some queue') : queue'.wakeTick = queue.wakeTick := by
  unfold sleepQueueInsert at h
  dsimp only at h
  split at h
  next => rw [← Option.some.inj h]
  next =>
    obtain ⟨later, -, hqueue⟩ := Option.map_eq_some_iff.mp h
    rw [← hqueue]
    cases later <;> rfl

theorem taskSleep_wakeTick {s s' : Sleepers} {t : TaskPtr}
    (h : taskSleep s t now milliseconds = some s') :
    s'.queue.wakeTick t = wakeTickAfter now (timerMsToTicks s.frequency milliseconds) := by
  obtain ⟨queue, hinsert, rfl⟩ := Option.map_eq_some_iff.mp h
  show queue.wakeTick t = _
  rw [sleepQueueInsert_wakeTick hinsert]
  exact Function.update_self ..

/-- A conversion that is long enough makes for a sleep that is. -/
theorem sleeps_of_atLeast
    (h : min (exactTicks frequency milliseconds) uint64Max ≤ timerMsToTicks frequency milliseconds)
    {s s' : Sleepers} {t : TaskPtr} (hf : s.frequency = frequency)
    (hs : taskSleep s t now milliseconds = some s') :
    min (now + exactTicks frequency milliseconds) uint64Max ≤ s'.queue.wakeTick t := by
  have hwake := wakeTickAfter_ge now (timerMsToTicks frequency milliseconds)
  rw [taskSleep_wakeTick hs, hf]
  omega

/-- The ticks fit into 64 bits, or wrap to the largest value. -/
def Fits (frequency milliseconds : Nat) : Prop :=
  exactTicks frequency milliseconds ≤ uint64Max ∨
    exactTicks frequency milliseconds % 2 ^ 64 = uint64Max

theorem sound_iff_fits (hf : 0 < frequency) (milliseconds : Nat) :
    Sound frequency milliseconds ↔ Fits frequency milliseconds := by
  have hmod : ∀ ms, exactTicks frequency ms % 2 ^ 64 ≤ uint64Max := fun ms =>
    Nat.le_sub_one_of_lt (Nat.mod_lt _ (by decide))
  constructor
  · intro h
    have hat := h.atLeast
    rw [timerMsToTicks_eq hf] at hat
    have hle := hmod milliseconds
    unfold Fits
    omega
  · intro h
    have hat : min (exactTicks frequency milliseconds) uint64Max ≤
        timerMsToTicks frequency milliseconds := by
      rw [timerMsToTicks_eq hf]
      rcases h with hfits | hlargest
      · have hlt : exactTicks frequency milliseconds < 2 ^ 64 := by
          rw [uint64Max] at hfits
          omega
        rw [Nat.mod_eq_of_lt hlt]
        exact Nat.min_le_left ..
      · rw [hlargest]
        exact Nat.min_le_right ..
    refine ⟨hat, fun shorter hle => ?_, fun s t now s' hs he => sleeps_of_atLeast hat hs he⟩
    rw [timerMsToTicks_eq hf, timerMsToTicks_eq hf]
    rcases h with hfits | hlargest
    · have hmono : exactTicks frequency shorter ≤ exactTicks frequency milliseconds :=
        exactTicks_mono hle
      have hlt : exactTicks frequency milliseconds < 2 ^ 64 := by
        rw [uint64Max] at hfits
        omega
      rw [Nat.mod_eq_of_lt hlt, Nat.mod_eq_of_lt (Nat.lt_of_le_of_lt hmono hlt)]
      exact hmono
    · rw [hlargest]
      exact hmod shorter

/-- The milliseconds of a number of ticks. -/
theorem uptime_split (hf : 0 < frequency) (ticks : Nat) : ticks * 1000 / frequency =
    ticks / frequency * 1000 + ticks % frequency * 1000 / frequency := by
  have hsplit : ticks * 1000 =
      ticks % frequency * 1000 + frequency * (ticks / frequency * 1000) := by
    calc ticks * 1000
        = (frequency * (ticks / frequency) + ticks % frequency) * 1000 := by rw [Nat.div_add_mod]
      _ = ticks % frequency * 1000 + frequency * (ticks / frequency * 1000) := by ring
  rw [hsplit, Nat.add_mul_div_left _ _ hf, Nat.add_comm]

theorem timerUptimeMs_eq (hf : 0 < frequency) (hf' : frequency < 2 ^ 32)
    (hfits : ticks * 1000 / frequency ≤ uint64Max) :
    timerUptimeMs frequency ticks = ticks * 1000 / frequency := by
  have hrest : ticks % frequency * 1000 < 2 ^ 64 := by
    have hlt := Nat.mod_lt ticks hf
    omega
  rw [timerUptimeMs, if_neg (Nat.ne_of_gt hf), Nat.mod_eq_of_lt hrest, Nat.mod_add_mod,
    ← uptime_split hf]
  rw [uint64Max] at hfits
  exact Nat.mod_eq_of_lt (by omega)

/-- A duration is converted and slept soundly exactly if its ticks fit; the uptime is exact
whenever it fits. -/
theorem sound_iff (hf : 0 < frequency) (hf' : frequency < 2 ^ 32) :
    (∀ milliseconds, Sound frequency milliseconds ↔ Fits frequency milliseconds) ∧
      ∀ ticks, ticks * 1000 / frequency ≤ uint64Max →
        timerUptimeMs frequency ticks = ticks * 1000 / frequency :=
  ⟨sound_iff_fits hf, fun _ => timerUptimeMs_eq hf hf'⟩

/-- The timer of the kernel runs at 100 Hz. -/
theorem sound_iff_hundred :
    (∀ milliseconds, Sound 100 milliseconds ↔ Fits 100 milliseconds) ∧
      ∀ ticks, ticks * 1000 / 100 ≤ uint64Max → timerUptimeMs 100 ticks = ticks * 1000 / 100 :=
  sound_iff (by decide) (by decide)

/-- At 2000 Hz a sleep of 2^63 milliseconds converts to no tick at all. -/
theorem not_sound : ¬Sound 2000 (2 ^ 63) := by
  intro h
  exact absurd h.atLeast (by decide)

end MeatySkeleton.Sync
