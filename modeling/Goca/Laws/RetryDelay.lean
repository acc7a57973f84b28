import Mathlib.Algebra.Order.Ring.Int
import Mathlib.Tactic.NormNum
import Goca.Lib.Alone
import Goca.Webhooks.Dispatcher
import Goca.Webhooks.Step

/-!
# How long a failed delivery waits

The dispatcher doubles its base delay with every failed attempt and caps the result. The doubling is
a shift of a 64-bit duration and the cap is applied afterwards, so what is capped is the product
only as long as the product fits. The first product that does not fit is a negative duration: the
delivery is due at once, and the dispatcher sends it again at its next poll. So the delays are those
of the integers exactly when the last one a configuration can come to fits.
-/

set_option autoImplicit false

namespace Goca.Webhooks

open Sql (Table)

/-! ## Delays -/

/-- `15*time.Minute`: no delivery waits longer. -/
def longestDelay : Duration := 900 * second

/-- After its attempt `n` failed, a delivery is due again when `delay` has passed. -/
def Dispatcher.Waits (d : Dispatcher) (n : Nat) (delay : Duration) : Prop :=
  ∀ (e : Env) (w : World) (del r : Delivery) (httpStatus : Int) (err : String),
    e.fault = .none → del.attempts + 1 = n → w.deliveries.get? del.id = some r →
      ∃ w', (d.recordFailure del httpStatus err : Handler Empty Unit).run.evalWith exec e w =
          some (.ok (), w') ∧
        w'.deliveries.get? del.id =
          some ((Outcome.failed httpStatus err (some (e.now + delay))).record r)

/-- **The delays of a dispatcher**, after each attempt that another may follow: they double up to
the longest, all are positive, and none is shorter than the one before. -/
structure Dispatcher.BacksOff (d : Dispatcher) : Prop where
  doubles : ∀ n : Nat, 1 ≤ n → (n : Int) < d.maxAttempts →
    d.Waits n (min (d.backoff * 2 ^ (n - 1)) longestDelay)
  bounded : ∀ (n : Nat) (delay : Duration), 1 ≤ n → (n : Int) < d.maxAttempts →
    d.Waits n delay → 0 < delay ∧ delay ≤ longestDelay
  monotone : ∀ (m n : Nat) (delay delay' : Duration), 1 ≤ m → m ≤ n → (n : Int) < d.maxAttempts →
    d.Waits m delay → d.Waits n delay' → delay ≤ delay'

/-- The last product that a dispatcher shifts its base to fits a duration. -/
def Dispatcher.LastFits (d : Dispatcher) : Prop :=
  2 ≤ d.maxAttempts → d.backoff * 2 ^ (d.maxAttempts - 2).toNat < 2 ^ 63

/-! ## What a failure records -/

section Record

variable {d : Dispatcher} {n : Nat} {delay : Duration}

/-- A failure below the maximum records the delay that the code computes. -/
theorem waits_retryDelay (h : (n : Int) < d.maxAttempts) : d.Waits n (d.retryDelay n) := by
  intro e w del r httpStatus err hfault hn hrow
  have hrun : (d.recordFailure del httpStatus err : Handler Empty Unit).run.evalWith exec e w =
      some (.ok (), (w.exec e (.recordResult del.id
        (.failed httpStatus err (some (e.now + d.retryDelay n))))).2) := by
    obtain ⟨t, rank, response, fault⟩ := e
    obtain rfl : fault = .none := hfault
    unfold Dispatcher.recordFailure
    simp only [hn, if_pos h]
    rfl
  refine ⟨_, hrun, ?_⟩
  refine (Table.get?_update_self _ (Outcome.record_id _) fun r hr => beq_iff_eq.mpr hr).trans ?_
  rw [hrow]
  rfl

/-- A delivery that has failed so many times. -/
def failing (n : Nat) : Delivery where
  webhookID := 1
  event := "cert.issue"
  payload := "\x7b\x7d"
  status := .failed
  attempts := n
  nextAttempt := some 0

/-- A database with this delivery only. -/
def failedBefore (n : Nat) : World where
  webhooks := .empty
  deliveries := Table.empty.insert (fun id => { failing n with id }) fun _ => rfl

/-- A configuration waits one delay after an attempt: the one that the code computes. -/
theorem waits_iff (hn : 1 ≤ n) (h : (n : Int) < d.maxAttempts) :
    d.Waits n delay ↔ delay = d.retryDelay n := by
  constructor
  · intro hwaits
    obtain ⟨r, hrow, hnext⟩ : ∃ r, (failedBefore (n - 1)).deliveries.get? r.id = some r ∧
        r.attempts + 1 = n :=
      ⟨{ failing (n - 1) with id := 1 }, rfl, Nat.sub_add_cancel hn⟩
    obtain ⟨w₁, hrun₁, hrow₁⟩ :=
      hwaits { now := 0 } (failedBefore (n - 1)) r r 0 "" rfl hnext hrow
    obtain ⟨w₂, hrun₂, hrow₂⟩ :=
      waits_retryDelay h { now := 0 } (failedBefore (n - 1)) r r 0 "" rfl hnext hrow
    obtain rfl : w₁ = w₂ := congrArg Prod.snd (Option.some.inj (hrun₁.symm.trans hrun₂))
    have hsame := congrArg Delivery.nextAttempt (Option.some.inj (hrow₁.symm.trans hrow₂))
    have hdue : (0 : Int) + delay = 0 + d.retryDelay n := Option.some.inj hsame
    rwa [Int.zero_add, Int.zero_add] at hdue
  · rintro rfl
    exact waits_retryDelay h

end Record

/-! ## The shift -/

section Shift

variable {b : Int} {k : Nat}

/-- A product that fits is what the shift computes. -/
theorem shiftLeft_of_fits (hb : 0 ≤ b) (h : b * 2 ^ k < 2 ^ 63) : shiftLeft b k = b * 2 ^ k := by
  have hnonneg : 0 ≤ b * 2 ^ k := Int.mul_nonneg hb (Int.le_of_lt (Int.pow_pos (by decide)))
  unfold shiftLeft
  exact Int.bmod_eq_of_le_mul_two (by norm_num; omega) (by norm_num; omega)

/-- The first product that does not fit becomes a negative duration. -/
theorem shiftLeft_neg (h : 2 ^ 63 ≤ b * 2 ^ k) (hlt : b * 2 ^ k < 2 ^ 64) : shiftLeft b k < 0 := by
  have hwrapped : (b * 2 ^ k) % ((2 ^ 64 : Nat) : Int) = b * 2 ^ k :=
    Int.emod_eq_of_lt (by omega) (by norm_num; omega)
  have hhalf : (((2 ^ 64 : Nat) : Int) + 1) / 2 ≤ (b * 2 ^ k) % ((2 ^ 64 : Nat) : Int) := by
    rw [hwrapped]
    norm_num
    omega
  have hbmod : shiftLeft b k = b * 2 ^ k - ((2 ^ 64 : Nat) : Int) := by
    unfold shiftLeft
    rw [Int.bmod_neg _ _ hhalf, hwrapped]
  rw [hbmod]
  exact Int.sub_neg_of_lt (by norm_num; omega)

/-- Every product before one that fits, fits too. -/
theorem product_mono (hb : 0 ≤ b) {m : Nat} (h : m ≤ k) : b * 2 ^ m ≤ b * 2 ^ k :=
  Int.mul_le_mul_of_nonneg_left (pow_le_pow_right₀ (by decide) h) hb

/-- Where a product does not fit, the first such one was less than twice what fits. -/
theorem first_overflow (hb : b < 2 ^ 63) (h : 2 ^ 63 ≤ b * 2 ^ k) :
    ∃ m, m ≤ k ∧ 2 ^ 63 ≤ b * 2 ^ m ∧ b * 2 ^ m < 2 ^ 64 := by
  induction k with
  | zero =>
    rw [Int.pow_zero, Int.mul_one] at h
    omega
  | succ k ih =>
    by_cases hk : 2 ^ 63 ≤ b * 2 ^ k
    · obtain ⟨m, hm, hmore⟩ := ih hk
      exact ⟨m, by omega, hmore⟩
    · have hdouble : b * 2 ^ (k + 1) = 2 * (b * 2 ^ k) := by
        rw [Int.pow_succ, ← Int.mul_assoc, Int.mul_comm]
      exact ⟨k + 1, Nat.le_refl _, h, by omega⟩

end Shift

/-! ## The law -/

section Law

variable {d : Dispatcher} {n : Nat}

/-- The delay is positive and at most the longest where its product is positive. -/
theorem retryDelay_of_fits (hb : 0 ≤ d.backoff) (h : d.backoff * 2 ^ (n - 1) < 2 ^ 63) :
    d.retryDelay n = min (d.backoff * 2 ^ (n - 1)) longestDelay := by
  unfold Dispatcher.retryDelay
  rw [shiftLeft_of_fits hb h]
  by_cases hlong : longestDelay < d.backoff * 2 ^ (n - 1)
  · exact (if_pos hlong).trans (min_eq_right (le_of_lt hlong)).symm
  · exact (if_neg hlong).trans (min_eq_left (not_lt.mp hlong)).symm

/-- An attempt that another may follow shifts by at most as much as the last one. -/
theorem fits_of_lastFits (hb : 0 ≤ d.backoff) (h : d.LastFits) (hn : 1 ≤ n)
    (hmore : (n : Int) < d.maxAttempts) : d.backoff * 2 ^ (n - 1) < 2 ^ 63 := by
  have hle : n - 1 ≤ (d.maxAttempts - 2).toNat := by omega
  exact Int.lt_of_le_of_lt (product_mono hb hle) (h (by omega))

/-- A base is what was configured, or the default. -/
theorem backoff_pos (o : Options) : 0 < (Dispatcher.new o).backoff := by
  show 0 < if o.backoff ≤ 0 then 30 * second else o.backoff
  by_cases h : o.backoff ≤ 0
  · rw [if_pos h]
    decide
  · rw [if_neg h]
    exact not_le.mp h

/-- A base that was configured as a duration is one. -/
theorem backoff_fits {o : Options} (h : o.backoff < 2 ^ 63) :
    (Dispatcher.new o).backoff < 2 ^ 63 := by
  show (if o.backoff ≤ 0 then 30 * second else o.backoff) < 2 ^ 63
  split
  · decide
  · exact h

/-- Where the last product does not fit, some attempt is followed by a delay that is negative. -/
theorem negative_of_not_lastFits (hb : d.backoff < 2 ^ 63) (h : ¬ d.LastFits) :
    ∃ n : Nat, 1 ≤ n ∧ (n : Int) < d.maxAttempts ∧ d.retryDelay n < 0 := by
  unfold Dispatcher.LastFits at h
  push Not at h
  obtain ⟨htwo, hlast⟩ := h
  obtain ⟨k, hk, hle, hlt⟩ := first_overflow hb hlast
  have hneg := shiftLeft_neg hle hlt
  refine ⟨k + 1, by omega, by omega, ?_⟩
  unfold Dispatcher.retryDelay
  rw [Nat.add_sub_cancel, if_neg]
  · exact hneg
  · exact not_lt.mpr (le_of_lt (hneg.trans (by decide)))

/-- **Delays back off** under those options whose last product fits a duration. -/
theorem backsOff_iff (o : Options) (h : o.backoff < 2 ^ 63) :
    (Dispatcher.new o).BacksOff ↔ (Dispatcher.new o).LastFits := by
  have hpos := backoff_pos o
  have hfits := backoff_fits h
  generalize Dispatcher.new o = d at *
  constructor
  · intro hd
    by_contra hlast
    obtain ⟨n, hn, hmore, hneg⟩ := negative_of_not_lastFits hfits hlast
    have hdelay := (hd.bounded n _ hn hmore (waits_retryDelay hmore)).1
    exact lt_asymm hneg hdelay
  · intro hlast
    have hexact (n : Nat) (hn : 1 ≤ n) (hmore : (n : Int) < d.maxAttempts) :
        d.retryDelay n = min (d.backoff * 2 ^ (n - 1)) longestDelay :=
      retryDelay_of_fits (Int.le_of_lt hpos)
        (fits_of_lastFits (Int.le_of_lt hpos) hlast hn hmore)
    constructor
    · intro n hn hmore
      rw [← hexact n hn hmore]
      exact waits_retryDelay hmore
    · intro n delay hn hmore hwaits
      obtain rfl := (waits_iff hn hmore).mp hwaits
      rw [hexact n hn hmore]
      exact ⟨lt_min (Int.mul_pos hpos (Int.pow_pos (by decide))) (by decide), min_le_right _ _⟩
    · intro m n delay delay' hm hmn hmore hwaits hwaits'
      have hmore' : (m : Int) < d.maxAttempts := by omega
      obtain rfl := (waits_iff hm hmore').mp hwaits
      obtain rfl := (waits_iff (by omega) hmore).mp hwaits'
      rw [hexact m hm hmore', hexact n (by omega) hmore]
      exact min_le_min_right _
        (product_mono (Int.le_of_lt hpos) (Nat.sub_le_sub_right hmn 1))

/-- The defaults back off. -/
theorem defaults_backOff : (Dispatcher.new {}).BacksOff :=
  (backsOff_iff {} (by decide)).mpr fun _ => by decide

/-- Thirty-two attempts do not: after the thirtieth the delay is negative. -/
theorem manyAttempts_hammer : ¬ ∀ o : Options, o.backoff < 2 ^ 63 → o.maxAttempts < 2 ^ 63 →
    (Dispatcher.new o).BacksOff := by
  intro hall
  have hbacks := hall { maxAttempts := 32 } (by decide) (by decide)
  have hmore : ((30 : Nat) : Int) < (Dispatcher.new { maxAttempts := 32 }).maxAttempts := by decide
  have hdelay := (hbacks.bounded 30 _ (by decide) hmore (waits_retryDelay hmore)).1
  have hneg : (Dispatcher.new { maxAttempts := 32 }).retryDelay 30 < 0 := by decide
  exact lt_asymm hneg hdelay

end Law

end Goca.Webhooks
