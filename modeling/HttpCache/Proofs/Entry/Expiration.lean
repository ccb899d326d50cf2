import HttpCache.Entry.Basic

/-!
# HttpCache.Proofs.Entry.Expiration

The expiration of an entry is computed on signed words, at any reading of the wall clock and for
any time to live.

* `unixNow_eq` — the reading in a word: nothing before the epoch, the last second past it.
* `expirationAt_mono` — more time to live never leads to an earlier expiration.
* `expiration_exact` — the expiration is the exact sum, or the last second if that is earlier.
-/

namespace HttpCache

theorem unixNow_eq (wall : Int) :
    unixNow wall = if wall < 0 then 0 else min wall Int64.maxValue.toInt := by
  have hmax := Saturating.toInt_maxValue
  simp only [unixNow, maxSeconds]
  split <;> omega

theorem Span.seconds_mono {a b : Span} (h : a ≤ b) : a.seconds ≤ b.seconds :=
  Nat.div_le_div_right h

namespace Entry

theorem expirationAt_mono (wall : Int) {ttl longer : Span} (h : ttl ≤ longer) :
    expirationAt wall ttl ≤ expirationAt wall longer := by
  have hseconds := Span.seconds_mono h
  simp only [expirationAt]
  omega

/-- **The expiration never wraps.** At any reading of the wall clock, before the epoch and past the
last second of a word too, and for any time to live, the expiration is the sum of the reading and
the whole seconds of the time to live, or the last second if that is earlier; an entry is fresh
just before it. More time to live never makes an entry expire earlier. -/
theorem expiration_exact (headers : Headers) (body : Bytes) (status : Status) (wall : Int)
    {ttl longer : Span} (h : ttl ≤ longer) :
    unixNow wall = (if wall < 0 then 0 else min wall Int64.maxValue.toInt) ∧
      (make headers body status ttl wall).expiration.toInt =
        min Int64.maxValue.toInt (unixNow wall + ttl.seconds) ∧
      (∀ now, (make headers body status ttl wall).isFreshAt now = true ↔
        now < min Int64.maxValue.toInt (unixNow wall + ttl.seconds)) ∧
      (make headers body status ttl wall).expiration ≤
        (make headers body status longer wall).expiration ∧
      ∀ now, (make headers body status ttl wall).isFreshAt now = true →
        (make headers body status longer wall).isFreshAt now = true := by
  have hexact : (make headers body status ttl wall).expiration.toInt =
      min Int64.maxValue.toInt (unixNow wall + ttl.seconds) := by
    have hmax := Saturating.toInt_maxValue
    rw [expiration_make, expirationAt, maxSeconds]
    omega
  have hmono : (make headers body status ttl wall).expiration.toInt ≤
      (make headers body status longer wall).expiration.toInt := by
    rw [expiration_make, expiration_make]
    exact expirationAt_mono wall h
  refine ⟨unixNow_eq wall, hexact, ?_, Int64.le_iff_toInt_le.mpr hmono, ?_⟩
  · intro now
    rw [isFreshAt, decide_eq_true_iff, hexact]
  · intro now hfresh
    simp only [isFreshAt, decide_eq_true_eq] at hfresh ⊢
    omega

/-- A few seconds before the last one, with five seconds to live and with all seconds of an
unsigned word. -/
theorem expiration_near_last_second :
    Span.ofSeconds 5 ≤ .ofSeconds 18446744073709551615 ∧
      (make .empty [] .ok (.ofSeconds 5) 9223372036854775800).expiration.toInt =
        9223372036854775805 ∧
      (make .empty [] .ok (.ofSeconds 5) 9223372036854775800).expiration ≤
        (make .empty [] .ok (.ofSeconds 18446744073709551615) 9223372036854775800).expiration := by
  have hle : Span.ofSeconds 5 ≤ .ofSeconds 18446744073709551615 := by decide
  obtain ⟨-, hexact, -, hmono, -⟩ :=
    expiration_exact .empty [] .ok 9223372036854775800 hle
  refine ⟨hle, ?_, hmono⟩
  rw [hexact]
  decide

/-- All seconds of an unsigned word end at the last second of a signed one. -/
example : (make .empty [] .ok (.ofSeconds 18446744073709551615) 18446744073709551615).expiration =
    Int64.maxValue := by decide

end Entry
end HttpCache
