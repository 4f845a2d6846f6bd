import DDAG.Circuit.Calls

/-!
# Counted failures

What the field `failures` of a breaker counts when its settings give no failure
ratio.  A window may rotate at any call and in any state, a breaker that opens
keeps its count, and closing starts a new one.

`resets` says when a new count starts, and `sinceReset` is the history since
then.  `Tracked` ties the counter of a closed breaker to that history.  One call
keeps it (`Tracked.call`), so every run does.
-/

namespace DDAG.Circuit

def Call.isFailure : Call → Bool
  | .allow _ => false
  | .report success _ => !success

def failedReports (calls : List Call) : Nat := calls.countP Call.isFailure

theorem failedReports_singleton (c : Call) : failedReports [c] = c.isFailure.toNat := by
  cases hc : c.isFailure <;> simp [failedReports, hc]

theorem failedReports_concat (calls : List Call) (c : Call) :
    failedReports (calls ++ [c]) = failedReports calls + c.isFailure.toNat := by
  rw [← failedReports_singleton]
  exact List.countP_append

namespace Breaker

/-! ## Resets -/

/-- The window is over at this time, and a call rotates it. -/
def rotates (b : Breaker) (now : Int) : Bool :=
  b.intervalStart.any fun start => (b.limits.interval : Int) ≤ now - start

/-- The call rotates the window, or takes the breaker into the closed state. -/
def resets (b : Breaker) (c : Call) : Bool :=
  b.rotates c.now || (b.state ≠ .closed && (b.call c).2.state = .closed)

/-- The calls since the last reset after one more call.  A call that resets comes
first among them: a window rotates before the call is counted. -/
def since (b : Breaker) (recent : List Call) (c : Call) : List Call :=
  if b.resets c then [c] else recent ++ [c]

/-- The calls since the last reset, after some calls. -/
def sinceReset : Breaker → List Call → List Call → List Call
  | _, recent, [] => recent
  | b, recent, c :: calls => (b.call c).2.sinceReset (b.since recent c) calls

theorem sinceReset_concat (b : Breaker) (recent calls : List Call) (c : Call) :
    b.sinceReset recent (calls ++ [c]) = (b.after calls).since (b.sinceReset recent calls) c := by
  induction calls generalizing b recent with
  | nil => rfl
  | cons d calls ih => exact ih (b.call d).2 (b.since recent d)

theorem rotateWindow_failures (b : Breaker) (now : Int) :
    (b.rotateWindow now).failures = if b.rotates now then 0 else b.failures := by
  unfold rotateWindow rotates
  cases b.intervalStart with
  | none => rfl
  | some start =>
      by_cases hover : (b.limits.interval : Int) ≤ now - start
      · simp [hover]
      · simp [hover]

theorem resets_of_closed {b : Breaker} (hs : b.state = .closed) (c : Call) :
    b.resets c = b.rotates c.now := by
  simp [resets, hs]

theorem failedReports_since {b : Breaker} (hs : b.state = .closed) (recent : List Call) (c : Call) :
    failedReports (b.since recent c) =
      (if b.rotates c.now then 0 else failedReports recent) + c.isFailure.toNat := by
  unfold since
  rw [resets_of_closed hs]
  split
  next _ => rw [failedReports_singleton, Nat.zero_add]
  next _ => exact failedReports_concat recent c

/-! ## One call -/

/-- The counter of a closed breaker is the number of failures in its history, and below the
threshold. -/
def Tracked (b : Breaker) (recent : List Call) : Prop :=
  b.state = .closed →
    b.failures = failedReports recent ∧ b.failures < b.limits.failureThreshold

theorem counted_failures (b : Breaker) (success : Bool) :
    (b.counted success).failures = b.failures + (!success).toNat := by
  cases success with
  | true => rfl
  | false => rfl

/-- Without a ratio only the threshold opens a breaker. -/
theorem shouldOpen_of_no_ratio {b : Breaker} (hratio : b.limits.failureRatio ≤ 0) :
    b.shouldOpen = true ↔ b.limits.failureThreshold ≤ b.failures := by
  rw [shouldOpen_iff]
  constructor
  · rintro (hthreshold | ⟨hpos, -, -⟩)
    · exact hthreshold
    · exact absurd hpos (not_lt.mpr hratio)
  · exact .inl

section Closed

variable {b : Breaker} {recent : List Call} (hs : b.state = .closed)

include hs

theorem allow_failures (now : Int) :
    (b.allow now).2.failures = if b.rotates now then 0 else b.failures := by
  rw [← rotateWindow_failures]
  simp [allow, hs]

variable (htracked : b.Tracked recent)

include htracked

/-- What a call makes of the counter is what it makes of the history. -/
theorem failures_since (c : Call) :
    (if b.rotates c.now then 0 else b.failures) + c.isFailure.toNat =
      failedReports (b.since recent c) := by
  rw [failedReports_since hs, (htracked hs).1]

/-- A report opens a closed breaker exactly if the failures since the reset reach the
threshold. -/
theorem report_opens_iff (hratio : b.limits.failureRatio ≤ 0) (success : Bool) (now : Int) :
    ((b.rotateWindow now).counted success).shouldOpen = true ↔
      b.limits.failureThreshold ≤ failedReports (b.since recent (.report success now)) := by
  have hlimits : ((b.rotateWindow now).counted success).limits = b.limits := by
    rw [counted_limits, rotateWindow_limits]
  rw [shouldOpen_of_no_ratio (by rwa [hlimits]), hlimits, counted_failures, rotateWindow_failures]
  exact iff_of_eq (congrArg _ (failures_since hs htracked (.report success now)))

/-- Of the calls on a closed breaker only a failure raises the count, by one. -/
theorem failedReports_since_le (c : Call) :
    failedReports (b.since recent c) < b.limits.failureThreshold + c.isFailure.toNat := by
  have hbelow := (htracked hs).2
  have hpos := b.limits.failureThreshold_pos
  rw [← failures_since hs htracked]
  split
  next _ => omega
  next _ => omega

end Closed

section Step

variable {b : Breaker} {recent : List Call} (hratio : b.limits.failureRatio ≤ 0)
  (htracked : b.Tracked recent)

include hratio htracked

/-- A call keeps the counter of a closed breaker that stays closed. -/
theorem Tracked.call_closed (hs : b.state = .closed) (c : Call) :
    (b.call c).2.Tracked (b.since recent c) := by
  intro hclosed
  rw [call_limits]
  cases c with
  | allow now =>
      have hcount : (b.allow now).2.failures = failedReports (b.since recent (.allow now)) := by
        rw [allow_failures hs, ← failures_since hs htracked]
        rfl
      have hbelow := failedReports_since_le hs htracked (.allow now)
      exact ⟨hcount, by rw [Breaker.call, hcount]; exact hbelow⟩
  | report success now =>
      have hstate : (b.report success now).state = .closed := hclosed
      rw [report_closed hs] at hstate
      split at hstate
      next _ => cases hstate
      next hnot =>
        have hcount : (b.report success now).failures =
            failedReports (b.since recent (.report success now)) := by
          rw [report_closed_eq hs, if_neg hnot, counted_failures, rotateWindow_failures]
          exact failures_since hs htracked (.report success now)
        have hbelow : ¬ b.limits.failureThreshold ≤
            failedReports (b.since recent (.report success now)) :=
          mt (report_opens_iff hs htracked hratio success now).mpr hnot
        exact ⟨hcount, by rw [Breaker.call, hcount]; omega⟩

omit hratio htracked in
/-- A breaker that closes starts a new count, with a report of a success. -/
theorem tracked_of_closes (hs : b.state ≠ .closed) (c : Call) :
    (b.call c).2.Tracked (b.since recent c) := by
  intro hclosed
  have hresets : b.resets c = true := by simp [resets, hs, hclosed]
  rw [since, if_pos hresets, failedReports_singleton, call_limits]
  have hpos := b.limits.failureThreshold_pos
  cases c with
  | allow now =>
      -- an `Allow` never closes a breaker
      exfalso
      cases hb : b.state with
      | closed => exact hs hb
      | halfOpen => cases (allow_of_halfOpen hb now).symm.trans hclosed
      | opened =>
          simp only [Breaker.call, allow, rotateWindow_state, hb] at hclosed
          split at hclosed
          next _ => cases (takeProbe_spec rfl).1.symm.trans hclosed
          next _ =>
            rw [rotateWindow_state, hb] at hclosed
            cases hclosed
  | report success now =>
      cases hb : b.state with
      | closed => exact absurd hb hs
      | opened =>
          simp only [Breaker.call, report, rotateWindow_state, hb] at hclosed
          cases hclosed
      | halfOpen =>
          cases success with
          | false =>
              have hopened := report_halfOpen hb false now
              cases hopened.symm.trans hclosed
          | true =>
              simp only [Breaker.call, report, rotateWindow_state, hb]
              exact ⟨rfl, hpos⟩

theorem Tracked.call (c : Call) : (b.call c).2.Tracked (b.since recent c) := by
  by_cases hs : b.state = .closed
  · exact htracked.call_closed hratio hs c
  · exact tracked_of_closes hs c

/-- A closed breaker leaves its state at a failure that makes the count reach the threshold,
and at no other call. -/
theorem leaves_closed_iff (hs : b.state = .closed) (c : Call) :
    (b.call c).2.state ≠ .closed ↔
      (∃ now, c = .report false now) ∧
        failedReports (b.since recent c) = b.limits.failureThreshold := by
  have hle := failedReports_since_le hs htracked c
  cases c with
  | allow now =>
      have hclosed : (b.call (.allow now)).2.state = .closed := (allow_closed hs now).2
      constructor
      · exact fun hleaves => absurd hclosed hleaves
      · rintro ⟨⟨_, hreport⟩, -⟩
        cases hreport
  | report success now =>
      have hopens := report_opens_iff hs htracked hratio success now
      have hstate : (b.call (.report success now)).2.state ≠ .closed ↔ b.limits.failureThreshold ≤
          failedReports (b.since recent (.report success now)) := by
        rw [← hopens, Breaker.call, report_closed hs]
        split
        next hopen => simp [hopen]
        next hopen => simp [hopen]
      rw [hstate]
      cases success with
      | true =>
          constructor
          · intro hreach
            simp only [Call.isFailure, Bool.not_true, Bool.toNat_false] at hle
            omega
          · rintro ⟨⟨_, hreport⟩, -⟩
            cases hreport
      | false =>
          simp only [Call.isFailure, Bool.not_false, Bool.toNat_true] at hle
          constructor
          · exact fun hreach => ⟨⟨now, rfl⟩, by omega⟩
          · exact fun hreach => hreach.2.ge

end Step

/-! ## Runs -/

theorem Tracked.after {b : Breaker} {recent : List Call} (hratio : b.limits.failureRatio ≤ 0)
    (htracked : b.Tracked recent) (calls : List Call) :
    (b.after calls).Tracked (b.sinceReset recent calls) := by
  induction calls generalizing b recent with
  | nil => exact htracked
  | cons c calls ih =>
      rw [after_cons, sinceReset]
      exact ih (by rwa [call_limits]) (htracked.call hratio c)

end Breaker

theorem tracked_new (settings : Settings) : (new settings).Tracked [] :=
  fun _ => ⟨rfl, settings.limits.failureThreshold_pos⟩

/-- Without a failure ratio a breaker that is closed after some calls has counted the failures
since its last reset, and fewer than the threshold; and the next call takes it out of the
closed state exactly if it reports the failure that makes them reach the threshold. -/
theorem failures_since_reset (settings : Settings) (hratio : settings.failureRatio ≤ 0)
    (calls : List Call) (hclosed : ((new settings).after calls).state = .closed) :
    let b := (new settings).after calls
    b.failures = failedReports ((new settings).sinceReset [] calls) ∧
      b.failures < settings.limits.failureThreshold ∧
      ∀ c, (b.call c).2.state ≠ .closed ↔
        (∃ now, c = .report false now) ∧
          failedReports ((new settings).sinceReset [] (calls ++ [c])) =
            settings.limits.failureThreshold := by
  intro b
  have hlimits : b.limits = settings.limits := Breaker.after_limits (new settings) calls
  have htracked : b.Tracked ((new settings).sinceReset [] calls) :=
    (tracked_new settings).after hratio calls
  obtain ⟨hcount, hbelow⟩ := htracked hclosed
  rw [hlimits] at hbelow
  refine ⟨hcount, hbelow, fun c => ?_⟩
  rw [Breaker.sinceReset_concat, ← hlimits]
  exact Breaker.leaves_closed_iff (by rw [hlimits]; exact hratio) htracked hclosed c

/-- Two failures open it, within sixty nanoseconds. -/
def patient : Settings where
  maxRequests := 1
  interval := 60
  timeout := 10
  failureThreshold := 2
  failureRatio := 0

/-- The first failure is forgotten when the window rotates, and the third one opens the
breaker. -/
theorem patient_counts_again :
    let calls : List Call := [.report false 1, .allow 70, .report false 71]
    ((new patient).after calls).failures = 1 ∧
      (((new patient).after calls).call (.report false 72)).2.state ≠ .closed := by
  intro calls
  obtain ⟨hcount, -, hleaves⟩ := failures_since_reset patient (le_refl 0) calls rfl
  exact ⟨hcount.trans rfl, (hleaves (.report false 72)).mpr ⟨⟨72, rfl⟩, rfl⟩⟩

end DDAG.Circuit
