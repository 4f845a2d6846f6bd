import DDAG.Policy.RateLimiter

/-!
# What a decision foretells

A decision of `Allow` tells the client how many calls are left and when to come
back.

* `Remaining` is the least number of calls a window has left.  Every call that is
  allowed takes one from each window, so it counts the calls down
  (`remaining_counts_down`).
* `ResetSeconds` is the lifetime of the key that denied the call, in whole
  seconds, rounded down.  `alive_at_reset` says that the key is still there when that
  time has passed, and gone right after it exactly if there was nothing to round.
  `retry_denied_again` is a call that is told to come back at once and denied again.
-/

namespace DDAG.Policy

open Models

/-! ## What is left -/

/-- What the window has left after a call at this time. -/
def Window.left (base : Text) (now : Int) (db : Db) (w : Window) : Int :=
  w.limit - (w.counted base now db).current

section Reply

variable {base : Text} {now : Int} {db : Db}

def decisionOf (base : Text) (now : Int) (db : Db) (ws : List Window) (d : Decision) : Decision :=
  readReply ws (multiWindowScript now (ws.map (Window.script base)) db).2 d

/-- A window within its limit leaves the decision to the others, with what it has left. -/
theorem decisionOf_cons {w : Window} (hw : ¬ Exceeds base now db w) (ws : List Window) (d : Decision) :
    decisionOf base now db (w :: ws) d = decisionOf base now (countIn base now w db) ws
      (d.constrain w (w.left base now db) ((w.counted base now db).ttl.tdiv 1000)) := by
  have hlimit : ¬ w.limit < (w.counted base now db).current := hw
  have hleft : ¬ w.limit - (w.counted base now db).current < 0 := by omega
  rw [decisionOf, script_cons, if_neg hlimit]
  dsimp only
  rw [readReply, if_neg hleft, if_neg hlimit]
  rfl

/-- Windows behind another one are within their limits, and have as much left, whether or not
that one was counted. -/
theorem behind_countIn {w : Window} {ws : List Window} (hnodup : ((w :: ws).map Window.suffix).Nodup)
    (hall : ∀ u ∈ ws, ¬ Exceeds base now db u) :
    (∀ u ∈ ws, ¬ Exceeds base now (countIn base now w db) u) ∧
      ws.map (Window.left base now (countIn base now w db)) = ws.map (Window.left base now db) := by
  have hcounted : ∀ u ∈ ws, u.counted base now (countIn base now w db) = u.counted base now db :=
    fun u hu => counted_countIn (keys_ne_of_nodup hnodup hu)
  constructor
  · intro u hu
    rw [Exceeds, hcounted u hu]
    exact hall u hu
  · refine List.map_congr_left fun u hu => ?_
    rw [Window.left, hcounted u hu, Window.left]

theorem Decision.constrain_remaining {d : Decision} (hd : 0 ≤ d.remaining) (w : Window)
    (remaining reset : Int) :
    (d.constrain w remaining reset).remaining = min d.remaining remaining := by
  unfold Decision.constrain
  split
  next _ =>
    show remaining = min d.remaining remaining
    omega
  next _ => omega

theorem left_nonneg {w : Window} (hw : ¬ Exceeds base now db w) : 0 ≤ w.left base now db :=
  Int.sub_nonneg_of_le (Int.not_lt.mp hw)

/-- The loop keeps the least number of calls that are left. -/
theorem decisionOf_remaining {ws : List Window} (hnodup : (ws.map Window.suffix).Nodup)
    (hall : ∀ w ∈ ws, ¬ Exceeds base now db w) {d : Decision} (hd : 0 ≤ d.remaining) :
    (decisionOf base now db ws d).remaining =
      (ws.map (Window.left base now db)).foldl min d.remaining := by
  induction ws generalizing db d with
  | nil =>
      show (if d.remaining < 0 then 0 else d.remaining) = d.remaining
      exact if_neg (by omega)
  | cons w ws ih =>
      obtain ⟨hw, hws⟩ := List.forall_mem_cons.mp hall
      obtain ⟨hall', hlefts⟩ := behind_countIn hnodup hws
      have hleft := left_nonneg hw
      have hmin := Decision.constrain_remaining hd w (w.left base now db)
        ((w.counted base now db).ttl.tdiv 1000)
      rw [decisionOf_cons hw, ih (List.nodup_cons.mp hnodup).2 hall' (by omega), hmin, hlefts]
      rfl

theorem decisionOf_least {ws : List Window} (hne : ws ≠ []) (hnodup : (ws.map Window.suffix).Nodup)
    (hall : ∀ w ∈ ws, ¬ Exceeds base now db w) :
    (ws.map (Window.left base now db)).min? =
      some (decisionOf base now db ws { allowed := true, remaining := -1 }).remaining := by
  cases ws with
  | nil => exact absurd rfl hne
  | cons w ws =>
      obtain ⟨hw, hws⟩ := List.forall_mem_cons.mp hall
      obtain ⟨hall', hlefts⟩ := behind_countIn hnodup hws
      rw [decisionOf_cons hw, decisionOf_remaining (List.nodup_cons.mp hnodup).2 hall' (left_nonneg hw), hlefts]
      exact List.min?_cons'

end Reply

/-! ## The calls that are left -/

/-- The decisions on some calls. -/
def decisions (base : Text) (windows : List Window) : Db → List AllowCall → List (Option Decision)
  | _, [] => []
  | db, c :: calls =>
      (allow base windows db c).2 :: decisions base windows (allow base windows db c).1 calls

/-- As many calls are allowed as the number says, each with one less remaining, and the next
one is denied. -/
def Countdown : Nat → List (Option Decision) → Prop
  | _, [] => True
  | 0, d :: _ => ∃ e, d = some e ∧ e.allowed = false
  | k + 1, d :: ds => (∃ e, d = some e ∧ e.allowed = true ∧ e.remaining = k) ∧ Countdown k ds

/-- An answered call decides on the reply. -/
theorem allow_answered (base : Text) {windows : List Window} (hne : active windows ≠ []) (db : Db)
    {c : AllowCall} (hc : c.delivery = .answered) :
    (allow base windows db c).1 =
        (multiWindowScript c.now ((active windows).map (Window.script base)) db).1 ∧
      (allow base windows db c).2 = some (decisionOf base c.now db (active windows)
        { allowed := true, remaining := -1 }) := by
  simp only [allow, if_neg hne, hc]
  exact ⟨trivial, rfl⟩

theorem answered_of_decision {base : Text} {windows : List Window} (hne : active windows ≠ []) {db : Db}
    {c : AllowCall} {d : Decision} (hd : (allow base windows db c).2 = some d) :
    c.delivery = .answered := by
  cases hdelivery : c.delivery with
  | answered => rfl
  | lost => simp [allow, hne, hdelivery] at hd
  | refused => simp [allow, hne, hdelivery] at hd

section Countdown

variable (base : Text) {windows : List Window}

/-- The least number of calls that a window has left, if it has been called `current w` times. -/
def leastLeft (windows : List Window) (current : Window → Int) : Option Int :=
  ((active windows).map fun w => w.limit - current w).min?

/-- The counters stand at these counts, where there are any. -/
def StandsAt (base : Text) (windows : List Window) (db : Db) (current : Window → Int) : Prop :=
  ∀ w ∈ active windows, ∀ e, db (w.key base) = some e → e.value = current w

theorem leastLeft_iff {current : Window → Int} {k : Int} :
    leastLeft windows current = some k ↔
      (∃ w ∈ active windows, w.limit - current w = k) ∧
        ∀ w ∈ active windows, k ≤ w.limit - current w := by
  rw [leastLeft, List.min?_eq_some_iff, List.mem_map, List.forall_mem_map]

/-- One more call everywhere leaves one less. -/
theorem leastLeft_succ {current current' : Window → Int} {k : Int}
    (hsucc : ∀ w ∈ active windows, current' w = current w + 1)
    (h : leastLeft windows current = some k) : leastLeft windows current' = some (k - 1) := by
  obtain ⟨⟨w, hw, hk⟩, hle⟩ := leastLeft_iff.mp h
  refine leastLeft_iff.mpr ⟨⟨w, hw, ?_⟩, fun u hu => ?_⟩
  · rw [hsucc w hw]
    omega
  · have hu' := hle u hu
    rw [hsucc u hu]
    omega

variable (hne : active windows ≠ []) (hnodup : ((active windows).map Window.suffix).Nodup)

include hne hnodup

/-- An answered call is allowed with what is left after it, or denied. -/
theorem allow_outcome (db : Db) {c : AllowCall} (hc : c.delivery = .answered) :
    ∃ d, (allow base windows db c).2 = some d ∧
      ((d.allowed = true ∧ (∀ w ∈ active windows, ¬ Exceeds base c.now db w) ∧
          leastLeft windows (fun w => (w.counted base c.now db).current) = some d.remaining ∧
          StandsAt base windows (allow base windows db c).1
            (fun w => (w.counted base c.now db).current)) ∨
        (d.allowed = false ∧ ∃ w ∈ active windows, Exceeds base c.now db w)) := by
  obtain ⟨hdb, hdecision⟩ := allow_answered base hne db hc
  have hout : Outcome base c.now db (active windows) (allow base windows db c).1
      (decisionOf base c.now db (active windows) { allowed := true, remaining := -1 }) :=
    hdb ▸ script_outcome hnodup rfl
  refine ⟨_, hdecision, ?_⟩
  cases hout with
  | allowed hallowed hall hcounted =>
      refine .inl ⟨hallowed, hall, decisionOf_least hne hnodup hall, fun w hw e he => ?_⟩
      exact value_of_counted ((hcounted w hw).symm.trans he)
  | denied earlier w later hws hdenied _ hexceeds _ _ _ =>
      exact .inr ⟨hdenied, w, by simp [hws], hexceeds⟩

/-- Counters that live on count down what is left. -/
theorem countdown_of_livesOn {calls : List AllowCall} (hanswered : ∀ c ∈ calls, c.delivery = .answered)
    {db : Db} {current : Window → Int} {k : Nat} (hleft : leastLeft windows current = some (k : Int))
    (hstands : StandsAt base windows db current)
    (hlive : ∀ w ∈ active windows, LivesOn base windows w db calls) :
    Countdown k (decisions base windows db calls) := by
  induction calls generalizing db current k with
  | nil => cases k <;> trivial
  | cons c calls ih =>
      obtain ⟨hc, hcalls⟩ := List.forall_mem_cons.mp hanswered
      -- every counter is alive, and this call adds one to it
      have hcurrent : ∀ w ∈ active windows, (w.counted base c.now db).current = current w + 1 := by
        intro w hw
        obtain ⟨e, he⟩ := Option.isSome_iff_exists.mp (hlive w hw).1
        rw [← hstands w hw e (Redis.alive_eq_some he)]
        exact Redis.incr_of_alive he
      obtain ⟨⟨v, hv, hk⟩, hle⟩ := leastLeft_iff.mp hleft
      obtain ⟨d, hd, ⟨hallowed, hwithin, hleast, hstands'⟩ | ⟨hdenied, w, hw, hexceeds⟩⟩ :=
        allow_outcome base hne hnodup db hc
      · cases k with
        | zero =>
            -- a window with nothing left would have denied the call
            refine absurd ?_ (hwithin v hv)
            rw [Exceeds, hcurrent v hv]
            omega
        | succ k =>
            have hremaining : d.remaining = k := by
              have hfewer := leastLeft_succ hcurrent hleft
              rw [hleast, Option.some.injEq] at hfewer
              omega
            refine ⟨⟨d, hd, hallowed, hremaining⟩, ih hcalls ?_ hstands' fun w hw => (hlive w hw).2⟩
            rw [hleast, hremaining]
      · cases k with
        | zero => exact ⟨d, hd, hdenied⟩
        | succ k =>
            have hlimit := hle w hw
            rw [Exceeds, hcurrent w hw] at hexceeds
            omega

end Countdown

/-- A call that is allowed with `k` calls remaining is followed by `k` calls that are allowed,
with `k - 1` remaining down to none, and the next call is denied, as long as every key lives. -/
theorem remaining_counts_down (base : Text) {windows : List Window} (hne : active windows ≠ [])
    (hnodup : ((active windows).map Window.suffix).Nodup) (db : Db) {c : AllowCall} {d : Decision}
    (hd : (allow base windows db c).2 = some d) (hallowed : d.allowed = true) {calls : List AllowCall}
    (hanswered : ∀ e ∈ calls, e.delivery = .answered)
    (hlive : ∀ w ∈ active windows, LivesOn base windows w (allow base windows db c).1 calls) :
    ∃ k : Nat, d.remaining = k ∧
      Countdown k (decisions base windows (allow base windows db c).1 calls) := by
  obtain ⟨d', hd', ⟨-, hwithin, hleast, hstands⟩ | ⟨hdenied, -⟩⟩ :=
    allow_outcome base hne hnodup db (answered_of_decision hne hd)
  · cases hd.symm.trans hd'
    obtain ⟨⟨w, hw, hleft⟩, -⟩ := leastLeft_iff.mp hleast
    have hnonneg : 0 ≤ d.remaining := hleft ▸ left_nonneg (hwithin w hw)
    refine ⟨d.remaining.toNat, by omega, ?_⟩
    exact countdown_of_livesOn base hne hnodup hanswered (by rw [hleast]; congr 1; omega) hstands hlive
  · cases hd.symm.trans hd'
    cases hallowed.symm.trans hdenied

def twoAndThree : List Window := windowsFromRule 2 3 0 0

/-- The second window of a call in a new second has one call left, which it allows. -/
theorem last_call_of_minute :
    let db := allowAll "c".toList twoAndThree (fun _ => none) [{ now := 0 }]
    let db' := (allow "c".toList twoAndThree db { now := 1500 }).1
    (allow "c".toList twoAndThree db { now := 1500 }).2.map (fun d => (d.allowed, d.remaining)) =
        some (true, 1) ∧
      Countdown 1 (decisions "c".toList twoAndThree db' [{ now := 1600 }, { now := 1700 }]) := by
  intro db db'
  have hfirst : (allow "c".toList twoAndThree db { now := 1500 }).2 = some
      { allowed := true, limit := 2, remaining := 1, resetSeconds := 1 } := by decide +kernel
  have hlive : ∀ w ∈ active twoAndThree, LivesOn "c".toList twoAndThree w db'
      [{ now := 1600 }, { now := 1700 }] := by
    simp only [show active twoAndThree = [{ suffix := "s".toList, limit := 2, duration := 1000000000 },
      { suffix := "m".toList, limit := 3, duration := 60000000000 }] from rfl, List.forall_mem_cons]
    exact ⟨⟨by decide +kernel, by decide +kernel, trivial⟩,
      ⟨by decide +kernel, by decide +kernel, trivial⟩, List.forall_mem_nil _⟩
  obtain ⟨k, hk, hcount⟩ := remaining_counts_down "c".toList (by decide +kernel)
    (by decide +kernel) db hfirst rfl (by simp) hlive
  cases Int.ofNat.inj hk
  exact ⟨by rw [hfirst]; rfl, hcount⟩

/-! ## When to come back -/

section Reset

variable {base : Text} {now : Int} {db : Db}

/-- A window that denies a call has a key that lives. -/
theorem counted_of_exceeds {w : Window} (hpos : 0 < w.limit) (h : Exceeds base now db w) :
    ∃ e, (w.counted base now db).entry = some e ∧ e.isAlive now = true := by
  have hmany : (Redis.incr now (db (w.key base))).value ≠ 1 := by
    have hlimit : w.limit < (Redis.incr now (db (w.key base))).value := h
    omega
  exact ⟨_, if_neg hmany, Redis.isAlive_of_incr hmany⟩

/-- A denial names the window whose count ended the script, and gives the lifetime of its
key. -/
theorem decisionOf_denied {ws : List Window} (hpos : ∀ w ∈ ws, 0 < w.limit) {d : Decision}
    (hd : d.allowed = true) (hdenied : (decisionOf base now db ws d).allowed = false) :
    ∃ w ∈ ws, (decisionOf base now db ws d).exceededScope = w.suffix ∧
      ∃ e, (multiWindowScript now (ws.map (Window.script base)) db).1 (w.key base) = some e ∧
        e.isAlive now = true ∧
        (decisionOf base now db ws d).resetSeconds = (Redis.pttl now (some e)).tdiv 1000 := by
  induction ws generalizing db d with
  | nil => cases hd.symm.trans hdenied
  | cons w ws ih =>
      obtain ⟨hw, hws⟩ := List.forall_mem_cons.mp hpos
      by_cases hexceeds : Exceeds base now db w
      · obtain ⟨e, he, halive⟩ := counted_of_exceeds hw hexceeds
        have hlimit : w.limit < (w.counted base now db).current := hexceeds
        have httl : (w.counted base now db).ttl = Redis.pttl now (some e) := by
          rw [← he]
          rfl
        refine ⟨w, List.mem_cons_self, ?_⟩
        rw [decisionOf, script_cons, if_pos hlimit]
        simp only [readReply, if_pos hlimit]
        exact ⟨trivial, e, (countIn_self w).trans he, halive, by rw [httl]⟩
      · rw [decisionOf_cons hexceeds] at hdenied ⊢
        obtain ⟨u, hu, hscope, e, he, halive, hreset⟩ :=
          ih hws ((d.constrain_allowed w _ _).trans hd) hdenied
        have hlimit : ¬ w.limit < (w.counted base now db).current := hexceeds
        refine ⟨u, List.mem_cons_of_mem w hu, hscope, e, ?_, halive, hreset⟩
        rw [script_cons, if_neg hlimit]
        exact he

/-- Whole seconds are no longer than the lifetime they are taken from. -/
theorem alive_at_seconds {e : Redis.Counter} (halive : e.isAlive now = true) :
    (Redis.alive (now + (Redis.pttl now (some e)).tdiv 1000 * 1000) (some e)).isSome = true := by
  refine Redis.LivesUntil.alive ⟨e, rfl, fun t hexpire => ?_⟩ (Int.le_refl _)
  rw [Redis.pttl_of_isAlive halive, hexpire, Option.map_some, Option.getD_some]
  rw [Redis.Counter.isAlive, hexpire] at halive
  have hle : now ≤ t := of_decide_eq_true halive
  rw [Int.tdiv_eq_ediv_of_nonneg (by omega)]
  omega

/-- Whole seconds cover a lifetime exactly if it is a whole number of seconds. -/
theorem dead_after_seconds_iff {e : Redis.Counter} (halive : e.isAlive now = true) :
    (∀ later, now + (Redis.pttl now (some e)).tdiv 1000 * 1000 < later →
      Redis.alive later (some e) = none) ↔ 1000 ∣ Redis.pttl now (some e) := by
  rw [Redis.dead_after_iff, Redis.pttl_of_isAlive halive]
  unfold Redis.Counter.isAlive at halive
  cases hexpire : e.expireAt with
  | none =>
      -- a key without a lifetime has `-1`
      simp
  | some t =>
      rw [hexpire] at halive
      have hle : now ≤ t := of_decide_eq_true halive
      simp only [Option.map_some, Option.getD_some, Option.some.injEq, exists_eq_left']
      rw [Int.tdiv_eq_ediv_of_nonneg (by omega)]
      omega

end Reset

/-- The key of the window that denied a call is still there when `ResetSeconds` have passed.  It is
gone at every later time exactly if what was left of its life is a whole number of seconds. -/
theorem alive_at_reset (base : Text) (windows : List Window) (db : Db) {c : AllowCall} {d : Decision}
    (hd : (allow base windows db c).2 = some d) (hdenied : d.allowed = false) {w : Window}
    (hscope : d.exceededScope = w.suffix) :
    let entry := (allow base windows db c).1 (w.key base)
    (Redis.alive (c.now + d.resetSeconds * 1000) entry).isSome = true ∧
      ((∀ later, c.now + d.resetSeconds * 1000 < later → Redis.alive later entry = none) ↔
        1000 ∣ Redis.pttl c.now entry) := by
  intro entry
  have hne : active windows ≠ [] := by
    intro hnone
    simp only [allow, if_pos hnone, Option.some.injEq] at hd
    cases hd
    cases hdenied
  have hpos : ∀ w ∈ active windows, 0 < w.limit := fun w hw => of_decide_eq_true (List.mem_filter.mp hw).2
  obtain ⟨hdb, hdecision⟩ := allow_answered base hne db (answered_of_decision hne hd)
  cases hd.symm.trans hdecision
  obtain ⟨u, -, hscope', e, he, halive, hreset⟩ := decisionOf_denied hpos rfl hdenied
  have hsuffix : w.suffix = u.suffix := hscope.symm.trans hscope'
  have hkey : w.key base = u.key base := congrArg (_ ++ ·) hsuffix
  have hentry : entry = some e := (congrFun hdb _).trans (hkey ▸ he)
  rw [hentry, hreset]
  exact ⟨alive_at_seconds halive, dead_after_seconds_iff halive⟩

/-- A third call after exactly a second of a minute that is a second old. -/
theorem whole_seconds_covered :
    let db := allowAll "c".toList (windowsFromRule 0 2 0 0) (fun _ => none) [{ now := 0 }, { now := 10 }]
    let r := allow "c".toList (windowsFromRule 0 2 0 0) db { now := 1000 }
    r.2.map (fun d => (d.allowed, d.resetSeconds)) = some (false, 59) ∧
      (Redis.alive 60000 (r.1 "ddag:rl:c:m".toList)).isSome = true ∧
      Redis.alive 60001 (r.1 "ddag:rl:c:m".toList) = none := by
  intro db r
  have hd : r.2 = some { allowed := false, limit := 2, resetSeconds := 59, exceededScope := "m".toList } := by
    decide +kernel
  have hreset := alive_at_reset "c".toList (windowsFromRule 0 2 0 0) db hd rfl
    (w := { suffix := "m".toList, limit := 2, duration := 60000000000 }) rfl
  refine ⟨by rw [hd]; rfl, hreset.1, hreset.2.mpr ?_ 60001 (by decide)⟩
  have httl : Redis.pttl 1000 (r.1 "ddag:rl:c:m".toList) = 59000 := by decide +kernel
  exact ⟨59, httl⟩

/-- Half a second before the end of its window a call is denied with nothing to wait for, and
denied again for the same window when it comes back. -/
theorem retry_denied_again :
    let db := allowAll "c".toList twoPerSecond (fun _ => none) [{ now := 0 }, { now := 10 }]
    let r := allow "c".toList twoPerSecond db { now := 500 }
    r.2 = some { allowed := false, limit := 2, resetSeconds := 0, exceededScope := "s".toList } ∧
      (Redis.alive 500 (r.1 "ddag:rl:c:s".toList)).isSome = true ∧
      (allow "c".toList twoPerSecond r.1 { now := 900 }).2 =
        some { allowed := false, limit := 2, resetSeconds := 0, exceededScope := "s".toList } := by
  decide +kernel

end DDAG.Policy
