import DDAG.Lib.Redis
import DDAG.Lib.Strings
import DDAG.Models

/-!
# The rate limiter

`internal/policy/ratelimit.go`: a script counts a call in the window of each limit, in order,
and stops at the first window whose limit is exceeded.  `Allow` reads the decision off the
reply of the script.  The script is atomic, so the calls of any number of gateways are a list.

A counter counts calls from the creation of its key until the key expires.  `limits_hold` says
that no more calls than its limit are allowed in the life of a counter, which call is denied
and for which window, and that the windows behind that one are left alone.
-/

namespace DDAG.Policy

open Models

/-! ## The script -/

abbrev Db := Text → Redis.Entry

/-- What the script does with one key: the new entry, the count and the time it has left. -/
structure Counted where
  entry : Redis.Entry
  current : Int
  ttl : Int

def count (now dur : Int) (e : Redis.Entry) : Counted :=
  let c := Redis.incr now e
  let entry := if c.value = 1 then Redis.pexpire now dur (some c) else some c
  { entry := entry, current := c.value, ttl := Redis.pttl now entry }

/-- A key of the script with its two arguments. -/
structure ScriptWindow where
  key : Text
  limit : Int
  dur : Int

/-- The script, with its reply: two integers for each window it came to. -/
def multiWindowScript (now : Int) : List ScriptWindow → Db → Db × List Int
  | [], db => (db, [])
  | w :: ws, db =>
      let r := count now w.dur (db w.key)
      let db := Function.update db w.key r.entry
      if w.limit < r.current then (db, [r.current, r.ttl])
      else
        let rest := multiWindowScript now ws db
        (rest.1, r.current :: r.ttl :: rest.2)

/-! ## Decisions -/

structure Window where
  suffix : Text
  /-- No limit, unless it is positive. -/
  limit : Int
  /-- In nanoseconds. -/
  duration : Int

structure Decision where
  allowed : Bool
  limit : Int := 0
  remaining : Int := 0
  resetSeconds : Int := 0
  exceededScope : Text := []
deriving DecidableEq

/-- `RateLimitFailureDecision`, and whether the request is refused. -/
def rateLimitFailureDecision (mode : Text) : Decision × Bool :=
  if Strings.equalFold Strings.foldRune (Strings.trimSpace mode) "closed".toList then
    ({ allowed := false, exceededScope := "fail_closed".toList }, true)
  else ({ allowed := true }, false)

def Window.milliseconds (w : Window) : Int := w.duration.tdiv 1000000

def Window.key (base : Text) (w : Window) : Text :=
  "ddag:rl:".toList ++ base ++ ":".toList ++ w.suffix

def Window.script (base : Text) (w : Window) : ScriptWindow :=
  { key := w.key base, limit := w.limit, dur := w.milliseconds }

def active (windows : List Window) : List Window := windows.filter (0 < ·.limit)

/-- The most constraining window so far. -/
def Decision.constrain (d : Decision) (w : Window) (remaining reset : Int) : Decision :=
  if d.remaining < 0 ∨ remaining < d.remaining then
    { d with remaining := remaining, limit := w.limit, resetSeconds := reset }
  else d

/-- The loop of `Allow` over the windows and the reply, which may be shorter. -/
def readReply : List Window → List Int → Decision → Decision
  | w :: ws, current :: ttl :: res, d =>
      let remaining := if w.limit - current < 0 then 0 else w.limit - current
      let reset := ttl.tdiv 1000
      let d := d.constrain w remaining reset
      if w.limit < current then
        { d with allowed := false, exceededScope := w.suffix, remaining := 0, limit := w.limit
                 resetSeconds := reset }
      else readReply ws res d
  | _, _, d => { d with remaining := if d.remaining < 0 then 0 else d.remaining }

/-- What becomes of a call to Redis. -/
inductive Delivery where
  | answered
  /-- The script runs, and its reply is lost. -/
  | lost
  | refused
deriving DecidableEq

/-- A call of `Allow`, at a time in milliseconds. -/
structure AllowCall where
  now : Int
  delivery : Delivery := .answered

/-- `Allow`.  A call that fails has no decision. -/
def allow (base : Text) (windows : List Window) (db : Db) (c : AllowCall) : Db × Option Decision :=
  let ws := active windows
  if ws = [] then (db, some { allowed := true })
  else
    let r := multiWindowScript c.now (ws.map (Window.script base)) db
    match c.delivery with
    | .answered => (r.1, some (readReply ws r.2 { allowed := true, remaining := -1 }))
    | .lost => (r.1, none)
    | .refused => (db, none)

/-- The windows of a rule. -/
def windowsFromRule (perSec perMin perHour perDay : Int) : List Window :=
  let second : Int := 1000000000
  [{ suffix := "s".toList, limit := perSec, duration := second },
    { suffix := "m".toList, limit := perMin, duration := 60 * second },
    { suffix := "h".toList, limit := perHour, duration := 3600 * second },
    { suffix := "d".toList, limit := perDay, duration := 24 * 3600 * second }]

/-! ## One call -/

/-- What the script makes of the entry of a window. -/
def Window.counted (base : Text) (w : Window) (now : Int) (db : Db) : Counted :=
  count now w.milliseconds (db (w.key base))

/-- The counter of the window exceeds its limit after an increment. -/
def Exceeds (base : Text) (now : Int) (db : Db) (w : Window) : Prop :=
  w.limit < (w.counted base now db).current

theorem key_inj {base : Text} {u w : Window} (h : u.key base = w.key base) : u.suffix = w.suffix :=
  List.append_cancel_left h

section Script

variable {base : Text} {now : Int} {db : Db}

def countIn (base : Text) (now : Int) (w : Window) (db : Db) : Db :=
  Function.update db (w.key base) (w.counted base now db).entry

theorem countIn_self (w : Window) :
    countIn base now w db (w.key base) = (w.counted base now db).entry := Function.update_self _ _ _

theorem countIn_of_ne {w : Window} {k : Text} (h : w.key base ≠ k) : countIn base now w db k = db k :=
  Function.update_of_ne (Ne.symm h) _ _

theorem counted_countIn {u w : Window} (h : w.key base ≠ u.key base) :
    u.counted base now (countIn base now w db) = u.counted base now db := by
  rw [Window.counted, countIn_of_ne h, Window.counted]

theorem keys_ne_of_nodup {w : Window} {ws : List Window}
    (hnodup : ((w :: ws).map Window.suffix).Nodup) {u : Window} (hu : u ∈ ws) :
    w.key base ≠ u.key base := by
  intro heq
  refine (List.nodup_cons.mp hnodup).1 ?_
  rw [key_inj heq]
  exact List.mem_map_of_mem hu

/-- The script, in terms of windows. -/
theorem script_cons (w : Window) (ws : List Window) :
    multiWindowScript now ((w :: ws).map (Window.script base)) db =
      if w.limit < (w.counted base now db).current then
        (countIn base now w db, [(w.counted base now db).current, (w.counted base now db).ttl])
      else
        ((multiWindowScript now (ws.map (Window.script base)) (countIn base now w db)).1,
          (w.counted base now db).current :: (w.counted base now db).ttl ::
            (multiWindowScript now (ws.map (Window.script base)) (countIn base now w db)).2) := rfl

/-- The keys that are not asked for stay. -/
theorem script_other {ws : List Window} {k : Text} (hk : ∀ w ∈ ws, w.key base ≠ k) :
    (multiWindowScript now (ws.map (Window.script base)) db).1 k = db k := by
  induction ws generalizing db with
  | nil => rfl
  | cons w ws ih =>
      obtain ⟨hw, hws⟩ := List.forall_mem_cons.mp hk
      rw [script_cons]
      split
      next _ => exact countIn_of_ne hw
      next _ => exact (ih hws).trans (countIn_of_ne hw)

/-- The windows up to the first one that exceeds its limit are counted, and the reply tells
which one that is. -/
inductive Outcome (base : Text) (now : Int) (db : Db) (ws : List Window) (after : Db) (d : Decision) : Prop
  | allowed (hallowed : d.allowed = true) (hall : ∀ w ∈ ws, ¬ Exceeds base now db w)
      (hcounted : ∀ w ∈ ws, after (w.key base) = (w.counted base now db).entry)
  | denied (earlier : List Window) (w : Window) (later : List Window) (hws : ws = earlier ++ w :: later)
      (hdenied : d.allowed = false) (hscope : d.exceededScope = w.suffix)
      (hexceeds : Exceeds base now db w) (hfirst : ∀ u ∈ earlier, ¬ Exceeds base now db u)
      (hcounted : ∀ u ∈ earlier ++ [w], after (u.key base) = (u.counted base now db).entry)
      (hlater : ∀ u ∈ later, after (u.key base) = db (u.key base))

theorem Decision.constrain_allowed (d : Decision) (w : Window) (remaining reset : Int) :
    (d.constrain w remaining reset).allowed = d.allowed := by
  unfold Decision.constrain
  split <;> rfl

theorem readReply_over {w : Window} {current : Int} (h : w.limit < current) (ws : List Window) (ttl : Int)
    (res : List Int) (d : Decision) :
    (readReply (w :: ws) (current :: ttl :: res) d).allowed = false ∧
      (readReply (w :: ws) (current :: ttl :: res) d).exceededScope = w.suffix := by
  simp [readReply, h]

theorem readReply_within {w : Window} {current : Int} (h : ¬ w.limit < current) (ws : List Window)
    (ttl : Int) (res : List Int) (d : Decision) :
    ∃ d', d'.allowed = d.allowed ∧
      readReply (w :: ws) (current :: ttl :: res) d = readReply ws res d' := by
  refine ⟨_, d.constrain_allowed w (if w.limit - current < 0 then 0 else w.limit - current)
    (ttl.tdiv 1000), ?_⟩
  rw [readReply]
  simp only [h, ↓reduceIte]

/-- A window in front whose limit is not exceeded. -/
theorem Outcome.cons {w : Window} {ws : List Window} {after : Db} {d : Decision}
    (hkeys : ∀ u ∈ ws, w.key base ≠ u.key base) (hlimit : ¬ Exceeds base now db w)
    (hself : after (w.key base) = (w.counted base now db).entry)
    (h : Outcome base now (countIn base now w db) ws after d) : Outcome base now db (w :: ws) after d := by
  -- the other windows have other keys, so nothing has happened to them yet
  have hcounted : ∀ u ∈ ws, u.counted base now (countIn base now w db) = u.counted base now db :=
    fun u hu => counted_countIn (hkeys u hu)
  have hexceeds : ∀ u ∈ ws, Exceeds base now (countIn base now w db) u ↔ Exceeds base now db u := by
    intro u hu
    rw [Exceeds, hcounted u hu, Exceeds]
  cases h with
  | allowed hallowed hall hnew =>
      refine .allowed hallowed (List.forall_mem_cons.mpr ⟨hlimit, ?_⟩) (List.forall_mem_cons.mpr ⟨hself, ?_⟩)
      · exact fun u hu hu' => hall u hu ((hexceeds u hu).mpr hu')
      · intro u hu
        rw [← hcounted u hu]
        exact hnew u hu
  | denied earlier v later hws hdenied hscope hv hfirst hnew hlater =>
      subst hws
      have hearlier : ∀ u ∈ earlier ++ [v], u ∈ earlier ++ v :: later := by
        intro u hu
        rw [List.append_cons]
        exact List.mem_append_left later hu
      have hvmem : v ∈ earlier ++ v :: later := hearlier v List.mem_concat_self
      refine .denied (w :: earlier) v later rfl hdenied hscope ((hexceeds v hvmem).mp hv) ?_ ?_ ?_
      · refine List.forall_mem_cons.mpr ⟨hlimit, fun u hu hu' => hfirst u hu ?_⟩
        exact (hexceeds u (List.mem_append_left _ hu)).mpr hu'
      · refine List.forall_mem_cons.mpr ⟨hself, fun u hu => ?_⟩
        rw [← hcounted u (hearlier u hu)]
        exact hnew u hu
      · intro u hu
        have hmem : u ∈ earlier ++ v :: later := List.mem_append_right _ (List.mem_cons_of_mem _ hu)
        exact (hlater u hu).trans (countIn_of_ne (hkeys u hmem))

/-- The decision that is read off the reply of the script. -/
theorem script_outcome {ws : List Window} (hnodup : (ws.map Window.suffix).Nodup) {d : Decision}
    (hd : d.allowed = true) :
    Outcome base now db ws (multiWindowScript now (ws.map (Window.script base)) db).1
      (readReply ws (multiWindowScript now (ws.map (Window.script base)) db).2 d) := by
  induction ws generalizing db d with
  | nil => exact .allowed hd (List.forall_mem_nil _) (List.forall_mem_nil _)
  | cons w ws ih =>
      have hkeys : ∀ u ∈ ws, w.key base ≠ u.key base := fun u hu => keys_ne_of_nodup hnodup hu
      rw [script_cons]
      split
      next hlimit =>
        have hread := readReply_over hlimit ws (w.counted base now db).ttl [] d
        refine .denied [] w ws rfl hread.1 hread.2 hlimit (List.forall_mem_nil _) ?_ ?_
        · exact List.forall_mem_singleton.mpr (countIn_self w)
        · exact fun u hu => countIn_of_ne (hkeys u hu)
      next hlimit =>
        obtain ⟨d', hd', hread⟩ := readReply_within hlimit ws (w.counted base now db).ttl
          (multiWindowScript now (ws.map (Window.script base)) (countIn base now w db)).2 d
        dsimp only
        rw [hread]
        refine Outcome.cons hkeys hlimit ?_ (ih (List.nodup_cons.mp hnodup).2 (hd'.trans hd))
        exact (script_other fun u hu => Ne.symm (hkeys u hu)).trans (countIn_self w)

end Script

/-- What a call does: it is denied exactly if a counter exceeds its limit after its increment,
for the first window of which that is so, and the windows behind that one stay as they are. -/
structure Decides (base : Text) (windows : List Window) (db : Db) (c : AllowCall) : Prop where
  denied_iff : ∀ d, (allow base windows db c).2 = some d →
    (d.allowed = false ↔ ∃ w ∈ active windows, Exceeds base c.now db w)
  first : ∀ d, (allow base windows db c).2 = some d → d.allowed = false →
    ∃ earlier w later, active windows = earlier ++ w :: later ∧ Exceeds base c.now db w ∧
      (∀ u ∈ earlier, ¬ Exceeds base c.now db u) ∧ d.exceededScope = w.suffix ∧
      ∀ u ∈ later, (allow base windows db c).1 (u.key base) = db (u.key base)

section Call

variable (base : Text) {windows : List Window} (db : Db)

/-- A call counts in its windows, or does nothing. -/
theorem allow_cases (hnodup : (windows.map Window.suffix).Nodup) (c : AllowCall) :
    ((allow base windows db c).1 = db ∧
      ∀ d, (allow base windows db c).2 = some d → active windows = [] ∧ d.allowed = true) ∨
    ∃ d, Outcome base c.now db (active windows) (allow base windows db c).1 d ∧
      ∀ d', (allow base windows db c).2 = some d' → d' = d := by
  have hactive : ((active windows).map Window.suffix).Nodup :=
    hnodup.sublist (List.filter_sublist.map Window.suffix)
  unfold allow
  dsimp only
  split
  next hnone =>
    refine .inl ⟨rfl, fun d hd => ⟨hnone, ?_⟩⟩
    cases hd
    rfl
  next _ =>
    have hout : Outcome base c.now db (active windows)
        (multiWindowScript c.now ((active windows).map (Window.script base)) db).1
        (readReply (active windows)
          (multiWindowScript c.now ((active windows).map (Window.script base)) db).2
          { allowed := true, remaining := -1 }) := script_outcome hactive rfl
    cases c.delivery with
    | answered => exact .inr ⟨_, hout, fun d' hd' => (Option.some.inj hd').symm⟩
    | lost => exact .inr ⟨_, hout, nofun⟩
    | refused => exact .inl ⟨rfl, nofun⟩

theorem allow_decides (hnodup : (windows.map Window.suffix).Nodup) (c : AllowCall) :
    Decides base windows db c := by
  rcases allow_cases base db hnodup c with ⟨-, hfree⟩ | ⟨d, hout, honly⟩
  · constructor
    · intro d hd
      obtain ⟨hnone, hallowed⟩ := hfree d hd
      simp [hnone, hallowed]
    · intro d hd hdenied
      exact absurd ((hfree d hd).2.symm.trans hdenied) (by decide)
  · cases hout with
    | allowed hallowed hall _ =>
        constructor
        · intro d' hd'
          rw [honly d' hd', hallowed]
          simpa using hall
        · intro d' hd' hdenied
          rw [honly d' hd', hallowed] at hdenied
          cases hdenied
    | denied earlier w later hws hdenied hscope hexceeds hfirst _ hlater =>
        constructor
        · intro d' hd'
          rw [honly d' hd', hdenied]
          refine ⟨fun _ => ⟨w, ?_, hexceeds⟩, fun _ => rfl⟩
          simp [hws]
        · intro d' hd' _
          rw [honly d' hd']
          exact ⟨earlier, w, later, hws, hexceeds, hfirst, hscope, hlater⟩

def lets (d : Option Decision) : Bool := d.any Decision.allowed

/-- A call leaves a window alone and is not allowed, or counts in it and is allowed within its
limit only. -/
theorem allow_window (hnodup : (windows.map Window.suffix).Nodup) {w : Window} (hw : w ∈ active windows)
    (c : AllowCall) :
    ((allow base windows db c).1 (w.key base) = db (w.key base) ∧
      lets (allow base windows db c).2 = false) ∨
    ((allow base windows db c).1 (w.key base) = (w.counted base c.now db).entry ∧
      (lets (allow base windows db c).2 = true → ¬ Exceeds base c.now db w)) := by
  rcases allow_cases base db hnodup c with ⟨hsame, hfree⟩ | ⟨d, hout, honly⟩
  · refine .inl ⟨by rw [hsame], ?_⟩
    cases hd : (allow base windows db c).2 with
    | none => rfl
    | some d =>
        rw [(hfree d hd).1] at hw
        cases hw
  · -- a denied call is not let through
    have hlets : d.allowed = false → lets (allow base windows db c).2 = false := by
      intro hdenied
      cases hd : (allow base windows db c).2 with
      | none => rfl
      | some d' =>
          rw [honly d' hd]
          exact hdenied
    cases hout with
    | allowed _ hall hcounted => exact .inr ⟨hcounted w hw, fun _ => hall w hw⟩
    | denied earlier v later hws hdenied _ _ _ hcounted hlater =>
        rw [hws, List.append_cons, List.mem_append] at hw
        rcases hw with hreached | hbehind
        · refine .inr ⟨hcounted w hreached, fun h => ?_⟩
          rw [hlets hdenied] at h
          cases h
        · exact .inl ⟨hlater w hbehind, hlets hdenied⟩

end Call

/-! ## The life of a counter -/

def allowAll (base : Text) (windows : List Window) (db : Db) (calls : List AllowCall) : Db :=
  calls.foldl (fun db c => (allow base windows db c).1) db

/-- The number of calls that are let through. -/
def allowedCount (base : Text) (windows : List Window) : Db → List AllowCall → Nat
  | _, [] => 0
  | db, c :: calls =>
      (lets (allow base windows db c).2).toNat + allowedCount base windows (allow base windows db c).1 calls

/-- The counter of the window is alive at every one of the calls. -/
def LivesOn (base : Text) (windows : List Window) (w : Window) : Db → List AllowCall → Prop
  | _, [] => True
  | db, c :: calls => (Redis.alive c.now (db (w.key base))).isSome = true ∧
      LivesOn base windows w (allow base windows db c).1 calls

theorem value_of_counted {now dur : Int} {e : Redis.Entry} {c : Redis.Counter}
    (h : (count now dur e).entry = some c) : c.value = (count now dur e).current := by
  unfold count at h ⊢
  dsimp only at h ⊢
  split at h
  next _ => exact Redis.value_of_pexpire h
  next _ =>
    cases h
    rfl

section Life

variable {base : Text} {windows : List Window} {w : Window}

/-- A counter that has come to `v` lets no more calls through than are left of its limit. -/
theorem allowedCount_of_livesOn (hnodup : (windows.map Window.suffix).Nodup) (hw : w ∈ active windows)
    {calls : List AllowCall} {db : Db} {v : Int} (hv : ∀ c, db (w.key base) = some c → v ≤ c.value)
    (hlive : LivesOn base windows w db calls) :
    (allowedCount base windows db calls : Int) + v ≤ w.limit ∨ allowedCount base windows db calls = 0 := by
  induction calls generalizing db v with
  | nil => exact .inr rfl
  | cons c calls ih =>
      obtain ⟨halive, hrest⟩ := hlive
      obtain ⟨k, hk⟩ := Option.isSome_iff_exists.mp halive
      have hvk : v ≤ k.value := hv k (Redis.alive_eq_some hk)
      have hcurrent : (w.counted base c.now db).current = k.value + 1 := Redis.incr_of_alive hk
      rw [allowedCount]
      rcases allow_window base db hnodup hw c with ⟨hsame, hlets⟩ | ⟨hentry, hwithin⟩
      · rw [hlets, Bool.toNat_false, Nat.zero_add]
        exact ih (hsame ▸ hv) hrest
      · have hnew : ∀ c', (allow base windows db c).1 (w.key base) = some c' → v + 1 ≤ c'.value := by
          intro c' hc'
          rw [value_of_counted (hentry.symm.trans hc')]
          show v + 1 ≤ (w.counted base c.now db).current
          omega
        cases hlets : lets (allow base windows db c).2 with
        | false =>
            rw [Bool.toNat_false, Nat.zero_add]
            exact ih (fun c' hc' => by have := hnew c' hc'; omega) hrest
        | true =>
            have hle : ¬ w.limit < (w.counted base c.now db).current := hwithin hlets
            rw [Bool.toNat_true]
            rcases ih hnew hrest with hleft | hzero <;> omega

/-- From its creation on, a counter lets no more calls through than its limit. -/
theorem allowedCount_of_created (hnodup : (windows.map Window.suffix).Nodup) (hw : w ∈ active windows)
    {db : Db} {c : AllowCall} {life : List AllowCall} (htimes : ∀ e ∈ life, c.now ≤ e.now)
    (hdead : Redis.alive c.now (db (w.key base)) = none)
    (hlive : LivesOn base windows w (allow base windows db c).1 life) :
    (allowedCount base windows db (c :: life) : Int) ≤ w.limit := by
  have hpos : 0 < w.limit := of_decide_eq_true (List.mem_filter.mp hw).2
  rw [allowedCount]
  rcases allow_window base db hnodup hw c with ⟨hsame, hlets⟩ | ⟨hentry, -⟩
  · -- the key was not created, and stays dead
    rw [hlets, Bool.toNat_false, Nat.zero_add]
    cases life with
    | nil =>
        show (0 : Int) ≤ w.limit
        omega
    | cons e life =>
        have hdead' := Redis.alive_of_le (htimes e List.mem_cons_self) hdead
        rw [LivesOn, hsame, hdead'] at hlive
        cases hlive.1
  · have hcurrent : (w.counted base c.now db).current = 1 := by
      show (Redis.incr c.now (db (w.key base))).value = 1
      rw [Redis.incr_of_dead hdead]
    have hone : ∀ c', (allow base windows db c).1 (w.key base) = some c' → 1 ≤ c'.value := by
      intro c' hc'
      rw [value_of_counted (hentry.symm.trans hc')]
      exact Int.le_of_eq hcurrent.symm
    have hbool := (lets (allow base windows db c).2).toNat_le
    rcases allowedCount_of_livesOn hnodup hw hone hlive with hleft | hzero <;> omega

end Life

/-- For every list of windows with different suffixes, whatever is in Redis, and every list of
calls at times that do not decrease: each call is denied exactly if the counter of a window
exceeds its limit after its increment, the window it names is the first one, and the windows
behind it are left alone; and of the calls from the creation of a counter until its key
expires, no more than its limit are allowed. -/
theorem limits_hold (base : Text) {windows : List Window} (hnodup : (windows.map Window.suffix).Nodup)
    (db : Db) {calls : List AllowCall} (htimes : calls.Pairwise fun c e => c.now ≤ e.now) :
    (∀ before c after, calls = before ++ c :: after →
      Decides base windows (allowAll base windows db before) c) ∧
    ∀ w ∈ active windows, ∀ before c life after, calls = before ++ c :: (life ++ after) →
      Redis.alive c.now (allowAll base windows db before (w.key base)) = none →
      LivesOn base windows w (allow base windows (allowAll base windows db before) c).1 life →
      (allowedCount base windows (allowAll base windows db before) (c :: life) : Int) ≤ w.limit := by
  refine ⟨fun before c after _ => allow_decides base _ hnodup c, ?_⟩
  rintro w hw before c life after rfl hdead hlive
  refine allowedCount_of_created hnodup hw (fun e he => ?_) hdead hlive
  have hlater := (List.pairwise_cons.mp (List.pairwise_append.mp htimes).2.1).1
  exact hlater e (List.mem_append_left after he)

def twoPerSecond : List Window := windowsFromRule 2 0 0 0

def burst : List AllowCall := [{ now := 0 }, { now := 10 }, { now := 500 }, { now := 1001 }]

/-- The third call in the life of the counter is denied. -/
theorem third_call_denied :
    ((allow "c".toList twoPerSecond (allowAll "c".toList twoPerSecond (fun _ => none)
        [{ now := 0 }, { now := 10 }]) { now := 500 }).2.map fun d => (d.allowed, d.exceededScope)) =
        some (false, "s".toList) ∧
      (allowedCount "c".toList twoPerSecond (fun _ => none) [{ now := 0 }, { now := 10 }, { now := 500 }] : Int) ≤ 2 := by
  refine ⟨by decide +kernel, ?_⟩
  have hactive : active twoPerSecond =
      [{ suffix := "s".toList, limit := 2, duration := 1000000000 }] := by rfl
  have htimes : burst.Pairwise fun c e => c.now ≤ e.now := by simp [burst]
  refine (limits_hold "c".toList (by decide +kernel) (fun _ => none) htimes).2
    { suffix := "s".toList, limit := 2, duration := 1000000000 } (by simp [hactive]) []
    { now := 0 } [{ now := 10 }, { now := 500 }] [{ now := 1001 }] rfl rfl ?_
  exact ⟨by decide +kernel, by decide +kernel, trivial⟩

end DDAG.Policy
