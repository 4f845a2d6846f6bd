import DDAG.Lib.Loop
import Mathlib.Data.List.Basic
import Mathlib.Tactic.Cases

/-!
# Lexers and the loops they drive

A lexer reads one token off the front of a text and gives the text that is
left, or reads nothing.  `LexesTo lexeme s ts r` says that reading token after
token from `s` gives `ts` and leaves `r`; `Lexes` is the case where nothing is
left.  A lexer that consumes what it reads (`Consuming`) lexes a text in at
most one way.

A scanning loop (`scanBody`) reads one token a pass and hands it to an action
on an accumulator.  The action may end the loop.  Where the lexer reads nothing
the pass comes back to its own state, so the loop hangs there.
`scan_visits_iff` describes the states such a loop comes to, and
`scan_progresses_iff` says when each of its passes moves on.
-/

namespace Machine

variable {χ τ κ ρ : Type*}

/-- One token and the text left after it, or nothing. -/
abbrev Lexer (χ τ : Type*) := List χ → Option (τ × List χ)

/-- Reading token after token from `s` gives `ts` and leaves `r`. -/
inductive LexesTo (lexeme : Lexer χ τ) : List χ → List τ → List χ → Prop where
  | done {s : List χ} : LexesTo lexeme s [] s
  | read {s s' r : List χ} {t : τ} {ts : List τ} :
      lexeme s = some (t, s') → LexesTo lexeme s' ts r → LexesTo lexeme s (t :: ts) r

/-- The whole text is read, as the tokens `ts`. -/
def Lexes (lexeme : Lexer χ τ) (s : List χ) (ts : List τ) : Prop := LexesTo lexeme s ts []

/-- A lexer reads nothing off an empty text, and shortens the text it reads
off. -/
structure Consuming (lexeme : Lexer χ τ) : Prop where
  nil : lexeme [] = none
  shorter : ∀ {s s' : List χ} {t : τ}, lexeme s = some (t, s') → s'.length < s.length

/-! ## Composing and comparing readings -/

theorem LexesTo.trans {lexeme : Lexer χ τ} {s m r : List χ} {ts us : List τ}
    (h : LexesTo lexeme s ts m) (h' : LexesTo lexeme m us r) :
    LexesTo lexeme s (ts ++ us) r := by
  induction h with
  | done => exact h'
  | read hl _ ih => exact .read hl (ih h')

theorem LexesTo.single {lexeme : Lexer χ τ} {s r : List χ} {t : τ}
    (h : lexeme s = some (t, r)) : LexesTo lexeme s [t] r :=
  .read h .done

/-- A reading of several tokens stops between them. -/
theorem LexesTo.of_append {lexeme : Lexer χ τ} {s r : List χ} {ts us : List τ}
    (h : LexesTo lexeme s (ts ++ us) r) : ∃ m, LexesTo lexeme s ts m ∧ LexesTo lexeme m us r := by
  induction ts generalizing s with
  | nil => exact ⟨s, .done, h⟩
  | cons t ts ih =>
      cases h with
      | read hl hrest =>
          obtain ⟨m, hts, hus⟩ := ih hrest
          exact ⟨m, .read hl hts, hus⟩

/-- A reading that stops early is the start of the reading of the whole. -/
theorem LexesTo.prefix_of_lexes {lexeme : Lexer χ τ} (hc : Consuming lexeme)
    {s m : List χ} {ts us : List τ} (h : LexesTo lexeme s ts m) (h' : Lexes lexeme s us) :
    ∃ vs, us = ts ++ vs ∧ Lexes lexeme m vs := by
  induction h generalizing us with
  | done => exact ⟨us, rfl, h'⟩
  | read hl _ ih =>
      cases h' with
      | done => rw [hc.nil] at hl; cases hl
      | read hl' hr' =>
          rw [hl] at hl'
          cases hl'
          obtain ⟨vs, hvs, hm⟩ := ih hr'
          exact ⟨vs, by rw [hvs]; rfl, hm⟩

theorem Lexes.unique {lexeme : Lexer χ τ} (hc : Consuming lexeme) {s : List χ}
    {ts us : List τ} (h : Lexes lexeme s ts) (h' : Lexes lexeme s us) : ts = us := by
  obtain ⟨vs, hvs, hm⟩ := h.prefix_of_lexes hc h'
  cases hm with
  | done => rw [hvs, List.append_nil]
  | read hl _ => rw [hc.nil] at hl; cases hl

theorem LexesTo.eq_nil {lexeme : Lexer χ τ} (hc : Consuming lexeme) {ts : List τ} {r : List χ}
    (h : LexesTo lexeme [] ts r) : r = [] := by
  cases h with
  | done => rfl
  | read hl _ => rw [hc.nil] at hl; cases hl

/-- A reading that leaves another text than it started at has read a token. -/
theorem LexesTo.first {lexeme : Lexer χ τ} {s r : List χ} {ts : List τ} (h : LexesTo lexeme s ts r)
    (hne : s ≠ r) :
    ∃ x s' us, ts = x :: us ∧ lexeme s = some (x, s') ∧ LexesTo lexeme s' us r := by
  cases h with
  | done => exact absurd rfl hne
  | read hl hrest => exact ⟨_, _, _, rfl, hl, hrest⟩

theorem LexesTo.length_le {lexeme : Lexer χ τ} (hc : Consuming lexeme) {s r : List χ} {ts : List τ}
    (h : LexesTo lexeme s ts r) : r.length + ts.length ≤ s.length := by
  induction h with
  | done => simp
  | read hl _ ih =>
      have hlt := hc.shorter hl
      simp only [List.length_cons]
      omega

/-- Two tails are read up to alike, if every token before them either ends before
both tails, and is the same, or takes the first tail. -/
theorem LexesTo.change_tail {lexeme : Lexer χ τ} (hc : Consuming lexeme) {t t' : List χ}
    (ht : t ≠ [])
    (hstep : ∀ c s, (∃ x r, r.length ≤ s.length ∧ lexeme (c :: (s ++ t)) = some (x, r ++ t) ∧
        lexeme (c :: (s ++ t')) = some (x, r ++ t')) ∨
      ∃ x, lexeme (c :: (s ++ t)) = some (x, []))
    {s : List χ} {ts : List τ} (h : LexesTo lexeme (s ++ t) ts t) :
    LexesTo lexeme (s ++ t') ts t' := by
  induction hn : s.length using Nat.strongRecOn generalizing s ts with
  | _ n ih =>
      cases s with
      | nil =>
          have hle := h.length_le hc
          rw [List.nil_append] at hle
          have hts : ts = [] := List.eq_nil_of_length_eq_zero (by omega)
          subst hts
          exact .done
      | cons c s =>
          have hne : c :: s ++ t ≠ t := by
            intro heq
            have hlen := congrArg List.length heq
            simp only [List.length_append, List.length_cons] at hlen
            omega
          obtain ⟨x, s', us, rfl, hread, hrest⟩ := h.first hne
          rw [List.cons_append] at hread
          rcases hstep c s with ⟨y, r, hr, hl, hl'⟩ | ⟨y, hl⟩
          · cases hread.symm.trans hl
            simp only [List.length_cons] at hn
            exact .read hl' (ih r.length (by omega) hrest rfl)
          · cases hread.symm.trans hl
            exact absurd (hrest.eq_nil hc) ht

/-- A lexer that reads a token off every non-empty text lexes every text. -/
theorem exists_lexes {lexeme : Lexer χ τ} (hc : Consuming lexeme)
    (htotal : ∀ s, s ≠ [] → lexeme s ≠ none) (s : List χ) : ∃ ts, Lexes lexeme s ts := by
  induction hn : s.length using Nat.strongRecOn generalizing s with
  | _ n ih =>
      cases hl : lexeme s with
      | none =>
          have hs : s = [] := by
            by_contra hne
            exact htotal s hne hl
          subst hs
          exact ⟨[], .done⟩
      | some p =>
          have hlt := hc.shorter hl
          obtain ⟨ts, hts⟩ := ih p.2.length (by omega) p.2 rfl
          exact ⟨p.1 :: ts, .read hl hts⟩

/-! ## Scanning loops -/

/-- Act on what the lexer read at `s`.  Where no token can be read the pass
does not move. -/
def afterRead (act : κ → τ → Except ρ κ) (s : List χ) (k : κ) :
    Option (τ × List χ) → Pass (List χ × κ) ρ
  | none => .again (s, k)
  | some (t, s') =>
      match act k t with
      | .ok k' => .again (s', k')
      | .error r => .leave r

/-- One pass: read a token and act on it.  At the end of the text the loop
leaves. -/
def scanBody (lexeme : Lexer χ τ) (act : κ → τ → Except ρ κ) (finish : κ → ρ) :
    List χ × κ → Pass (List χ × κ) ρ
  | ([], k) => .leave (finish k)
  | (c :: s, k) => afterRead act (c :: s) k (lexeme (c :: s))

/-- The size of a state of a scanning loop: what is left to read. -/
def left (p : List χ × κ) : Nat := p.1.length

section Scan

variable {lexeme : Lexer χ τ} {act : κ → τ → Except ρ κ} {finish : κ → ρ}

theorem scanBody_nil (k : κ) : scanBody lexeme act finish ([], k) = .leave (finish k) := rfl

theorem scanBody_stuck {s : List χ} (k : κ) (hs : s ≠ []) (hl : lexeme s = none) :
    scanBody lexeme act finish (s, k) = .again (s, k) := by
  cases s with
  | nil => exact absurd rfl hs
  | cons c s => simp [scanBody, afterRead, hl]

theorem scanBody_ok (hc : Consuming lexeme) {s s' : List χ} {t : τ} {k k' : κ}
    (hl : lexeme s = some (t, s')) (ha : act k t = .ok k') :
    scanBody lexeme act finish (s, k) = .again (s', k') := by
  cases s with
  | nil => rw [hc.nil] at hl; cases hl
  | cons c s => simp [scanBody, afterRead, hl, ha]

theorem scanBody_error (hc : Consuming lexeme) {s s' : List χ} {t : τ} {k : κ} {r : ρ}
    (hl : lexeme s = some (t, s')) (ha : act k t = .error r) :
    scanBody lexeme act finish (s, k) = .leave r := by
  cases s with
  | nil => rw [hc.nil] at hl; cases hl
  | cons c s => simp [scanBody, afterRead, hl, ha]

/-- What a pass that goes round again did: nothing, or read one token. -/
theorem scanBody_again {s s' : List χ} {k k' : κ}
    (h : scanBody lexeme act finish (s, k) = .again (s', k')) :
    (s ≠ [] ∧ lexeme s = none ∧ s' = s ∧ k' = k) ∨
      ∃ t, lexeme s = some (t, s') ∧ act k t = .ok k' := by
  cases s with
  | nil => simp [scanBody] at h
  | cons c s =>
      cases hl : lexeme (c :: s) with
      | none =>
          simp only [scanBody, afterRead, hl, Pass.again.injEq, Prod.mk.injEq] at h
          exact .inl ⟨by simp, rfl, h.1.symm, h.2.symm⟩
      | some p =>
          obtain ⟨t, r⟩ := p
          cases ha : act k t with
          | error e => simp [scanBody, afterRead, hl, ha] at h
          | ok k₁ =>
              simp only [scanBody, afterRead, hl, ha, Pass.again.injEq, Prod.mk.injEq] at h
              obtain ⟨rfl, rfl⟩ := h
              exact .inr ⟨t, rfl, ha⟩

theorem scan_advances (hc : Consuming lexeme) : Advances (scanBody lexeme act finish) left := by
  rintro ⟨s, k⟩ ⟨s', k'⟩ h
  rcases scanBody_again h with ⟨_, _, rfl, rfl⟩ | ⟨t, hl, _⟩
  · exact .inr rfl
  · exact .inl (hc.shorter hl)

/-- The states a scanning loop comes to are the ends of the readings whose
tokens the action all lets pass. -/
theorem scan_visits_iff (hc : Consuming lexeme) {s s' : List χ} {k k' : κ} :
    Visits (scanBody lexeme act finish) (s, k) (s', k') ↔
      ∃ ts, LexesTo lexeme s ts s' ∧ ts.foldlM act k = .ok k' := by
  constructor
  · intro h
    generalize hp : (s, k) = p at h
    generalize hq : (s', k') = q at h
    induction h generalizing s k with
    | here =>
        subst hp
        cases hq
        exact ⟨[], .done, rfl⟩
    | @again _ p' _ hb _ ih =>
        subst hp
        obtain ⟨s₁, k₁⟩ := p'
        obtain ⟨ts, hts, hf⟩ := ih rfl hq
        rcases scanBody_again hb with ⟨_, _, rfl, rfl⟩ | ⟨t, hl, ha⟩
        · exact ⟨ts, hts, hf⟩
        · exact ⟨t :: ts, .read hl hts, by rw [List.foldlM_cons, ha]; exact hf⟩
  · rintro ⟨ts, hts, hf⟩
    induction hts generalizing k with
    | done =>
        cases hf
        exact .here
    | @read s₀ s₁ r t ts hl _ ih =>
        rw [List.foldlM_cons] at hf
        cases ha : act k t with
        | error e => rw [ha] at hf; cases hf
        | ok k₁ =>
            rw [ha] at hf
            exact .again (scanBody_ok hc hl ha) (ih hf)

/-- Every pass moves on exactly when the lexer is nowhere stuck on the way. -/
theorem scan_progresses_iff (hc : Consuming lexeme) (s : List χ) (k : κ) :
    Progresses (scanBody lexeme act finish) left (s, k) ↔
      ∀ ts s' k', LexesTo lexeme s ts s' → ts.foldlM act k = .ok k' → s' ≠ [] →
        lexeme s' ≠ none := by
  constructor
  · intro hp ts s' k' hts hf hne hl
    have hstuck : scanBody lexeme act finish (s', k') = .again (s', k') :=
      scanBody_stuck k' hne hl
    have hlt := hp _ _ ((scan_visits_iff hc).mpr ⟨ts, hts, hf⟩) hstuck
    exact absurd hlt (Nat.lt_irrefl _)
  · rintro h ⟨s₁, k₁⟩ ⟨s₂, k₂⟩ hv hb
    obtain ⟨ts, hts, hf⟩ := (scan_visits_iff hc).mp hv
    rcases scanBody_again hb with ⟨hne, hl, _, _⟩ | ⟨t, hl, _⟩
    · exact absurd hl (h ts s₁ k₁ hts hf hne)
    · exact hc.shorter hl

/-- A text that lexes is scanned to its end. -/
theorem scan_returns_finish (hc : Consuming lexeme) {s : List χ} {ts : List τ} {k k' : κ}
    (h : Lexes lexeme s ts) (hf : ts.foldlM act k = .ok k') :
    Returns (scanBody lexeme act finish) (s, k) (finish k') := by
  rw [((scan_visits_iff hc).mpr ⟨ts, h, hf⟩).returns_iff]
  exact (returns_leave (scanBody_nil k')).mpr rfl

/-- An action that ends the loop ends it with its own result. -/
theorem scan_returns_error (hc : Consuming lexeme) {s r : List χ} {ts : List τ} {k : κ} {e : ρ}
    (h : LexesTo lexeme s ts r) (hf : ts.foldlM act k = .error e) :
    Returns (scanBody lexeme act finish) (s, k) e := by
  induction h generalizing k with
  | done => cases hf
  | @read s₀ s₁ r t ts hl _ ih =>
      rw [List.foldlM_cons] at hf
      cases ha : act k t with
      | error e' =>
          rw [ha] at hf
          cases hf
          exact (returns_leave (scanBody_error hc hl ha)).mpr rfl
      | ok k₁ =>
          rw [ha] at hf
          exact (returns_again (scanBody_ok hc hl ha)).mpr (ih hf)

/-- A scanning loop that returns has read its text to the end, or up to the
token its action ended it at. -/
theorem scan_returns_inv (hc : Consuming lexeme) {s : List χ} {k : κ} {r : ρ}
    (h : Returns (scanBody lexeme act finish) (s, k) r) :
    (∃ ts k', Lexes lexeme s ts ∧ ts.foldlM act k = .ok k' ∧ r = finish k') ∨
      ∃ ts s', LexesTo lexeme s ts s' ∧ ts.foldlM act k = .error r := by
  obtain ⟨n, hn⟩ := h
  induction n generalizing s k with
  | zero => cases hn
  | succ n ih =>
      by_cases hs : s = []
      · subst hs
        rw [runFor_leave (scanBody_nil k)] at hn
        cases hn
        exact .inl ⟨[], k, .done, rfl, rfl⟩
      · cases hl : lexeme s with
        | none =>
            rw [runFor_again (scanBody_stuck k hs hl)] at hn
            exact ih hn
        | some p =>
            obtain ⟨t, s'⟩ := p
            cases ha : act k t with
            | error e =>
                rw [runFor_leave (scanBody_error hc hl ha)] at hn
                cases hn
                exact .inr ⟨[t], s', .single hl, by rw [List.foldlM_cons, ha]; rfl⟩
            | ok k₁ =>
                rw [runFor_again (scanBody_ok hc hl ha)] at hn
                rcases ih hn with ⟨ts, k', hts, hf, hr⟩ | ⟨ts, s'', hts, hf⟩
                · exact .inl ⟨t :: ts, k', .read hl hts,
                    by rw [List.foldlM_cons, ha]; exact hf, hr⟩
                · exact .inr ⟨t :: ts, s'', .read hl hts,
                    by rw [List.foldlM_cons, ha]; exact hf⟩

/-- A loop whose action never ends it gives what the action makes of the tokens of the text. -/
theorem scan_eq_some_iff (hc : Consuming lexeme) {k : κ} {f : List τ → κ}
    (hf : ∀ ts : List τ, ts.foldlM act k = .ok (f ts)) {s : List χ} {r : ρ} :
    exec (scanBody lexeme act finish) left (s, k) = some r ↔ ∃ ts, Lexes lexeme s ts ∧ r = finish (f ts) := by
  refine (scan_advances hc).exec_eq_some_iff.trans ⟨fun h => ?_, ?_⟩
  · rcases scan_returns_inv hc h with ⟨ts, k', hts, hk, rfl⟩ | ⟨ts, _, _, hk⟩
    · rw [hf] at hk
      cases hk
      exact ⟨ts, hts, rfl⟩
    · rw [hf] at hk
      cases hk
  · rintro ⟨ts, hts, rfl⟩
    exact scan_returns_finish hc hts (hf ts)

end Scan

/-! ## Lexing as a function -/

/-- The tokens of a text, `none` if it does not lex. -/
def lexAll (lexeme : Lexer χ τ) (s : List χ) : Option (List τ) :=
  exec (scanBody lexeme (fun ts t => (.ok (ts ++ [t]) : Except (List τ) (List τ))) id) left (s, [])

theorem foldlM_collect (ts us : List τ) :
    ts.foldlM (fun us t => (.ok (us ++ [t]) : Except (List τ) (List τ))) us = .ok (us ++ ts) := by
  induction ts generalizing us with
  | nil => rw [List.append_nil]; rfl
  | cons t ts ih =>
      refine (ih (us ++ [t])).trans ?_
      rw [List.append_assoc]
      rfl

theorem lexAll_eq_some_iff {lexeme : Lexer χ τ} (hc : Consuming lexeme) {s : List χ}
    {ts : List τ} : lexAll lexeme s = some ts ↔ Lexes lexeme s ts := by
  refine (scan_eq_some_iff hc fun ts => foldlM_collect ts []).trans ?_
  simp only [List.nil_append, id_eq, exists_eq_right']

end Machine
