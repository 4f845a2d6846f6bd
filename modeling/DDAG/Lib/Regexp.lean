import Mathlib.Data.List.Forall2

/-!
# Regular expressions over runes

Regular expressions with classes of runes, concatenation, alternation,
repetition of a class and the word boundary `\b`.  Repetition of anything but a
class is left out, so `run` is structural and needs no fuel.

`run` gives every way to match at a place.  `matchString` tries every place of a
text.  `Accepts` says what a match is, of a matched text with what stands before
and after it, and `matchString_iff` says that `matchString` finds exactly these.
-/

namespace Regexp

/-- The runes of the class `\w`. -/
def isWord (c : Char) : Bool :=
  c == '_' || ('a' ≤ c && c ≤ 'z') || ('A' ≤ c && c ≤ 'Z') || ('0' ≤ c && c ≤ '9')

/-- The runes of the class `\s`. -/
def isSpace (c : Char) : Bool :=
  c == ' ' || c == '\t' || c == '\n' || c == '\x0c' || c == '\r'

/-- A word boundary stands between a word rune and anything else. -/
def atBoundary (before after : Option Char) : Bool := before.any isWord != after.any isWord

inductive Rx where
  | empty
  | rune (p : Char → Bool)
  | seq (a b : Rx)
  | alt (a b : Rx)
  | many (p : Char → Bool)
  | boundary

/-- A place in a text: the rune before it and the runes after it. -/
structure Place where
  before : Option Char
  rest : List Char

/-- The places after a run of runes of the class `p`, however long. -/
def manyFrom (p : Char → Bool) : Option Char → List Char → List Place
  | before, [] => [⟨before, []⟩]
  | before, c :: rest =>
      ⟨before, c :: rest⟩ :: (if p c then manyFrom p (some c) rest else [])

/-- The places at which a match from `x` can end. -/
def Rx.run : Rx → Place → List Place
  | .empty, x => [x]
  | .rune p, x =>
      match x.rest with
      | [] => []
      | c :: rest => if p c then [⟨some c, rest⟩] else []
  | .seq a b, x => (a.run x).flatMap b.run
  | .alt a b, x => a.run x ++ b.run x
  | .many p, x => manyFrom p x.before x.rest
  | .boundary, x => if atBoundary x.before x.rest.head? then [x] else []

def matchFrom (r : Rx) : Option Char → List Char → Bool
  | before, [] => !(r.run ⟨before, []⟩).isEmpty
  | before, c :: rest => !(r.run ⟨before, c :: rest⟩).isEmpty || matchFrom r (some c) rest

def matchString (r : Rx) (s : List Char) : Bool := matchFrom r none s

/-! ## What a match is -/

/-- The rune before the place after `w`. -/
def lastOr (before : Option Char) (w : List Char) : Option Char := w.getLast?.or before

/-- The expression matches `w` between `before` and `rest`. -/
def Rx.Accepts : Rx → Option Char → List Char → List Char → Prop
  | .empty, _, w, _ => w = []
  | .rune p, _, w, _ => ∃ c, w = [c] ∧ p c = true
  | .seq a b, before, w, rest =>
      ∃ u v, w = u ++ v ∧ a.Accepts before u (v ++ rest) ∧ b.Accepts (lastOr before u) v rest
  | .alt a b, before, w, rest => a.Accepts before w rest ∨ b.Accepts before w rest
  | .many p, _, w, _ => ∀ c ∈ w, p c = true
  | .boundary, before, w, rest => w = [] ∧ atBoundary before rest.head? = true

@[simp] theorem lastOr_nil (before : Option Char) : lastOr before [] = before := rfl

@[simp] theorem lastOr_none (w : List Char) : lastOr none w = w.getLast? := by
  simp [lastOr]

theorem lastOr_cons (before : Option Char) (c : Char) (w : List Char) :
    lastOr before (c :: w) = lastOr (some c) w := by
  cases w with
  | nil => rfl
  | cons c' w =>
      obtain ⟨x, hx⟩ : ∃ x, (c' :: w).getLast? = some x :=
        ⟨_, List.getLast?_eq_some_getLast (List.cons_ne_nil c' w)⟩
      simp [lastOr, List.getLast?_cons, hx]

theorem lastOr_append (before : Option Char) (u v : List Char) :
    lastOr before (u ++ v) = lastOr (lastOr before u) v := by
  simp [lastOr, List.getLast?_append, Option.or_assoc]

theorem mem_manyFrom_iff {p : Char → Bool} {before : Option Char} {s : List Char} {y : Place} :
    y ∈ manyFrom p before s ↔
      ∃ w, s = w ++ y.rest ∧ y.before = lastOr before w ∧ ∀ c ∈ w, p c = true := by
  obtain ⟨b, r⟩ := y
  induction s generalizing before with
  | nil =>
      simp only [manyFrom, List.mem_singleton, Place.mk.injEq]
      constructor
      · rintro ⟨rfl, rfl⟩
        exact ⟨[], rfl, rfl, by simp⟩
      · rintro ⟨w, hw, hb, -⟩
        obtain ⟨rfl, rfl⟩ := List.nil_eq_append_iff.mp hw
        exact ⟨hb, rfl⟩
  | cons c s ih =>
      simp only [manyFrom, List.mem_cons, Place.mk.injEq]
      constructor
      · rintro (⟨rfl, rfl⟩ | h)
        · exact ⟨[], rfl, rfl, by simp⟩
        · split at h
          next hc =>
            obtain ⟨w, hs, hb, hw⟩ := ih.mp h
            refine ⟨c :: w, by rw [hs]; rfl, by rw [lastOr_cons]; exact hb, ?_⟩
            simpa [hc] using hw
          next _ => cases h
      · rintro ⟨w, hs, hb, hw⟩
        cases w with
        | nil => exact .inl ⟨hb, hs.symm⟩
        | cons c' w =>
            cases hs
            rw [if_pos (hw _ List.mem_cons_self)]
            refine .inr (ih.mpr ⟨w, rfl, ?_, fun x hx => hw x (List.mem_cons_of_mem _ hx)⟩)
            rw [← lastOr_cons before]
            exact hb

/-- Matching nothing stays at the place. -/
theorem stays_iff {x y : Place} {c : Prop} :
    y = x ∧ c ↔ ∃ w, x.rest = w ++ y.rest ∧ y.before = lastOr x.before w ∧ w = [] ∧ c := by
  obtain ⟨before, rest⟩ := x
  obtain ⟨b, r⟩ := y
  constructor
  · rintro ⟨heq, hc⟩
    cases heq
    exact ⟨[], rfl, rfl, rfl, hc⟩
  · rintro ⟨_, hr, hb, rfl, hc⟩
    cases hr
    cases hb
    exact ⟨rfl, hc⟩

/-- `run` finds the matches. -/
theorem Rx.mem_run_iff {r : Rx} {x y : Place} :
    y ∈ r.run x ↔
      ∃ w, x.rest = w ++ y.rest ∧ y.before = lastOr x.before w ∧ r.Accepts x.before w y.rest := by
  induction r generalizing x y with
  | empty =>
      have hstays := stays_iff (x := x) (y := y) (c := True)
      simpa only [run, List.mem_singleton, Accepts, and_true] using hstays
  | rune p =>
      obtain ⟨before, rest⟩ := x
      obtain ⟨b, r⟩ := y
      cases rest with
      | nil => simp [run, Accepts]
      | cons c rest =>
          change _ ∈ (if p c then [Place.mk (some c) rest] else []) ↔ _
          constructor
          · intro h
            split at h
            next hc =>
              cases List.mem_singleton.mp h
              exact ⟨[c], rfl, rfl, c, rfl, hc⟩
            next _ => cases h
          · rintro ⟨_, hs, hb, c', rfl, hc⟩
            cases hs
            cases hb
            rw [if_pos hc]
            exact List.mem_singleton.mpr rfl
  | seq a b iha ihb =>
      simp only [run, List.mem_flatMap, Accepts]
      constructor
      · rintro ⟨z, hz, hy⟩
        obtain ⟨u, hu, hzb, hua⟩ := iha.mp hz
        obtain ⟨v, hv, hyb, hvb⟩ := ihb.mp hy
        refine ⟨u ++ v, by rw [hu, hv, List.append_assoc], ?_, u, v, rfl, ?_, ?_⟩
        · rw [lastOr_append, ← hzb, hyb]
        · rw [← hv]
          exact hua
        · rw [← hzb]
          exact hvb
      · rintro ⟨_, hr, hb, u, v, rfl, hua, hvb⟩
        rw [List.append_assoc] at hr
        rw [lastOr_append] at hb
        exact ⟨⟨lastOr x.before u, v ++ y.rest⟩, iha.mpr ⟨u, hr, rfl, hua⟩,
          ihb.mpr ⟨v, rfl, hb, hvb⟩⟩
  | alt a b iha ihb =>
      simp only [run, List.mem_append, Accepts, iha, ihb]
      constructor
      · rintro (⟨w, hr, hb, h⟩ | ⟨w, hr, hb, h⟩)
        · exact ⟨w, hr, hb, .inl h⟩
        · exact ⟨w, hr, hb, .inr h⟩
      · rintro ⟨w, hr, hb, h | h⟩
        · exact .inl ⟨w, hr, hb, h⟩
        · exact .inr ⟨w, hr, hb, h⟩
  | many p => exact mem_manyFrom_iff
  | boundary =>
      simp only [run, Accepts, List.mem_ite_nil_right, List.mem_singleton]
      rw [← stays_iff]
      constructor
      · rintro ⟨hat, rfl⟩
        exact ⟨rfl, hat⟩
      · rintro ⟨rfl, hat⟩
        exact ⟨hat, rfl⟩

theorem matchFrom_iff {r : Rx} {before : Option Char} {s : List Char} :
    matchFrom r before s = true ↔
      ∃ a w b, s = a ++ (w ++ b) ∧ r.Accepts (lastOr before a) w b := by
  have hhere : ∀ {before : Option Char} {s : List Char},
      (!(r.run ⟨before, s⟩).isEmpty) = true ↔ ∃ w b, s = w ++ b ∧ r.Accepts before w b := by
    intro before s
    rw [Bool.not_eq_true', ← Bool.not_eq_true, List.isEmpty_iff,
      List.eq_nil_iff_forall_not_mem]
    simp only [not_forall, not_not]
    constructor
    · rintro ⟨y, hy⟩
      obtain ⟨w, hs, -, hw⟩ := Rx.mem_run_iff.mp hy
      exact ⟨w, y.rest, hs, hw⟩
    · rintro ⟨w, b, hs, hw⟩
      exact ⟨⟨lastOr before w, b⟩, Rx.mem_run_iff.mpr ⟨w, hs, rfl, hw⟩⟩
  induction s generalizing before with
  | nil =>
      rw [matchFrom, hhere]
      constructor
      · rintro ⟨w, b, hs, hw⟩
        exact ⟨[], w, b, hs, hw⟩
      · rintro ⟨a, w, b, hs, hw⟩
        obtain ⟨rfl, hs⟩ := List.nil_eq_append_iff.mp hs
        exact ⟨w, b, hs, hw⟩
  | cons c s ih =>
      rw [matchFrom, Bool.or_eq_true, hhere]
      refine (or_congr_right ih).trans ?_
      constructor
      · rintro (⟨w, b, hs, hw⟩ | ⟨a, w, b, rfl, hw⟩)
        · exact ⟨[], w, b, hs, hw⟩
        · exact ⟨c :: a, w, b, rfl, by rw [lastOr_cons]; exact hw⟩
      · rintro ⟨a, w, b, hs, hw⟩
        cases a with
        | nil => exact .inl ⟨w, b, hs, hw⟩
        | cons c' a =>
            cases hs
            exact .inr ⟨a, w, b, rfl, by rw [← lastOr_cons before]; exact hw⟩

/-- `matchString` finds a match exactly when there is one. -/
theorem matchString_iff {r : Rx} {s : List Char} :
    matchString r s = true ↔ ∃ a w b, s = a ++ (w ++ b) ∧ r.Accepts a.getLast? w b := by
  rw [matchString, matchFrom_iff]
  simp only [lastOr_none]

/-! ## Words of classes -/

def Rx.word : List (Char → Bool) → Rx
  | [] => .empty
  | p :: ps => .seq (.rune p) (.word ps)

theorem Rx.accepts_word_iff {ps : List (Char → Bool)} {before : Option Char} {w rest : List Char} :
    (Rx.word ps).Accepts before w rest ↔ List.Forall₂ (fun p c => p c = true) ps w := by
  induction ps generalizing before w with
  | nil =>
      simp [word, Accepts]
  | cons p ps ih =>
      simp only [word, Accepts, ih]
      constructor
      · rintro ⟨_, v, rfl, ⟨c, rfl, hc⟩, hv⟩
        exact .cons hc hv
      · intro h
        cases h with
        | @cons _ c _ v hc hv => exact ⟨[c], v, rfl, ⟨c, rfl, hc⟩, hv⟩

def Rx.oneOf : List Rx → Rx
  | [] => .rune fun _ => false
  | r :: rs => .alt r (.oneOf rs)

theorem Rx.accepts_oneOf_iff {rs : List Rx} {before : Option Char} {w rest : List Char} :
    (Rx.oneOf rs).Accepts before w rest ↔ ∃ r ∈ rs, r.Accepts before w rest := by
  induction rs with
  | nil => simp [oneOf, Accepts]
  | cons r rs ih => simp [oneOf, Accepts, ih]

end Regexp
