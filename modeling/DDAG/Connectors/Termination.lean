import DDAG.Connectors.Lexemes

/-!
# When the scanners terminate

Two cases of the switch in the scanners move the position only if an inner
condition holds: a `$` that opens a closed dollar quote, and an Oracle `q'`
that is closed.  If the condition fails the loop goes round again from the same
position, for ever.

`IdleDollar` and `UnclosedQ` say of a text that it starts with such an opening,
in terms of the text alone.  `scanners_terminate_iff` says that the three loops
move on at every pass, and so return, exactly when no position they come to
starts with one.  The publish side stops at every idle dollar, whatever the
dialect; the binder stops at one for PostgreSQL only, and never goes past a
parameter without a value.
-/

namespace DDAG.Connectors

open Machine

/-! ## Closing tags -/

theorem findTag_eq_none_iff {tag : Text} (htag : tag ≠ []) (s : Text) :
    findTag tag s = none ↔ ¬ tag <:+: s := by
  induction s with
  | nil => simp [findTag, htag]
  | cons c rest ih =>
      rw [findTag, List.infix_cons_iff]
      by_cases hp : tag.isPrefixOf (c :: rest) = true
      · simp [hp, List.isPrefixOf_iff_prefix.mp hp]
      · have hp' : ¬ tag <+: c :: rest := fun h => hp (List.isPrefixOf_iff_prefix.mpr h)
        simp [hp, hp', ih]

theorem findClose_eq_none_iff (close : Char) (s : Text) :
    findClose close s = none ↔ ¬ [close, '\''] <:+: s := by
  fun_induction findClose close s with
  | case1 c c' rest h =>
      obtain ⟨rfl, rfl⟩ := h
      simp only [reduceCtorEq, false_iff, not_not]
      exact ⟨[], rest, rfl⟩
  | case2 c c' rest h ih =>
      refine ih.trans (not_congr ⟨List.infix_cons, fun hin => ?_⟩)
      rcases List.infix_cons_iff.mp hin with hp | hin'
      · simp only [List.cons_prefix_cons, List.nil_prefix, and_true] at hp
        exact absurd ⟨hp.1.symm, hp.2.symm⟩ h
      · exact hin'
  | case3 s h =>
      refine iff_of_true rfl (fun hin => ?_)
      cases s with
      | nil => simpa using hin.length_le
      | cons c s =>
          cases s with
          | nil => simpa using hin.length_le
          | cons c' rest => exact h c c' rest rfl

/-! ## Openings that are never closed -/

/-- The runes after an opening dollar that are read as the tag. -/
def dollarTag (rest : Text) : Text := rest.takeWhile fun c => isIdentPart c || c == '$'

/-- A dollar that opens no closed dollar quote: the run of tag runes after it
does not end in a dollar, or the tag does not occur again. -/
def IdleDollar (s : Text) : Prop :=
  ∃ rest, s = '$' :: rest ∧
    ((dollarTag rest).getLast? ≠ some '$' ∨
      ¬ '$' :: dollarTag rest <:+: rest.drop (dollarTag rest).length)

/-- An Oracle quote whose closing rune is never followed by a quote. -/
def UnclosedQ (s : Text) : Prop :=
  ∃ r body, s = 'q' :: '\'' :: r :: body ∧ ¬ [closeOf r, '\''] <:+: body

def PublishHangs (d : Dialect) (s : Text) : Prop := IdleDollar s ∨ d = .oracle ∧ UnclosedQ s

def BindHangs (d : Dialect) (s : Text) : Prop :=
  d = .postgres ∧ IdleDollar s ∨ d = .oracle ∧ UnclosedQ s

theorem dollarQuoteEnd_eq_none_iff (rest : Text) :
    dollarQuoteEnd ('$' :: rest) = none ↔ IdleDollar ('$' :: rest) := by
  have hd : IdleDollar ('$' :: rest) ↔ ((dollarTag rest).getLast? ≠ some '$' ∨
      ¬ '$' :: dollarTag rest <:+: rest.drop (dollarTag rest).length) := by
    constructor
    · rintro ⟨rest', h, hr⟩
      cases h
      exact hr
    · exact fun h => ⟨rest, rfl, h⟩
  rw [hd, ← findTag_eq_none_iff (by simp)]
  simp only [dollarQuoteEnd]
  change (if (dollarTag rest).getLast? = some '$' then
    findTag ('$' :: dollarTag rest) (rest.drop (dollarTag rest).length) else none) = none ↔ _
  by_cases hl : (dollarTag rest).getLast? = some '$' <;> simp [hl]

theorem oracleQuoteEnd_eq_none_iff {s : Text} (h : opensOracleQuote s = true) :
    oracleQuoteEnd s = none ↔ UnclosedQ s := by
  unfold opensOracleQuote at h
  split at h
  next r body =>
    rw [oracleQuoteEnd, findClose_eq_none_iff]
    constructor
    · exact fun hn => ⟨r, body, rfl, hn⟩
    · rintro ⟨r', body', heq, hn⟩
      cases heq
      exact hn
  next _ => cases h

theorem UnclosedQ.opens {s : Text} (h : UnclosedQ s) : opensOracleQuote s = true := by
  obtain ⟨r, body, rfl, _⟩ := h
  rfl

theorem Opening.ofEnd_dangling_iff {o : Option Text} : Opening.ofEnd o = .dangling ↔ o = none := by
  cases o <;> simp [Opening.ofEnd]

theorem undollaredForms_dangling_iff (d : Dialect) (skipHash : Text → Text) (s : Text) :
    undollaredForms d skipHash s = .dangling ↔ d = .oracle ∧ UnclosedQ s := by
  unfold undollaredForms
  by_cases hq : d = .oracle ∧ opensOracleQuote s = true
  · obtain ⟨rfl, ho⟩ := hq
    simp [ho, Opening.ofEnd_dangling_iff, oracleQuoteEnd_eq_none_iff ho]
  · have hq' : ¬(d = .oracle ∧ UnclosedQ s) := fun h => hq ⟨h.1, h.2.opens⟩
    simp only [hq, hq', ↓reduceIte, iff_false]
    split_ifs <;> exact nofun

theorem publishForms_dangling_iff (d : Dialect) (s : Text) :
    publishForms d s = .dangling ↔ PublishHangs d s := by
  rw [publishForms, PublishHangs]
  split
  next h1 =>
    obtain ⟨rest, rfl⟩ : ∃ rest, s = '$' :: rest := ⟨s.tail, (List.eq_cons_of_mem_head? h1)⟩
    have hq : ¬ UnclosedQ ('$' :: rest) := fun h => by cases h.opens
    simp only [Opening.ofEnd_dangling_iff, dollarQuoteEnd_eq_none_iff, hq, and_false, or_false]
  next h1 =>
    have hi : ¬ IdleDollar s := by
      rintro ⟨rest, rfl, _⟩
      exact h1 rfl
    rw [undollaredForms_dangling_iff, or_iff_right hi]

theorem bindForms_dangling_iff (d : Dialect) (s : Text) :
    bindForms d s = .dangling ↔ BindHangs d s := by
  rw [bindForms, BindHangs]
  split
  next h1 =>
    obtain ⟨rfl, h1⟩ := h1
    obtain ⟨rest, rfl⟩ : ∃ rest, s = '$' :: rest := ⟨s.tail, (List.eq_cons_of_mem_head? h1)⟩
    simp only [Opening.ofEnd_dangling_iff, dollarQuoteEnd_eq_none_iff, true_and, reduceCtorEq, false_and,
      or_false]
  next h1 =>
    have hi : ¬(d = .postgres ∧ IdleDollar s) := by
      rintro ⟨hd, rest, rfl, _⟩
      exact h1 ⟨hd, rfl⟩
    rw [undollaredForms_dangling_iff, or_iff_right hi]

/-! ## The passes of the scanners -/

theorem lexeme_stuck_iff {forms : Forms} (hnil : forms [] ≠ .dangling) {binds : Bool} {s : Text} :
    (s ≠ [] → lexeme forms binds s ≠ none) ↔ forms s ≠ .dangling := by
  cases s with
  | nil => exact iff_of_true (fun h => absurd rfl h) hnil
  | cons c rest =>
      have hcons : c :: rest ≠ [] := nofun
      rw [imp_iff_right hcons]
      exact not_congr lexeme_eq_none_iff

theorem not_publishHangs_nil (d : Dialect) : ¬ PublishHangs d [] := by
  rintro (⟨_, h, _⟩ | ⟨_, _, _, h, _⟩) <;> cases h

theorem not_bindHangs_nil (d : Dialect) : ¬ BindHangs d [] := by
  rintro (⟨_, _, h, _⟩ | ⟨_, _, _, h, _⟩) <;> cases h

/-- A loop moves on at every pass exactly when no form dangles at a position its
action lets it come to. -/
theorem scan_lexeme_progresses_iff {forms : Forms} (hf : forms.Proper)
    (hnil : forms [] ≠ .dangling) {binds : Bool} {κ ρ : Type*} {act : κ → Lexeme → Except ρ κ}
    {finish : κ → ρ} (q : Text) (k : κ) :
    Progresses (scanBody (lexeme forms binds) act finish) left (q, k) ↔
      ∀ ts s, LexesTo (lexeme forms binds) q ts s → (∃ k', ts.foldlM act k = .ok k') →
        forms s ≠ .dangling := by
  rw [scan_progresses_iff (lexeme_consuming hf binds)]
  refine forall₂_congr fun ts s => ⟨fun h hts ⟨k', hk⟩ => ?_, fun h k' hts hk => ?_⟩
  · exact (lexeme_stuck_iff hnil).mp (h k' hts hk)
  · exact (lexeme_stuck_iff hnil).mpr (h hts ⟨k', hk⟩)

theorem extractBody_progresses_iff (d : Dialect) (q : Text) (order : List Text) :
    Progresses (extractBody d) left (q, order) ↔
      ∀ ts s, LexesTo (lexeme (publishForms d) true) q ts s → ¬ PublishHangs d s := by
  have hnil := (publishForms_dangling_iff d []).not.mpr (not_publishHangs_nil d)
  rw [extractBody_eq, scan_lexeme_progresses_iff (publishForms_proper d) hnil]
  refine forall₃_congr fun ts s _ => ?_
  rw [imp_iff_right ⟨_, foldlM_extractAct ts order⟩]
  exact (publishForms_dangling_iff d s).not

theorem stripBody_progresses_iff (d : Dialect) (q : Text) (out : Text) :
    Progresses (stripBody d) left (q, out) ↔
      ∀ ts s, LexesTo (lexeme (publishForms d) false) q ts s → ¬ PublishHangs d s := by
  have hnil := (publishForms_dangling_iff d []).not.mpr (not_publishHangs_nil d)
  rw [stripBody_eq, scan_lexeme_progresses_iff (publishForms_proper d) hnil]
  refine forall₃_congr fun ts s _ => ?_
  rw [imp_iff_right ⟨_, foldlM_stripAct ts out⟩]
  exact (publishForms_dangling_iff d s).not

section Binder

variable {α : Type*} (params : Table α) (ph : Placeholder)

/-- The binder goes past lexemes whose parameters all have values. -/
theorem foldlM_bindAct_ok_iff {ts : List Lexeme} {b : Bound α} :
    (∃ b', ts.foldlM (bindAct params ph) b = .ok b') ↔
      ∀ name ∈ paramNames ts, params name ≠ none := by
  rw [foldlM_bindAct, ← firstMissing_eq_none_iff]
  cases firstMissing params ts <;> simp

theorem bindDialectBody_progresses_iff (d : Dialect) (q : Text) (b : Bound α) :
    Progresses (bindDialectBody params ph d) left (q, b) ↔
      ∀ ts s, LexesTo (lexeme (bindForms d) true) q ts s →
        (∀ name ∈ paramNames ts, params name ≠ none) → ¬ BindHangs d s := by
  have hnil := (bindForms_dangling_iff d []).not.mpr (not_bindHangs_nil d)
  rw [bindDialectBody_eq, scan_lexeme_progresses_iff (bindForms_proper d) hnil]
  refine forall₃_congr fun ts s _ => ?_
  rw [foldlM_bindAct_ok_iff]
  exact imp_congr_right fun _ => (bindForms_dangling_iff d s).not

end Binder

/-! ## Termination of the scanners -/

/-- Every pass of a scanner moves its position on or leaves the loop, and the
scanner returns. -/
structure Terminates {κ ρ : Type*} (body : Text × κ → Pass (Text × κ) ρ) (p : Text × κ) : Prop where
  progresses : Progresses body left p
  returns : (exec body left p).isSome

theorem terminates_iff {κ ρ : Type*} {body : Text × κ → Pass (Text × κ) ρ} {p : Text × κ} :
    Terminates body p ↔ Progresses body left p :=
  ⟨fun h => h.progresses, fun h => ⟨h, h.runFor_isSome (Nat.lt_succ_self _)⟩⟩

/-- The three scanners terminate on a template exactly when none of them comes
to an opening that it does not get past. -/
theorem scanners_terminate_iff {α : Type*} (q : Text) (d : Dialect) (params : Table α)
    (ph : Placeholder) :
    (Terminates (bindDialectBody params ph d) (q, {}) ∧ Terminates (extractBody d) (q, []) ∧
        Terminates (stripBody d) (q, [])) ↔
      (∀ ts s, LexesTo (lexeme (bindForms d) true) q ts s →
        (∀ name ∈ paramNames ts, params name ≠ none) → ¬ BindHangs d s) ∧
      (∀ binds ts s, LexesTo (lexeme (publishForms d) binds) q ts s → ¬ PublishHangs d s) := by
  rw [terminates_iff, terminates_iff, terminates_iff, bindDialectBody_progresses_iff,
    extractBody_progresses_iff, stripBody_progresses_iff, Bool.forall_bool]
  exact and_congr_right fun _ => and_comm

/-- A positional placeholder in a template hangs all three scanners. -/
theorem placeholder_hangs :
    let q := "SELECT $1".toList
    ¬ Terminates (bindDialectBody (fun _ => none : Table Nat) placeholderDollar .postgres) (q, {}) ∧
      ¬ Terminates (extractBody .postgres) (q, []) ∧ ¬ Terminates (stripBody .postgres) (q, []) := by
  refine ⟨fun h => ?_, fun h => ?_, fun h => ?_⟩
  · exact absurd h.returns (by decide +kernel)
  · exact absurd h.returns (by decide +kernel)
  · exact absurd h.returns (by decide +kernel)

end DDAG.Connectors
