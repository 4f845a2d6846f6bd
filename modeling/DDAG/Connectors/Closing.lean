import DDAG.Connectors.Assembled

/-!
# Changing what follows

A region that ends before the end of a text does not depend on what follows it, but for the
rune that would go on with it.  So a region or a rune that `Bind` reads is read again with another text behind
it (`commonLexeme_change_region`, `commonLexeme_change_rune`), and what `Bind` reads up to a blank it reads up to any text of inert
runes (`lexesTo_change_inert`).
-/

namespace DDAG.Connectors

open Machine

/-! ## Regions that are closed -/

section Closed

variable {u s t : Text}

theorem ne_of_suffix_cons {c : Char} {rest after : Text} (h : after <:+ rest) : after ≠ c :: rest := by
  rintro rfl
  have hlen := h.length_le
  rw [List.length_cons] at hlen
  omega

theorem append_ne_of_ne_nil (hu : u ≠ []) : u ++ s ≠ s :=
  fun h => hu (List.append_left_eq_self.mp h)

theorem skipDelimitedFrom_ne (quote : Char) (hs : s ≠ []) : skipDelimitedFrom quote s ≠ s := by
  cases s with
  | nil => exact absurd rfl hs
  | cons c rest =>
      refine ne_of_suffix_cons ?_
      rw [skipDelimitedFrom.eq_def]
      dsimp only
      split
      next _ =>
        cases rest with
        | nil => exact List.nil_suffix
        | cons c' rest' =>
            dsimp only
            split
            next _ => exact (skipDelimitedFrom_suffix quote rest').trans (List.suffix_cons _ _)
            next _ => exact List.suffix_rfl
      next _ => exact skipDelimitedFrom_suffix quote rest

theorem skipDelimitedFrom_change {quote : Char} (h : skipDelimitedFrom quote (u ++ s) = s)
    (hs : s ≠ []) (ht : t.head? ≠ some quote) : skipDelimitedFrom quote (u ++ t) = t := by
  fun_induction skipDelimitedFrom quote u with
  | case1 => exact absurd h (skipDelimitedFrom_ne quote hs)
  | case2 =>
      cases t with
      | nil => simp [skipDelimitedFrom]
      | cons x t =>
          have hx : x ≠ quote := fun hx => ht (congrArg some hx)
          simp [skipDelimitedFrom, hx]
  | case3 rest' ih =>
      simp only [List.cons_append, skipDelimitedFrom, if_true] at h ⊢
      exact ih h
  | case4 c' rest' hc =>
      simp only [List.cons_append, skipDelimitedFrom, if_true, if_neg hc] at h
      exact absurd h (append_ne_of_ne_nil (u := c' :: rest') (List.cons_ne_nil _ _))
  | case5 c rest hc ih =>
      rw [List.cons_append, skipDelimitedFrom.eq_def] at h ⊢
      simp only [if_neg hc] at h ⊢
      exact ih h

theorem skipDelimitedFrom_head (quote : Char) (s : Text) :
    (skipDelimitedFrom quote s).head? ≠ some quote := by
  fun_induction skipDelimitedFrom quote s with
  | case1 => simp
  | case2 => simp
  | case3 rest' ih => exact ih
  | case4 c' rest' hc => simpa using hc
  | case5 c rest hc ih => exact ih

theorem skipLiteral_cons {c : Char} (hc : c ≠ '\'') (rest : Text) :
    skipLiteral (c :: rest) = skipLiteral rest := by
  rw [skipLiteral]
  · exact fun _ h _ => hc h
  · exact hc

theorem skipLiteral_ne (hs : s ≠ []) : skipLiteral s ≠ s := by
  cases s with
  | nil => exact absurd rfl hs
  | cons c rest =>
      refine ne_of_suffix_cons ?_
      rw [skipLiteral.eq_def]
      split
      next heq => cases heq
      next rest' heq =>
        cases heq
        exact (skipLiteral_suffix rest').trans (List.suffix_cons _ _)
      next rest' _ heq =>
        cases heq
        exact List.suffix_rfl
      next _ _ _ heq =>
        cases heq
        exact skipLiteral_suffix _

theorem skipLiteral_head (s : Text) : (skipLiteral s).head? ≠ some '\'' := by
  fun_induction skipLiteral s with
  | case1 => simp
  | case2 rest ih => exact ih
  | case3 rest hrest =>
      intro hhead
      obtain ⟨rest', rfl⟩ := List.head?_eq_some_iff.mp hhead
      exact hrest rest' rfl
  | case4 c rest h1 h2 ih => exact ih

theorem skipLiteral_change (h : skipLiteral (u ++ s) = s) (hs : s ≠ []) (ht : t.head? ≠ some '\'') :
    skipLiteral (u ++ t) = t := by
  fun_induction skipLiteral u with
  | case1 => exact absurd h (skipLiteral_ne hs)
  | case2 rest ih => exact ih h
  | case3 rest hrest =>
      have hclosed : ∀ v : Text, (rest ++ v).head? ≠ some '\'' →
          skipLiteral ('\'' :: (rest ++ v)) = rest ++ v := by
        intro v hv
        rw [skipLiteral]
        intro w heq
        exact hv (by rw [heq]; rfl)
      cases rest with
      | cons c rest =>
          have hc : c ≠ '\'' := by
            rintro rfl
            exact hrest rest rfl
          have hend := hclosed s fun heq => hc (Option.some.inj heq)
          exact absurd (hend.symm.trans h) (append_ne_of_ne_nil (List.cons_ne_nil _ _))
      | nil => exact hclosed t ht
  | case4 c rest h1 h2 ih =>
      rw [List.cons_append, skipLiteral_cons h2] at h ⊢
      exact ih h

theorem skipBlock_cons {c : Char} {rest : Text} (h : c = '*' → rest.head? ≠ some '/') :
    skipBlock (c :: rest) = skipBlock rest := by
  rw [skipBlock]
  rintro rest' hc rfl
  exact h hc rfl

theorem skipBlock_ne (hs : s ≠ []) : skipBlock s ≠ s := by
  cases s with
  | nil => exact absurd rfl hs
  | cons c rest =>
      refine ne_of_suffix_cons ?_
      rw [skipBlock.eq_def]
      split
      next heq => cases heq
      next rest' heq =>
        cases heq
        exact List.suffix_cons _ _
      next _ _ heq =>
        cases heq
        exact skipBlock_suffix _

theorem skipBlock_cons_ne (c : Char) (hs : s ≠ []) : skipBlock (c :: s) ≠ s := by
  by_cases hc : c = '*' ∧ s.head? = some '/'
  · obtain ⟨rfl, hhead⟩ := hc
    cases s with
    | nil => cases hhead
    | cons x s =>
        cases hhead
        exact (List.cons_ne_self '/' s).symm
  · rw [skipBlock_cons fun hstar hhead => hc ⟨hstar, hhead⟩]
    exact skipBlock_ne hs

theorem skipBlock_change (h : skipBlock (u ++ s) = s) (hs : s ≠ []) : skipBlock (u ++ t) = t := by
  fun_induction skipBlock u with
  | case1 => exact absurd h (skipBlock_ne hs)
  | case2 rest =>
      obtain rfl : rest = [] := List.append_left_eq_self.mp h
      rfl
  | case3 c rest hrest ih =>
      cases rest with
      | nil => exact absurd h (skipBlock_cons_ne c hs)
      | cons x rest =>
          have hne : ∀ v : Text, c = '*' → (x :: rest ++ v).head? ≠ some '/' := by
            rintro v hc hx
            cases hx
            exact hrest rest hc rfl
          rw [List.cons_append, skipBlock_cons (hne _)] at h ⊢
          exact ih h

theorem skipLine_change (h : skipLine (u ++ s) = s) (hs : s ≠ [])
    (ht : s.head? = some '\n' → t.head? = some '\n') : skipLine (u ++ t) = t := by
  induction u with
  | nil =>
      have hbreak : s.head? = some '\n' := by
        cases s with
        | nil => exact absurd rfl hs
        | cons c s =>
            by_contra hc
            rw [List.nil_append, skipLine_cons fun heq => hc (congrArg some heq)] at h
            exact ne_of_suffix_cons (skipLine_suffix s) h
      obtain ⟨t', rfl⟩ := List.head?_eq_some_iff.mp (ht hbreak)
      simp [skipLine]
  | cons c u ih =>
      by_cases hc : c = '\n'
      · have hstop : skipLine (c :: (u ++ s)) = c :: u ++ s := by simp [skipLine, hc]
        exact absurd (hstop.symm.trans h) (append_ne_of_ne_nil (List.cons_ne_nil _ _))
      · rw [List.cons_append, skipLine_cons hc] at h ⊢
        exact ih h

end Closed

/-! ## Lexemes -/

/-- The runes that may go on with the lexeme before them. -/
def continuers : List Char := ['"', '\'', '-', '*']

/-- Behind a lexeme the text `t` may stand for `s`: it starts with the same rune, or with one that
goes on with nothing.  A line comment ends only before a line break. -/
def StandsFor (s t : Text) : Prop :=
  t.head? = s.head? ∨ s.head? ≠ some '\n' ∧ ∀ x ∈ continuers, t.head? ≠ some x

section Change

variable {s t u : Text} {c : Char} {x : Lexeme}

theorem StandsFor.head?_ne {y : Char} (h : StandsFor s t) (hy : continuers.contains y = true)
    (hs : s.head? ≠ some y) : t.head? ≠ some y := by
  rcases h with heq | ⟨-, hno⟩
  · rwa [heq]
  · exact hno y (List.contains_iff_mem.mp hy)

theorem StandsFor.line (h : StandsFor s t) (hs : s.head? = some '\n') : t.head? = some '\n' := by
  rcases h with heq | ⟨hno, -⟩
  · rwa [heq]
  · exact absurd hs hno

theorem Inert.continues_nothing {w : Text} (hw : Inert w) : ∀ y ∈ continuers, w.head? ≠ some y := by
  intro y hy hhead
  have hcont : continuers.all (fun y => !inert y) = true := by decide
  have hno := List.all_eq_true.mp hcont y hy
  rw [hw y (List.mem_of_mem_head? hhead)] at hno
  cases hno

theorem regionTo_eq_some {after : Text} (h : regionTo (c :: (u ++ s)) after = some (x, s)) :
    after = s ∧ x = .region (c :: u) := by
  cases h
  exact ⟨rfl, congrArg Lexeme.region (upTo_eq rfl)⟩

theorem regionTo_change (c : Char) (u t : Text) :
    regionTo (c :: (u ++ t)) t = some (.region (c :: u), t) :=
  congrArg (fun text => some (Lexeme.region text, t)) (upTo_append (c :: u) t)

/-- A region is read again where another text stands behind it. -/
theorem commonLexeme_change_region {binds : Bool} {text : Text}
    (h : commonLexeme true c (u ++ s) = some (.region text, s)) (hs : s ≠ []) (ht : StandsFor s t) :
    commonLexeme binds c (u ++ t) = some (.region text, t) := by
  simp only [commonLexeme] at h
  split_ifs at h with hdouble hsingle hline hblock _ _
  · obtain ⟨hend, hx⟩ := regionTo_eq_some h
    have hquote : s.head? ≠ some '"' := hend ▸ skipDelimitedFrom_head '"' (u ++ s)
    have hclosed : skipDelimited '"' (c :: (u ++ t)) = t :=
      skipDelimitedFrom_change hend hs (ht.head?_ne rfl hquote)
    rw [commonLexeme, if_pos hdouble, hclosed, regionTo_change, hx]
  · obtain ⟨hend, hx⟩ := regionTo_eq_some h
    have hquote : s.head? ≠ some '\'' := hend ▸ skipLiteral_head (u ++ s)
    rw [commonLexeme, if_neg hdouble, if_pos hsingle,
      skipLiteral_change hend hs (ht.head?_ne rfl hquote), regionTo_change, hx]
  · obtain ⟨hend, hx⟩ := regionTo_eq_some h
    have hclosed : skipLine (c :: (u ++ t)) = t := skipLine_change (u := c :: u) hend hs ht.line
    cases u with
    | nil =>
        -- the second dash is not left
        rw [List.nil_append] at hend hline
        have hbreak := List.head?_dropWhile_not (· != '\n') (c :: s)
        rw [show (c :: s).dropWhile (· != '\n') = s from hend, hline.2] at hbreak
        cases hbreak
    | cons y u =>
        have hopens : c = '-' ∧ (y :: u ++ t).head? = some '-' := hline
        rw [commonLexeme, if_neg hdouble, if_neg hsingle, if_pos hopens, hclosed, regionTo_change, hx]
  · obtain ⟨hend, hx⟩ := regionTo_eq_some h
    cases u with
    | nil =>
        obtain ⟨s', rfl⟩ := List.head?_eq_some_iff.mp hblock.2
        exact absurd hend (ne_of_suffix_cons (skipBlock_suffix s'))
    | cons y u =>
        have hopens : c = '/' ∧ (y :: u ++ t).head? = some '*' := hblock
        have hclosed : skipBlock (y :: u ++ t).tail = t := skipBlock_change (u := u) hend hs
        rw [commonLexeme, if_neg hdouble, if_neg hsingle, if_neg (fun h => hline ⟨h.1, h.2⟩),
          if_pos hopens, hclosed, regionTo_change, hx]
  all_goals cases (Prod.mk.inj (Option.some.inj h)).1

/-- What a rune that `Bind` copies is and what is behind it. -/
theorem commonLexeme_eq_rune {rest : Text} {y : Char} (h : commonLexeme true c rest = some (.rune y, s)) :
    y = c ∧ rest = s ∧ c ≠ '"' ∧ c ≠ '\'' ∧ ¬(c = '-' ∧ s.head? = some '-') ∧
      ¬(c = '/' ∧ s.head? = some '*') := by
  simp only [commonLexeme] at h
  split_ifs at h with hdouble hsingle hline hblock _ _
  · cases h
  · cases h
  · cases h
  · cases h
  · cases h
  · cases h
  · cases h
    exact ⟨rfl, rfl, hdouble, hsingle, hline, hblock⟩

/-- A rune is read again, if what stands behind a colon makes neither a cast nor a parameter. -/
theorem commonLexeme_change_rune {binds : Bool} {y : Char}
    (h : commonLexeme true c (u ++ s) = some (.rune y, s)) (ht : StandsFor s t)
    (hcolon : binds = true → y = ':' → t.head?.any (fun y => y = ':' || isIdentStart y) = false) :
    commonLexeme binds c (u ++ t) = some (.rune y, t) := by
  obtain ⟨rfl, hrest, hdouble, hsingle, hline, hblock⟩ := commonLexeme_eq_rune h
  obtain rfl : u = [] := List.append_left_eq_self.mp hrest
  have hline' : ¬(y = '-' ∧ t.head? = some '-') :=
    fun h => ht.head?_ne rfl (fun hs => hline ⟨h.1, hs⟩) h.2
  have hblock' : ¬(y = '/' ∧ t.head? = some '*') :=
    fun h => ht.head?_ne rfl (fun hs => hblock ⟨h.1, hs⟩) h.2
  have hcast : ¬(binds = true ∧ y = ':' ∧ t.head? = some ':') := by
    rintro ⟨hb, rfl, hhead⟩
    have hno := hcolon hb rfl
    rw [hhead] at hno
    cases hno
  have hparam : ¬(binds = true ∧ y = ':' ∧ t.head?.any isIdentStart = true) := by
    rintro ⟨hb, rfl, hhead⟩
    have hno := hcolon hb rfl
    cases t with
    | nil => cases hhead
    | cons z t =>
        have hstart : isIdentStart z = true := hhead
        simp [hstart] at hno
  rw [List.nil_append, commonLexeme, if_neg hdouble, if_neg hsingle, if_neg hline', if_neg hblock',
    if_neg hcast, if_neg hparam]

theorem head?_dropWhile_any (p : Char → Bool) (s : Text) : (s.dropWhile p).head?.any p = false := by
  have hnot := List.head?_dropWhile_not p s
  cases hs : (s.dropWhile p).head? with
  | none => rfl
  | some y =>
      rw [hs] at hnot
      exact hnot

theorem opener_of_region {binds : Bool} {rest text after : Text}
    (h : commonLexeme binds c rest = some (.region text, after)) : c ∈ ['"', '\'', '-', '/'] := by
  simp only [commonLexeme] at h
  split_ifs at h with hdouble hsingle hline hblock _ _
  · simp [hdouble]
  · simp [hsingle]
  · simp [hline.1]
  · simp [hblock.1]
  all_goals cases h

/-- A colon that `Bind` copies opens neither a cast nor a parameter. -/
theorem head?_any_of_colon {rest after : Text}
    (h : lexeme plainForms true (':' :: rest) = some (.rune ':', after)) :
    rest.head?.any (fun y => y = ':' || isIdentStart y) = false := by
  cases rest with
  | nil => rfl
  | cons y rest =>
      by_contra hany
      by_cases hy : y = ':'
      · subst hy
        cases h
      · have hstart : isIdentStart y = true := by simpa [hy] using hany
        simp [lexeme, plainForms, commonLexeme, hy, hstart] at h

theorem exists_text_cons {forms : Forms} (hf : forms.Proper) {binds : Bool}
    (h : lexeme forms binds s = some (x, t)) : ∃ c u, x.text = c :: u ∧ s = c :: (u ++ t) := by
  cases s with
  | nil => cases h
  | cons c rest =>
      obtain ⟨hsuffix, htext⟩ := lexeme_text hf h
      cases hx : x.text with
      | nil =>
          rw [hx, List.nil_append] at htext
          exact absurd htext (ne_of_suffix_cons hsuffix)
      | cons c' u =>
          rw [hx] at htext
          cases htext
          exact ⟨c, u, rfl, rfl⟩

/-- One lexeme of `Bind` before a text that starts alike, or before inert runes and not a blank. -/
theorem lexeme_change_inert (h : lexeme plainForms true s = some (x, t)) {t' : Text}
    (ht : t'.head? = t.head? ∨ t.head? = some ' ' ∧ Inert t') (hne : t ≠ []) :
    lexeme plainForms true (x.text ++ t') = some (x, t') := by
  obtain ⟨c, u, htext, rfl⟩ := exists_text_cons plainForms_proper h
  have hstands : StandsFor t t' := by
    rcases ht with heq | ⟨hblank, hinert⟩
    · exact .inl heq
    · exact .inr ⟨by rw [hblank]; decide, hinert.continues_nothing⟩
  -- a class that has no inert rune
  have hclass : ∀ p : Char → Bool, (∀ y, inert y = true → p y = false) → t.head?.any p = false →
      t'.head?.any p = false := by
    intro p hp hnone
    rcases ht with heq | ⟨-, hinert⟩
    · rwa [heq]
    · cases t' with
      | nil => rfl
      | cons y t' => exact hp y (hinert y List.mem_cons_self)
  cases x with
  | cast => rfl
  | param name =>
      obtain ⟨-, hname, -, hafter⟩ := lexeme_param h
      refine lexeme_reference hname (hclass _ (fun y => Inert.not_identPart) ?_)
      rw [hafter]
      exact head?_dropWhile_any isIdentPart (u ++ t)
  | region text =>
      rw [htext]
      exact commonLexeme_change_region h hne hstands
  | rune y =>
      rw [htext]
      refine commonLexeme_change_rune h hstands fun _ hcolon => ?_
      subst hcolon
      cases htext
      refine hclass _ (fun y hy => ?_) (head?_any_of_colon h)
      have hne : y ≠ ':' := by
        rintro rfl
        cases hy
      simp [hne, isIdentStart_of_inert hy]

/-- What `Bind` reads before a blank it reads before inert runes. -/
theorem lexesTo_change_inert {us : List Lexeme} {w : Text} (hw : Inert w)
    (h : LexesTo (lexeme plainForms true) s us [' ']) :
    LexesTo (lexeme plainForms true) (textOf us ++ w) us w := by
  generalize hr : [' '] = r at h
  induction h with
  | done => exact .done
  | @read s s' r x us hl hrest ih =>
      have htext : textOf us ++ r = s' := lexesTo_text plainForms_proper hrest
      rw [textOf, List.flatMap_cons, List.append_assoc]
      refine .read (lexeme_change_inert hl ?_ ?_) (ih hr)
      · rw [← htext, ← hr]
        change (textOf us ++ w).head? = _ ∨ _ ∧ Inert (textOf us ++ w)
        cases textOf us with
        | nil => exact .inr ⟨rfl, hw⟩
        | cons y v => exact .inl rfl
      · rw [← htext, ← hr]
        exact List.append_ne_nil_of_right_ne_nil _ (by simp)

end Change

end DDAG.Connectors
