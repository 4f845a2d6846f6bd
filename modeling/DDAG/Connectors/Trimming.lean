import DDAG.Connectors.Lexemes
import DDAG.Lib.Strings

/-!
# Trimming a template

The validators read a template without its surrounding white space, and count
statements without the trailing semicolons.  The runes they cut off are
*inert*: no rule of the scanners names them.

`lexes_append_inert` says that cutting inert runes off the end of a template
changes neither its parameters nor, but for the runes cut off, its code text.
A quoted region that is not closed runs to the end of the text, so it may take
some of the inert runes with it.
-/

namespace DDAG.Connectors

open Machine

/-- A rune that no rule of the scanners names. -/
def inert (c : Char) : Bool :=
  !isIdentPart c && c != '$' && c != '`' && c != '[' && c != ']' && c != '"' && c != '#' &&
    c != '\'' && c != '-' && c != '/' && c != '*' && c != ':'

def Inert (w : Text) : Prop := ∀ c ∈ w, inert c = true

theorem Inert.of_suffix {w w' : Text} (h : Inert w) (hs : w' <:+ w) : Inert w' :=
  fun c hc => h c (hs.subset hc)

theorem Inert.ne {w : Text} (h : Inert w) {c x : Char} (hc : c ∈ w) (hx : inert x = false) :
    c ≠ x := by
  rintro rfl
  rw [h c hc] at hx
  cases hx

theorem Inert.quote_not_mem {w : Text} (h : Inert w) : '\'' ∉ w :=
  fun hmem => h.ne hmem (by decide) rfl

theorem Inert.not_identPart {c : Char} (h : inert c = true) : isIdentPart c = false := by
  simp only [inert, Bool.and_eq_true, Bool.not_eq_true'] at h
  simp_all

theorem inert_semicolon : inert ';' = true := by decide

theorem inert_of_isSpace {c : Char} (h : Strings.isSpace c = true) : inert c = true := by
  have hnat : ∀ x : Char, c = x ↔ c.toNat = x.toNat := fun x => Char.toNat_inj.symm
  simp only [Strings.isSpace, inert, isIdentPart, isIdentStart, Bool.or_eq_true, beq_iff_eq,
    Bool.and_eq_true, decide_eq_true_eq, Bool.not_eq_true', Bool.or_eq_false_iff, bne_iff_ne, ne_eq,
    Bool.and_eq_false_iff, decide_eq_false_iff_not, beq_eq_false_iff_ne, Char.le_def,
    UInt32.le_iff_toNat_le, hnat, Char.toNat_val, Char.reduceToNat] at h ⊢
  omega

/-! ## Skipping before inert runes -/

/-- What is left after a region of a text, and after the region of the text with
`w` behind it.  Either the region ends before `w`, or it runs to the end of the
text and perhaps into `w`. -/
def LeavesBefore (w after after' : Text) : Prop := after' = after ++ w ∨ after = [] ∧ after' <:+ w

section Skip

variable {w : Text}

theorem skipDelimitedFrom_append (hw : Inert w) {quote : Char} (hq : inert quote = false) (s : Text) :
    LeavesBefore w (skipDelimitedFrom quote s) (skipDelimitedFrom quote (s ++ w)) := by
  fun_induction skipDelimitedFrom quote s with
  | case1 => exact .inr ⟨rfl, skipDelimitedFrom_suffix quote w⟩
  | case2 =>
      left
      cases w with
      | nil => simp [skipDelimitedFrom]
      | cons c w => simp [skipDelimitedFrom, hw.ne List.mem_cons_self hq]
  | case3 rest' ih => simpa [skipDelimitedFrom] using ih
  | case4 c' rest' h =>
      left
      simp [skipDelimitedFrom, h]
  | case5 c rest h ih => simpa [skipDelimitedFrom.eq_def _ (c :: (rest ++ w)), h] using ih

theorem skipLiteral_append (hw : Inert w) (s : Text) :
    LeavesBefore w (skipLiteral s) (skipLiteral (s ++ w)) := by
  fun_induction skipLiteral s with
  | case1 => exact .inr ⟨rfl, skipLiteral_suffix w⟩
  | case2 rest ih => exact ih
  | case3 rest h =>
      left
      change skipLiteral ('\'' :: (rest ++ w)) = rest ++ w
      rw [skipLiteral]
      intro rest' heq
      cases rest with
      | nil => exact hw.ne (heq ▸ List.mem_cons_self) (by decide) rfl
      | cons c rest =>
          cases heq
          exact h _ rfl
  | case4 c rest h1 h2 ih =>
      have hstep : skipLiteral (c :: rest ++ w) = skipLiteral (rest ++ w) := by
        change skipLiteral (c :: (rest ++ w)) = _
        rw [skipLiteral]
        · exact fun _ hc _ => h2 hc
        · exact h2
      rw [hstep]
      exact ih

theorem skipBlock_append (hw : Inert w) (s : Text) :
    LeavesBefore w (skipBlock s) (skipBlock (s ++ w)) := by
  fun_induction skipBlock s with
  | case1 => exact .inr ⟨rfl, skipBlock_suffix w⟩
  | case2 rest => exact .inl rfl
  | case3 c rest h ih =>
      have hstep : skipBlock (c :: rest ++ w) = skipBlock (rest ++ w) := by
        change skipBlock (c :: (rest ++ w)) = _
        rw [skipBlock]
        intro rest' hc heq
        cases rest with
        | nil => exact hw.ne (heq ▸ List.mem_cons_self) (by decide) rfl
        | cons c' rest =>
            cases heq
            exact h _ hc rfl
      rw [hstep]
      exact ih

theorem skipLine_append (s : Text) : LeavesBefore w (skipLine s) (skipLine (s ++ w)) := by
  induction s with
  | nil => exact .inr ⟨rfl, skipLine_suffix w⟩
  | cons c rest ih =>
      by_cases hc : c = '\n'
      · left
        simp [skipLine, hc]
      · simpa only [List.cons_append, skipLine_cons hc] using ih

theorem takeWhile_append_inert (hw : Inert w) {p : Char → Bool}
    (hp : ∀ c, inert c = true → p c = false) (s : Text) :
    (s ++ w).takeWhile p = s.takeWhile p ∧ (s ++ w).dropWhile p = s.dropWhile p ++ w := by
  induction s with
  | nil =>
      cases w with
      | nil => exact ⟨rfl, rfl⟩
      | cons c w =>
          have hc := hp c (hw c List.mem_cons_self)
          simp [hc]
  | cons c s ih =>
      cases hc : p c with
      | false => simp [hc]
      | true => simpa [hc] using ih

/-- A text with a rune that is not inert at its end is no start of `s ++ w`
beyond `s`. -/
theorem prefix_append_inert_iff (hw : Inert w) {tag : Text} {x : Char}
    (htag : tag.getLast? = some x) (hx : inert x = false) (s : Text) :
    tag <+: s ++ w ↔ tag <+: s := by
  refine ⟨fun h => ?_, fun h => h.trans (List.prefix_append _ _)⟩
  obtain ⟨v, hv⟩ := h
  rcases List.append_eq_append_iff.mp hv with ⟨a, rfl, _⟩ | ⟨u, rfl, hu⟩
  · exact List.prefix_append _ _
  · cases hlast : u.getLast? with
    | none =>
        rw [List.getLast?_eq_none_iff] at hlast
        simp [hlast]
    | some y =>
        have hxy : y = x := by
          rw [List.getLast?_append, hlast] at htag
          exact Option.some.inj htag
        have hmem : x ∈ w := by
          rw [hu, ← hxy]
          exact List.mem_append_left _ (List.mem_of_getLast? hlast)
        exact absurd rfl (hw.ne hmem hx)

/-- A tag that neither stands in `w` nor runs into it is found before `w`, or nowhere. -/
theorem findTag_append_of {tag : Text} (hnone : findTag tag w = none)
    (hspan : ∀ c s, tag <+: c :: (s ++ w) ↔ tag <+: c :: s) (s : Text) :
    findTag tag (s ++ w) = (findTag tag s).map (· ++ w) := by
  induction s with
  | nil => exact hnone
  | cons c s ih =>
      rw [List.cons_append, findTag, findTag]
      by_cases hp : tag <+: c :: s
      · rw [if_pos (List.isPrefixOf_iff_prefix.mpr ((hspan c s).mpr hp)),
          if_pos (List.isPrefixOf_iff_prefix.mpr hp), ← List.cons_append,
          List.drop_append_of_le_length hp.length_le]
        rfl
      · rw [if_neg (fun h => hp ((hspan c s).mp (List.isPrefixOf_iff_prefix.mp h))),
          if_neg (fun h => hp (List.isPrefixOf_iff_prefix.mp h)), ih]

theorem findTag_of_not_mem {x : Char} {tag s : Text} (h : x ∉ s) : findTag (x :: tag) s = none := by
  induction s with
  | nil => rfl
  | cons c s ih =>
      rw [List.mem_cons, not_or] at h
      have hp : ¬(x :: tag) <+: c :: s := fun hp => h.1 (List.cons_prefix_cons.mp hp).1
      rw [findTag, if_neg (fun hb => hp (List.isPrefixOf_iff_prefix.mp hb))]
      exact ih h.2

theorem findTag_append (hw : Inert w) {tag : Text} (hlast : ('$' :: tag).getLast? = some '$')
    (s : Text) : findTag ('$' :: tag) (s ++ w) = (findTag ('$' :: tag) s).map (· ++ w) := by
  refine findTag_append_of (findTag_of_not_mem fun h => hw.ne h (by decide) rfl) (fun c s => ?_) s
  exact prefix_append_inert_iff hw hlast (by decide) (c :: s)

theorem dollarQuoteEnd_append (hw : Inert w) (s : Text) :
    dollarQuoteEnd ('$' :: (s ++ w)) = (dollarQuoteEnd ('$' :: s)).map (· ++ w) := by
  have hp : ∀ c, inert c = true → (isIdentPart c || c == '$') = false := by
    intro c hc
    have hd : c ≠ '$' := by
      rintro rfl
      cases hc
    simp [Inert.not_identPart hc, hd]
  have htake := (takeWhile_append_inert hw hp s).1
  simp only [dollarQuoteEnd, htake]
  split
  next hlast =>
    rw [List.drop_append_of_le_length (List.takeWhile_prefix _).length_le]
    refine findTag_append hw ?_ _
    rw [List.getLast?_cons, hlast]
    rfl
  next _ => rfl

theorem findClose_append (hw : '\'' ∉ w) (close : Char) (s : Text) :
    findClose close (s ++ w) = (findClose close s).map (· ++ w) := by
  have hnone : ∀ (c : Char) (v : Text), v <:+ w → findClose close (c :: v) = none := by
    intro c v hv
    induction v generalizing c with
    | nil => rfl
    | cons c' v ih =>
        have hq : c' ≠ '\'' := fun h => hw (hv.subset (h ▸ List.mem_cons_self))
        rw [findClose, if_neg (fun h => hq h.2)]
        exact ih c' ((List.suffix_cons c' v).trans hv)
  fun_induction findClose close s with
  | case1 c c' rest h => simp [findClose, h]
  | case2 c c' rest h ih => simpa [findClose, h] using ih
  | case3 s h =>
      cases s with
      | nil =>
          cases w with
          | nil => rfl
          | cons c v => exact hnone c v (List.suffix_cons c v)
      | cons c s =>
          cases s with
          | nil => exact hnone c w List.suffix_rfl
          | cons c' rest => exact absurd rfl (h c c' rest)

/-! ## Lexemes before inert runes -/

/-- Two readings at the same place, without and with `w` behind the text: the
lexemes name the same parameter and keep the same rune. -/
def ReadsBefore (w : Text) (p p' : Lexeme × Text) : Prop :=
  p.1.name? = p'.1.name? ∧ p.1.rune? = p'.1.rune? ∧ LeavesBefore w p.2 p'.2

theorem regionTo_before {s s' a a' : Text} {p' : Lexeme × Text} (h : LeavesBefore w a a')
    (hp : regionTo s' a' = some p') : ∃ p, regionTo s a = some p ∧ ReadsBefore w p p' := by
  cases hp
  exact ⟨_, rfl, rfl, rfl, h⟩

theorem regionTo_map_before {s s' : Text} {o : Option Text} {p' : Lexeme × Text}
    (hp : (o.map (· ++ w)).bind (regionTo s') = some p') :
    ∃ p, o.bind (regionTo s) = some p ∧ ReadsBefore w p p' := by
  cases o with
  | none => cases hp
  | some a => exact regionTo_before (.inl rfl) hp

theorem head?_append_inert (hw : Inert w) {x : Char} (hx : inert x = false) (s : Text) :
    (s ++ w).head? = some x ↔ s.head? = some x := by
  cases s with
  | cons c s => exact Iff.rfl
  | nil =>
      refine iff_of_false (fun h => ?_) nofun
      exact hw.ne (List.mem_of_mem_head? h) hx rfl

theorem head?_any_append_inert (hw : Inert w) {p : Char → Bool}
    (hp : ∀ c, inert c = true → p c = false) (s : Text) :
    (s ++ w).head?.any p = s.head?.any p := by
  cases s with
  | cons c s => rfl
  | nil =>
      cases w with
      | nil => rfl
      | cons c w => exact hp c (hw c List.mem_cons_self)

theorem isIdentStart_of_inert {c : Char} (hc : inert c = true) : isIdentStart c = false := by
  have h := Inert.not_identPart hc
  rw [isIdentPart, Bool.or_eq_false_iff] at h
  exact h.1

theorem commonLexeme_append (hw : Inert w) {binds : Bool} {c : Char} {rest : Text}
    {p' : Lexeme × Text} (h : commonLexeme binds c (rest ++ w) = some p') :
    ∃ p, commonLexeme binds c rest = some p ∧ ReadsBefore w p p' := by
  simp only [commonLexeme, head?_append_inert hw (show inert '-' = false by decide),
    head?_append_inert hw (show inert '*' = false by decide),
    head?_append_inert hw (show inert ':' = false by decide),
    head?_any_append_inert hw (fun _ => isIdentStart_of_inert)] at h ⊢
  split_ifs at h ⊢ with h1 h2 h3 h4 h5 h6
  · exact regionTo_before (skipDelimitedFrom_append hw (by decide) rest) h
  · exact regionTo_before (skipLiteral_append hw rest) h
  · exact regionTo_before (skipLine_append (c :: rest)) h
  · obtain ⟨c', rest', rfl⟩ : ∃ c' rest', rest = c' :: rest' := by
      cases rest with
      | nil => cases h4.2
      | cons c' rest' => exact ⟨c', rest', rfl⟩
    exact regionTo_before (skipBlock_append hw rest') h
  · obtain ⟨c', rest', rfl⟩ : ∃ c' rest', rest = c' :: rest' := by
      cases rest with
      | nil => cases h5.2.2
      | cons c' rest' => exact ⟨c', rest', rfl⟩
    cases h
    exact ⟨_, rfl, rfl, rfl, .inl rfl⟩
  · obtain ⟨htake, hdrop⟩ := takeWhile_append_inert hw (fun _ => Inert.not_identPart) rest
    rw [htake, hdrop] at h
    cases h
    exact ⟨_, rfl, rfl, rfl, .inl rfl⟩
  · cases h
    exact ⟨_, rfl, rfl, rfl, .inl rfl⟩

/-- An Oracle quote that is closed before inert runes opens before them. -/
theorem oracleQuoteEnd_append (hw : Inert w) {c : Char} {rest : Text}
    (hopen : opensOracleQuote (c :: (rest ++ w)) = true)
    (hclosed : oracleQuoteEnd (c :: (rest ++ w)) ≠ none) :
    opensOracleQuote (c :: rest) = true ∧
      oracleQuoteEnd (c :: (rest ++ w)) = (oracleQuoteEnd (c :: rest)).map (· ++ w) := by
  unfold opensOracleQuote at hopen
  split at hopen
  next r body heq =>
    obtain ⟨rfl, hrest⟩ := List.cons.inj heq
    rw [hrest] at hclosed ⊢
    cases rest with
    | nil =>
        have hmem : '\'' ∈ w := by
          rw [← List.nil_append w, hrest]
          exact List.mem_cons_self
        exact absurd rfl (hw.ne hmem (by decide))
    | cons c₁ rest =>
        simp only [List.cons_append, List.cons.injEq] at hrest
        obtain ⟨rfl, hrest⟩ := hrest
        cases rest with
        | nil =>
            -- the quote would be closed by a quote among the inert runes
            have hbody : Inert body := hw.of_suffix ⟨[r], hrest.symm⟩
            rw [oracleQuoteEnd, ← List.nil_append body, findClose_append hbody.quote_not_mem] at hclosed
            exact absurd rfl hclosed
        | cons c₂ rest =>
            simp only [List.cons_append, List.cons.injEq] at hrest
            obtain ⟨rfl, rfl⟩ := hrest
            exact ⟨rfl, findClose_append hw.quote_not_mem _ rest⟩
  next _ => cases hopen

theorem lexeme_append_inert (hw : Inert w) {d : Dialect} {binds : Bool} {c : Char} {rest : Text}
    {p' : Lexeme × Text} (h : lexeme (publishForms d) binds (c :: (rest ++ w)) = some p') :
    ∃ p, lexeme (publishForms d) binds (c :: rest) = some p ∧ ReadsBefore w p p' := by
  have hopen : opensOracleQuote (c :: rest) = true → opensOracleQuote (c :: (rest ++ w)) = true := by
    intro ho
    unfold opensOracleQuote at ho
    split at ho
    next r body heq =>
      cases heq
      rfl
    next _ => cases ho
  rw [lexeme_publish, lexeme_undollared] at h ⊢
  split_ifs at h ⊢ with h1 h2 h3 h4 h5 h6 h6
  · subst h1
    rw [dollarQuoteEnd_append hw] at h
    exact regionTo_map_before h
  · exact regionTo_before (skipDelimitedFrom_append hw (by decide) rest) h
  · exact regionTo_before (skipDelimitedFrom_append hw (by decide) rest) h
  · exact regionTo_before (skipLine_append (c :: rest)) h
  · obtain ⟨-, hend⟩ := oracleQuoteEnd_append hw h6.2 (fun hn => by rw [hn] at h; cases h)
    rw [hend] at h
    exact regionTo_map_before h
  · exact absurd ⟨h5.1, hopen h5.2⟩ h6
  · obtain ⟨ho, -⟩ := oracleQuoteEnd_append hw h6.2 (fun hn => by rw [hn] at h; cases h)
    exact absurd ⟨h6.1, ho⟩ h5
  · exact commonLexeme_append hw h

end Skip

/-! ## Templates and their trimmed texts -/

section Trim

variable {d : Dialect} {binds : Bool} {w : Text}

theorem codeText_cons (t : Lexeme) (ts : List Lexeme) :
    codeText (t :: ts) = t.rune?.toList ++ codeText ts := by
  cases h : t.rune? with
  | none => exact List.filterMap_cons_none h
  | some c => exact List.filterMap_cons_some h

theorem codeText_append (ts us : List Lexeme) : codeText (ts ++ us) = codeText ts ++ codeText us :=
  List.filterMap_append

theorem paramNames_append (ts us : List Lexeme) :
    paramNames (ts ++ us) = paramNames ts ++ paramNames us :=
  List.filterMap_append

theorem paramNames_cons (t : Lexeme) (ts : List Lexeme) :
    paramNames (t :: ts) = t.name?.toList ++ paramNames ts := by
  cases h : t.name? with
  | none => exact List.filterMap_cons_none h
  | some c => exact List.filterMap_cons_some h

theorem codeText_runes (w : Text) : codeText (w.map .rune) = w := by
  induction w with
  | nil => rfl
  | cons c w ih => rw [List.map_cons, codeText_cons, ih]; rfl

theorem paramNames_runes (w : Text) : paramNames (w.map .rune) = [] := by
  induction w with
  | nil => rfl
  | cons c w ih => rw [List.map_cons, paramNames_cons, ih]; rfl

theorem lexeme_inert {c : Char} (hc : inert c = true) (rest : Text) :
    lexeme (publishForms d) binds (c :: rest) = some (.rune c, rest) := by
  have hne : ∀ x, inert x = false → c ≠ x := by
    rintro x hx rfl
    rw [hc] at hx
    cases hx
  have hq : opensOracleQuote (c :: rest) = false := by
    unfold opensOracleQuote
    split
    next heq => exact absurd (List.cons.inj heq).1 (hne 'q' (by decide))
    next _ => rfl
  simp [lexeme_publish, lexeme_undollared, commonLexeme, hq, hne '$' (by decide), hne '`' (by decide),
    hne '[' (by decide), hne '#' (by decide), hne '"' (by decide), hne '\'' (by decide),
    hne '-' (by decide), hne '/' (by decide), hne ':' (by decide)]

theorem lexesTo_inert (d : Dialect) (binds : Bool) (hw : Inert w) (s : Text) :
    LexesTo (lexeme (publishForms d) binds) (w ++ s) (w.map .rune) s := by
  induction w with
  | nil => exact .done
  | cons c w ih =>
      refine .read (lexeme_inert (hw c List.mem_cons_self) _) (ih ?_)
      exact fun x hx => hw x (List.mem_cons_of_mem _ hx)

theorem lexes_inert (hw : Inert w) : Lexes (lexeme (publishForms d) binds) w (w.map .rune) := by
  have h := lexesTo_inert d binds hw []
  rwa [List.append_nil] at h

/-- Inert runes at the end of a template hold no parameter, and only add runes
to its code text. -/
theorem lexes_append_inert (hw : Inert w) {s : Text} {us : List Lexeme}
    (h : Lexes (lexeme (publishForms d) binds) (s ++ w) us) :
    ∃ ts v, Lexes (lexeme (publishForms d) binds) s ts ∧ v <:+ w ∧
      codeText us = codeText ts ++ v ∧ paramNames us = paramNames ts := by
  have hc := lexeme_consuming (publishForms_proper d) binds
  have hinert : ∀ {v : Text} {vs : List Lexeme}, v <:+ w →
      Lexes (lexeme (publishForms d) binds) v vs → codeText vs = v ∧ paramNames vs = [] := by
    intro v vs hv hvs
    rw [hvs.unique hc (lexes_inert (hw.of_suffix hv))]
    exact ⟨codeText_runes v, paramNames_runes v⟩
  induction hn : s.length using Nat.strongRecOn generalizing s us with
  | _ n ih =>
      cases s with
      | nil =>
          obtain ⟨hcode, hnames⟩ := hinert List.suffix_rfl h
          exact ⟨[], w, .done, List.suffix_rfl, hcode, hnames⟩
      | cons c rest =>
          cases h with
          | @read _ after' _ t' us hl hrest =>
              obtain ⟨⟨t, after⟩, hp, hname, hrune, hafter⟩ := lexeme_append_inert hw hl
              rw [codeText_cons, paramNames_cons, ← hname, ← hrune]
              rcases hafter with rfl | ⟨rfl, hsuf⟩
              · have hlt := hc.shorter hp
                obtain ⟨ts, v, hts, hv, hcode, hnames⟩ := ih after.length (by omega) hrest rfl
                refine ⟨t :: ts, v, .read hp hts, hv, ?_, ?_⟩
                · rw [codeText_cons, hcode, List.append_assoc]
                · rw [paramNames_cons, hnames]
              · obtain ⟨hcode, hnames⟩ := hinert hsuf hrest
                refine ⟨[t], after', .read hp .done, hsuf, ?_, ?_⟩
                · rw [codeText_cons, hcode]
                  simp [codeText]
                · rw [paramNames_cons, hnames]
                  simp [paramNames]

/-- White space around a template holds no parameter and adds only itself to
the code text. -/
theorem lexes_trimSpace {q : Text} {us : List Lexeme}
    (h : Lexes (lexeme (publishForms d) binds) q us) :
    ∃ ts a b, Lexes (lexeme (publishForms d) binds) (Strings.trimSpace q) ts ∧
      (∀ c ∈ a, Strings.isSpace c = true) ∧ (∀ c ∈ b, Strings.isSpace c = true) ∧
      codeText us = a ++ (codeText ts ++ b) ∧ paramNames us = paramNames ts := by
  have hc := lexeme_consuming (publishForms_proper d) binds
  obtain ⟨a, b, hq, ha, hb⟩ := Strings.trimSpace_split q
  have hinert : ∀ {v : Text}, (∀ c ∈ v, Strings.isSpace c = true) → Inert v :=
    fun hv c hcv => inert_of_isSpace (hv c hcv)
  have hlead := lexesTo_inert d binds (hinert ha) (Strings.trimSpace q ++ b)
  rw [← hq] at hlead
  obtain ⟨vs, rfl, hvs⟩ := hlead.prefix_of_lexes hc h
  obtain ⟨ts, v, hts, hv, hcode, hnames⟩ := lexes_append_inert (hinert hb) hvs
  refine ⟨ts, a, v, hts, ha, fun c hcv => hb c (hv.subset hcv), ?_, ?_⟩
  · rw [codeText_append, codeText_runes, hcode]
  · rw [paramNames_append, paramNames_runes, hnames, List.nil_append]

end Trim

end DDAG.Connectors
