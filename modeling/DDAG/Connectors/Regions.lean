import DDAG.Connectors.Trimming

/-!
# Which runes of a template are code

A scanner sorts the runes of a template: `StripDialect` keeps those it takes for
code and deletes the others, and the binder copies some as part of a quoted
region or a comment.  `marks` gives, for each rune of a template, what a lexeme
it belongs to has.  `keptRunes` and `regionRunes` are the marks of the two
scanners, and `strip_eq_kept` says that the result of `StripDialect` is the runes
it keeps.

`strip_agrees_iff` compares the two.  `StripDialect` reads no parameters and
reads dollar quotes in every dialect, so they agree exactly on the templates
where the binder sees no bare dollar (PostgreSQL apart) and, for Oracle, no
parameter whose name ends in a `q` that opens a quote.
-/

namespace DDAG.Connectors

open Machine

/-! ## Marks -/

/-- For each rune of a list of lexemes, whether its lexeme has the property. -/
def marks (p : Lexeme → Bool) (ts : List Lexeme) : List Bool :=
  ts.flatMap fun t => List.replicate t.text.length (p t)

/-- `StripDialect` keeps the runes of the lexeme. -/
def Lexeme.isKept (t : Lexeme) : Bool := t.rune?.isSome

/-- The lexeme is quoted text or a comment. -/
def Lexeme.isRegion : Lexeme → Bool
  | .region _ => true
  | _ => false

/-- The runes `StripDialect` keeps, `none` if it hangs. -/
def keptRunes (q : Text) (d : Dialect) : Option (List Bool) :=
  (lexAll (lexeme (publishForms d) false) q).map (marks Lexeme.isKept)

/-- The runes the binder copies as part of a quoted region or a comment, `none` if it hangs. -/
def regionRunes (q : Text) (d : Dialect) : Option (List Bool) :=
  (lexAll (lexeme (bindForms d) true) q).map (marks Lexeme.isRegion)

section Marks

variable (p : Lexeme → Bool)

theorem marks_cons (t : Lexeme) (ts : List Lexeme) :
    marks p (t :: ts) = List.replicate t.text.length (p t) ++ marks p ts := List.flatMap_cons

theorem marks_append (ts us : List Lexeme) : marks p (ts ++ us) = marks p ts ++ marks p us :=
  List.flatMap_append

theorem marks_single (t : Lexeme) : marks p [t] = List.replicate t.text.length (p t) := by
  rw [marks_cons]
  exact List.append_nil _

theorem length_marks (ts : List Lexeme) : (marks p ts).length = (textOf ts).length := by
  induction ts with
  | nil => rfl
  | cons t ts ih =>
      rw [marks_cons, textOf, List.flatMap_cons, List.length_append, List.length_append, ih,
        List.length_replicate]
      rfl

theorem marks_runes (w : Text) : marks Lexeme.isKept (w.map .rune) = List.replicate w.length true := by
  induction w with
  | nil => rfl
  | cons c w ih => rw [List.map_cons, marks_cons, ih, List.length_cons, List.replicate_succ]; rfl

end Marks

theorem keptRunes_eq {q : Text} {d : Dialect} {ts : List Lexeme}
    (h : Lexes (lexeme (publishForms d) false) q ts) :
    keptRunes q d = some (marks Lexeme.isKept ts) := by
  rw [keptRunes, (lexAll_eq_some_iff (lexeme_consuming (publishForms_proper d) false)).mpr h]
  rfl

theorem regionRunes_eq {q : Text} {d : Dialect} {us : List Lexeme}
    (h : Lexes (lexeme (bindForms d) true) q us) :
    regionRunes q d = some (marks Lexeme.isRegion us) := by
  rw [regionRunes, (lexAll_eq_some_iff (lexeme_consuming (bindForms_proper d) true)).mpr h]
  rfl

def marked (q : Text) (ks : List Bool) : Text :=
  (q.zip ks).filterMap fun p => if p.2 then some p.1 else none

theorem marked_append {x y : Text} {ks ls : List Bool} (h : x.length = ks.length) :
    marked (x ++ y) (ks ++ ls) = marked x ks ++ marked y ls := by
  rw [marked, List.zip_append h, List.filterMap_append]
  rfl

theorem marked_replicate_false (x : Text) : marked x (List.replicate x.length false) = [] := by
  induction x with
  | nil => rfl
  | cons c x ih => exact ih

/-- The code text of a list of lexemes is the runes that are kept. -/
theorem codeText_eq_marked (ts : List Lexeme) :
    codeText ts = marked (textOf ts) (marks Lexeme.isKept ts) := by
  induction ts with
  | nil => rfl
  | cons t ts ih =>
      rw [codeText_cons, marks_cons, textOf, List.flatMap_cons,
        marked_append List.length_replicate.symm, ih]
      congr 1
      cases t with
      | rune c => rfl
      | region text => exact (marked_replicate_false text).symm
      | cast => rfl
      | param name => exact (marked_replicate_false _).symm

/-- `StripDialect` returns the runes it keeps. -/
theorem strip_eq_kept (q : Text) (d : Dialect) :
    stripDialect q d = (keptRunes q d).map (marked q) := by
  have hc := lexeme_consuming (publishForms_proper d) false
  cases hlex : lexAll (lexeme (publishForms d) false) q with
  | some ts =>
      have hts := (lexAll_eq_some_iff hc).mp hlex
      rw [keptRunes_eq hts, strip_eq_some_iff.mpr ⟨ts, hts, rfl⟩, codeText_eq_marked,
        lexes_text (publishForms_proper d) hts]
      rfl
  | none =>
      rw [keptRunes, hlex]
      cases hst : stripDialect q d with
      | none => rfl
      | some st =>
          obtain ⟨ts, hts, -⟩ := strip_eq_some_iff.mp hst
          rw [(lexAll_eq_some_iff hc).mpr hts] at hlex
          cases hlex

theorem mem_marked_iff {q : Text} {ks : List Bool} {c : Char} :
    c ∈ marked q ks ↔ ∃ i : Nat, q[i]? = some c ∧ ks[i]? = some true := by
  rw [marked, List.mem_filterMap]
  constructor
  · rintro ⟨⟨x, k⟩, hmem, hk⟩
    obtain ⟨i, hi⟩ := List.mem_iff_getElem?.mp hmem
    obtain ⟨hx, hks⟩ := List.getElem?_zip_eq_some.mp hi
    cases k with
    | false => cases hk
    | true =>
        cases hk
        exact ⟨i, hx, hks⟩
  · rintro ⟨i, hx, hks⟩
    exact ⟨(c, true), List.mem_of_getElem? (List.getElem?_zip_eq_some.mpr ⟨hx, hks⟩), rfl⟩

/-! ## Cutting off inert runes -/

/-- What is kept of a text does not depend on inert runes behind it. -/
theorem marks_append_inert {d : Dialect} {w : Text} (hw : Inert w) {s : Text} {us : List Lexeme}
    (h : Lexes (lexeme (publishForms d) false) (s ++ w) us) :
    ∃ ts, Lexes (lexeme (publishForms d) false) s ts ∧
      marks Lexeme.isKept ts = (marks Lexeme.isKept us).take s.length := by
  have hf := publishForms_proper d
  have hc := lexeme_consuming hf false
  induction hn : s.length using Nat.strongRecOn generalizing s us with
  | _ n ih =>
      cases s with
      | nil =>
          cases hn
          exact ⟨[], .done, rfl⟩
      | cons c rest =>
          cases h with
          | @read _ after' _ t' us hl hrest =>
              obtain ⟨⟨t, after⟩, hp, -, hrune, hafter⟩ := lexeme_append_inert hw hl
              change LeavesBefore w after after' at hafter
              have hkept : t'.isKept = t.isKept := by rw [Lexeme.isKept, Lexeme.isKept, hrune]
              have htext : t.text ++ after = c :: rest := (lexeme_text hf hp).2
              have htext' : t'.text ++ after' = c :: rest ++ w := (lexeme_text hf hl).2
              have hlen := congrArg List.length htext
              have hlen' := congrArg List.length htext'
              rw [List.length_append] at hlen
              rw [List.length_append, List.length_append] at hlen'
              rw [marks_cons, hkept, ← hn, List.take_append, List.take_replicate,
                List.length_replicate]
              rcases hafter with rfl | ⟨rfl, hsuf⟩
              · -- the lexeme ends before the inert runes, and is as long
                rw [List.length_append] at hlen'
                have hlt := hc.shorter hp
                obtain ⟨ts, hts, hmarks⟩ := ih after.length (by omega) hrest rfl
                refine ⟨t :: ts, .read hp hts, ?_⟩
                have hmin : min (c :: rest).length t'.text.length = t.text.length := by omega
                have hsub : (c :: rest).length - t'.text.length = after.length := by omega
                rw [marks_cons, hmarks, hmin, hsub]
              · -- the lexeme takes the whole text, and may take inert runes too
                have hle := hsuf.length_le
                refine ⟨[t], .single hp, ?_⟩
                have hmin : min (c :: rest).length t'.text.length = t.text.length := by
                  simp only [List.length_nil] at hlen
                  omega
                have hsub : (c :: rest).length - t'.text.length = 0 := by omega
                rw [marks_cons, hmin, hsub]
                rfl

/-! ## StripDialect and the binder -/

/-- At every rune that is no white space, one scanner keeps it exactly if the other does not
copy it as part of a region. -/
def Agree (q : Text) (ks rs : List Bool) : Prop :=
  ∀ p ∈ q.zip (ks.zip rs), Strings.isSpace p.1 = false → p.2.1 = !p.2.2

/-- The binder comes to a bare dollar only in PostgreSQL, where there is none, and in Oracle to
no parameter that ends in the `q` of a quote. -/
def Aligned (d : Dialect) (us : List Lexeme) : Prop :=
  (d ≠ .postgres → .rune '$' ∉ us) ∧
    (d = .oracle → ∀ front name back, us = front ++ .param name :: back → name.getLast? = some 'q' →
      opensOracleQuote ('q' :: textOf back) = false)

theorem agree_append {x y : Text} {ks ls rs ss : List Bool} (hks : ks.length = x.length)
    (hrs : rs.length = x.length) :
    Agree (x ++ y) (ks ++ ls) (rs ++ ss) ↔ Agree x ks rs ∧ Agree y ls ss := by
  have hzip : (ks.zip rs).length = x.length := by
    rw [List.length_zip, hks, hrs, Nat.min_self]
  rw [Agree, List.zip_append (hks.trans hrs.symm), List.zip_append hzip.symm]
  exact List.forall_mem_append

theorem agree_same (x : Text) (b : Bool) :
    Agree x (List.replicate x.length (!b)) (List.replicate x.length b) := by
  intro p hp _
  have hp' := List.of_mem_zip hp
  have hmem := List.of_mem_zip hp'.2
  rw [List.eq_of_mem_replicate hmem.1, List.eq_of_mem_replicate hmem.2]

/-! ### What StripDialect reads where the binder reads a lexeme -/

section Matched

variable {d : Dialect}

/-- After a `#` comment the binder is past the line break that `StripDialect` stops at. -/
theorem copyHash_eq_tail (s : Text) : (copyHash s).2 = (skipLine s).tail := by
  induction s with
  | nil => rfl
  | cons c s ih =>
      by_cases hc : c = '\n'
      · simp [copyHash, skipLine, hc]
      · rw [copyHash_cons hc, skipLine_cons hc, ih]

theorem opensOracleQuote_iff {s : Text} :
    opensOracleQuote s = true ↔ ∃ r rest, s = 'q' :: '\'' :: r :: rest := by
  constructor
  · intro h
    unfold opensOracleQuote at h
    split at h
    next r rest => exact ⟨r, rest, rfl⟩
    next _ => cases h
  · rintro ⟨r, rest, rfl⟩
    rfl

/-- An identifier rune is a lexeme of its own, but for the `q` of an Oracle quote. -/
theorem lexeme_identPart {c : Char} (hc : isIdentPart c = true) {rest : Text}
    (hq : d = .oracle → opensOracleQuote (c :: rest) = false) :
    lexeme (publishForms d) false (c :: rest) = some (.rune c, rest) := by
  have hne : ∀ x, isIdentPart x = false → c ≠ x := by
    rintro x hx rfl
    rw [hc] at hx
    cases hx
  have hopen : ¬(d = .oracle ∧ opensOracleQuote (c :: rest) = true) := by
    rintro ⟨hd, ho⟩
    rw [hq hd] at ho
    cases ho
  simp [lexeme_publish, lexeme_undollared, commonLexeme, hopen, hne '$' (by decide), hne '`' (by decide),
    hne '[' (by decide), hne '#' (by decide), hne '"' (by decide), hne '\'' (by decide),
    hne '-' (by decide), hne '/' (by decide)]

theorem lexeme_colon (s : Text) :
    lexeme (publishForms d) false (':' :: s) = some (.rune ':', s) := by
  simp [lexeme_publish, lexeme_undollared, commonLexeme, opensOracleQuote]

/-- `StripDialect` keeps a name, unless its last rune opens an Oracle quote. -/
theorem lexesTo_name {name after : Text} (hname : ∀ c ∈ name, isIdentPart c = true)
    (hq : d = .oracle → name.getLast? = some 'q' → opensOracleQuote ('q' :: after) = false) :
    LexesTo (lexeme (publishForms d) false) (name ++ after) (name.map .rune) after := by
  induction name with
  | nil => exact .done
  | cons c name ih =>
      refine .read (lexeme_identPart (hname c List.mem_cons_self) fun hd => ?_)
        (ih (fun x hx => hname x (List.mem_cons_of_mem c hx)) fun hd hlast => ?_)
      · cases ho : opensOracleQuote (c :: (name ++ after)) with
        | false => rfl
        | true =>
            obtain ⟨r, rest, heq⟩ := opensOracleQuote_iff.mp ho
            obtain ⟨rfl, hrest⟩ := List.cons.inj heq
            cases name with
            | nil =>
                rw [List.nil_append] at ho
                rw [hq hd rfl] at ho
                cases ho
            | cons x name =>
                have hx := hname x (List.mem_cons_of_mem _ List.mem_cons_self)
                rw [(List.cons.inj hrest).1] at hx
                cases hx
      · exact hq hd (by rw [List.getLast?_cons, hlast]; rfl)

/-- What `StripDialect` reads agrees with a lexeme of the binder, and ends where it ends. -/
def Matches (d : Dialect) (s : Text) (t : Lexeme) (after : Text) : Prop :=
  ∃ vs, LexesTo (lexeme (publishForms d) false) s vs after ∧
    Agree t.text (marks Lexeme.isKept vs) (marks Lexeme.isRegion [t])

/-- The two scanners read a region alike. -/
theorem matches_region {s a after : Text} {t : Lexeme}
    (hstrip : lexeme (publishForms d) false s = regionTo s a) (h : regionTo s a = some (t, after)) :
    Matches d s t after := by
  rw [h] at hstrip
  cases h
  refine ⟨_, .single hstrip, ?_⟩
  rw [marks_single, marks_single]
  exact agree_same _ true

/-- Runes that `StripDialect` keeps agree with a lexeme that is no region. -/
theorem matches_runes {s after : Text} {t : Lexeme} (ht : t.isRegion = false)
    (hlex : LexesTo (lexeme (publishForms d) false) s (t.text.map .rune) after) :
    Matches d s t after := by
  refine ⟨_, hlex, ?_⟩
  rw [marks_single, marks_runes, ht]
  exact agree_same _ false

/-- The `#` comment of MySQL: `StripDialect` keeps the line break the binder copies. -/
theorem matches_hash {rest after : Text} {t : Lexeme}
    (h : regionTo ('#' :: rest) (copyHash ('#' :: rest)).2 = some (t, after)) :
    Matches .mysql ('#' :: rest) t after := by
  have hstrip : lexeme (publishForms .mysql) false ('#' :: rest) =
      regionTo ('#' :: rest) (skipLine ('#' :: rest)) := by
        simp [lexeme_publish, lexeme_undollared]
  rw [copyHash_eq_tail] at h
  have hlines : ∀ c ∈ (skipLine ('#' :: rest)).head?, c = '\n' := by
    intro c hc
    have hnot := List.head?_dropWhile_not (· != '\n') ('#' :: rest)
    rw [← skipLine, Option.mem_def.mp hc] at hnot
    simpa using hnot
  cases hline : skipLine ('#' :: rest) with
  | nil =>
      rw [hline] at hstrip h
      exact matches_region hstrip h
  | cons c line =>
      rw [hline] at hstrip h hlines
      obtain rfl := hlines c rfl
      obtain ⟨x, hx⟩ : '\n' :: line <:+ '#' :: rest := by
        rw [← hline]
        exact skipLine_suffix _
      have hx' : x ++ ['\n'] ++ line = '#' :: rest := by
        rw [← hx]
        simp
      rw [regionTo, upTo_eq hx] at hstrip
      rw [regionTo, List.tail_cons, upTo_eq hx'] at h
      cases h
      refine ⟨_, .read hstrip (.single (lexeme_inert (show inert '\n' = true by decide) _)), ?_⟩
      rw [marks_cons, marks_single, marks_single, Lexeme.text, List.length_append,
        List.replicate_add]
      refine (agree_append List.length_replicate List.length_replicate).mpr ⟨agree_same x true, ?_⟩
      intro p hp hspace
      cases List.mem_singleton.mp hp
      cases hspace

/-- Where no form of the dialect opens, the scanners read the same lexemes, but for casts and
parameters, whose runes `StripDialect` keeps. -/
theorem matches_common {c : Char} {rest after : Text} {t : Lexeme}
    (hstrip : lexeme (publishForms d) false (c :: rest) = commonLexeme false c rest)
    (h : commonLexeme true c rest = some (t, after))
    (hquote : d = .oracle → ∀ name, t = .param name → name.getLast? = some 'q' →
      opensOracleQuote ('q' :: after) = false) : Matches d (c :: rest) t after := by
  have hcolon := lexeme_colon (d := d)
  simp only [commonLexeme, true_and, Bool.false_eq_true, false_and, ↓reduceIte] at hstrip h
  split_ifs at hstrip h with h1 h2 h3 h4 h5 h6
  · exact matches_region hstrip h
  · exact matches_region hstrip h
  · exact matches_region hstrip h
  · exact matches_region hstrip h
  · obtain ⟨rfl, hhead⟩ := h5
    cases rest with
    | nil => cases hhead
    | cons c' rest' =>
        cases hhead
        cases h
        exact matches_runes rfl (.read (hcolon _) (.single (hcolon _)))
  · obtain ⟨rfl, -⟩ := h6
    cases h
    refine matches_runes rfl (.read (hcolon _) ?_)
    have hname : LexesTo (lexeme (publishForms d) false)
        (rest.takeWhile isIdentPart ++ rest.dropWhile isIdentPart) _ _ :=
      lexesTo_name (fun c hc => List.mem_takeWhile_imp hc) (fun hd hlast => hquote hd _ rfl hlast)
    rwa [List.takeWhile_append_dropWhile] at hname
  · cases h
    exact matches_runes rfl (.single hstrip)

/-- The condition of `Aligned` on one lexeme. -/
def Aligns (d : Dialect) (t : Lexeme) (after : Text) : Prop :=
  (d ≠ .postgres → t ≠ .rune '$') ∧
    (d = .oracle → ∀ name, t = .param name → name.getLast? = some 'q' →
      opensOracleQuote ('q' :: after) = false)

theorem aligned_cons {t : Lexeme} {us : List Lexeme} :
    Aligned d (t :: us) ↔ Aligns d t (textOf us) ∧ Aligned d us := by
  constructor
  · rintro ⟨hdollar, hquote⟩
    refine ⟨⟨fun hd ht => hdollar hd ?_, fun hd name ht hlast => ?_⟩,
      fun hd hmem => hdollar hd (List.mem_cons_of_mem t hmem), fun hd front name back hus => ?_⟩
    · rw [ht]
      exact List.mem_cons_self
    · exact hquote hd [] name us (by rw [ht]; rfl) hlast
    · exact hquote hd (t :: front) name back (by rw [hus]; rfl)
  · rintro ⟨⟨hdollar, hquote⟩, hdollar', hquote'⟩
    refine ⟨fun hd hmem => ?_, fun hd front name back hus hlast => ?_⟩
    · rcases List.mem_cons.mp hmem with heq | hmem
      · exact hdollar hd heq.symm
      · exact hdollar' hd hmem
    · cases front with
      | nil =>
          obtain ⟨ht, rfl⟩ := List.cons.inj hus
          exact hquote hd name ht hlast
      | cons u front =>
          obtain ⟨-, hus'⟩ := List.cons.inj hus
          exact hquote' hd front name back hus' hlast

/-- Where the binder reads a lexeme that is aligned, `StripDialect` reads runes that agree
with it. -/
theorem lexeme_matches {c : Char} {rest after : Text} {t : Lexeme}
    (h : lexeme (bindForms d) true (c :: rest) = some (t, after)) (haligns : Aligns d t after) :
    Matches d (c :: rest) t after := by
  obtain ⟨hdollar, hquote⟩ := haligns
  have hstrip := lexeme_publish d false c rest
  rw [lexeme_undollared] at hstrip
  rw [lexeme_bind, lexeme_undollared] at h
  split_ifs at h with h1 h2 h3 h4 h5
  · rw [if_pos h1.2] at hstrip
    cases hend : dollarQuoteEnd (c :: rest) with
    | none =>
        rw [hend] at h
        cases h
    | some a =>
        rw [hend] at h hstrip
        exact matches_region hstrip h
  · obtain ⟨rfl, rfl⟩ := h2
    exact matches_region (by simpa using hstrip) h
  · obtain ⟨rfl, rfl⟩ := h3
    exact matches_region (by simpa using hstrip) h
  · obtain ⟨rfl, rfl⟩ := h4
    exact matches_hash h
  · obtain ⟨r, body, heq⟩ := opensOracleQuote_iff.mp h5.2
    obtain ⟨rfl, -⟩ := List.cons.inj heq
    rw [if_neg (by decide), if_neg h2, if_neg h3, if_neg h4, if_pos h5] at hstrip
    cases hend : oracleQuoteEnd ('q' :: rest) with
    | none =>
        rw [hend] at h
        cases h
    | some a =>
        rw [hend] at h hstrip
        exact matches_region hstrip h
  · -- a bare dollar would be a lexeme of its own
    have hc : c ≠ '$' := by
      rintro rfl
      have hpg : d ≠ .postgres := fun hd => h1 ⟨hd, rfl⟩
      refine hdollar hpg ?_
      simp [commonLexeme] at h
      exact h.1.symm
    rw [if_neg hc, if_neg h2, if_neg h3, if_neg h4, if_neg h5] at hstrip
    exact matches_common hstrip h hquote

/-! ### Where the binder reads a lexeme that is not aligned -/

/-- A rune that `StripDialect` deletes and the binder does not copy as part of a region. -/
theorem not_agree {x y z : Text} {c : Char} (hc : Strings.isSpace c = false) (vs : List Lexeme)
    (rs : List Bool) :
    ¬ Agree (x ++ c :: y) (marks Lexeme.isKept (x.map .rune ++ .region (c :: z) :: vs))
      (List.replicate x.length false ++ false :: rs) := by
  rw [marks_append, marks_runes, agree_append List.length_replicate List.length_replicate, marks_cons]
  rintro ⟨-, hat⟩
  have hfalse := hat (c, false, false) List.mem_cons_self hc
  cases hfalse

theorem lexes_opened {c : Char} {rest : Text} {o : Option Text} {vs : List Lexeme}
    (hlex : Lexes (lexeme (publishForms d) false) (c :: rest) vs)
    (hopen : lexeme (publishForms d) false (c :: rest) = o.bind (regionTo (c :: rest))) :
    ∃ z vs', vs = .region (c :: z) :: vs' := by
  cases hlex with
  | @read _ after _ t vs' hl _ =>
      obtain ⟨hsuffix, htext⟩ := lexeme_text (publishForms_proper d) hl
      rw [hopen] at hl
      cases o with
      | none => cases hl
      | some a =>
          cases hl
          rw [Lexeme.text] at htext
          cases hregion : upTo (c :: rest) after with
          | nil =>
              rw [hregion, List.nil_append] at htext
              rw [htext] at hsuffix
              have hle := hsuffix.length_le
              rw [List.length_cons] at hle
              omega
          | cons c' z =>
              rw [hregion] at htext
              obtain ⟨rfl, -⟩ := List.cons.inj htext
              exact ⟨z, vs', rfl⟩

theorem not_agree_of_not_aligns {c : Char} {rest after : Text} {t : Lexeme}
    (h : lexeme (bindForms d) true (c :: rest) = some (t, after)) (haligns : ¬ Aligns d t after)
    {vs us : List Lexeme} (hvs : Lexes (lexeme (publishForms d) false) (c :: rest) vs) :
    ¬ Agree (c :: rest) (marks Lexeme.isKept vs) (marks Lexeme.isRegion (t :: us)) := by
  have hc := lexeme_consuming (publishForms_proper d) false
  have htext := (lexeme_text (bindForms_proper d) h).2
  rw [Aligns, not_and_or] at haligns
  rcases haligns with hdollar | hquote
  · -- a bare dollar opens a dollar quote
    push Not at hdollar
    obtain ⟨-, rfl⟩ := hdollar
    obtain ⟨rfl, rfl⟩ := List.cons.inj htext
    obtain ⟨z, vs', rfl⟩ := lexes_opened hvs ((lexeme_publish d false '$' _).trans (if_pos rfl))
    exact not_agree (x := []) (by decide) vs' _
  · -- the last rune of the name opens an Oracle quote
    push Not at hquote
    obtain ⟨rfl, name, rfl, hlast, hopen⟩ := hquote
    rw [ne_eq, Bool.not_eq_false] at hopen
    obtain ⟨rfl, ⟨-, hname⟩, rfl, -⟩ := lexeme_param h
    obtain ⟨name₀, rfl⟩ := List.getLast?_eq_some_iff.mp hlast
    have hkept : LexesTo (lexeme (publishForms .oracle) false) (':' :: (name₀ ++ ('q' :: after)))
        ((':' :: name₀).map .rune) ('q' :: after) := by
      refine .read (lexeme_colon _) (lexesTo_name (fun c hc => ?_) fun _ _ => rfl)
      exact hname c (List.mem_append_left _ hc)
    rw [List.append_assoc] at hvs ⊢
    obtain ⟨ws, rfl, hws⟩ := hkept.prefix_of_lexes hc hvs
    have hopened : lexeme (publishForms .oracle) false ('q' :: after) =
        (oracleQuoteEnd ('q' :: after)).bind (regionTo ('q' :: after)) := by
      rw [lexeme_publish, lexeme_undollared]
      simp [hopen]
    obtain ⟨z, vs', rfl⟩ := lexes_opened hws hopened
    have hmarks : marks Lexeme.isRegion (.param (name₀ ++ ['q']) :: us) =
        List.replicate (':' :: name₀).length false ++ false :: marks Lexeme.isRegion us := by
      rw [marks_cons, Lexeme.text, ← List.cons_append, List.length_append, List.replicate_add,
        List.append_assoc]
      rfl
    rw [hmarks]
    exact not_agree (x := ':' :: name₀) (by decide) vs' _

/-- The two scanners agree on a template exactly when the binder's lexemes are aligned. -/
theorem agree_iff_aligned {q : Text} {vs us : List Lexeme}
    (hvs : Lexes (lexeme (publishForms d) false) q vs) (hus : Lexes (lexeme (bindForms d) true) q us) :
    Agree q (marks Lexeme.isKept vs) (marks Lexeme.isRegion us) ↔ Aligned d us := by
  have hc := lexeme_consuming (publishForms_proper d) false
  induction us generalizing q vs with
  | nil =>
      cases hus
      refine iff_of_true (fun _ hp => absurd hp List.not_mem_nil) ⟨fun _ => List.not_mem_nil, ?_⟩
      intro _ front name back hnil
      simp at hnil
  | cons t us ih =>
      cases hus with
      | @read _ after _ _ _ hl hrest =>
          cases q with
          | nil => cases hl
          | cons c rest =>
              have hafter : textOf us = after := lexes_text (bindForms_proper d) hrest
              rw [aligned_cons, hafter]
              by_cases haligns : Aligns d t after
              · obtain ⟨vs₁, hvs₁, hagree⟩ := lexeme_matches hl haligns
                obtain ⟨vs₂, rfl, hvs₂⟩ := hvs₁.prefix_of_lexes hc hvs
                have htext := (lexeme_text (bindForms_proper d) hl).2
                have hsame : textOf vs₁ = t.text := by
                  have hread := lexesTo_text (publishForms_proper d) hvs₁
                  rw [← htext] at hread
                  exact List.append_cancel_right hread
                have hiff := ih hvs₂ hrest
                rw [← htext, marks_append, ← List.singleton_append, marks_append, agree_append]
                · exact and_congr (iff_of_true hagree haligns) hiff
                · rw [length_marks, hsame]
                · rw [marks_single, List.length_replicate]
              · refine iff_of_false (not_agree_of_not_aligns hl haligns hvs) fun h => haligns h.1

end Matched

/-- On a template that `StripDialect` and the binder both get through, `StripDialect` deletes
exactly the runes, white space apart, that the binder copies as part of a region, if and only
if the binder's lexemes are aligned. -/
theorem strip_agrees_iff {α : Type*} {d : Dialect} {q st sql : Text} {params : Table α}
    {args : List α} (hstrip : stripDialect q d = some st)
    (hbind : bindForDialect q params d = some (.ok (sql, args))) :
    ∃ ks rs us, keptRunes q d = some ks ∧ regionRunes q d = some rs ∧
      Lexes (lexeme (bindForms d) true) q us ∧ (Agree q ks rs ↔ Aligned d us) := by
  obtain ⟨vs, hvs, -⟩ := strip_eq_some_iff.mp hstrip
  obtain ⟨us, hus, -⟩ := (bindDialect_eq_ok_iff params _).mp hbind
  exact ⟨_, _, us, keptRunes_eq hvs, regionRunes_eq hus, hus, agree_iff_aligned hvs hus⟩

/-- The scanners agree on a quoted identifier and a comment of MySQL. -/
theorem strip_agrees_comment :
    ∃ ks rs, keptRunes "SELECT `a` # b\n:c".toList .mysql = some ks ∧
      regionRunes "SELECT `a` # b\n:c".toList .mysql = some rs ∧
      Agree "SELECT `a` # b\n:c".toList ks rs := by
  have hstrip : stripDialect "SELECT `a` # b\n:c".toList .mysql = some "SELECT  \n:c".toList := by
    decide +kernel
  have hbind : bindForDialect "SELECT `a` # b\n:c".toList (fun _ => some 0) .mysql =
      some (.ok ("SELECT `a` # b\n?".toList, [0])) := by decide +kernel
  obtain ⟨ks, rs, us, hks, hrs, hus, hiff⟩ := strip_agrees_iff hstrip hbind
  refine ⟨ks, rs, hks, hrs, hiff.mpr ⟨fun _ hmem => ?_, fun hd => by cases hd⟩⟩
  have hdollar : '$' ∈ textOf us := List.mem_flatMap.mpr ⟨_, hmem, List.mem_singleton_self '$'⟩
  rw [lexes_text (bindForms_proper _) hus] at hdollar
  exact absurd hdollar (by decide)

/-- MySQL has no dollar quotes: the binder takes the statement between the dollars for code, and
`StripDialect` deletes it. -/
theorem dollars_hide_statement :
    let q := "SELECT 1 $$ ; DROP TABLE t $$".toList
    stripDialect q .mysql = some "SELECT 1 ".toList ∧
      bindForDialect q (fun _ => none : Table Nat) .mysql = some (.ok (q, [])) ∧
      q[12]? = some ';' ∧ (keptRunes q .mysql).bind (·[12]?) = some false ∧
      (regionRunes q .mysql).bind (·[12]?) = some false := by
  decide +kernel

end DDAG.Connectors
