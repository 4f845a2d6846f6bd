import DDAG.Connectors.Termination

/-!
# Closed dollar quotes

PostgreSQL closes a string that opens with `$tag$` at the next `$tag$`.
`dollarQuoteEnd` takes the longest run of identifier runes and dollars after the
first dollar for the rest of the opening delimiter.  A body that begins with such a
rune lengthens the delimiter, and the scanner looks for a text that does not close
the string.

`dollarQuoteEnd_delimited_iff` says that a string is read up to its own closing
delimiter exactly when its body begins with another rune.  A body for which
`$tag$` first occurs across its end, like `x$` for the empty tag, is no body of
that string: PostgreSQL closes it one rune early, and so does the scanner.
-/

namespace DDAG.Connectors

def IsTag (tag : Text) : Prop := tag = [] ∨ IsName tag

def delimiter (tag : Text) : Text := '$' :: (tag ++ ['$'])

/-- The delimiter that closes a body is the first one after it opened. -/
def Delimits (tag body : Text) : Prop :=
  ∀ u v, body ++ delimiter tag = u ++ delimiter tag ++ v → v = []

/-- A rune the scan for the tag goes past. -/
def tagRune (c : Char) : Bool := isIdentPart c || c == '$'

/-- The body begins with a rune that ends the scan for the tag. -/
def StartsApart (body : Text) : Prop := body.head?.any (fun c => !tagRune c) = true

theorem IsTag.tagRunes {tag : Text} (h : IsTag tag) : ∀ c ∈ tag, tagRune c = true := by
  intro c hc
  rcases h with rfl | hname
  · cases hc
  · rw [tagRune, hname.2 c hc, Bool.true_or]

/-! ## Where a tag is found -/

theorem findTag_split {tag s after : Text} (h : findTag tag s = some after) :
    ∃ u, s = u ++ tag ++ after := by
  induction s with
  | nil => cases h
  | cons c s ih =>
      rw [findTag] at h
      split at h
      next hp =>
        cases h
        obtain ⟨v, hv⟩ := List.isPrefixOf_iff_prefix.mp hp
        refine ⟨[], ?_⟩
        rw [← hv, List.drop_left, List.nil_append]
      next _ =>
        obtain ⟨u, rfl⟩ := ih h
        exact ⟨c :: u, rfl⟩

/-- No occurrence of a tag comes before the one that is found. -/
theorem findTag_first {tag s after u v : Text} (h : findTag tag s = some after)
    (hs : s = u ++ tag ++ v) : v.length ≤ after.length := by
  induction s generalizing u with
  | nil => cases h
  | cons c s ih =>
      have hlen := congrArg List.length hs
      simp only [List.length_append, List.length_cons] at hlen
      rw [findTag] at h
      split at h
      next hp =>
        cases h
        rw [List.length_drop, List.length_cons]
        omega
      next hp =>
        cases u with
        | nil =>
            have hprefix : tag <+: c :: s := ⟨v, hs.symm⟩
            exact absurd (List.isPrefixOf_iff_prefix.mpr hprefix) hp
        | cons c' u =>
            obtain ⟨-, hs'⟩ := List.cons.inj hs
            exact ih h hs'

theorem findTag_delimiter_iff {tag body rest : Text} :
    findTag (delimiter tag) (body ++ delimiter tag ++ rest) = some rest ↔ Delimits tag body := by
  constructor
  · intro h u v huv
    have hlen := findTag_first (u := u) (v := v ++ rest) h (by rw [huv, List.append_assoc])
    rw [List.length_append] at hlen
    exact List.eq_nil_of_length_eq_zero (by omega)
  · intro hdelimits
    cases hfind : findTag (delimiter tag) (body ++ delimiter tag ++ rest) with
    | none =>
        have hnot := (findTag_eq_none_iff (List.cons_ne_nil _ _) _).mp hfind
        exact absurd ⟨body, rest, rfl⟩ hnot
    | some after =>
        obtain ⟨u, hu⟩ := findTag_split hfind
        have hlen := findTag_first hfind rfl
        -- what is left is the rest of the text with a `v` before it
        obtain ⟨v, rfl⟩ : rest <:+ after := by
          have hrest : rest <:+ body ++ delimiter tag ++ rest := List.suffix_append _ _
          rw [hu] at hrest
          exact List.suffix_of_suffix_length_le hrest (List.suffix_append _ _) hlen
        rw [← List.append_assoc] at hu
        have hv := hdelimits u v (List.append_cancel_right hu)
        rw [hv, List.nil_append]

/-! ## The scan for the tag -/

/-- After its delimiter, the scan goes on through the tag runes the text begins with. -/
theorem dollarQuoteEnd_delimiter {tag : Text} (htag : IsTag tag) (t : Text) :
    dollarQuoteEnd (delimiter tag ++ t) =
      if ('$' :: dollarTag t).getLast? = some '$' then
        findTag (delimiter tag ++ dollarTag t) (t.drop (dollarTag t).length)
      else none := by
  have hscan : (tag ++ ['$'] ++ t).takeWhile tagRune = tag ++ ['$'] ++ dollarTag t := by
    refine List.takeWhile_append_of_pos fun c hc => ?_
    rcases List.mem_append.mp hc with hc | hc
    · exact htag.tagRunes c hc
    · rw [List.mem_singleton.mp hc]
      rfl
  show (if ((tag ++ ['$'] ++ t).takeWhile tagRune).getLast? = some '$' then
      findTag ('$' :: (tag ++ ['$'] ++ t).takeWhile tagRune)
        ((tag ++ ['$'] ++ t).drop ((tag ++ ['$'] ++ t).takeWhile tagRune).length)
    else none) = _
  rw [hscan, List.length_append, List.drop_length_add_append, List.append_assoc, List.getLast?_append]
  simp [delimiter]

theorem dollarTag_of_startsApart {body : Text} (h : StartsApart body) (t : Text) :
    dollarTag (body ++ t) = [] := by
  cases body with
  | nil => cases h
  | cons c body =>
      have hc : tagRune c = false := by simpa [StartsApart] using h
      show (c :: (body ++ t)).takeWhile tagRune = []
      exact List.takeWhile_cons_of_neg (by simp [hc])

/-- A body that does not begin apart lengthens the delimiter. -/
theorem dollarTag_ne_nil {body : Text} (h : ¬ StartsApart body) (t : Text) :
    dollarTag (body ++ '$' :: t) ≠ [] := by
  cases body with
  | nil => exact List.cons_ne_nil '$' _
  | cons c body =>
      have hc : tagRune c = true := by simpa [StartsApart] using h
      show (c :: (body ++ '$' :: t)).takeWhile tagRune ≠ []
      rw [List.takeWhile_cons_of_pos hc]
      exact List.cons_ne_nil _ _

section

variable {tag body : Text} (rest : Text)

theorem dollarQuoteEnd_of_startsApart (htag : IsTag tag) (hstart : StartsApart body) :
    dollarQuoteEnd (delimiter tag ++ (body ++ delimiter tag ++ rest)) = some rest ↔
      Delimits tag body := by
  rw [dollarQuoteEnd_delimiter htag, List.append_assoc, dollarTag_of_startsApart hstart,
    ← List.append_assoc, List.append_nil]
  exact findTag_delimiter_iff

/-- If the scan finds the closing delimiter with a longer one, the delimiter occurs before
it. -/
theorem startsApart_of_dollarQuoteEnd (htag : IsTag tag) (hdelimits : Delimits tag body)
    (hend : dollarQuoteEnd (delimiter tag ++ (body ++ delimiter tag ++ rest)) = some rest) :
    StartsApart body := by
  by_contra hstart
  rw [dollarQuoteEnd_delimiter htag] at hend
  split at hend
  next _ =>
    obtain ⟨u, hu⟩ := findTag_split hend
    have hx : dollarTag (body ++ delimiter tag ++ rest) ≠ [] := by
      rw [List.append_assoc]
      exact dollarTag_ne_nil hstart _
    generalize hw : body ++ delimiter tag ++ rest = w at hu hx
    have hprefix : dollarTag w ++ w.drop (dollarTag w).length = w := by
      have htake : dollarTag w = w.take (dollarTag w).length :=
        List.prefix_iff_eq_take.mp (List.takeWhile_prefix _)
      have hsplit := List.take_append_drop (dollarTag w).length w
      rwa [← htake] at hsplit
    have hall : body ++ delimiter tag ++ rest =
        (dollarTag w ++ u) ++ delimiter tag ++ dollarTag w ++ rest := by
      rw [hw]
      conv_lhs => rw [← hprefix, hu]
      simp only [List.append_assoc]
    exact hx (hdelimits _ _ (List.append_cancel_right hall))
  next _ => cases hend

/-- A dollar-quoted string is read up to its closing delimiter exactly when its body begins
with a rune that cannot belong to a tag; and for a body that does, exactly when the delimiter
is the first one. -/
theorem dollarQuoteEnd_delimited_iff (htag : IsTag tag) :
    (Delimits tag body →
      (dollarQuoteEnd (delimiter tag ++ (body ++ delimiter tag ++ rest)) = some rest ↔
        StartsApart body)) ∧
    (StartsApart body →
      (dollarQuoteEnd (delimiter tag ++ (body ++ delimiter tag ++ rest)) = some rest ↔
        Delimits tag body)) := by
  refine ⟨fun hdelimits => ⟨startsApart_of_dollarQuoteEnd rest htag hdelimits, fun hstart => ?_⟩,
    dollarQuoteEnd_of_startsApart rest htag⟩
  exact (dollarQuoteEnd_of_startsApart rest htag hstart).mpr hdelimits

end

/-- The string `$q$ :x$q$` is read up to its end, so its delimiter closes it. -/
theorem colon_body_delimited : StartsApart " :x".toList ∧ Delimits ['q'] " :x".toList := by
  have htag : IsTag ['q'] := .inr ⟨rfl, List.all_eq_true.mp rfl⟩
  have hend : dollarQuoteEnd (delimiter ['q'] ++ (" :x".toList ++ delimiter ['q'] ++ [])) = some [] := by
    decide
  have hstart : StartsApart " :x".toList := rfl
  exact ⟨hstart, ((dollarQuoteEnd_delimited_iff [] htag).2 hstart).mp hend⟩

/-- The string `$$a$$` is not read: its body is taken for a part of the delimiter. -/
theorem letter_body_unread :
    IsTag [] ∧ ¬ delimiter [] <:+: ['a'] ∧
      dollarQuoteEnd (delimiter [] ++ (['a'] ++ delimiter [] ++ [])) = none := by
  refine ⟨.inl rfl, fun h => ?_, by decide⟩
  exact absurd h.length_le (by decide)

end DDAG.Connectors
