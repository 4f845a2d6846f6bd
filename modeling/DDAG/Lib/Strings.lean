import Mathlib.Algebra.Ring.Int.Defs
import Mathlib.Algebra.Ring.Nat
import Mathlib.Data.List.DropRight
import Mathlib.Data.List.Infix

/-!
# Go string functions on runes

The functions of the Go packages `strings` and `strconv` that the development
needs, on lists of runes.  `ToUpper` and `ToLower` act on the ASCII letters and on the four
runes outside ASCII whose other case is an ASCII letter; the other runes are
left alone, which no comparison with an ASCII text can see.
-/

namespace Strings

/-- `unicode.IsSpace`. -/
def isSpace (c : Char) : Bool :=
  c == ' ' || ('\t' ≤ c && c ≤ '\r') || c == '\u0085' || c == '\u00a0' || c == '\u1680' ||
    ('\u2000' ≤ c && c ≤ '\u200a') || c == '\u2028' || c == '\u2029' || c == '\u202f' ||
    c == '\u205f' || c == '\u3000'

/-- `unicode.ToUpper`: the long s and the dotless i have ASCII upper cases. -/
def upperRune (c : Char) : Char :=
  if c = '\u017f' then 'S' else if c = '\u0131' then 'I' else c.toUpper

/-- `unicode.ToLower`: the Kelvin sign and the dotted I have ASCII lower cases. -/
def lowerRune (c : Char) : Char :=
  if c = '\u212a' then 'k' else if c = '\u0130' then 'i' else c.toLower

def toUpper (s : List Char) : List Char := s.map upperRune
def toLower (s : List Char) : List Char := s.map lowerRune

/-- The case of a rune, for comparisons with ASCII text: the Kelvin sign and the long s
fold with ASCII letters. -/
def foldRune (c : Char) : Char :=
  if c = '\u212a' then 'k' else if c = '\u017f' then 's' else c.toLower

/-- `strings.EqualFold`, with a representative of the runes that fold with a rune. -/
def equalFold (fold : Char → Char) (s t : List Char) : Bool := s.map fold = t.map fold

/-- `strings.TrimRight`, with the runes of the cutset. -/
def trimRight (cut : Char → Bool) (s : List Char) : List Char := s.rdropWhile cut

/-- `strings.Trim`. -/
def trim (cut : Char → Bool) (s : List Char) : List Char := trimRight cut (s.dropWhile cut)

def trimSpace (s : List Char) : List Char := trimRight isSpace (s.dropWhile isSpace)

/-- `strings.HasPrefix`. -/
def hasPrefix (s start : List Char) : Bool := start.isPrefixOf s

/-- `strings.TrimSuffix`. -/
def trimSuffix (s cut : List Char) : List Char :=
  if cut.isSuffixOf s then s.take (s.length - cut.length) else s

/-- `strings.Contains`, of one rune. -/
def containsRune (s : List Char) (c : Char) : Bool := s.contains c

/-- `strings.Contains`. -/
def contains (s sub : List Char) : Bool := s.tails.any fun rest => sub.isPrefixOf rest

theorem contains_iff {s sub : List Char} : contains s sub = true ↔ sub <:+: s := by
  simp only [contains, List.any_eq_true, List.mem_tails, List.isPrefixOf_iff_prefix, List.infix_iff_prefix_suffix,
    and_comm]

def isOneOf (l : List (List Char)) (s : List Char) : Bool := l.any (· = s)

@[simp] theorem isOneOf_iff {l : List (List Char)} {s : List Char} : isOneOf l s = true ↔ s ∈ l := by
  simp [isOneOf]

/-- `strings.Cut`, at the first rune `sep`. -/
def cut (s : List Char) (sep : Char) : Option (List Char × List Char) :=
  if s.contains sep then some (s.takeWhile (· != sep), (s.dropWhile (· != sep)).tail) else none

/-- `strings.Split`, at the rune `sep`. -/
def split (s : List Char) (sep : Char) : List (List Char) := s.splitOn sep

/-- `strings.Join`. -/
def join (parts : List (List Char)) (sep : List Char) : List Char := sep.intercalate parts

/-- `strings.Fields`: the words between white space. -/
def fields (s : List Char) : List (List Char) := (s.splitOnP isSpace).filter fun w => !w.isEmpty

/-- A text that `fields` leaves whole. -/
def IsWord (w : List Char) : Prop := w ≠ [] ∧ ∀ c ∈ w, isSpace c = false

/-- `strconv.IsPrint`.  Above U+00FF it asks a table; here these runes are all printable. -/
def isPrint (c : Char) : Bool :=
  (0x20 ≤ c.toNat && c.toNat < 0x7f) || (0xa1 ≤ c.toNat && c.toNat ≠ 0xad)

/-- A number in hexadecimal, with zeros in front. -/
def hex (width n : Nat) : List Char := (Nat.toDigits 16 n).leftpad width '0'

def escapes : List (Char × Char) :=
  [('\x07', 'a'), ('\x08', 'b'), ('\x0c', 'f'), ('\n', 'n'), ('\r', 'r'), ('\t', 't'), ('\x0b', 'v')]

/-- A rune in the verb `%q`. -/
def quoteRune (c : Char) : List Char :=
  if c = '"' ∨ c = '\\' then ['\\', c]
  else if isPrint c then [c]
  else
    match escapes.lookup c with
    | some e => ['\\', e]
    | none =>
        if c.toNat < 0x20 ∨ c.toNat = 0x7f then '\\' :: 'x' :: hex 2 c.toNat
        else if c.toNat < 0x10000 then '\\' :: 'u' :: hex 4 c.toNat
        else '\\' :: 'U' :: hex 8 c.toNat

/-- The verb `%q`. -/
def quote (s : List Char) : List Char := '"' :: s.flatMap quoteRune ++ ['"']

/-- The verb `%d` of a natural number. -/
def decimal (n : Nat) : List Char := Nat.toDigits 10 n

/-- The verb `%d` of an integer. -/
def decimalInt (n : Int) : List Char := if n < 0 then '-' :: decimal n.natAbs else decimal n.natAbs

/-- `len`, in bytes. -/
def byteLength (s : List Char) : Nat := (s.map Char.utf8Size).sum

/-! ## Reading numbers -/

/-- A text of decimal digits, at least one. -/
def digitsValue (s : List Char) : Option Nat :=
  if s ≠ [] ∧ s.all Char.isDigit then some (s.foldl (fun n c => 10 * n + (c.toNat - 48)) 0)
  else none

/-- `strconv.ParseInt` with base ten and 64 bits, and `strconv.Atoi`. -/
def parseInt (s : List Char) : Option Int :=
  match s with
  | '-' :: rest => (digitsValue rest).bind fun n => if n ≤ 2 ^ 63 then some (-n) else none
  | '+' :: rest => (digitsValue rest).bind fun n => if n < 2 ^ 63 then some n else none
  | _ => (digitsValue s).bind fun n => if n < 2 ^ 63 then some n else none

/-- `strconv.ParseBool`. -/
def parseBool (s : List Char) : Option Bool :=
  if ["1", "t", "T", "true", "TRUE", "True"].any (·.toList = s) then some true
  else if ["0", "f", "F", "false", "FALSE", "False"].any (·.toList = s) then some false
  else none

/-! ## What trimming removes -/

theorem trimRight_split (cut : Char → Bool) (s : List Char) :
    ∃ b, s = trimRight cut s ++ b ∧ ∀ c ∈ b, cut c = true := by
  refine ⟨s.rtakeWhile cut, ?_, fun c hc => List.mem_rtakeWhile_imp hc⟩
  simp [trimRight, List.rdropWhile, List.rtakeWhile, ← List.reverse_append]

theorem trimSpace_split (s : List Char) :
    ∃ a b, s = a ++ (trimSpace s ++ b) ∧ (∀ c ∈ a, isSpace c = true) ∧ ∀ c ∈ b, isSpace c = true := by
  obtain ⟨b, hb, hspace⟩ := trimRight_split isSpace (s.dropWhile isSpace)
  refine ⟨s.takeWhile isSpace, b, ?_, fun c hc => List.mem_takeWhile_imp hc, hspace⟩
  rw [trimSpace, ← hb, List.takeWhile_append_dropWhile]

theorem trimSuffix_split (s cut : List Char) :
    ∃ b, s = trimSuffix s cut ++ b ∧ (b = cut ∨ b = []) := by
  unfold trimSuffix
  split
  next h =>
    obtain ⟨front, rfl⟩ := List.isSuffixOf_iff_suffix.mp h
    exact ⟨cut, by simp, .inl rfl⟩
  next _ => exact ⟨[], by simp, .inr rfl⟩

theorem trimSuffix_append (s cut : List Char) : trimSuffix (s ++ cut) cut = s := by
  rw [trimSuffix, if_pos (List.isSuffixOf_iff_suffix.mpr (List.suffix_append s cut)),
    List.length_append, Nat.add_sub_cancel, List.take_left]

/-- What is left of a text starts with no white space. -/
theorem dropWhile_trimSpace (s : List Char) : (trimSpace s).dropWhile isSpace = trimSpace s := by
  cases ht : trimSpace s with
  | nil => rfl
  | cons c rest =>
      -- the first rune was left by the trimming on the left
      have hstart : c :: rest <+: s.dropWhile isSpace := by
        rw [← ht]
        exact List.rdropWhile_prefix _ _
      have hc : isSpace c = false := by
        obtain ⟨b, hb⟩ := hstart
        have hhead := List.head?_dropWhile_not isSpace s
        rw [← hb] at hhead
        simpa using hhead
      simp [hc]

theorem trimSpace_trimSpace (s : List Char) : trimSpace (trimSpace s) = trimSpace s := by
  rw [trimSpace, dropWhile_trimSpace]
  exact List.rdropWhile_idempotent _ _

theorem trimSpace_head (s : List Char) : (trimSpace s).head?.any isSpace = false := by
  have hnot := List.head?_dropWhile_not isSpace (trimSpace s)
  rw [dropWhile_trimSpace] at hnot
  cases hs : (trimSpace s).head? with
  | none => rfl
  | some c =>
      rw [hs] at hnot
      exact hnot

theorem trimSpace_last (s : List Char) : (trimSpace s).getLast?.any isSpace = false := by
  by_cases hne : trimSpace s = []
  · rw [hne]
    rfl
  · rw [List.getLast?_eq_some_getLast hne, Option.any_some, ← Bool.not_eq_true]
    exact List.rdropWhile_last_not isSpace (s.dropWhile isSpace) hne

/-- White space around a text without white space at its edges is trimmed. -/
theorem trimSpace_eq {a m b : List Char} (ha : ∀ c ∈ a, isSpace c = true)
    (hb : ∀ c ∈ b, isSpace c = true) (hhead : m.head?.any isSpace = false)
    (hlast : m.getLast?.any isSpace = false) : trimSpace (a ++ (m ++ b)) = m := by
  have hstop : ∀ {v : List Char}, v.head?.any isSpace = false → v.dropWhile isSpace = v := by
    intro v hv
    cases v with
    | nil => rfl
    | cons c v =>
        have hc : isSpace c = false := hv
        rw [List.dropWhile_cons_of_neg (by rw [hc]; decide)]
  have hright : trimRight isSpace (m ++ b) = m := by
    rw [trimRight, List.rdropWhile, List.reverse_append,
      List.dropWhile_append_of_pos fun c hc => hb c (List.mem_reverse.mp hc), hstop,
      List.reverse_reverse]
    rwa [List.head?_reverse]
  rw [trimSpace, List.dropWhile_append_of_pos ha]
  cases m with
  | nil =>
      rw [List.nil_append, List.dropWhile_eq_nil_iff.mpr hb]
      rfl
  | cons c m => rw [hstop (show (c :: m ++ b).head?.any isSpace = false from hhead), hright]

/-! ## Texts around a separator -/

@[simp] theorem join_nil (sep : List Char) : join [] sep = [] := by
  simp [join, List.intercalate]

theorem join_singleton (a sep : List Char) : join [a] sep = a := by
  simp [join, List.intercalate]

theorem join_cons_cons (a b : List Char) (parts : List (List Char)) (sep : List Char) :
    join (a :: b :: parts) sep = a ++ (sep ++ join (b :: parts) sep) := by
  simp [join, List.intercalate]

/-- One more part, with the separator unless it is the first. -/
theorem join_concat (parts : List (List Char)) (a sep : List Char) :
    join (parts ++ [a]) sep = if parts = [] then a else join parts sep ++ sep ++ a := by
  induction parts with
  | nil => exact join_singleton a sep
  | cons b parts ih =>
      cases parts with
      | nil => simp [join_cons_cons, join_singleton]
      | cons c parts =>
          simp only [List.cons_append, join_cons_cons, reduceCtorEq, if_false] at ih ⊢
          simp [ih]

/-- The text is what stands before the separator, the separator and what follows it. -/
theorem cut_eq_some {s a b : List Char} {sep : Char} (h : cut s sep = some (a, b)) :
    s = a ++ sep :: b := by
  unfold cut at h
  split at h
  next hmem =>
    cases h
    have hdrop : s.dropWhile (· != sep) = sep :: (s.dropWhile (· != sep)).tail := by
      cases hrest : s.dropWhile (· != sep) with
      | nil =>
          have hall := List.dropWhile_eq_nil_iff.mp hrest sep (List.contains_iff_mem.mp hmem)
          exact absurd hall (by simp)
      | cons c rest =>
          have hc := List.head?_dropWhile_not (· != sep) s
          rw [hrest] at hc
          have hc' : c = sep := by simpa using hc
          rw [hc', List.tail_cons]
    rw [← hdrop, List.takeWhile_append_dropWhile]
  next _ => cases h

/-- The text before the first separator, and the text behind it. -/
theorem append_sep_inj {sep : Char} {a b x y : List Char} (ha : sep ∉ a) (hb : sep ∉ b)
    (h : a ++ sep :: x = b ++ sep :: y) : a = b ∧ x = y := by
  induction a generalizing b with
  | nil =>
      cases b with
      | nil =>
          cases h
          exact ⟨rfl, rfl⟩
      | cons c b =>
          cases h
          exact absurd List.mem_cons_self hb
  | cons c a ih =>
      cases b with
      | nil =>
          cases h
          exact absurd List.mem_cons_self ha
      | cons d b =>
          rw [List.cons_append, List.cons_append, List.cons.injEq] at h
          obtain ⟨rfl, hrest⟩ := h
          obtain ⟨rfl, rfl⟩ := ih (fun hc => ha (List.mem_cons_of_mem _ hc))
            (fun hc => hb (List.mem_cons_of_mem _ hc)) hrest
          exact ⟨rfl, rfl⟩

/-- The text before the last separator, and the text behind it. -/
theorem append_sep_inj_last {sep : Char} {a b x y : List Char} (hx : sep ∉ x) (hy : sep ∉ y)
    (h : a ++ sep :: x = b ++ sep :: y) : a = b ∧ x = y := by
  have hrev : x.reverse ++ sep :: a.reverse = y.reverse ++ sep :: b.reverse := by
    simpa using congrArg List.reverse h
  obtain ⟨hxy, hab⟩ := append_sep_inj (by simpa using hx) (by simpa using hy) hrev
  exact ⟨List.reverse_inj.mp hab, List.reverse_inj.mp hxy⟩

/-! ## Integers read back -/

theorem mem_digits {c : Char} (h : c.isDigit = true) :
    c ∈ ['0', '1', '2', '3', '4', '5', '6', '7', '8', '9'] := by
  simp only [Char.isDigit, Bool.and_eq_true, decide_eq_true_eq] at h
  obtain ⟨hlow, hhigh⟩ := h
  rw [ge_iff_le, UInt32.le_iff_toNat_le] at hlow
  rw [UInt32.le_iff_toNat_le] at hhigh
  simp only [List.mem_cons, List.not_mem_nil, or_false, Char.ext_iff, ← UInt32.toNat_inj]
  simp only [Char.reduceVal, UInt32.reduceToNat] at hlow hhigh ⊢
  omega

theorem isSpace_digit {c : Char} (h : c.isDigit = true) : isSpace c = false := by
  have hall : ['0', '1', '2', '3', '4', '5', '6', '7', '8', '9'].all (fun d => !isSpace d) = true := by
    decide
  simpa using List.all_eq_true.mp hall c (mem_digits h)

theorem isDigit_decimal {n : Nat} {c : Char} (hc : c ∈ decimal n) : c.isDigit = true :=
  Nat.isDigit_of_mem_toDigits (by decide) (by decide) hc

theorem digitsValue_decimal (n : Nat) : digitsValue (decimal n) = some n := by
  have hall : (decimal n).all Char.isDigit = true := List.all_eq_true.mpr fun c => isDigit_decimal
  rw [digitsValue, if_pos ⟨Nat.toDigits_ne_nil, hall⟩]
  exact congrArg some (Nat.ofDigitChars_toDigits (by decide) (by decide))

/-- A text without a sign is read as its digits. -/
theorem parseInt_decimal (n : Nat) :
    parseInt (decimal n) = if n < 2 ^ 63 then some (n : Int) else none := by
  have hdigits := digitsValue_decimal n
  have hfirst : ∀ c rest, decimal n = c :: rest → c ≠ '-' ∧ c ≠ '+' := by
    intro c rest heq
    have hdigit : c.isDigit = true := isDigit_decimal (heq ▸ List.mem_cons_self)
    constructor
    · rintro rfl
      exact absurd hdigit (by decide)
    · rintro rfl
      exact absurd hdigit (by decide)
  unfold parseInt
  split
  next rest heq => exact absurd rfl (hfirst _ _ heq).1
  next rest heq => exact absurd rfl (hfirst _ _ heq).2
  next _ => rw [hdigits, Option.bind_some]

/-- An integer reads back as itself if it has 64 bits. -/
theorem parseInt_decimalInt (n : Int) :
    parseInt (decimalInt n) = if -2 ^ 63 ≤ n ∧ n < 2 ^ 63 then some n else none := by
  unfold decimalInt
  split
  next hneg =>
    rw [parseInt, digitsValue_decimal, Option.bind_some]
    have habs : (n.natAbs : Int) = -n := by omega
    split
    next hle => rw [if_pos (by omega), habs, Int.neg_neg]
    next hle => rw [if_neg (by omega)]
  next hpos =>
    rw [parseInt_decimal]
    have habs : (n.natAbs : Int) = n := by omega
    split
    next hlt => rw [if_pos (by omega), habs]
    next hlt => rw [if_neg (by omega)]

theorem trimSpace_of_forall {s : List Char} (h : ∀ c ∈ s, isSpace c = false) : trimSpace s = s := by
  have hlead : s.dropWhile isSpace = s := by
    cases s with
    | nil => rfl
    | cons c rest => simp [h c List.mem_cons_self]
  rw [trimSpace, hlead, trimRight, List.rdropWhile_eq_self_iff]
  intro hne
  rw [h _ (List.getLast_mem hne)]
  decide

theorem mem_decimalInt {n : Int} {c : Char} (hc : c ∈ decimalInt n) : c = '-' ∨ c.isDigit = true := by
  unfold decimalInt at hc
  split at hc
  next _ =>
    rcases List.mem_cons.mp hc with rfl | hc
    · exact .inl rfl
    · exact .inr (isDigit_decimal hc)
  next _ => exact .inr (isDigit_decimal hc)

theorem trimSpace_decimalInt (n : Int) : trimSpace (decimalInt n) = decimalInt n := by
  refine trimSpace_of_forall fun c hc => ?_
  rcases mem_decimalInt hc with rfl | hdigit
  · decide
  · exact isSpace_digit hdigit

theorem decimal_inj {m n : Nat} (h : decimal m = decimal n) : m = n := by
  have hvalue := digitsValue_decimal m
  rw [h, digitsValue_decimal] at hvalue
  exact (Option.some.inj hvalue).symm

/-- Different integers have different texts. -/
theorem decimalInt_inj {m n : Int} (h : decimalInt m = decimalInt n) : m = n := by
  have hsign : ∀ {k : Nat} {rest : List Char}, '-' :: rest ≠ decimal k := by
    intro k rest heq
    have hdigit : '-'.isDigit = true := isDigit_decimal (heq ▸ List.mem_cons_self)
    exact absurd hdigit (by decide)
  unfold decimalInt at h
  split at h <;> split at h
  · have habs := decimal_inj (List.cons.inj h).2
    omega
  · exact absurd h hsign
  · exact absurd h.symm hsign
  · have habs := decimal_inj h
    omega

theorem decimalInt_ne_nil (n : Int) : decimalInt n ≠ [] := by
  unfold decimalInt
  split
  next _ => exact List.cons_ne_nil _ _
  next _ => exact Nat.toDigits_ne_nil

/-! ## Words -/

/-- No part between separators has a separator. -/
theorem forall_of_mem_splitOnP {sep : Char → Bool} {s w : List Char} (hw : w ∈ s.splitOnP sep) :
    ∀ c ∈ w, sep c = false := by
  induction s generalizing w with
  | nil =>
      rw [List.splitOnP_nil, List.mem_singleton] at hw
      rw [hw]
      exact nofun
  | cons d s ih =>
      rw [List.splitOnP_cons_eq_if_modifyHead] at hw
      split at hw
      next _ =>
        cases hw with
        | head => exact nofun
        | tail _ hmem => exact ih hmem
      next hd =>
        cases hparts : s.splitOnP sep with
        | nil =>
            rw [hparts] at hw
            cases hw
        | cons v vs =>
            rw [hparts, List.modifyHead_cons] at hw
            rw [hparts] at ih
            cases hw with
            | head =>
                intro c hc
                cases hc with
                | head => exact Bool.of_not_eq_true hd
                | tail _ hmem => exact ih List.mem_cons_self c hmem
            | tail _ hmem => exact ih (List.mem_cons_of_mem v hmem)

/-- No part between white space has white space. -/
theorem isSpace_of_mem_splitOnP {s w : List Char} (hw : w ∈ s.splitOnP isSpace) :
    ∀ c ∈ w, isSpace c = false := forall_of_mem_splitOnP hw

theorem isWord_of_mem_fields {s w : List Char} (hw : w ∈ fields s) : IsWord w := by
  rw [fields, List.mem_filter] at hw
  exact ⟨by simpa using hw.2, isSpace_of_mem_splitOnP hw.1⟩

/-- The words around a blank are those before it and those behind it. -/
theorem fields_append_blank (s t : List Char) : fields (s ++ ' ' :: t) = fields s ++ fields t := by
  rw [fields, List.splitOnP_append_cons s t (by decide), List.filter_append]
  rfl

theorem fields_of_isWord {w : List Char} (h : IsWord w) : fields w = [w] := by
  have hkeep : (!w.isEmpty) = true := by simpa using h.1
  rw [fields, List.splitOnP_eq_singleton h.2, List.filter_singleton, hkeep]
  rfl

/-- The words of texts joined by blanks are the words of the texts. -/
theorem fields_join_flatMap (parts : List (List Char)) : fields (join parts [' ']) = parts.flatMap fields := by
  induction parts with
  | nil => rfl
  | cons s parts ih =>
      cases parts with
      | nil => rw [join_singleton, List.flatMap_singleton]
      | cons t parts =>
          rw [join_cons_cons, List.singleton_append, fields_append_blank, ih]
          rfl

/-- Words joined by blanks are read back. -/
theorem fields_join {ws : List (List Char)} (h : ∀ w ∈ ws, IsWord w) : fields (join ws [' ']) = ws := by
  rw [fields_join_flatMap]
  induction ws with
  | nil => rfl
  | cons w ws ih =>
      obtain ⟨hw, hws⟩ := List.forall_mem_cons.mp h
      rw [List.flatMap_cons, fields_of_isWord hw, ih hws, List.singleton_append]

theorem trimSpace_of_isWord {w : List Char} (h : IsWord w) : trimSpace w = w := trimSpace_of_forall h.2

/-- A blank text has no words. -/
theorem fields_of_blank {s : List Char} (h : trimSpace s = []) : fields s = [] := by
  have hspaces : ∀ c ∈ s, isSpace c = true := by
    obtain ⟨a, b, hs, ha, hb⟩ := trimSpace_split s
    rw [h, List.nil_append] at hs
    rw [hs]
    exact List.forall_mem_append.mpr ⟨ha, hb⟩
  clear h
  induction s with
  | nil => rfl
  | cons c s ih =>
      obtain ⟨hc, hrest⟩ := List.forall_mem_cons.mp hspaces
      have hsplit := List.splitOnP_append_cons [] s hc
      rw [List.nil_append] at hsplit
      rw [fields, hsplit, List.filter_append]
      exact ih hrest

end Strings
