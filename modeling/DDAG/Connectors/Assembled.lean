import DDAG.Connectors.Trimming

/-!
# Reading an assembled text

What `Bind` reads in a text that is put together from parts.  Most runes are copied wherever
they stand (`isCopied`), and a reference `:key` is read as the parameter `key` if the key is a
name and no identifier rune follows it.

`Reads s keys` says that `s` is read up to its end, with the parameters `keys`, in front of every
text that does not go on with an identifier rune.  It is kept by putting parts together
(`Copied.append_reads`, `Reads.append`, `reads_join`).
-/

namespace DDAG.Connectors

open Machine

/-! ## Copied runes -/

/-- The runes at which `Bind` may read more than the rune. -/
def openers : List Char := ['"', '\'', '-', '/', ':']

def isCopied (c : Char) : Bool := !openers.contains c

def Copied (s : Text) : Prop := s.all isCopied = true

theorem isCopied_of {p : Char → Bool} (hp : openers.all (fun x => !p x) = true) {c : Char}
    (h : p c = true) : isCopied c = true := by
  rw [isCopied, Bool.not_eq_true', ← Bool.not_eq_true, List.contains_iff_mem]
  intro hmem
  have hnot := List.all_eq_true.mp hp c hmem
  rw [h] at hnot
  cases hnot

theorem isCopied_of_isIdentPart {c : Char} (h : isIdentPart c = true) : isCopied c = true :=
  isCopied_of rfl h

theorem ne_of_isCopied {c x : Char} (hc : isCopied c = true) (hx : isCopied x = false) : c ≠ x := by
  rintro rfl
  rw [hc] at hx
  cases hx

theorem Copied.of_forall {s : Text} (h : ∀ c ∈ s, isCopied c = true) : Copied s :=
  List.all_eq_true.mpr h

theorem Copied.mem {s : Text} (h : Copied s) {c : Char} (hc : c ∈ s) : isCopied c = true :=
  List.all_eq_true.mp h c hc

theorem copied_append {s t : Text} : Copied (s ++ t) ↔ Copied s ∧ Copied t := by
  simp [Copied, List.all_append]

theorem Copied.append {s t : Text} (hs : Copied s) (ht : Copied t) : Copied (s ++ t) :=
  copied_append.mpr ⟨hs, ht⟩

theorem Copied.flatMap {α : Type*} {l : List α} {f : α → Text} (h : ∀ a ∈ l, Copied (f a)) :
    Copied (l.flatMap f) := by
  apply Copied.of_forall
  intro c hc
  obtain ⟨a, ha, hca⟩ := List.mem_flatMap.mp hc
  exact (h a ha).mem hca

theorem Copied.join {parts : List Text} {sep : Text} (hparts : ∀ p ∈ parts, Copied p)
    (hsep : Copied sep) : Copied (Strings.join parts sep) := by
  induction parts with
  | nil => rfl
  | cons p rest ih =>
      have hp := hparts p List.mem_cons_self
      have hrest := ih fun q hq => hparts q (List.mem_cons_of_mem p hq)
      cases rest with
      | nil => rwa [Strings.join_singleton]
      | cons q rest =>
          rw [Strings.join_cons_cons]
          exact hp.append (hsep.append hrest)

/-! ## Lexemes of an assembled text -/

theorem lexeme_copied {c : Char} (hc : isCopied c = true) (rest : Text) :
    lexeme plainForms true (c :: rest) = some (.rune c, rest) := by
  have hne : ∀ x, isCopied x = false → c ≠ x := fun x => ne_of_isCopied hc
  show commonLexeme true c rest = _
  simp [commonLexeme, hne '"' rfl, hne '\'' rfl, hne '-' rfl, hne '/' rfl, hne ':' rfl]

theorem Copied.lexesTo {s : Text} (h : Copied s) (r : Text) :
    LexesTo (lexeme plainForms true) (s ++ r) (s.map .rune) r := by
  induction s with
  | nil => exact .done
  | cons c s ih =>
      have hc : isCopied c = true := h.mem List.mem_cons_self
      have hs : Copied s := .of_forall fun x hx => h.mem (List.mem_cons_of_mem c hx)
      exact .read (lexeme_copied hc (s ++ r)) (ih hs)

/-- No identifier goes on in the text. -/
def Apart (r : Text) : Prop := r.head?.any isIdentPart = false

theorem Apart.append {s r : Text} (hs : Apart s) (hr : Apart r) : Apart (s ++ r) := by
  cases s with
  | nil => exact hr
  | cons c s => exact hs

theorem Apart.dropWhile {key r : Text} (hkey : ∀ c ∈ key, isIdentPart c = true) (hr : Apart r) :
    (key ++ r).takeWhile isIdentPart = key ∧ (key ++ r).dropWhile isIdentPart = r := by
  have hstop : r.takeWhile isIdentPart = [] ∧ r.dropWhile isIdentPart = r := by
    cases r with
    | nil => exact ⟨rfl, rfl⟩
    | cons c r =>
        have hc : isIdentPart c = false := hr
        simp [hc]
  rw [List.takeWhile_append_of_pos hkey, List.dropWhile_append_of_pos hkey, hstop.1, hstop.2,
    List.append_nil]
  exact ⟨rfl, rfl⟩

theorem lexeme_reference {key r : Text} (hkey : IsName key) (hr : Apart r) :
    lexeme plainForms true (':' :: (key ++ r)) = some (.param key, r) := by
  obtain ⟨htake, hdrop⟩ := hr.dropWhile hkey.2
  cases key with
  | nil => cases hkey.1
  | cons c key =>
      have hstart : isIdentStart c = true := hkey.1
      have hcolon : c ≠ ':' := by
        rintro rfl
        cases hstart
      show commonLexeme true ':' _ = _
      simp only [commonLexeme]
      rw [htake, hdrop]
      simp [hstart, hcolon]

/-! ## Parts -/

/-- The text is read to its end, with these parameters if they are names. -/
def Reads (s : Text) (keys : List Text) : Prop :=
  (∀ k ∈ keys, IsName k) → ∀ r, Apart r →
    ∃ ts, LexesTo (lexeme plainForms true) (s ++ r) ts r ∧ paramNames ts = keys

theorem reads_reference (key : Text) : Reads (':' :: key) [key] := by
  intro hnames r hr
  exact ⟨[.param key], .single (lexeme_reference (hnames key List.mem_cons_self) hr), rfl⟩

theorem Reads.lexes {s : Text} {keys : List Text} (h : Reads s keys) (hnames : ∀ k ∈ keys, IsName k) :
    ∃ ts, Lexes (lexeme plainForms true) s ts ∧ paramNames ts = keys := by
  have hread := h hnames [] rfl
  rwa [List.append_nil] at hread

theorem Copied.append_reads {s t : Text} {keys : List Text} (hs : Copied s) (ht : Reads t keys) :
    Reads (s ++ t) keys := by
  intro hnames r hr
  obtain ⟨ts, hlex, hts⟩ := ht hnames r hr
  rw [List.append_assoc]
  refine ⟨s.map .rune ++ ts, (hs.lexesTo (t ++ r)).trans hlex, ?_⟩
  rw [paramNames_append, paramNames_runes, List.nil_append, hts]

theorem Reads.append {s t : Text} {keys keys' : List Text} (hs : Reads s keys) (ht : Reads t keys')
    (hapart : Apart t) : Reads (s ++ t) (keys ++ keys') := by
  intro hnames r hr
  obtain ⟨ts, hlex, hts⟩ :=
    hs (fun k hk => hnames k (List.mem_append_left _ hk)) (t ++ r) (hapart.append hr)
  obtain ⟨us, hlex', hus⟩ := ht (fun k hk => hnames k (List.mem_append_right _ hk)) r hr
  rw [List.append_assoc]
  exact ⟨ts ++ us, hlex.trans hlex', by rw [paramNames_append, hts, hus]⟩

theorem Copied.reads {s : Text} (h : Copied s) : Reads s [] := by
  intro _ r _
  exact ⟨s.map .rune, h.lexesTo r, paramNames_runes s⟩

/-- A copied text behind adds no parameters, if it does not go on with an identifier. -/
theorem Reads.append_copied {s t : Text} {keys : List Text} (hs : Reads s keys) (ht : Copied t)
    (hapart : Apart t) : Reads (s ++ t) keys := by
  have happend := hs.append ht.reads hapart
  rwa [List.append_nil] at happend

/-- Parts around a separator are read one after the other. -/
theorem reads_join {parts : List Text} {keys : List (List Text)} {sep : Text}
    (h : List.Forall₂ Reads parts keys) (hsep : Copied sep)
    (hapart : sep.head?.any (fun c => !isIdentPart c) = true) :
    Reads (Strings.join parts sep) keys.flatten := by
  induction h with
  | nil => exact Copied.reads rfl
  | @cons p ks parts keys hp hrest ih =>
      rw [List.flatten_cons]
      cases hrest with
      | nil =>
          rw [Strings.join_singleton, List.flatten_nil, List.append_nil]
          exact hp
      | cons hq hrest =>
          rw [Strings.join_cons_cons]
          refine hp.append (hsep.append_reads ih) ?_
          cases sep with
          | nil => cases hapart
          | cons c sep => exact (Bool.not_eq_true' _).mp hapart

theorem reads_references (keys : List Text) :
    List.Forall₂ Reads (keys.map (':' :: ·)) (keys.map ([·])) := by
  induction keys with
  | nil => exact .nil
  | cons key keys ih => exact .cons (reads_reference key) ih

theorem reads_join_references (keys : List Text) {sep : Text} (hsep : Copied sep)
    (hapart : sep.head?.any (fun c => !isIdentPart c) = true) :
    Reads (Strings.join (keys.map (':' :: ·)) sep) keys := by
  have hread := reads_join (reads_references keys) hsep hapart
  rwa [← List.flatMap_def, List.flatMap_singleton'] at hread

end DDAG.Connectors
