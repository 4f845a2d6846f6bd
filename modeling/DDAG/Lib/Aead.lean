import Mathlib.Logic.Function.Basic

/-!
# Ideal authenticated encryption

A scheme with associated data in which a ciphertext opens under the key, nonce and associated
data it was sealed with, and under no others.  Keys, nonces, texts and ciphertexts are bytes of
one type.  `symbolic` is such a scheme, in which ciphertexts are terms.

`Ciphertexts` is the other half of the ideal: a ciphertext that was never made does not open.
There opening looks into the list of the sealings made so far (`Ciphertexts.opened_iff`).
-/

/-- Opening succeeds exactly with what was given to one sealing, and returns its plaintext. -/
structure Aead (B : Type*) where
  /-- The bytes have the length of a key. -/
  isKey : B → Bool
  sealed (key nonce plaintext aad : B) : B
  opened (key nonce ciphertext aad : B) : Option B
  opened_iff {key nonce ciphertext aad plaintext : B} :
    opened key nonce ciphertext aad = some plaintext ↔ ciphertext = sealed key nonce plaintext aad
  sealed_inj {k k' n n' p p' a a' : B} :
    sealed k n p a = sealed k' n' p' a' → k = k' ∧ n = n' ∧ p = p' ∧ a = a'
  /-- The bytes of a text. -/
  ofText : List Char → B
  ofText_inj {s t : List Char} : ofText s = ofText t → s = t

namespace Aead

variable {B : Type*} (scheme : Aead B)

@[simp] theorem opened_sealed (k n p a : B) : scheme.opened k n (scheme.sealed k n p a) a = some p :=
  scheme.opened_iff.mpr rfl

/-- Other associated data open nothing. -/
theorem opened_of_ne {a a' : B} (h : a' ≠ a) (k k' n n' p : B) :
    scheme.opened k' n' (scheme.sealed k n p a) a' = none := by
  cases hopen : scheme.opened k' n' (scheme.sealed k n p a) a' with
  | none => rfl
  | some q =>
      have heq := scheme.sealed_inj (scheme.opened_iff.mp hopen)
      exact absurd heq.2.2.2.symm h

/-- Texts, and terms for what is sealed. -/
inductive Term where
  | text (s : List Char)
  | sealed (key nonce plaintext aad : Term)
deriving DecidableEq

/-- The scheme of terms. -/
def symbolic : Aead Term where
  isKey _ := true
  sealed := .sealed
  opened key nonce ciphertext aad :=
    match ciphertext with
    | .sealed k n p a => if key = k ∧ nonce = n ∧ aad = a then some p else none
    | .text _ => none
  opened_iff := by
    intro key nonce ciphertext aad plaintext
    cases ciphertext with
    | text s => simp
    | sealed k n p a =>
        simp only [Option.ite_none_right_eq_some, Option.some.injEq, Term.sealed.injEq]
        constructor
        · rintro ⟨⟨rfl, rfl, rfl⟩, rfl⟩
          exact ⟨rfl, rfl, rfl, rfl⟩
        · rintro ⟨rfl, rfl, rfl, rfl⟩
          exact ⟨⟨rfl, rfl, rfl⟩, rfl⟩
  sealed_inj h := by
    cases h
    exact ⟨rfl, rfl, rfl, rfl⟩
  ofText := .text
  ofText_inj h := by
    cases h
    rfl

end Aead

/-! ## What was sealed -/

/-- What is given to one sealing. -/
structure Sealing (B : Type*) where
  key : B
  nonce : B
  plaintext : B
  aad : B

/-- The ciphertexts of a scheme, which two plaintexts share only if something else differs. -/
structure Ciphertexts (B : Type*) where
  ciphertext : Sealing B → B
  ciphertext_inj {k n p p' a : B} : ciphertext ⟨k, n, p, a⟩ = ciphertext ⟨k, n, p', a⟩ → p = p'

namespace Ciphertexts

variable {B : Type*} [DecidableEq B] (scheme : Ciphertexts B)

/-- Opening, after the sealings `made`. -/
def opened (made : List (Sealing B)) (key nonce ciphertext aad : B) : Option B :=
  (made.find? fun s =>
    s.key = key ∧ s.nonce = nonce ∧ s.aad = aad ∧ scheme.ciphertext s = ciphertext).map Sealing.plaintext

variable {scheme} {made : List (Sealing B)} {k n c a p : B}

theorem mem_of_opened (h : scheme.opened made k n c a = some p) :
    ⟨k, n, p, a⟩ ∈ made ∧ scheme.ciphertext ⟨k, n, p, a⟩ = c := by
  obtain ⟨s, hfind, rfl⟩ := Option.map_eq_some_iff.mp h
  have hs := List.find?_some hfind
  obtain ⟨rfl, rfl, rfl, hc⟩ := of_decide_eq_true hs
  exact ⟨List.mem_of_find?_eq_some hfind, hc⟩

/-- What opens is what was sealed. -/
theorem opened_iff :
    scheme.opened made k n c a = some p ↔ ⟨k, n, p, a⟩ ∈ made ∧ scheme.ciphertext ⟨k, n, p, a⟩ = c := by
  constructor
  · exact mem_of_opened
  · rintro ⟨hmem, hc⟩
    cases hopen : scheme.opened made k n c a with
    | none =>
        have hnone := List.find?_eq_none.mp (Option.map_eq_none_iff.mp hopen) _ hmem
        exact absurd (decide_eq_true ⟨rfl, rfl, rfl, hc⟩) hnone
    | some q =>
        -- a sealing with the same ciphertext has the same plaintext
        obtain ⟨_, hq⟩ := mem_of_opened hopen
        exact congrArg some (scheme.ciphertext_inj (hq.trans hc.symm))

/-- The ciphertexts that hide nothing. -/
def clear (B : Type*) : Ciphertexts B where
  ciphertext := Sealing.plaintext
  ciphertext_inj h := h

end Ciphertexts
