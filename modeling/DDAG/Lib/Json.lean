import Mathlib.Data.Finset.Sort
import Mathlib.Data.Fintype.Basic

/-!
# JSON values

Decoded JSON over strings `σ` and numbers `ν`.  An object is a finite set of keys with a
value for each, so a key cannot come twice and the order of the keys is not seen.  Equality
of values is therefore what Go's `reflect.DeepEqual` decides (`deepEqual_iff`), provided that
equality of numbers is.

Decoding may not tell all numbers apart: `mapNumber` is a value with its numbers decoded.

A place in a value is a path of keys and indices.  `node` is what stands at a place without
what is below it: the scalar, the length of an array, or the keys of an object.
-/

universe u v w

/-- A JSON value. -/
inductive Json (σ : Type u) (ν : Type v) where
  | null
  | bool (b : Bool)
  | number (n : ν)
  | text (s : σ)
  | array (length : Nat) (items : Fin length → Json σ ν)
  | object (keys : Finset σ) (values : {k // k ∈ keys} → Json σ ν)

namespace Json

variable {σ : Type u} {ν : Type v} {φ : Type w}

/-! ## Places -/

/-- From a value to one directly below it. -/
inductive Step (σ : Type u) where
  | key (k : σ)
  | index (i : Nat)

/-- A value without what is below it. -/
inductive Node (σ : Type u) (ν : Type v) where
  | null
  | bool (b : Bool)
  | number (n : ν)
  | text (s : σ)
  | array (length : Nat)
  | object (keys : Finset σ)

def node : Json σ ν → Node σ ν
  | .null => .null
  | .bool b => .bool b
  | .number n => .number n
  | .text s => .text s
  | .array length _ => .array length
  | .object keys _ => .object keys

section Places

variable [DecidableEq σ]

/-- The value one step below. -/
def child? : Json σ ν → Step σ → Option (Json σ ν)
  | .array length items, .index i => if h : i < length then some (items ⟨i, h⟩) else none
  | .object keys values, .key k => if h : k ∈ keys then some (values ⟨k, h⟩) else none
  | _, _ => none

/-- The value at a place. -/
def at? : Json σ ν → List (Step σ) → Option (Json σ ν)
  | v, [] => some v
  | v, s :: p => (v.child? s).bind fun c => c.at? p

@[simp] theorem at?_nil (v : Json σ ν) : v.at? [] = some v := rfl

@[simp] theorem at?_cons (v : Json σ ν) (s : Step σ) (p : List (Step σ)) :
    v.at? (s :: p) = (v.child? s).bind fun c => c.at? p := rfl

@[simp] theorem child?_text (t : σ) (s : Step σ) : (.text t : Json σ ν).child? s = none := by
  cases s <;> rfl

theorem child?_key {keys : Finset σ} (values : {k // k ∈ keys} → Json σ ν) {k : σ} (h : k ∈ keys) :
    (object keys values).child? (.key k) = some (values ⟨k, h⟩) := dif_pos h

theorem child?_index {length : Nat} (items : Fin length → Json σ ν) (i : Fin length) :
    (array length items).child? (.index i) = some (items i) := dif_pos i.isLt

end Places

/-! ## Keys and numbers -/

def isObject : Json σ ν → Bool
  | .object _ _ => true
  | _ => false

/-- The keys of two objects, sorted. -/
def sortedKeys [LinearOrder σ] (a b : Finset σ) : List σ := (a ∪ b).sort (· ≤ ·)

theorem mem_sortedKeys [LinearOrder σ] {a b : Finset σ} {k : σ} : k ∈ sortedKeys a b ↔ k ∈ a ∨ k ∈ b := by
  rw [sortedKeys, Finset.mem_sort, Finset.mem_union]

/-- Every key of the value, at whatever depth, has the property. -/
def EveryKey (P : σ → Prop) : Json σ ν → Prop
  | .array _ items => ∀ i, EveryKey P (items i)
  | .object keys values => ∀ k : {k // k ∈ keys}, P k ∧ EveryKey P (values k)
  | _ => True

/-- The value with its numbers decoded. -/
def mapNumber (f : ν → φ) : Json σ ν → Json σ φ
  | .null => .null
  | .bool b => .bool b
  | .number n => .number (f n)
  | .text s => .text s
  | .array length items => .array length fun i => mapNumber f (items i)
  | .object keys values => .object keys fun k => mapNumber f (values k)

@[simp] theorem isObject_mapNumber (f : ν → φ) (v : Json σ ν) : (v.mapNumber f).isObject = v.isObject := by
  cases v <;> rfl

/-- Numbers that are told apart keep values apart. -/
theorem mapNumber_injective {f : ν → φ} (hf : Function.Injective f) :
    Function.Injective (mapNumber f : Json σ ν → Json σ φ) := by
  intro a
  induction a with
  | array m items ih =>
      intro b h
      cases b with
      | array n others =>
          obtain ⟨rfl, hitems⟩ := Json.array.inj h
          exact congrArg (array m) (funext fun i => ih i (congrFun (eq_of_heq hitems) i))
      | _ => cases h
  | object keys values ih =>
      intro b h
      cases b with
      | object keys' values' =>
          obtain ⟨rfl, hvalues⟩ := Json.object.inj h
          exact congrArg (object keys) (funext fun k => ih k (congrFun (eq_of_heq hvalues) k))
      | _ => cases h
  | number n =>
      intro b h
      cases b with
      | number m => exact congrArg number (hf (Json.number.inj h))
      | _ => cases h
  | _ =>
      intro b h
      cases b <;> cases h
      rfl

/-! ## Equality -/

section Equality

variable [DecidableEq σ] [DecidableEq ν]

/-- `reflect.DeepEqual`. -/
def deepEqual : Json σ ν → Json σ ν → Bool
  | .null, .null => true
  | .bool b, .bool c => b = c
  | .number m, .number n => m = n
  | .text s, .text t => s = t
  | .array m f, .array n g => if h : m = n then decide (∀ i, deepEqual (f i) (g (i.cast h)) = true) else false
  | .object K f, .object L g =>
      if h : K = L then decide (∀ k : {k // k ∈ K}, deepEqual (f k) (g ⟨k, h ▸ k.2⟩) = true) else false
  | _, _ => false

theorem deepEqual_iff (a b : Json σ ν) : deepEqual a b = true ↔ a = b := by
  induction a generalizing b with
  | null => cases b <;> simp [deepEqual]
  | bool c => cases b <;> simp [deepEqual]
  | number n => cases b <;> simp [deepEqual]
  | text s => cases b <;> simp [deepEqual]
  | array m f ih =>
      cases b with
      | array n g =>
          by_cases h : m = n
          · subst h
            simp [deepEqual, ih, funext_iff]
          · simp [deepEqual, h]
      | _ => simp [deepEqual]
  | object K f ih =>
      cases b with
      | object L g =>
          by_cases h : K = L
          · subst h
            simp [deepEqual, ih, funext_iff]
          · simp [deepEqual, h]
      | _ => simp [deepEqual]

instance : DecidableEq (Json σ ν) := fun a b => decidable_of_iff (deepEqual a b = true) (deepEqual_iff a b)

end Equality

end Json
