import Mathlib.Data.List.Nodup

/-!
# Base64

Encodings over an alphabet of 64 characters, with and without padding.  Three bytes are four digits,
and one or two bytes at the end are two or three.  Decoding passes over line ends wherever they stand,
and does not look at the bits of the last digit that no byte needs.

* `decode_encode`: decoding gives back the bytes that were encoded.
-/

namespace Base64

/-- Line ends, which a decoder passes over. -/
def isLineEnd (c : Char) : Bool := c = '\n' || c = '\r'

def padding : Char := '='

/-- An alphabet, and whether the text is padded to whole groups of four. -/
structure Encoding where
  alphabet : List Char
  padded : Bool
  length : alphabet.length = 64
  nodup : alphabet.Nodup
  lineEnd : alphabet.any isLineEnd = false
  padding_notMem : padding ∉ alphabet

namespace Encoding

variable (e : Encoding)

theorem mod_lt_length (n : Nat) : n % 64 < e.alphabet.length := by
  rw [e.length]
  exact Nat.mod_lt n (by decide)

def digit (n : Nat) : Char := e.alphabet.get ⟨n % 64, e.mod_lt_length n⟩

def value (c : Char) : Option Nat := e.alphabet.idxOf? c

def pad (n : Nat) : List Char := if e.padded then List.replicate n Base64.padding else []

/-- The first characters of the four digits of a number. -/
def digits (n k : Nat) : List Char :=
  [e.digit (n / 262144), e.digit (n / 4096), e.digit (n / 64), e.digit n].take k

def encode : List UInt8 → List Char
  | a :: b :: c :: rest => e.digits (a.toNat * 65536 + b.toNat * 256 + c.toNat) 4 ++ encode rest
  | [a, b] => e.digits (a.toNat * 65536 + b.toNat * 256) 3 ++ e.pad 1
  | [a] => e.digits (a.toNat * 65536) 2 ++ e.pad 2
  | [] => []

end Encoding

/-- The first bytes of the three of a number. -/
def bytes (n k : Nat) : List UInt8 := [UInt8.ofNat (n / 65536), UInt8.ofNat (n / 256), UInt8.ofNat n].take k

/-- The number of some of its four digits. -/
def number : List Nat → Nat
  | [a, b, c, d] => a * 262144 + b * 4096 + c * 64 + d
  | [a, b, c] => a * 262144 + b * 4096 + c * 64
  | [a, b] => a * 262144 + b * 4096
  | _ => 0

namespace Encoding

variable (e : Encoding)

/-- The end of the text: two or three digits and their padding. -/
def decodeLast (digits pad : List Char) : Option (List UInt8) :=
  if pad = e.pad (4 - digits.length) then
    (digits.mapM e.value).map fun ns => bytes (number ns) (ns.length - 1)
  else none

/-- Decoding a text without line ends. -/
def decodeGroups : List Char → Option (List UInt8)
  | [] => some []
  | [_] => none
  | [a, b] => e.decodeLast [a, b] []
  | [a, b, c] => e.decodeLast [a, b, c] []
  | a :: b :: c :: d :: rest =>
      match [a, b, c, d].mapM e.value with
      | some ns => (decodeGroups rest).map (bytes (number ns) 3 ++ ·)
      | none =>
          if rest ≠ [] then none
          else if c = Base64.padding then e.decodeLast [a, b] [c, d]
          else e.decodeLast [a, b, c] [d]

def decode (s : List Char) : Option (List UInt8) := e.decodeGroups (s.filter fun c => !isLineEnd c)

end Encoding

/-! ## The round trip -/

theorem ofNat_eq {n : Nat} {a : UInt8} (h : n % 256 = a.toNat) : UInt8.ofNat n = a := by
  rw [← UInt8.toNat_inj, UInt8.toNat_ofNat', h]

theorem bytes_number (a b c : UInt8) (k : Nat) :
    bytes (a.toNat * 65536 + b.toNat * 256 + c.toNat) k = [a, b, c].take k := by
  have ha := a.toNat_lt
  have hb := b.toNat_lt
  have hc := c.toNat_lt
  rw [bytes, ofNat_eq (a := a) (by omega), ofNat_eq (a := b) (by omega), ofNat_eq (a := c) (by omega)]

/-- A number below `2 ^ 24` is that of its four digits. -/
theorem number_digits {n : Nat} (h : n < 16777216) :
    number [n / 262144 % 64, n / 4096 % 64, n / 64 % 64, n % 64] = n := by
  rw [number]
  omega

namespace Encoding

variable {e : Encoding}

theorem digit_mem (n : Nat) : e.digit n ∈ e.alphabet := List.get_mem _ _

@[simp] theorem value_digit (n : Nat) : e.value (e.digit n) = some (n % 64) := by
  rw [value, digit, List.idxOf?_eq_some_iff]
  refine ⟨e.mod_lt_length n, rfl, fun j hj heq => ?_⟩
  exact absurd (e.nodup.getElem_inj_iff.mp heq) (Nat.ne_of_lt hj)

@[simp] theorem value_padding : e.value padding = none :=
  List.idxOf?_eq_none_iff.mpr e.padding_notMem

theorem digit_ne_padding (n : Nat) : e.digit n ≠ padding := fun h => e.padding_notMem (h ▸ digit_mem n)

theorem lineEnd_digit (n : Nat) : isLineEnd (e.digit n) = false :=
  Bool.eq_false_iff.mpr (List.any_eq_false.mp e.lineEnd _ (digit_mem n))

theorem lineEnd_digits {n k : Nat} {c : Char} (h : c ∈ e.digits n k) : isLineEnd c = false := by
  have hmem : c ∈ [e.digit (n / 262144), e.digit (n / 4096), e.digit (n / 64), e.digit n] :=
    List.mem_of_mem_take h
  simp only [List.mem_cons, List.not_mem_nil, or_false] at hmem
  rcases hmem with rfl | rfl | rfl | rfl <;> exact lineEnd_digit _

theorem lineEnd_pad {n : Nat} {c : Char} (h : c ∈ e.pad n) : isLineEnd c = false := by
  rw [pad] at h
  split at h
  · rw [List.eq_of_mem_replicate h]
    rfl
  · cases h

/-- What is encoded is on one line. -/
theorem lineEnd_encode (bs : List UInt8) : ∀ c ∈ e.encode bs, isLineEnd c = false := by
  fun_induction e.encode bs with
  | case1 a b c rest ih =>
      exact List.forall_mem_append.mpr ⟨fun _ => lineEnd_digits, ih⟩
  | case2 a b => exact List.forall_mem_append.mpr ⟨fun _ => lineEnd_digits, fun _ => lineEnd_pad⟩
  | case3 a => exact List.forall_mem_append.mpr ⟨fun _ => lineEnd_digits, fun _ => lineEnd_pad⟩
  | case4 => exact List.forall_mem_nil _

theorem decodeGroups_digits (a b c : UInt8) (rest : List Char) :
    e.decodeGroups (e.digits (a.toNat * 65536 + b.toNat * 256 + c.toNat) 4 ++ rest) =
      (e.decodeGroups rest).map ([a, b, c] ++ ·) := by
  have hlt : a.toNat * 65536 + b.toNat * 256 + c.toNat < 16777216 := by
    have := a.toNat_lt
    have := b.toNat_lt
    have := c.toNat_lt
    omega
  simp [digits, decodeGroups, number_digits hlt, bytes_number]

/-- The end of a text is decoded as such, with two digits or three. -/
theorem decodeGroups_last (n : Nat) {k : Nat} (hk : k = 2 ∨ k = 3) :
    e.decodeGroups (e.digits n k ++ e.pad (4 - k)) = e.decodeLast (e.digits n k) (e.pad (4 - k)) := by
  rcases hk with rfl | rfl <;> cases hpad : e.padded <;>
    simp [digits, pad, hpad, decodeGroups, List.replicate, digit_ne_padding]

/-- The digits of a number, without the last of them if they are zero, are the digits of its bytes. -/
theorem decodeLast_digits {n k : Nat} (hn : n < 16777216) (hk : k = 2 ∧ n % 4096 = 0 ∨ k = 3 ∧ n % 64 = 0) :
    e.decodeLast (e.digits n k) (e.pad (4 - k)) = some (bytes n (k - 1)) := by
  rcases hk with ⟨rfl, hzero⟩ | ⟨rfl, hzero⟩
  · have hnumber : number [n / 262144 % 64, n / 4096 % 64] = n := by
      rw [number]
      omega
    simp [decodeLast, digits, hnumber]
  · have hnumber : number [n / 262144 % 64, n / 4096 % 64, n / 64 % 64] = n := by
      rw [number]
      omega
    simp [decodeLast, digits, hnumber]

theorem decodeGroups_encode (bs : List UInt8) : e.decodeGroups (e.encode bs) = some bs := by
  fun_induction e.encode bs with
  | case1 a b c rest ih => rw [decodeGroups_digits, ih, Option.map_some]; rfl
  | case2 a b =>
      have ha := a.toNat_lt
      have hb := b.toNat_lt
      have hbytes := bytes_number a b 0 2
      rw [UInt8.toNat_zero, Nat.add_zero] at hbytes
      rw [decodeGroups_last _ (.inr rfl), decodeLast_digits (by omega) (.inr ⟨rfl, by omega⟩), hbytes]
      rfl
  | case3 a =>
      have ha := a.toNat_lt
      have hbytes := bytes_number a 0 0 1
      rw [UInt8.toNat_zero, Nat.zero_mul, Nat.add_zero] at hbytes
      rw [decodeGroups_last _ (.inl rfl), decodeLast_digits (by omega) (.inl ⟨rfl, by omega⟩), hbytes]
      rfl
  | case4 => rfl

/-- Decoding gives back what was encoded. -/
theorem decode_encode (bs : List UInt8) : e.decode (e.encode bs) = some bs := by
  have hone : (e.encode bs).filter (fun c => !isLineEnd c) = e.encode bs :=
    List.filter_eq_self.mpr fun c hc => by rw [lineEnd_encode bs c hc]; rfl
  rw [decode, hone, decodeGroups_encode]

end Encoding

/-! ## Two encodings -/

def alphanumerics : List Char :=
  "ABCDEFGHIJKLMNOPQRSTUVWXYZ".toList ++ "abcdefghijklmnopqrstuvwxyz".toList ++ "0123456789".toList

def std : Encoding where
  alphabet := alphanumerics ++ ['+', '/']
  padded := true
  length := rfl
  nodup := by decide
  lineEnd := rfl
  padding_notMem := by decide

def rawURL : Encoding where
  alphabet := alphanumerics ++ ['-', '_']
  padded := false
  length := rfl
  nodup := by decide
  lineEnd := rfl
  padding_notMem := by decide

example : std.encode [77, 97] = "TWE=".toList ∧ rawURL.encode [77, 97] = "TWE".toList := by decide

end Base64
