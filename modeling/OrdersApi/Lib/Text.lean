import Mathlib.Data.List.Basic
import Mathlib.Algebra.Order.Ring.Nat

/-!
# Fixed-width numerals and JSON strings

* `digits b k n`: the `k` lowest base-`b` digits of `n`, most significant first. Below
  `b ^ k` they determine the number (`digits_injective`), also as characters
  (`numeral_injective`).
* `Json.dumps`: an object of string values as JSON text with ASCII characters only,
  `", "` and `": "` as separators.
-/

namespace Text

/-- The `k` lowest base-`b` digits of `n`, most significant first. -/
def digits (b : ℕ) : ℕ → ℕ → List ℕ
  | 0, _ => []
  | k + 1, n => digits b k (n / b) ++ [n % b]

/-- A fixed-width numeral: `digits` as characters `0`, …, `9`, `a`, …, `f`. -/
def numeral (b k n : ℕ) : List Char := (digits b k n).map Nat.digitChar

theorem digits_length (b : ℕ) : ∀ k n, (digits b k n).length = k := by
  intro k
  induction k with
  | zero => intro n; rfl
  | succ k ih => intro n; simp [digits, ih]

theorem digits_lt {b : ℕ} (hb : 0 < b) : ∀ k n, ∀ d ∈ digits b k n, d < b := by
  intro k
  induction k with
  | zero => intro n d hd; simp [digits] at hd
  | succ k ih =>
    intro n d hd
    rcases List.mem_append.1 hd with hd | hd
    · exact ih _ d hd
    · rw [List.mem_singleton.1 hd]; exact Nat.mod_lt _ hb

theorem digits_injective {b : ℕ} : ∀ k {n m : ℕ}, n < b ^ k → m < b ^ k →
    digits b k n = digits b k m → n = m := by
  intro k
  induction k with
  | zero => intro n m hn hm _; simp at hn hm; omega
  | succ k ih =>
    intro n m hn hm h
    have hlen : (digits b k (n / b)).length = (digits b k (m / b)).length := by
      rw [digits_length, digits_length]
    obtain ⟨hdiv, hmod⟩ := List.append_inj h hlen
    have hdiv' : n / b = m / b :=
      ih (Nat.div_lt_of_lt_mul (by rwa [pow_succ, mul_comm] at hn))
        (Nat.div_lt_of_lt_mul (by rwa [pow_succ, mul_comm] at hm)) hdiv
    have hmod' : n % b = m % b := by simpa using hmod
    rw [← Nat.div_add_mod n b, ← Nat.div_add_mod m b, hdiv', hmod']

/-- The value of a hexadecimal digit, of either case. -/
def hexValue (c : Char) : Option ℕ :=
  if '0' ≤ c ∧ c ≤ '9' then some (c.toNat - 48)
  else if 'a' ≤ c ∧ c ≤ 'f' then some (c.toNat - 87)
  else if 'A' ≤ c ∧ c ≤ 'F' then some (c.toNat - 55)
  else none

theorem hexValue_digitChar {d : ℕ} (hd : d < 16) : hexValue (Nat.digitChar d) = some d := by
  have key : ∀ x : Fin 16, hexValue (Nat.digitChar x) = some x.val := by decide
  exact key ⟨d, hd⟩

theorem map_hexValue_numeral {b k n : ℕ} (hb : 0 < b) (hb' : b ≤ 16) :
    (numeral b k n).map hexValue = (digits b k n).map some := by
  unfold numeral
  rw [List.map_map]
  exact List.map_congr_left fun d hd => hexValue_digitChar ((digits_lt hb k n d hd).trans_le hb')

theorem numeral_injective {b k n m : ℕ} (hb : 0 < b) (hb' : b ≤ 16) (hn : n < b ^ k) (hm : m < b ^ k)
    (h : numeral b k n = numeral b k m) : n = m := by
  refine digits_injective k hn hm ?_
  have hmap := congrArg (List.map hexValue) h
  rw [map_hexValue_numeral hb hb', map_hexValue_numeral hb hb'] at hmap
  exact (List.map_inj_right fun _ _ => Option.some.inj).1 hmap

/-- A numeral has hexadecimal digits only. -/
theorem not_mem_numeral {b k n : ℕ} (hb : 0 < b) (hb' : b ≤ 16) {c : Char} (hc : hexValue c = none) :
    c ∉ numeral b k n := by
  intro h
  obtain ⟨d, hd, he⟩ := List.mem_map.1 h
  have hdigit := hexValue_digitChar ((digits_lt hb k n d hd).trans_le hb')
  rw [he, hc] at hdigit
  exact nomatch hdigit

end Text

namespace Json

open Text

/-- A `\u` escape of one UTF-16 code unit. -/
def unicodeEscape (n : ℕ) : List Char := '\\' :: 'u' :: numeral 16 4 n

/-- One character of a JSON string, escaped to ASCII. -/
def escapeChar (c : Char) : List Char :=
  if c = '"' then ['\\', '"']
  else if c = '\\' then ['\\', '\\']
  else if c = '\n' then ['\\', 'n']
  else if c = '\r' then ['\\', 'r']
  else if c = '\t' then ['\\', 't']
  else if c.toNat = 0x0c then ['\\', 'f']
  else if c.toNat = 0x08 then ['\\', 'b']
  else if 0x20 ≤ c.toNat ∧ c.toNat ≤ 0x7e then [c]
  else if c.toNat < 0x10000 then unicodeEscape c.toNat
  else unicodeEscape (0xd800 + (c.toNat - 0x10000) / 0x400) ++
    unicodeEscape (0xdc00 + (c.toNat - 0x10000) % 0x400)

def quote (s : String) : String := "\"" ++ String.ofList (s.toList.flatMap escapeChar) ++ "\""

/-- An object of string values, in the order of its entries. -/
def dumps (entries : List (String × String)) : String :=
  "\x7b" ++ String.intercalate ", " (entries.map fun e => quote e.1 ++ ": " ++ quote e.2) ++ "\x7d"

end Json
