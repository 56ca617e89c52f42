import OrdersApi.Lib.Text
import Mathlib.Data.List.Nodup

/-!
# Reading JSON

`loads` reads a JSON text, with the white space, the escapes and the number forms of
Python's `json.loads`. A string is read in two stages: escapes and characters give UTF-16
code units (`scanString`), and code units give characters (`fromUnits`). A lone surrogate
is refused, because a `String` cannot hold it. An object keeps the last value of a key at
the place of its first (`insert`).

`loads_of_read`: the fuel of `loads` is enough for every text. `loads_dumps`: what `dumps`
writes is read back, whatever characters the strings have.
-/

namespace Json

open Text

inductive Value
  | null
  | bool (b : Bool)
  | number (text : String)
  | str (s : String)
  | arr (items : List Value)
  | obj (members : List (String × Value))

/-! ## Strings -/

/-- The UTF-16 code units of a character. -/
def units (c : Char) : List ℕ :=
  if c.toNat < 0x10000 then [c.toNat]
  else [0xd800 + (c.toNat - 0x10000) / 0x400, 0xdc00 + (c.toNat - 0x10000) % 0x400]

/-- The character with a code point. -/
def charOf (n : ℕ) : Option Char := if n.isValidChar then some (Char.ofNat n) else none

/-- The characters of some code units; a pair of surrogates is one character. -/
def fromUnits : List ℕ → Option (List Char)
  | [] => some []
  | [u] => (charOf u).map fun c => [c]
  | u :: v :: us =>
    if 0xd800 ≤ u ∧ u < 0xdc00 ∧ 0xdc00 ≤ v ∧ v < 0xe000 then do
      let c ← charOf (0x10000 + (u - 0xd800) * 0x400 + (v - 0xdc00))
      let cs ← fromUnits us
      return c :: cs
    else do
      let c ← charOf u
      let cs ← fromUnits (v :: us)
      return c :: cs

/-- The code unit of a two-character escape. -/
def escaped : Char → Option ℕ
  | '"' => some 0x22
  | '\\' => some 0x5c
  | '/' => some 0x2f
  | 'b' => some 0x08
  | 'f' => some 0x0c
  | 'n' => some 0x0a
  | 'r' => some 0x0d
  | 't' => some 0x09
  | _ => none

def hex4 (a b c d : Char) : Option ℕ := do
  let a ← hexValue a
  let b ← hexValue b
  let c ← hexValue c
  let d ← hexValue d
  return ((a * 16 + b) * 16 + c) * 16 + d

/-- The code units of a string up to its closing quote, and the text after it. -/
def scanString : List Char → Option (List ℕ × List Char)
  | [] => none
  | '"' :: cs => some ([], cs)
  | '\\' :: 'u' :: a :: b :: c :: d :: cs => do
    let u ← hex4 a b c d
    let (us, rest) ← scanString cs
    return (u :: us, rest)
  | '\\' :: c :: cs => do
    let u ← escaped c
    let (us, rest) ← scanString cs
    return (u :: us, rest)
  | c :: cs =>
    -- control characters must be escaped
    if c.toNat < 0x20 then none
    else do
      let (us, rest) ← scanString cs
      return (units c ++ us, rest)

/-- A string, after its opening quote. -/
def readString (cs : List Char) : Option (String × List Char) := do
  let (us, rest) ← scanString cs
  let s ← fromUnits us
  return (String.ofList s, rest)

/-! ## Values -/

def isSpace (c : Char) : Bool := c = ' ' || c = '\t' || c = '\n' || c = '\r'

def skip (cs : List Char) : List Char := cs.dropWhile isSpace

/-- The character `c`, after white space. -/
def expect (c : Char) (cs : List Char) : Option (List Char) :=
  match skip cs with
  | d :: rest => if d = c then some rest else none
  | [] => none

/-- Digits, at least one. -/
def readDigits (cs : List Char) : Option (List Char × List Char) :=
  if (cs.takeWhile Char.isDigit).isEmpty then none
  else some (cs.takeWhile Char.isDigit, cs.dropWhile Char.isDigit)

/-- The integer part of a number without its sign: no superfluous leading zero. -/
def readNat : List Char → Option (List Char × List Char)
  | '0' :: cs => some (['0'], cs)
  | cs => readDigits cs

/-- A fraction, if there is one. -/
def readFraction : List Char → List Char × List Char
  | '.' :: cs => match readDigits cs with
    | some (ds, rest) => ('.' :: ds, rest)
    | none => ([], '.' :: cs)
  | cs => ([], cs)

/-- One of the characters `signs`, if the text begins with one. -/
def readSign (signs : List Char) : List Char → List Char × List Char
  | c :: cs => if c ∈ signs then ([c], cs) else ([], c :: cs)
  | [] => ([], [])

/-- An exponent, if there is one. -/
def readExponent : List Char → List Char × List Char
  | c :: cs =>
    if c = 'e' ∨ c = 'E' then
      match readDigits (readSign ['+', '-'] cs).2 with
      | some (ds, rest) => (c :: (readSign ['+', '-'] cs).1 ++ ds, rest)
      | none => ([], c :: cs)
    else ([], c :: cs)
  | [] => ([], [])

def readNumber (cs : List Char) : Option (Value × List Char) := do
  let (sign, digits) := readSign ['-'] cs
  let (int, rest) ← readNat digits
  let (fraction, rest) := readFraction rest
  let (exponent, rest) := readExponent rest
  return (.number (String.ofList (sign ++ int ++ fraction ++ exponent)), rest)

/-- The words that are values; Python also reads `NaN` and the infinities. -/
def words : List (String × Value) :=
  [("null", .null), ("true", .bool true), ("false", .bool false),
   ("NaN", .number "NaN"), ("Infinity", .number "Infinity"), ("-Infinity", .number "-Infinity")]

def readScalar (cs : List Char) : Option (Value × List Char) :=
  match words.find? fun word => word.1.toList.isPrefixOf cs with
  | some word => some (word.2, cs.drop word.1.length)
  | none => readNumber cs

/-- `members[key] = value` on a Python `dict`. -/
def insert {α : Type} : List (String × α) → String → α → List (String × α)
  | [], key, value => [(key, value)]
  | (key', value') :: members, key, value =>
    if key' = key then (key, value) :: members else (key', value') :: insert members key value

mutual

/-- A value. Fuel for the length of the text is enough (`loads_of_read`). -/
def readValue : ℕ → List Char → Option (Value × List Char)
  | 0, _ => none
  | _ + 1, [] => none
  | n + 1, c :: cs =>
    if c = '"' then (readString cs).map fun x => (.str x.1, x.2)
    else if c = '\x7b' then match expect '\x7d' cs with
      | some cs => some (.obj [], cs)
      | none => (readMembers n [] cs).map fun x => (.obj x.1, x.2)
    else if c = '[' then match expect ']' cs with
      | some cs => some (.arr [], cs)
      | none => (readItems n cs).map fun x => (.arr x.1, x.2)
    else readScalar (c :: cs)

/-- The members of an object up to its closing brace. -/
def readMembers : ℕ → List (String × Value) → List Char → Option (List (String × Value) × List Char)
  | 0, _, _ => none
  | n + 1, members, cs => do
    let cs ← expect '"' cs
    let (key, cs) ← readString cs
    let cs ← expect ':' cs
    let (value, cs) ← readValue n (skip cs)
    match expect '\x7d' cs with
    | some cs => some (insert members key value, cs)
    | none =>
      let cs ← expect ',' cs
      readMembers n (insert members key value) cs

/-- The items of an array up to its closing bracket. -/
def readItems : ℕ → List Char → Option (List Value × List Char)
  | 0, _ => none
  | n + 1, cs => do
    let (value, cs) ← readValue n (skip cs)
    match expect ']' cs with
    | some cs => some ([value], cs)
    | none =>
      let cs ← expect ',' cs
      let (values, cs) ← readItems n cs
      return (value :: values, cs)

end

/-- `json.loads`. -/
def loads (s : String) : Option Value := do
  let (value, rest) ← readValue (s.length + 1) (skip s.toList)
  if skip rest = [] then return value else none

/-- A string member of an object. -/
def Value.text : Value → String → Option String
  | .obj members, key => match members.lookup key with
    | some (.str s) => some s
    | _ => none
  | _, _ => none

/-! ## Fuel -/

section Fuel

variable {c : Char} {cs rest : List Char}

theorem skip_length (cs : List Char) : (skip cs).length ≤ cs.length :=
  (List.dropWhile_sublist _).length_le

theorem expect_length (h : expect c cs = some rest) : rest.length < cs.length := by
  unfold expect at h
  split at h
  · rename_i d rest' hskip
    split_ifs at h
    cases h
    have hle := skip_length cs
    rw [hskip, List.length_cons] at hle
    omega
  · cases h

theorem scanString_length {x : List ℕ × List Char} (h : scanString cs = some x) :
    x.2.length < cs.length := by
  fun_induction scanString cs generalizing x with
  | case1 => cases h
  | case2 cs => cases h; simp
  | case3 a b c d cs ih =>
    simp only [Option.bind_eq_bind, Option.bind_eq_some_iff] at h
    obtain ⟨u, -, y, hscan, he⟩ := h
    cases he
    have hlater := ih hscan
    simp only [List.length_cons]
    omega
  | case4 c cs _ ih =>
    simp only [Option.bind_eq_bind, Option.bind_eq_some_iff] at h
    obtain ⟨u, -, y, hscan, he⟩ := h
    cases he
    have hlater := ih hscan
    simp only [List.length_cons]
    omega
  | case5 => cases h
  | case6 c cs _ _ _ _ ih =>
    simp only [Option.bind_eq_bind, Option.bind_eq_some_iff] at h
    obtain ⟨y, hscan, he⟩ := h
    cases he
    have hlater := ih hscan
    simp only [List.length_cons]
    omega

theorem readString_length {x : String × List Char} (h : readString cs = some x) :
    x.2.length < cs.length := by
  simp only [readString, Option.bind_eq_bind, Option.bind_eq_some_iff] at h
  obtain ⟨y, hscan, t, -, he⟩ := h
  cases he
  exact scanString_length hscan

theorem readDigits_length {x : List Char × List Char} (h : readDigits cs = some x) :
    x.2.length < cs.length := by
  unfold readDigits at h
  split_ifs at h with hempty
  cases h
  have hlen := congrArg List.length (List.takeWhile_append_dropWhile (p := Char.isDigit) (l := cs))
  rw [List.length_append] at hlen
  have hpos : 0 < (cs.takeWhile Char.isDigit).length := by
    rw [List.length_pos_iff]
    simpa using hempty
  show (cs.dropWhile Char.isDigit).length < cs.length
  omega

theorem readNat_length {x : List Char × List Char} (h : readNat cs = some x) :
    x.2.length < cs.length := by
  unfold readNat at h
  split at h
  · cases h
    simp
  · exact readDigits_length h

theorem readFraction_length (cs : List Char) : (readFraction cs).2.length ≤ cs.length := by
  unfold readFraction
  split
  · split
    · rename_i hdigits
      have hlater := readDigits_length hdigits
      simp only [List.length_cons]
      exact hlater.le.trans (Nat.le_succ _)
    · exact le_rfl
  · exact le_rfl

theorem readSign_length (signs cs : List Char) : (readSign signs cs).2.length ≤ cs.length := by
  unfold readSign
  split
  · split_ifs
    · simp
    · exact le_rfl
  · exact le_rfl

theorem readExponent_length (cs : List Char) : (readExponent cs).2.length ≤ cs.length := by
  unfold readExponent
  split
  · rename_i c cs
    split_ifs
    · split
      · rename_i hdigits
        have hsign := readSign_length ['+', '-'] cs
        have hlater := readDigits_length hdigits
        dsimp only at hlater ⊢
        rw [List.length_cons]
        omega
      · exact le_rfl
    · exact le_rfl
  · exact le_rfl

theorem readNumber_length {x : Value × List Char} (h : readNumber cs = some x) :
    x.2.length < cs.length := by
  simp only [readNumber, Option.bind_eq_bind, Option.bind_eq_some_iff] at h
  obtain ⟨y, hnat, he⟩ := h
  cases he
  have hsign := readSign_length ['-'] cs
  have hlater := readNat_length hnat
  have hfraction := readFraction_length y.2
  have hexponent := readExponent_length (readFraction y.2).2
  show (readExponent (readFraction y.2).2).2.length < cs.length
  omega

theorem readScalar_length {x : Value × List Char} (h : readScalar cs = some x) :
    x.2.length < cs.length := by
  unfold readScalar at h
  split at h
  · rename_i word hword
    cases h
    have hfound : word.1.toList.isPrefixOf cs = true := by simpa using List.find?_some hword
    have hle := (List.isPrefixOf_iff_prefix.1 hfound).length_le
    have hmem : word.1.length ∈ words.map fun word => word.1.length :=
      List.mem_map_of_mem (List.mem_of_find?_eq_some hword)
    have hpos : 0 < word.1.length := by
      have hall : ∀ n ∈ words.map fun word => word.1.length, 0 < n := by decide
      exact hall _ hmem
    rw [String.length_toList] at hle
    show (cs.drop word.1.length).length < cs.length
    rw [List.length_drop]
    omega
  · exact readNumber_length h

/-- A value, the members of an object and the items of an array consume text. -/
theorem read_length (n : ℕ) : (∀ cs x, readValue n cs = some x → x.2.length < cs.length) ∧
    (∀ members cs x, readMembers n members cs = some x → x.2.length < cs.length) ∧
    ∀ cs x, readItems n cs = some x → x.2.length < cs.length := by
  induction n with
  | zero =>
    refine ⟨fun cs x h => ?_, fun members cs x h => ?_, fun cs x h => ?_⟩
    · rw [readValue] at h
      cases h
    · rw [readMembers] at h
      cases h
    · rw [readItems] at h
      cases h
  | succ n ih =>
    obtain ⟨hvalue, hmembers, hitems⟩ := ih
    refine ⟨fun cs x h => ?_, fun members cs x h => ?_, fun cs x h => ?_⟩
    · cases cs with
      | nil => rw [readValue] at h; cases h
      | cons c cs =>
        rw [readValue] at h
        rw [List.length_cons]
        split_ifs at h
        · obtain ⟨y, hy, rfl⟩ := Option.map_eq_some_iff.1 h
          have hlater := readString_length hy
          exact hlater.trans (Nat.lt_succ_self _)
        · split at h
          · rename_i hclose
            cases h
            have hlater := expect_length hclose
            exact hlater.trans (Nat.lt_succ_self _)
          · obtain ⟨y, hy, rfl⟩ := Option.map_eq_some_iff.1 h
            exact (hmembers _ _ _ hy).trans (Nat.lt_succ_self _)
        · split at h
          · rename_i hclose
            cases h
            exact (expect_length hclose).trans (Nat.lt_succ_self _)
          · obtain ⟨y, hy, rfl⟩ := Option.map_eq_some_iff.1 h
            exact (hitems _ _ hy).trans (Nat.lt_succ_self _)
        · exact readScalar_length h
    · simp only [readMembers, Option.bind_eq_bind, Option.bind_eq_some_iff] at h
      obtain ⟨cs₁, hquote, key, hkey, cs₂, hcolon, value, hread, h⟩ := h
      have h1 := expect_length hquote
      have h2 := readString_length hkey
      have h3 := expect_length hcolon
      have h4 := hvalue _ _ hread
      have h5 := skip_length cs₂
      split at h
      · rename_i hclose
        cases h
        have h6 := expect_length hclose
        dsimp only at h6 ⊢
        omega
      · obtain ⟨cs₃, hcomma, h⟩ := Option.bind_eq_some_iff.1 h
        have h6 := expect_length hcomma
        have h7 := hmembers _ _ _ h
        omega
    · simp only [readItems, Option.bind_eq_bind, Option.bind_eq_some_iff] at h
      obtain ⟨value, hread, h⟩ := h
      have h1 := hvalue _ _ hread
      have h2 := skip_length cs
      split at h
      · rename_i hclose
        cases h
        have h3 := expect_length hclose
        dsimp only at h3 ⊢
        omega
      · simp only [Option.bind_eq_some_iff] at h
        obtain ⟨cs₁, hcomma, values, hrest, h⟩ := h
        cases h
        have h3 := expect_length hcomma
        have h4 := hitems _ _ hrest
        dsimp only
        omega

/-- What is read with some fuel is read with fuel for the text that it consumes. -/
theorem read_fuel (m : ℕ) :
    ∀ n, (∀ cs x, readValue m cs = some x → cs.length < n + x.2.length → readValue n cs = some x) ∧
    (∀ members cs x, readMembers m members cs = some x → cs.length < n + x.2.length →
      readMembers n members cs = some x) ∧
    ∀ cs x, readItems m cs = some x → cs.length < n + x.2.length → readItems n cs = some x := by
  induction m with
  | zero =>
    refine fun n => ⟨fun cs x h => ?_, fun members cs x h => ?_, fun cs x h => ?_⟩
    · rw [readValue] at h
      cases h
    · rw [readMembers] at h
      cases h
    · rw [readItems] at h
      cases h
  | succ m ih =>
    intro n
    have hfuel : ∀ {k l : ℕ}, k < l → l < n + k → ∃ n', n = n' + 1 := fun _ _ => ⟨n - 1, by omega⟩
    refine ⟨fun cs x h hlen => ?_, fun members cs x h hlen => ?_, fun cs x h hlen => ?_⟩
    · obtain ⟨n, rfl⟩ := hfuel ((read_length (m + 1)).1 cs x h) hlen
      obtain ⟨-, hmembers, hitems⟩ := ih n
      cases cs with
      | nil => rw [readValue] at h; cases h
      | cons c cs =>
        rw [List.length_cons] at hlen
        rw [readValue] at h ⊢
        split_ifs at h ⊢
        · exact h
        · split at h
          · exact h
          · obtain ⟨y, hy, rfl⟩ := Option.map_eq_some_iff.1 h
            rw [hmembers _ _ _ hy (by dsimp only at hlen; omega)]
            rfl
        · split at h
          · exact h
          · obtain ⟨y, hy, rfl⟩ := Option.map_eq_some_iff.1 h
            rw [hitems _ _ hy (by dsimp only at hlen; omega)]
            rfl
        · exact h
    · obtain ⟨n, rfl⟩ := hfuel ((read_length (m + 1)).2.1 members cs x h) hlen
      obtain ⟨hvalue, hmembers, -⟩ := ih n
      simp only [readMembers, Option.bind_eq_bind, Option.bind_eq_some_iff] at h ⊢
      obtain ⟨cs₁, hquote, key, hkey, cs₂, hcolon, value, hread, h⟩ := h
      have h1 := expect_length hquote
      have h2 := readString_length hkey
      have h3 := expect_length hcolon
      have h4 := skip_length cs₂
      have h5 : x.2.length < value.2.length := by
        split at h
        · rename_i hclose
          cases h
          exact expect_length hclose
        · obtain ⟨cs₃, hcomma, h⟩ := Option.bind_eq_some_iff.1 h
          exact ((read_length m).2.1 _ _ _ h).trans (expect_length hcomma)
      refine ⟨cs₁, hquote, key, hkey, cs₂, hcolon, value, hvalue _ _ hread (by omega), ?_⟩
      · split at h
        · exact h
        · obtain ⟨cs₃, hcomma, h⟩ := Option.bind_eq_some_iff.1 h
          have h6 := expect_length hcomma
          have h7 := (read_length m).1 _ _ hread
          exact Option.bind_eq_some_iff.2 ⟨cs₃, hcomma, hmembers _ _ _ h (by omega)⟩
    · obtain ⟨n, rfl⟩ := hfuel ((read_length (m + 1)).2.2 cs x h) hlen
      obtain ⟨hvalue, -, hitems⟩ := ih n
      simp only [readItems, Option.bind_eq_bind, Option.bind_eq_some_iff] at h ⊢
      obtain ⟨value, hread, h⟩ := h
      have h1 := skip_length cs
      have h2 : x.2.length < value.2.length := by
        split at h
        · rename_i hclose
          cases h
          exact expect_length hclose
        · simp only [Option.bind_eq_some_iff] at h
          obtain ⟨cs₁, hcomma, values, hrest, h⟩ := h
          cases h
          exact ((read_length m).2.2 _ _ hrest).trans (expect_length hcomma)
      refine ⟨value, hvalue _ _ hread (by omega), ?_⟩
      split at h
      · exact h
      · simp only [Option.bind_eq_some_iff] at h ⊢
        obtain ⟨cs₁, hcomma, values, hrest, h⟩ := h
        cases h
        have h3 := expect_length hcomma
        have h4 := (read_length m).1 _ _ hread
        exact ⟨cs₁, hcomma, values, hitems _ _ hrest (by dsimp only at hlen h2; omega), rfl⟩

/-- **`loads` reads what can be read**: its fuel is enough for every text. -/
theorem loads_of_read {s : String} {m : ℕ} {x : Value × List Char}
    (h : readValue m (skip s.toList) = some x)
    (hrest : skip x.2 = []) : loads s = some x.1 := by
  have hlen := skip_length s.toList
  rw [String.length_toList] at hlen
  have hread := (read_fuel m (s.length + 1)).1 _ _ h (by omega)
  unfold loads
  rw [hread]
  simp [hrest]


end Fuel

/-! ## Reading what was written -/

section Strings

variable {c : Char} {cs rest : List Char} {us : List ℕ}

theorem charOf_toNat (c : Char) : charOf c.toNat = some c := by
  have hvalid : c.toNat.isValidChar := c.valid
  unfold charOf
  rw [if_pos hvalid, Char.ofNat_toNat]

/-- A character is read back from its code units. -/
theorem fromUnits_units (c : Char) (us : List ℕ) :
    fromUnits (units c ++ us) = (fromUnits us).map fun cs => c :: cs := by
  have hvalid : c.toNat < 0xd800 ∨ 0xdfff < c.toNat ∧ c.toNat < 0x110000 := c.valid
  unfold units
  split
  -- one unit, which is no surrogate
  · cases us with
    | nil => simp [fromUnits, charOf_toNat]
    | cons v us =>
      have hno : ¬ (0xd800 ≤ c.toNat ∧ c.toNat < 0xdc00 ∧ 0xdc00 ≤ v ∧ v < 0xe000) := by omega
      rw [List.singleton_append, fromUnits, if_neg hno, charOf_toNat]
      cases fromUnits (v :: us) <;> rfl
  · have hpair : 0xd800 ≤ 0xd800 + (c.toNat - 0x10000) / 0x400 ∧
        0xd800 + (c.toNat - 0x10000) / 0x400 < 0xdc00 ∧
        0xdc00 ≤ 0xdc00 + (c.toNat - 0x10000) % 0x400 ∧
        0xdc00 + (c.toNat - 0x10000) % 0x400 < 0xe000 := by
      omega
    have hcode : 0x10000 + (0xd800 + (c.toNat - 0x10000) / 0x400 - 0xd800) * 0x400 +
        (0xdc00 + (c.toNat - 0x10000) % 0x400 - 0xdc00) = c.toNat := by omega
    simp only [List.cons_append, List.nil_append]
    rw [fromUnits, if_pos hpair, hcode, charOf_toNat]
    cases fromUnits us <;> rfl

theorem fromUnits_flatMap (cs : List Char) : fromUnits (cs.flatMap units) = some cs := by
  induction cs with
  | nil => rfl
  | cons c cs ih => rw [List.flatMap_cons, fromUnits_units, ih]; rfl

/-- A `\u` escape is read back. -/
theorem scanString_unicodeEscape {n : ℕ} (hn : n < 0x10000) (cs : List Char) :
    scanString (unicodeEscape n ++ cs) = (scanString cs).map fun x => (n :: x.1, x.2) := by
  have hnumeral : numeral 16 4 n = [Nat.digitChar (n / 16 / 16 / 16 % 16), Nat.digitChar (n / 16 / 16 % 16),
      Nat.digitChar (n / 16 % 16), Nat.digitChar (n % 16)] := rfl
  have hhex : ∀ m : ℕ, hexValue (Nat.digitChar (m % 16)) = some (m % 16) := fun m =>
    hexValue_digitChar (Nat.mod_lt m (by omega))
  have hvalue : ((n / 16 / 16 / 16 % 16 * 16 + n / 16 / 16 % 16) * 16 + n / 16 % 16) * 16 + n % 16 = n := by omega
  have hread : hex4 (Nat.digitChar (n / 16 / 16 / 16 % 16)) (Nat.digitChar (n / 16 / 16 % 16))
      (Nat.digitChar (n / 16 % 16)) (Nat.digitChar (n % 16)) = some n := by
    unfold hex4
    simp only [hhex, Option.bind_eq_bind, Option.bind_some, Option.pure_def, hvalue]
  unfold unicodeEscape
  rw [hnumeral]
  simp only [List.cons_append, List.nil_append]
  rw [scanString, hread]
  cases scanString cs <;> rfl

theorem scanString_escaped {e : Char} {u : ℕ} (hu : e ≠ 'u') (he : escaped e = some u)
    (cs : List Char) :
    scanString ('\\' :: e :: cs) = (scanString cs).map fun x => (u :: x.1, x.2) := by
  rw [scanString.eq_4 e cs (fun _ _ _ _ _ h => absurd h hu), he]
  cases scanString cs <;> rfl

theorem scanString_plain (hquote : c ≠ '"') (hslash : c ≠ '\\') (hc : 0x20 ≤ c.toNat) (cs : List Char) :
    scanString (c :: cs) = (scanString cs).map fun x => (units c ++ x.1, x.2) := by
  rw [scanString.eq_5 c cs hquote (fun _ _ _ _ _ h => absurd h hslash) (fun _ _ h => absurd h hslash),
    if_neg (by omega)]
  cases scanString cs <;> rfl

/-- A two-character escape is read back as its character. -/
theorem scanString_short {e : Char} (hu : e ≠ 'u') (he : escaped e = some c.toNat)
    (hc : c.toNat < 0x10000)
    (cs : List Char) : scanString (['\\', e] ++ cs) = (scanString cs).map fun x => (units c ++ x.1, x.2) := by
  unfold units
  rw [if_pos hc]
  exact scanString_escaped hu he cs

/-- An escaped character is read back. -/
theorem scanString_escapeChar (c : Char) (cs : List Char) :
    scanString (escapeChar c ++ cs) = (scanString cs).map fun x => (units c ++ x.1, x.2) := by
  have hvalid : c.toNat < 0xd800 ∨ 0xdfff < c.toNat ∧ c.toNat < 0x110000 := c.valid
  unfold escapeChar
  by_cases h1 : c = '"'
  · rw [if_pos h1, h1]
    exact scanString_short (by decide) rfl (by decide) cs
  rw [if_neg h1]
  by_cases h2 : c = '\\'
  · rw [if_pos h2, h2]
    exact scanString_short (by decide) rfl (by decide) cs
  rw [if_neg h2]
  by_cases h3 : c = '\n'
  · rw [if_pos h3, h3]
    exact scanString_short (by decide) rfl (by decide) cs
  rw [if_neg h3]
  by_cases h4 : c = '\r'
  · rw [if_pos h4, h4]
    exact scanString_short (by decide) rfl (by decide) cs
  rw [if_neg h4]
  by_cases h5 : c = '\t'
  · rw [if_pos h5, h5]
    exact scanString_short (by decide) rfl (by decide) cs
  rw [if_neg h5]
  by_cases hf : c.toNat = 0x0c
  · rw [if_pos hf]
    exact scanString_short (by decide) (by rw [hf]; rfl) (by omega) cs
  rw [if_neg hf]
  by_cases hb : c.toNat = 0x08
  · rw [if_pos hb]
    exact scanString_short (by decide) (by rw [hb]; rfl) (by omega) cs
  rw [if_neg hb]
  by_cases hascii : 0x20 ≤ c.toNat ∧ c.toNat ≤ 0x7e
  · rw [if_pos hascii]
    exact scanString_plain h1 h2 hascii.1 cs
  rw [if_neg hascii]
  unfold units
  by_cases hbmp : c.toNat < 0x10000
  · rw [if_pos hbmp, if_pos hbmp, scanString_unicodeEscape hbmp]
    rfl
  -- two escapes, one for each surrogate
  · rw [if_neg hbmp, if_neg hbmp, List.append_assoc, scanString_unicodeEscape (by omega),
      scanString_unicodeEscape (by omega), Option.map_map]
    rfl

/-- **A string is read back.** -/
theorem readString_quote (s : String) (rest : List Char) :
    readString (s.toList.flatMap escapeChar ++ '"' :: rest) = some (s, rest) := by
  have hscan : ∀ cs : List Char,
      scanString (cs.flatMap escapeChar ++ '"' :: rest) = some (cs.flatMap units, rest) := by
    intro cs
    induction cs with
    | nil => simp [scanString]
    | cons c cs ih => rw [List.flatMap_cons, List.append_assoc, scanString_escapeChar, ih]; rfl
  unfold readString
  simp [hscan, fromUnits_flatMap]

end Strings

section Dicts

variable {α : Type}

/-- A new key is put at the end. -/
theorem insert_new {members : List (String × α)} {key : String} (hnew : key ∉ members.map Prod.fst)
    (value : α) :
    insert members key value = members ++ [(key, value)] := by
  induction members with
  | nil => rfl
  | cons member members ih =>
    rw [List.map_cons, List.mem_cons, not_or] at hnew
    unfold insert
    rw [if_neg fun h => hnew.1 h.symm, ih hnew.2]
    rfl

end Dicts

section Objects

variable {cs rest : List Char} {entry : String × String} {entries : List (String × String)}
  {members : List (String × Value)} {n : ℕ}

/-- The text of a member, and what follows it. -/
def memberText (entry : String × String) (cs : List Char) : List Char :=
  (quote entry.1).toList ++ ':' :: ' ' :: ((quote entry.2).toList ++ cs)

/-- The text of some members with the closing brace, and what follows it. -/
def membersText : List (String × String) → List Char → List Char
  | [], cs => '\x7d' :: cs
  | [entry], cs => memberText entry ('\x7d' :: cs)
  | entry :: entries, cs => memberText entry (',' :: ' ' :: membersText entries cs)

theorem toList_quote (s : String) (cs : List Char) :
    (quote s).toList ++ cs = '"' :: (s.toList.flatMap escapeChar ++ '"' :: cs) := by
  simp [quote]

theorem toList_dumps (entries : List (String × String)) :
    (dumps entries).toList = '\x7b' :: membersText entries [] := by
  have hmembers : ∀ entries : List (String × String),
      [',', ' '].intercalate (entries.map fun e => (quote e.1 ++ ": " ++ quote e.2).toList) ++
      ['\x7d'] =
        membersText entries [] := by
    intro entries
    induction entries with
    | nil => rfl
    | cons entry entries ih =>
      cases entries with
      | nil => simp [membersText, memberText]
      | cons entry' entries =>
        rw [List.map_cons, List.map_cons, List.intercalate_cons_cons, membersText, ← ih]
        simp [memberText]
        simp
  unfold dumps
  rw [← hmembers]
  simp [Function.comp_def]

theorem readValue_quote (n : ℕ) (s : String) (cs : List Char) :
    readValue (n + 1) ((quote s).toList ++ cs) = some (.str s, cs) := by
  rw [toList_quote, readValue, readString_quote]
  rfl

theorem skip_space (cs : List Char) : skip (' ' :: cs) = skip cs := rfl

theorem skip_quote (s : String) (cs : List Char) :
    skip ((quote s).toList ++ cs) = (quote s).toList ++ cs := by
  rw [toList_quote]
  rfl

/-- A member is read back. -/
theorem readMembers_member (n : ℕ) (members : List (String × Value)) (entry : String × String)
    (cs : List Char) :
    readMembers (n + 2) members (memberText entry cs) = match expect '\x7d' cs with
      | some cs => some (insert members entry.1 (.str entry.2), cs)
      | none => (expect ',' cs).bind fun cs => readMembers (n + 1) (insert members entry.1 (.str entry.2)) cs := by
  have hquote : ∀ cs : List Char, expect '"' ('"' :: cs) = some cs := fun _ => rfl
  have hcolon : ∀ cs : List Char, expect ':' (':' :: cs) = some cs := fun _ => rfl
  have hvalue : skip (' ' :: ((quote entry.2).toList ++ cs)) = (quote entry.2).toList ++ cs := by
    rw [skip_space, skip_quote]
  unfold memberText
  rw [toList_quote, readMembers]
  simp only [hquote, readString_quote, hcolon, hvalue, readValue_quote, Option.bind_eq_bind, Option.bind_some]

theorem readMembers_space (n : ℕ) (members : List (String × Value)) (cs : List Char) :
    readMembers (n + 1) members (' ' :: cs) = readMembers (n + 1) members cs := by
  have hspace : expect '"' (' ' :: cs) = expect '"' cs := rfl
  rw [readMembers, readMembers, hspace]

/-- **The members of an object are read back.** -/
theorem readMembers_text (cs : List Char) :
    ∀ (entries : List (String × String)) (n : ℕ) (members : List (String × Value)),
    entries ≠ [] → entries.length ≤ n → (members.map Prod.fst ++ entries.map Prod.fst).Nodup →
    readMembers (n + 1) members (membersText entries cs) =
      some (members ++ entries.map fun e => (e.1, .str e.2), cs)
  | [], _, _ => fun hne _ _ => absurd rfl hne
  | entry :: entries, 0, _ => fun _ hn _ => by simp at hn
  | entry :: entries, n + 1, members => by
    intro _ hn hkeys
    have hnew : entry.1 ∉ members.map Prod.fst := fun h =>
      (List.nodup_append'.1 hkeys).2.2 h List.mem_cons_self
    cases entries with
    | nil =>
      have hclose : expect '\x7d' ('\x7d' :: cs) = some cs := rfl
      rw [membersText, readMembers_member, hclose]
      simp only [insert_new hnew, List.map_cons, List.map_nil]
    | cons entry' entries =>
      have hopen : ∀ cs : List Char, expect '\x7d' (',' :: cs) = none := fun _ => rfl
      have hcomma : ∀ cs : List Char, expect ',' (',' :: cs) = some cs := fun _ => rfl
      have hlen : (entry' :: entries).length ≤ n := Nat.le_of_succ_le_succ hn
      have hkeys' : ((members ++ [(entry.1, Value.str entry.2)]).map Prod.fst ++ (entry' :: entries).map Prod.fst).Nodup := by
        simpa using hkeys
      rw [membersText, readMembers_member, hopen, hcomma]
      · simp only [Option.bind_some, readMembers_space, insert_new hnew]
        rw [readMembers_text cs (entry' :: entries) n _ (List.cons_ne_nil _ _) hlen hkeys']
        simp
      · exact List.cons_ne_nil _ _

/-- **What was written is read back**, whatever characters the strings have. -/
theorem loads_dumps {entries : List (String × String)} (hkeys : (entries.map Prod.fst).Nodup) :
    loads (dumps entries) = some (.obj (entries.map fun e => (e.1, .str e.2))) := by
  have hopen : skip (dumps entries).toList = '\x7b' :: membersText entries [] := by
    rw [toList_dumps]
    rfl
  have hquote : '\x7b' ≠ '"' := by decide
  have hvalue : readValue (entries.length + 2) ('\x7b' :: membersText entries []) =
      some (.obj (entries.map fun e => (e.1, .str e.2)), []) := by
    rw [readValue, if_neg hquote, if_pos rfl]
    cases entries with
    | nil => rfl
    | cons entry entries =>
      have hclose : expect '\x7d' (membersText (entry :: entries) []) = none := by
        have hmember : ∀ cs : List Char, expect '\x7d' (memberText entry cs) = none := by
          intro cs
          unfold memberText
          rw [toList_quote]
          rfl
        cases entries <;> exact hmember _
      rw [hclose, readMembers_text [] (entry :: entries) _ [] (List.cons_ne_nil _ _) le_rfl (by simpa using hkeys)]
      rfl
  exact loads_of_read (hopen ▸ hvalue) rfl

theorem lookup_of_mem {key s : String} (hkeys : (entries.map Prod.fst).Nodup)
    (hmem : (key, s) ∈ entries) :
    (entries.map fun e => (e.1, Value.str e.2)).lookup key = some (.str s) := by
  induction entries with
  | nil => cases hmem
  | cons entry entries ih =>
    rw [List.map_cons, List.nodup_cons] at hkeys
    rw [List.map_cons, List.lookup_cons]
    rcases List.mem_cons.1 hmem with rfl | hmem
    · simp
    · have hne : key ≠ entry.1 := by
        rintro rfl
        exact hkeys.1 (List.mem_map.2 ⟨_, hmem, rfl⟩)
      rw [beq_false_of_ne hne]
      exact ih hkeys.2 hmem

/-- What a member reads as. -/
theorem text_of_mem {key s : String} (hkeys : (entries.map Prod.fst).Nodup)
    (hmem : (key, s) ∈ entries) :
    (Value.obj (entries.map fun e => (e.1, .str e.2))).text key = some s := by
  simp only [Value.text, lookup_of_mem hkeys hmem]

end Objects

end Json
