import OrdersApi.Lib.Unquote

/-!
# Configuration values with interpolation

Python's `ConfigParser` with `BasicInterpolation`. A value is accepted when each `%` in it
is doubled or begins a `%(name)s` (`accepts`), and it is kept as it is. When it is read,
`%%` gives `%` and `%(name)s` gives the option `name`, which is read in the same way, to a
limited depth (`interpolate`).

A value is read as it was set exactly when it has no `%` (`interpolate_eq_self`), as long as
the other options have none.
-/

namespace Interpolation

open Uri

/-! ## Setting -/

/-- A name in parentheses with an `s`, behind a `%`: the name and what follows. -/
def reference : List Char → Option (List Char × List Char)
  | '(' :: cs => match splitFirst ')' cs with
    | some (name, 's' :: rest) => if name = [] then none else some (name, rest)
    | _ => none
  | _ => none

theorem reference_eq {cs name rest : List Char} (h : reference cs = some (name, rest)) :
    cs = '(' :: (name ++ ')' :: 's' :: rest) := by
  unfold reference at h
  split at h
  · split at h
    · rename_i hsplit
      split_ifs at h
      cases h
      rw [splitFirst_eq hsplit]
    · cases h
  · cases h

theorem reference_length {cs name rest : List Char} (h : reference cs = some (name, rest)) :
    rest.length < cs.length := by
  rw [reference_eq h]
  simp only [List.length_cons, List.length_append]
  omega

/-- `value.replace("%%", "")`. -/
def removePairs : List Char → List Char
  | '%' :: '%' :: cs => removePairs cs
  | c :: cs => c :: removePairs cs
  | [] => []

/-- `_KEYCRE.sub("", value)`. -/
def removeReferences : List Char → List Char
  | '%' :: cs => match _h : reference cs with
    | some (_, rest) => removeReferences rest
    | none => '%' :: removeReferences cs
  | c :: cs => c :: removeReferences cs
  | [] => []
termination_by cs => cs.length
decreasing_by
  · have := reference_length _h
    simp only [List.length_cons]
    omega
  · simp
  · simp

/-- `before_set`: the value is set, or refused. -/
def accepts (value : List Char) : Bool := '%' ∉ removeReferences (removePairs value)

/-! ## Reading -/

inductive Token
  | char (c : Char)
  | percent
  | option (name : List Char)
deriving DecidableEq

/-- The text of a token. -/
def Token.text : Token → List Char
  | char c => [c]
  | percent => ['%', '%']
  | option name => '%' :: '(' :: (name ++ [')', 's'])

/-- The tokens of a value, unless a `%` begins none. -/
def tokens : List Char → Option (List Token)
  | [] => some []
  | '%' :: '%' :: cs => (tokens cs).map (Token.percent :: ·)
  | '%' :: cs => match _h : reference cs with
    | some (name, rest) => (tokens rest).map (Token.option name :: ·)
    | none => none
  | c :: cs => (tokens cs).map (Token.char c :: ·)
termination_by cs => cs.length
decreasing_by
  · simp only [List.length_cons]
    omega
  · have := reference_length _h
    simp only [List.length_cons]
    omega
  · simp

/-- What a token gives, when `read` reads the options that have a `%`. -/
def Token.read (options read : List Char → Option (List Char)) : Token → Option (List Char)
  | char c => some [c]
  | percent => some ['%']
  | option name => (options name).bind fun v => if '%' ∈ v then read v else some v

/-- What some tokens give, one after the other. -/
def join (f : Token → Option (List Char)) : List Token → Option (List Char)
  | [] => some []
  | t :: ts => do return (← f t) ++ (← join f ts)

/-- `before_get`, to a depth: the value as it is read. -/
def interpolate (options : List Char → Option (List Char)) : ℕ → List Char → Option (List Char)
  | 0, _ => none
  | depth + 1, value => (tokens value).bind (join (Token.read options (interpolate options depth)))

/-- `MAX_INTERPOLATION_DEPTH`. -/
def maxDepth : ℕ := 10

/-! ## Values without `%` -/

section Plain

variable {options : List Char → Option (List Char)} {value out : List Char} {ts : List Token} {c : Char}

theorem removePairs_plain (h : '%' ∉ value) : removePairs value = value := by
  induction value with
  | nil => rfl
  | cons c cs ih =>
    rw [List.mem_cons, not_or] at h
    rw [removePairs.eq_2 c cs fun _ hc => absurd hc.symm h.1, ih h.2]

theorem removeReferences_plain (h : '%' ∉ value) : removeReferences value = value := by
  induction value with
  | nil => rw [removeReferences]
  | cons c cs ih =>
    rw [List.mem_cons, not_or] at h
    rw [removeReferences.eq_2 c cs fun hc => absurd hc.symm h.1, ih h.2]

theorem accepts_plain (h : '%' ∉ value) : accepts value = true := by
  unfold accepts
  rw [removePairs_plain h, removeReferences_plain h]
  exact decide_eq_true h

theorem tokens_plain (h : '%' ∉ value) : tokens value = some (value.map Token.char) := by
  induction value with
  | nil => rw [tokens]; rfl
  | cons c cs ih =>
    rw [List.mem_cons, not_or] at h
    rw [tokens.eq_4 c cs (fun _ hc => absurd hc.symm h.1) fun hc => absurd hc.symm h.1, ih h.2]
    rfl

theorem join_chars (f : List Char → Option (List Char)) (value : List Char) :
    join (Token.read options f) (value.map Token.char) = some value := by
  induction value with
  | nil => rfl
  | cons c cs ih =>
    rw [List.map_cons, join, ih]
    rfl

theorem interpolate_plain (depth : ℕ) (h : '%' ∉ value) :
    interpolate options (depth + 1) value = some value := by
  rw [interpolate, tokens_plain h, Option.bind_some, join_chars]

end Plain

/-! ## Values with `%` -/

section Tokens

variable {options f : List Char → Option (List Char)} {value out : List Char} {ts : List Token}
  {name : List Char}

/-- A value is the text of its tokens, and a `%` is not a character among them. -/
theorem tokens_text (h : tokens value = some ts) :
    ts.flatMap Token.text = value ∧ Token.char '%' ∉ ts := by
  fun_induction tokens value generalizing ts with
  | case1 =>
    cases h
    exact ⟨rfl, List.not_mem_nil⟩
  | case2 cs ih =>
    obtain ⟨ts, hts, rfl⟩ := Option.map_eq_some_iff.1 h
    obtain ⟨htext, hmem⟩ := ih hts
    exact ⟨by rw [List.flatMap_cons, htext]; rfl, by simpa using hmem⟩
  | case3 cs _ name rest href ih =>
    obtain ⟨ts, hts, rfl⟩ := Option.map_eq_some_iff.1 h
    obtain ⟨htext, hmem⟩ := ih hts
    refine ⟨?_, by simpa using hmem⟩
    rw [List.flatMap_cons, htext, reference_eq href]
    simp [Token.text]
  | case4 => cases h
  | case5 c cs _ hc ih =>
    obtain ⟨ts, hts, rfl⟩ := Option.map_eq_some_iff.1 h
    obtain ⟨htext, hmem⟩ := ih hts
    refine ⟨by rw [List.flatMap_cons, htext]; rfl, ?_⟩
    simp only [List.mem_cons, Token.char.injEq, not_or]
    exact ⟨fun he => hc he.symm, hmem⟩

/-- Every token has been read. -/
theorem read_of_join {f : Token → Option (List Char)} (h : join f ts = some out) {t : Token}
    (ht : t ∈ ts) :
    ∃ part, f t = some part := by
  induction ts generalizing out with
  | nil => cases ht
  | cons t' ts ih =>
    simp only [join, Option.bind_eq_bind, Option.bind_eq_some_iff] at h
    obtain ⟨part, hpart, rest, hrest, -⟩ := h
    rcases List.mem_cons.1 ht with rfl | ht
    · exact ⟨part, hpart⟩
    · exact ih hrest ht

/-- A value that can be read does not refer to itself. -/
theorem references_plain (hopt : ∀ name v, options name = some v → '%' ∈ v → v = value)
    (hts : tokens value = some ts) :
    ∀ {depth : ℕ} {out : List Char}, interpolate options depth value = some out →
      ∀ name v, Token.option name ∈ ts → options name = some v → '%' ∉ v := by
  intro depth
  induction depth with
  | zero => intro out h; cases h
  | succ depth ih =>
    intro out h name v hmem hv hpercent
    obtain rfl := hopt name v hv hpercent
    rw [interpolate, hts, Option.bind_some] at h
    -- the reference is read one level deeper, where it is read again
    obtain ⟨part, hpart⟩ := read_of_join h hmem
    rw [Token.read, hv, Option.bind_some, if_pos hpercent] at hpart
    exact ih hpart name v hmem hv hpercent

/-- A token that begins with a `%`. -/
def Token.special : Token → Bool
  | char _ => false
  | percent | option _ => true

/-- Each such token loses a `%` when it is read. -/
theorem count_read (hopt : ∀ name v, Token.option name ∈ ts → options name = some v → '%' ∉ v)
    (hchar : Token.char '%' ∉ ts) (h : join (Token.read options f) ts = some out) :
    out.count '%' + ts.countP Token.special ≤ (ts.flatMap Token.text).count '%' := by
  induction ts generalizing out with
  | nil => cases h; exact le_rfl
  | cons t ts ih =>
    simp only [join, Option.bind_eq_bind, Option.bind_eq_some_iff] at h
    obtain ⟨part, hpart, rest, hrest, hout⟩ := h
    cases hout
    have hlater := ih (fun name v hmem => hopt name v (List.mem_cons_of_mem _ hmem))
      (fun hmem => hchar (List.mem_cons_of_mem _ hmem)) hrest
    have hone : part.count '%' + (if t.special then 1 else 0) ≤ t.text.count '%' := by
      cases t with
      | char c =>
        cases hpart
        simp [Token.special, Token.text]
      | percent =>
        cases hpart
        exact le_rfl
      | option name =>
        obtain ⟨v, hv, hread⟩ := Option.bind_eq_some_iff.1 hpart
        have hplain := hopt name v List.mem_cons_self hv
        rw [if_neg hplain] at hread
        cases hread
        rw [List.count_eq_zero.2 hplain]
        simp [Token.special, Token.text]
    rw [List.count_append, List.countP_cons, List.flatMap_cons, List.count_append]
    omega

/-- **A value is read as it was set** exactly when it has no `%`, if no other option has one. -/
theorem interpolate_eq_self (hopt : ∀ name v, options name = some v → '%' ∈ v → v = value) (depth : ℕ) :
    interpolate options (depth + 1) value = some value ↔ '%' ∉ value := by
  refine ⟨fun h hpercent => ?_, interpolate_plain depth⟩
  obtain ⟨ts, hts, hjoin⟩ := Option.bind_eq_some_iff.1 h
  obtain ⟨htext, hchar⟩ := tokens_text hts
  have hcount := count_read (references_plain hopt hts h) hchar hjoin
  rw [htext] at hcount
  have hnone : ts.countP Token.special = 0 := by omega
  -- the `%` is of a token that begins with one
  rw [← htext] at hpercent
  obtain ⟨t, ht, hmem⟩ := List.mem_flatMap.1 hpercent
  have hspecial := List.countP_eq_zero.1 hnone t ht
  cases t with
  | char c =>
    rw [← List.mem_singleton.1 hmem] at ht
    exact hchar ht
  | percent => exact hspecial rfl
  | option name => exact hspecial rfl

end Tokens

end Interpolation
