import OrdersApi.Lib.Uri

/-!
# Delimiters and percent-decoding to text

`splitFirst` splits a text at the first occurrence of a character. `unquote` is Python's
`urllib.parse.unquote`: each run of ASCII characters is percent-decoded to bytes, and
these are read as UTF-8, with U+FFFD for what is not. A text is its own decoding exactly
when it has no `%XX` (`unquote_eq_self`).
-/

namespace Uri

/-! ## Delimiters -/

/-- The text before and after the first `d`. -/
def splitFirst (d : Char) : List Char → Option (List Char × List Char)
  | [] => none
  | c :: cs => if c = d then some ([], cs) else (splitFirst d cs).map fun parts => (c :: parts.1, parts.2)

variable {d : Char} {a b x y : List Char}

theorem splitFirst_append (ha : d ∉ a) (b : List Char) : splitFirst d (a ++ d :: b) = some (a, b) := by
  induction a with
  | nil => simp [splitFirst]
  | cons c a ih =>
    have hne : c ≠ d := fun h => ha (h ▸ List.mem_cons_self)
    rw [List.cons_append, splitFirst, if_neg hne, ih fun h => ha (List.mem_cons_of_mem _ h)]
    rfl

/-- A text that is split is put together again. -/
theorem splitFirst_eq {cs : List Char} (h : splitFirst d cs = some (a, b)) : cs = a ++ d :: b := by
  induction cs generalizing a with
  | nil => cases h
  | cons c cs ih =>
    unfold splitFirst at h
    split_ifs at h with hc
    · cases h
      rw [hc]
      rfl
    · obtain ⟨⟨x, y⟩, hxy, he⟩ := Option.map_eq_some_iff.1 h
      cases he
      rw [ih hxy]
      rfl

/-- The first part has no delimiter. -/
theorem splitFirst_not_mem {cs : List Char} (h : splitFirst d cs = some (x, y)) : d ∉ x := by
  induction cs generalizing x with
  | nil => cases h
  | cons c cs ih =>
    unfold splitFirst at h
    split_ifs at h with hc
    · cases h
      exact List.not_mem_nil
    · obtain ⟨⟨x', y'⟩, hsplit, he⟩ := Option.map_eq_some_iff.1 h
      cases he
      simp only [List.mem_cons, not_or]
      exact ⟨fun hd => hc hd.symm, ih hsplit⟩

/-- A delimiter in the first part makes it shorter. -/
theorem splitFirst_lt (h : splitFirst d (a ++ d :: b) = some (x, y)) (ha : d ∈ a) :
    x.length < a.length := by
  obtain ⟨a₁, a₂, rfl, ha₁⟩ := List.eq_append_cons_of_mem ha
  rw [List.append_assoc, List.cons_append, splitFirst_append ha₁] at h
  cases h
  simp

/-- Where a text is split is determined. -/
theorem split_unique {a' b' : List Char} (ha : d ∉ a) (ha' : d ∉ a') (h : a ++ d :: b = a' ++ d :: b') :
    a = a' ∧ b = b' := by
  have hsplit := splitFirst_append ha b
  rw [h, splitFirst_append ha' b'] at hsplit
  cases hsplit
  exact ⟨rfl, rfl⟩

/-- A later split is after a part without the delimiter. -/
theorem split_after {z : List Char} (ha : d ∉ a) (h : a ++ b = y ++ d :: z) :
    ∃ x, b = x ++ d :: z ∧ y = a ++ x := by
  rcases List.append_eq_append_iff.1 h with ⟨x, hy, hb⟩ | ⟨x, hx, hz⟩
  · exact ⟨x, hb, hy⟩
  · cases x with
    | nil => exact ⟨[], by rw [List.nil_append] at hz ⊢; exact hz.symm, by rw [hx]; simp⟩
    | cons c x =>
      obtain ⟨rfl, -⟩ := List.cons_eq_cons.1 hz
      exact absurd (hx ▸ List.mem_append_right y List.mem_cons_self) ha

/-! ## UTF-8 with replacement -/

/-- The continuation bytes that a first byte asks for, and the range of the first of them. -/
def leads (b : UInt8) : Option (ℕ × UInt8 × UInt8) :=
  if b < 0x80 then some (0, 0x80, 0xBF)
  else if b < 0xC2 then none
  else if b < 0xE0 then some (1, 0x80, 0xBF)
  else if b < 0xF0 then some (2, if b = 0xE0 then 0xA0 else 0x80, if b = 0xED then 0x9F else 0xBF)
  else if b < 0xF5 then some (3, if b = 0xF0 then 0x90 else 0x80, if b = 0xF4 then 0x8F else 0xBF)
  else none

/-- At most `n` continuation bytes, the first one between `lo` and `hi`. -/
def continuation : ℕ → UInt8 → UInt8 → List UInt8 → List UInt8
  | n + 1, lo, hi, b :: bs => if lo ≤ b ∧ b ≤ hi then b :: continuation n 0x80 0xBF bs else []
  | _, _, _, _ => []

/-- The character of a first byte with its `n` continuation bytes. -/
def charOf (b : UInt8) (n : ℕ) (more : List UInt8) : Char :=
  Char.ofNat (more.foldl (fun v c => v * 64 + c.toNat % 64) (b.toNat % if n = 0 then 128 else 2 ^ (6 - n)))

/-- `bytes.decode("utf-8", errors="replace")`. -/
def utf8Text : List UInt8 → List Char
  | [] => []
  | b :: bs =>
    match leads b with
    | none => Char.ofNat 0xFFFD :: utf8Text bs
    | some (n, lo, hi) =>
      let more := continuation n lo hi bs
      (if more.length = n then charOf b n more else Char.ofNat 0xFFFD) :: utf8Text (bs.drop more.length)
termination_by bytes => bytes.length
decreasing_by all_goals simp; try omega

theorem utf8Text_length (bytes : List UInt8) : (utf8Text bytes).length ≤ bytes.length := by
  fun_induction utf8Text bytes with
  | case1 => rfl
  | case2 b bs _ ih => rw [List.length_cons, List.length_cons]; omega
  | case3 b bs n lo hi _ more ih =>
    rw [List.length_cons, List.length_cons]
    rw [List.length_drop] at ih
    omega

theorem utf8Text_ascii {c : Char} (hc : c.toNat < 128) (bs : List UInt8) :
    utf8Text (UInt8.ofNat c.toNat :: bs) = c :: utf8Text bs := by
  have hb : (UInt8.ofNat c.toNat).toNat = c.toNat := by
    rw [UInt8.toNat_ofNat']
    omega
  have hleads : leads (UInt8.ofNat c.toNat) = some (0, 0x80, 0xBF) := by
    unfold leads
    rw [if_pos]
    rw [UInt8.lt_iff_toNat_lt, hb]
    exact hc
  rw [utf8Text, hleads]
  have hchar : charOf (UInt8.ofNat c.toNat) 0 [] = c := by
    unfold charOf
    rw [if_pos rfl, List.foldl_nil, hb, Nat.mod_eq_of_lt hc, Char.ofNat_toNat]
  simp [continuation, hchar]

/-! ## Percent-decoding -/

/-- The decoding of a text after a run of ASCII characters that gave the bytes `run`. -/
def unquoteAfter (run : List UInt8) : List Char → List Char
  | '%' :: a :: b :: cs =>
    match escaped a b with
    | some x => unquoteAfter (run ++ [x]) cs
    | none => unquoteAfter (run ++ [37]) (a :: b :: cs)
  | c :: cs =>
    if c.toNat < 128 then unquoteAfter (run ++ [UInt8.ofNat c.toNat]) cs
    else utf8Text run ++ c :: unquoteAfter [] cs
  | [] => utf8Text run

/-- `urllib.parse.unquote`. -/
def unquote (cs : List Char) : List Char := unquoteAfter [] cs

theorem unquoteAfter_length (run : List UInt8) (cs : List Char) :
    (unquoteAfter run cs).length ≤ run.length + cs.length := by
  fun_induction unquoteAfter run cs with
  | case1 run a b cs x _ ih =>
    simp only [List.length_append, List.length_cons, List.length_nil] at ih ⊢
    omega
  | case2 run a b cs _ ih =>
    simp only [List.length_append, List.length_cons, List.length_nil] at ih ⊢
    omega
  | case3 run c cs _ _ ih =>
    simp only [List.length_append, List.length_cons, List.length_nil] at ih ⊢
    omega
  | case4 run c cs _ _ ih =>
    have := utf8Text_length run
    simp only [List.length_append, List.length_cons, List.length_nil] at ih ⊢
    omega
  | case5 run => simpa using utf8Text_length run

theorem unquoteAfter_lt {run : List UInt8} {cs : List Char} (h : hasEscape cs = true) :
    (unquoteAfter run cs).length < run.length + cs.length := by
  fun_induction unquoteAfter run cs with
  | case1 run a b cs x _ ih =>
    have := unquoteAfter_length (run ++ [x]) cs
    simp only [List.length_append, List.length_cons, List.length_nil] at this ⊢
    omega
  | case2 run a b cs hnone ih =>
    rw [hasEscape, hnone] at h
    have := ih (by simpa using h)
    simp only [List.length_append, List.length_cons, List.length_nil] at this ⊢
    omega
  | case3 run c cs hpat _ ih =>
    rw [hasEscape.eq_2 _ _ hpat] at h
    have := ih h
    simp only [List.length_append, List.length_cons, List.length_nil] at this ⊢
    omega
  | case4 run c cs hpat _ ih =>
    rw [hasEscape.eq_2 _ _ hpat] at h
    have := ih h
    have := utf8Text_length run
    simp only [List.length_append, List.length_cons, List.length_nil] at *
    omega
  | case5 run => cases h

/-- Without a `%XX`, a text after the ASCII characters `l` is kept. -/
theorem unquoteAfter_of_no_escape {run : List UInt8} {l cs : List Char} (h : hasEscape cs = false)
    (hrun : run = l.map fun c => UInt8.ofNat c.toNat) (hl : ∀ c ∈ l, c.toNat < 128) :
    unquoteAfter run cs = l ++ cs := by
  have htext : ∀ l : List Char, (∀ c ∈ l, c.toNat < 128) →
      utf8Text (l.map fun c => UInt8.ofNat c.toNat) = l := by
    intro l hl
    induction l with
    | nil => rw [List.map_nil, utf8Text]
    | cons c l ih =>
      rw [List.map_cons, utf8Text_ascii (hl c List.mem_cons_self),
        ih fun c hc => hl c (List.mem_cons_of_mem _ hc)]
  have hsnoc : ∀ (l : List Char) (c : Char), (∀ c ∈ l, c.toNat < 128) → c.toNat < 128 →
      ∀ x ∈ l ++ [c], x.toNat < 128 := by
    intro l c hl hc x hx
    rcases List.mem_append.1 hx with hx | hx
    · exact hl x hx
    · rwa [List.mem_singleton.1 hx]
  -- the run is the text `l` that is read, and not yet written
  fun_induction unquoteAfter run cs generalizing l with
  | case1 run a b cs x hx ih => rw [hasEscape, hx] at h; cases h
  | case2 run a b cs hnone ih =>
    rw [hasEscape, hnone] at h
    rw [ih (l := l ++ ['%']) (by simpa using h) (by rw [hrun, List.map_append]; rfl) (hsnoc l '%' hl (by decide))]
    simp
  | case3 run c cs hpat hc ih =>
    rw [hasEscape.eq_2 _ _ hpat] at h
    rw [ih (l := l ++ [c]) h (by rw [hrun, List.map_append]; rfl) (hsnoc l c hl hc)]
    simp
  | case4 run c cs hpat hc ih =>
    rw [hasEscape.eq_2 _ _ hpat] at h
    rw [ih (l := []) h rfl (by simp), hrun, htext l hl]
    rfl
  | case5 run => rw [hrun, htext l hl, List.append_nil]

/-- **A text is its own decoding** exactly when it has no `%XX`. -/
theorem unquote_eq_self {cs : List Char} : unquote cs = cs ↔ hasEscape cs = false := by
  refine ⟨fun h => ?_, fun h => unquoteAfter_of_no_escape (l := []) h rfl (by simp)⟩
  by_contra hesc
  have hlt : (unquoteAfter [] cs).length < _ := unquoteAfter_lt (by simpa using hesc)
  unfold unquote at h
  rw [h, List.length_nil] at hlt
  omega

theorem unquote_length (cs : List Char) : (unquote cs).length ≤ cs.length := by
  simpa [unquote] using unquoteAfter_length [] cs

/-- **A part is read back** exactly when it has neither its delimiter nor a `%XX`. -/
theorem read_part {d : Char} {a b x y : List Char} (h : splitFirst d (a ++ d :: b) = some (x, y)) :
    unquote x = a ↔ d ∉ a ∧ hasEscape a = false := by
  by_cases ha : d ∈ a
  · refine iff_of_false (fun hx => ?_) fun hno => hno.1 ha
    have hlt := splitFirst_lt h ha
    have hle := unquote_length x
    rw [hx] at hle
    omega
  · rw [splitFirst_append ha] at h
    cases h
    rw [unquote_eq_self, and_iff_right ha]

end Uri
