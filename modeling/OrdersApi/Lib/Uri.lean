import OrdersApi.Lib.Text
import Mathlib.Data.List.TakeWhile
import Mathlib.Tactic.SplitIfs

/-!
# URLs with an absolute path (RFC 3986)

`parse` takes the fragment from the first `#` and the query from the first `?`, splits
the path at `/`, removes dot segments and percent-encodes each segment: an existing
`%XX` is kept, and so is every character of the safe set, which may have the `%` that
begins no `%XX`. `decode` is percent-decoding to bytes.

Encoding a segment does not change what it decodes to (`decode_quote`), and a text
decodes to its own UTF-8 exactly when it has no `%XX` (`decode_eq_utf8`). So a text that
is put after `/name/` is addressed as one segment exactly when it is `Plain`
(`addresses_iff`).
-/

namespace Uri

open Text

/-! ## Bytes -/

def utf8 (cs : List Char) : List UInt8 := cs.flatMap String.utf8EncodeChar

@[simp] theorem utf8_nil : utf8 [] = [] := rfl

@[simp] theorem utf8_cons (c : Char) (cs : List Char) :
    utf8 (c :: cs) = String.utf8EncodeChar c ++ utf8 cs :=
  rfl

theorem utf8_injective : Function.Injective utf8 := by
  intro cs ds h
  refine String.ofList_injective (String.toByteArray_inj.1 ?_)
  rw [String.toByteArray_ofList, String.toByteArray_ofList]
  exact congrArg List.toByteArray h

theorem utf8_length_pos (c : Char) : 0 < (String.utf8EncodeChar c).length :=
  List.length_pos_of_ne_nil String.utf8EncodeChar_ne_nil

/-! ## Percent-encoding -/

/-- The byte of `%ab`, for hexadecimal digits `a` and `b` of either case. -/
def escaped (a b : Char) : Option UInt8 := do
  let hi ← hexValue a
  let lo ← hexValue b
  return UInt8.ofNat (16 * hi + lo)

def hexDigit (d : ℕ) : Char := if d < 10 then Char.ofNat (48 + d) else Char.ofNat (55 + d)

/-- `%XX` of a byte. -/
def escape (b : UInt8) : List Char := ['%', hexDigit (b.toNat / 16), hexDigit (b.toNat % 16)]

/-- The characters that a path segment keeps: letters at least, and no delimiter. -/
structure SafeSet where
  safe : Char → Bool
  letter : ∀ c, c.isAlpha → safe c = true
  slash : safe '/' = false
  question : safe '?' = false
  hash : safe '#' = false

/-- The `pchar` of RFC 3986. -/
def pchar : SafeSet where
  safe c := c.isAlphanum || "-._~!$&'()*+,;=:@".toList.contains c
  letter c h := by simp [Char.isAlphanum, h]
  slash := by decide
  question := by decide
  hash := by decide

variable (S : SafeSet)

/-- A character by itself, or the `%XX` of its bytes. -/
def quoteChar (c : Char) : List Char :=
  if S.safe c then [c] else (String.utf8EncodeChar c).flatMap escape

/-- Percent-encoding of a path segment. -/
def quote : List Char → List Char
  | '%' :: a :: b :: cs =>
    if (escaped a b).isSome then '%' :: a :: b :: quote cs else quoteChar S '%' ++ quote (a :: b :: cs)
  | c :: cs => quoteChar S c ++ quote cs
  | [] => []

def decode : List Char → List UInt8
  | '%' :: a :: b :: cs =>
    match escaped a b with
    | some x => x :: decode cs
    | none => String.utf8EncodeChar '%' ++ decode (a :: b :: cs)
  | c :: cs => String.utf8EncodeChar c ++ decode cs
  | [] => []

/-- The text has a `%XX`. -/
def hasEscape : List Char → Bool
  | '%' :: a :: b :: cs => (escaped a b).isSome || hasEscape (a :: b :: cs)
  | _ :: cs => hasEscape cs
  | [] => false

theorem decode_cons {c : Char} (hc : c ≠ '%') (cs : List Char) :
    decode (c :: cs) = String.utf8EncodeChar c ++ decode cs := by
  rw [decode.eq_2]
  exact fun a b cs' h => absurd h hc

theorem escaped_hexDigit (b : UInt8) :
    escaped (hexDigit (b.toNat / 16)) (hexDigit (b.toNat % 16)) = some b := by
  have key : ∀ d : Fin 16, hexValue (hexDigit d) = some d.val := by decide
  have hb := b.toNat_lt
  have hhi := key ⟨b.toNat / 16, by omega⟩
  have hlo := key ⟨b.toNat % 16, by omega⟩
  unfold escaped
  dsimp only at hhi hlo
  rw [hhi, hlo]
  show some (UInt8.ofNat (16 * (b.toNat / 16) + b.toNat % 16)) = some b
  rw [Nat.div_add_mod, UInt8.ofNat_toNat]

theorem decode_escape (b : UInt8) (cs : List Char) : decode (escape b ++ cs) = b :: decode cs := by
  show decode ('%' :: hexDigit (b.toNat / 16) :: hexDigit (b.toNat % 16) :: cs) = _
  rw [decode, escaped_hexDigit]

theorem decode_escapes (bs : List UInt8) (cs : List Char) :
    decode (bs.flatMap escape ++ cs) = bs ++ decode cs := by
  induction bs with
  | nil => rfl
  | cons b bs ih => rw [List.flatMap_cons, List.append_assoc, decode_escape, ih]; rfl

/-- A `%` that begins no `%XX`. -/
theorem decode_percent {cs : List Char} (h : ∀ a b cs', cs = a :: b :: cs' → escaped a b = none) :
    decode ('%' :: cs) = String.utf8EncodeChar '%' ++ decode cs := by
  match cs with
  | [] => rfl
  | [a] => rfl
  | a :: b :: cs' => rw [decode, h a b cs' rfl]

/-- A hexadecimal digit in front of an encoded text was there before. -/
theorem quote_eq_cons {x : Char} {l cs : List Char} (hx : hexValue x ≠ none) (h : quote S cs = x :: l) :
    ∃ cs', cs = x :: cs' ∧ quote S cs' = l := by
  have hne : x ≠ '%' := by
    rintro rfl
    exact hx (by decide)
  -- otherwise it is the `%` of an encoded byte
  have hchar : ∀ c rest, quoteChar S c ++ rest = x :: l → c = x ∧ rest = l := by
    intro c rest he
    unfold quoteChar at he
    split at he
    · exact List.cons.inj he
    · cases hbytes : String.utf8EncodeChar c with
      | nil =>
        have hpos := utf8_length_pos c
        rw [hbytes] at hpos
        cases hpos
      | cons b bs =>
        rw [hbytes] at he
        exact absurd (List.cons.inj he).1.symm hne
  fun_cases quote S cs with
  | case1 a b cs' hesc =>
    rw [quote, if_pos hesc] at h
    exact absurd (List.cons.inj h).1.symm hne
  | case2 a b cs' hesc =>
    rw [quote, if_neg hesc] at h
    exact absurd (hchar '%' _ h).1.symm hne
  | case3 c cs' hpat =>
    rw [quote.eq_2 _ _ _ hpat] at h
    obtain ⟨rfl, hl⟩ := hchar c _ h
    exact ⟨cs', rfl, hl⟩
  | case4 => cases h

/-- Encoding makes no `%XX` of a `%` that it leaves. -/
theorem not_escaped_quote {cs : List Char} (h : ∀ a b cs', cs = a :: b :: cs' → escaped a b = none)
    {a b : Char}
    {l : List Char} (hl : quote S cs = a :: b :: l) : escaped a b = none := by
  by_contra hne
  have ha : hexValue a ≠ none := by
    intro hnone
    exact hne (by simp [escaped, hnone])
  have hb : hexValue b ≠ none := by
    intro hnone
    exact hne (by simp [escaped, hnone])
  obtain ⟨cs', rfl, htail⟩ := quote_eq_cons S ha hl
  obtain ⟨cs'', rfl, -⟩ := quote_eq_cons S hb htail
  exact hne (h a b cs'' rfl)

theorem decode_quoteChar {c : Char} {cs : List Char}
    (h : c = '%' → ∀ a b cs', cs = a :: b :: cs' → escaped a b = none) :
    decode (quoteChar S c ++ quote S cs) = String.utf8EncodeChar c ++ decode (quote S cs) := by
  unfold quoteChar
  split
  · by_cases hc : c = '%'
    · subst hc
      exact decode_percent fun a b l hl => not_escaped_quote S (h rfl) hl
    · exact decode_cons hc _
  · exact decode_escapes _ _

/-- **Percent-encoding keeps what a text decodes to.** -/
theorem decode_quote (cs : List Char) : decode (quote S cs) = decode cs := by
  fun_induction quote S cs with
  | case1 a b cs h ih =>
    obtain ⟨x, hx⟩ := Option.isSome_iff_exists.1 h
    rw [decode, decode, hx]
    simp only [ih]
  | case2 a b cs h ih =>
    have hnone : escaped a b = none := Option.not_isSome_iff_eq_none.1 h
    rw [decode_quoteChar S fun _ a' b' cs' he => by cases he; exact hnone, ih, decode, hnone]
  | case3 c cs hpat ih =>
    rw [decode_quoteChar S fun hc a b cs' he => (hpat a b cs' hc he).elim, ih, decode.eq_2]
    exact hpat
  | case4 => rfl

theorem hasEscape_of_not_mem {cs : List Char} (h : '%' ∉ cs) : hasEscape cs = false := by
  induction cs with
  | nil => rfl
  | cons c cs ih =>
    have hne : c ≠ '%' := fun he => h (he ▸ List.mem_cons_self)
    rw [hasEscape.eq_2 _ _ fun a b cs he => absurd he hne]
    exact ih fun hm => h (List.mem_cons_of_mem _ hm)

theorem decode_length_le (cs : List Char) : (decode cs).length ≤ (utf8 cs).length := by
  fun_induction decode cs with
  | case1 a b cs x _ ih =>
    have := utf8_length_pos '%'
    simp only [utf8_cons, List.length_append, List.length_cons]
    omega
  | case2 a b cs _ ih => rw [utf8_cons, List.length_append, List.length_append]; omega
  | case3 c cs _ ih => rw [utf8_cons, List.length_append, List.length_append]; omega
  | case4 => rfl

theorem decode_length_lt {cs : List Char} (h : hasEscape cs = true) :
    (decode cs).length < (utf8 cs).length := by
  fun_induction decode cs with
  | case1 a b cs x _ ih =>
    have h1 := decode_length_le cs
    have h2 := utf8_length_pos '%'
    have h3 := utf8_length_pos a
    simp only [utf8_cons, List.length_append, List.length_cons]
    omega
  | case2 a b cs hnone ih =>
    rw [hasEscape, hnone] at h
    rw [utf8_cons, List.length_append, List.length_append]
    have := ih (by simpa using h)
    omega
  | case3 c cs hpat ih =>
    rw [hasEscape.eq_2 _ _ hpat] at h
    rw [utf8_cons, List.length_append, List.length_append]
    have := ih h
    omega
  | case4 => cases h

theorem decode_of_no_escape {cs : List Char} (h : hasEscape cs = false) : decode cs = utf8 cs := by
  fun_induction decode cs with
  | case1 a b cs x hx ih => rw [hasEscape, hx] at h; cases h
  | case2 a b cs hnone ih =>
    rw [hasEscape, hnone] at h
    rw [utf8_cons, ih (by simpa using h)]
  | case3 c cs hpat ih =>
    rw [hasEscape.eq_2 _ _ hpat] at h
    rw [utf8_cons, ih h]
  | case4 => rfl

/-- **A text decodes to its own UTF-8** exactly when it has no `%XX`. -/
theorem decode_eq_utf8 {cs : List Char} : decode cs = utf8 cs ↔ hasEscape cs = false := by
  refine ⟨fun h => ?_, decode_of_no_escape⟩
  by_contra hne
  have := decode_length_lt (by simpa using hne)
  rw [h] at this
  exact lt_irrefl _ this

/-! ## Parsing -/

/-- The segments so far, the last one first, after the segment `s`: a dot segment adds
nothing, or an empty segment at the end of the path. -/
def push (out : List (List Char)) (s : List Char) (last : Bool) : List (List Char) :=
  if s = ['.'] then (if last then [] :: out else out)
  else if s = ['.', '.'] then (if last then [] :: out.tail else out.tail)
  else s :: out

/-- Removing dot segments. -/
def removeDots (out : List (List Char)) : List (List Char) → List (List Char)
  | [] => out.reverse
  | s :: rest => removeDots (push out s rest.isEmpty) rest

/-- The text before the first `sep`, and the text after it if there is one. -/
def cut (sep : Char) (cs : List Char) : List Char × Option (List Char) :=
  (cs.takeWhile (· ≠ sep), if sep ∈ cs then some (cs.dropWhile (· ≠ sep)).tail else none)

/-- What a URL addresses on its server. -/
structure Target where
  segments : List (List Char)
  query : Option (List Char)
  fragment : Option (List Char)
deriving DecidableEq

/-- The target of a URL with an absolute path. -/
def parse (url : List Char) : Target :=
  let (rest, fragment) := cut '#' url
  let (path, query) := cut '?' rest
  { segments := (removeDots [] (path.splitOn '/').tail).map (quote S)
    query := query
    fragment := fragment }

/-- The target is the child of `name` that decodes to `cs`, and nothing else is asked of it. -/
def Addresses (t : Target) (name cs : List Char) : Prop :=
  t.query = none ∧ t.fragment = none ∧ ∃ segment, t.segments = [name, segment] ∧
    decode segment = utf8 cs

/-- A text that is one segment of a path as it stands: it has no delimiter and no `%XX`
and is no dot segment. -/
structure Plain (cs : List Char) : Prop where
  slash : '/' ∉ cs
  question : '?' ∉ cs
  hash : '#' ∉ cs
  escape : hasEscape cs = false
  dot : cs ≠ ['.']
  dots : cs ≠ ['.', '.']

theorem cut_of_not_mem {sep : Char} {cs : List Char} (h : sep ∉ cs) : cut sep cs = (cs, none) := by
  have htake : cs.takeWhile (· ≠ sep) = cs := by
    refine List.takeWhile_eq_self_iff.2 fun c hc => ?_
    have hne : c ≠ sep := fun he => h (he ▸ hc)
    simpa using hne
  unfold cut
  rw [if_neg h, htake]

theorem not_mem_of_cut {sep : Char} {cs : List Char} (h : (cut sep cs).2 = none) : sep ∉ cs := by
  intro hm
  simp [cut, hm] at h

theorem mem_push {out : List (List Char)} {s x : List Char} {last : Bool} (h : x ∈ push out s last) :
    x = [] ∨ x ∈ out ∨ x = s := by
  unfold push at h
  split_ifs at h
  · exact (List.mem_cons.1 h).imp_right .inl
  · exact .inr (.inl h)
  · exact (List.mem_cons.1 h).imp_right fun h => .inl (List.mem_of_mem_tail h)
  · exact .inr (.inl (List.mem_of_mem_tail h))
  · exact .inr ((List.mem_cons.1 h).symm)

theorem mem_removeDots {x : List Char} {segs out : List (List Char)} (h : x ∈ removeDots out segs) :
    x = [] ∨ x ∈ out ∨ x ∈ segs := by
  induction segs generalizing out with
  | nil => exact .inr (.inl (List.mem_reverse.1 h))
  | cons s rest ih =>
    rcases ih h with h | h | h
    · exact .inl h
    · rcases mem_push h with h | h | rfl
      · exact .inl h
      · exact .inr (.inl h)
      · exact .inr (.inr List.mem_cons_self)
    · exact .inr (.inr (List.mem_cons_of_mem _ h))

/-- A part of a split text is no longer than the text, and shorter when there was a separator. -/
theorem length_of_mem_splitOn {sep : Char} : ∀ {cs s : List Char}, s ∈ cs.splitOn sep →
    (utf8 s).length ≤ (utf8 cs).length ∧ (sep ∈ cs → (utf8 s).length < (utf8 cs).length)
  | [], s, h => by
    rw [List.splitOn_nil, List.mem_singleton] at h
    subst h
    exact ⟨le_rfl, nofun⟩
  | c :: cs, s, h => by
    have hc := utf8_length_pos c
    rw [utf8_cons, List.length_append]
    rw [List.splitOn_cons_eq_if_modifyHead] at h
    split_ifs at h with hsep
    · rcases List.mem_cons.1 h with rfl | h
      · simp only [utf8_nil, List.length_nil]
        omega
      · have := (length_of_mem_splitOn h).1
        omega
    · have hne : c ≠ sep := by simpa using hsep
      obtain ⟨head, tail, hsplit⟩ := List.exists_cons_of_ne_nil (List.splitOn_ne_nil sep cs)
      rw [hsplit, List.modifyHead_cons] at h
      rcases List.mem_cons.1 h with rfl | h
      · have ih := length_of_mem_splitOn (s := head) (hsplit ▸ List.mem_cons_self)
        rw [utf8_cons, List.length_append]
        refine ⟨by omega, fun hm => ?_⟩
        have := ih.2 ((List.mem_cons.1 hm).resolve_left fun e => hne e.symm)
        omega
      · have ih := (length_of_mem_splitOn (s := s) (hsplit ▸ List.mem_cons_of_mem _ h)).1
        exact ⟨by omega, fun _ => by omega⟩

section Child

variable {S} {name cs : List Char}

theorem quote_safe (h : ∀ c ∈ name, S.safe c = true) : quote S name = name := by
  fun_induction quote S name with
  | case1 a b cs _ ih =>
    rw [ih fun c hc => h c (List.mem_cons_of_mem _ (List.mem_cons_of_mem _ (List.mem_cons_of_mem _ hc)))]
  | case2 a b cs _ ih =>
    rw [quoteChar, if_pos (h _ List.mem_cons_self), List.singleton_append,
      ih fun c hc => h c (List.mem_cons_of_mem _ hc)]
  | case3 c cs _ ih =>
    rw [quoteChar, if_pos (h c List.mem_cons_self), List.singleton_append,
      ih fun c hc => h c (List.mem_cons_of_mem _ hc)]
  | case4 => rfl

/-- The segments of `/name/cs` when there is no query and no fragment. -/
theorem parse_child (hname : ∀ c ∈ name, c.isAlpha) (hq : '?' ∉ cs) (hh : '#' ∉ cs) :
    parse S ('/' :: name ++ '/' :: cs) =
      ⟨(removeDots [name] (cs.splitOn '/')).map (quote S), none, none⟩ := by
  have hnot : ∀ sep : Char, sep.isAlpha = false → sep ∉ name := by
    intro sep hs hm
    rw [hname sep hm] at hs; cases hs
  have hurl : ∀ sep : Char, sep.isAlpha = false → sep ≠ '/' → sep ∉ cs →
      sep ∉ '/' :: name ++ '/' :: cs := by
    intro sep hs hne hcs
    simp [hne, hnot sep hs, hcs]
  have hsplit : ('/' :: name ++ '/' :: cs).splitOn '/' = [] :: name :: cs.splitOn '/' := by
    rw [List.splitOn_append_cons_self, List.splitOn_cons_eq_if_modifyHead,
      List.splitOn_eq_singleton (hnot '/' (by decide))]
    rfl
  have hdots : name ≠ ['.'] ∧ name ≠ ['.', '.'] := by
    constructor <;> rintro rfl <;> exact absurd (hname '.' List.mem_cons_self) (by decide)
  unfold parse
  rw [cut_of_not_mem (hurl '#' (by decide) (by decide) hh)]
  dsimp only
  rw [cut_of_not_mem (hurl '?' (by decide) (by decide) hq), hsplit]
  dsimp only [List.tail_cons]
  rw [removeDots, push, if_neg hdots.1, if_neg hdots.2]

theorem removeDots_child (hslash : '/' ∉ cs) (hdot : cs ≠ ['.']) (hdots : cs ≠ ['.', '.']) :
    removeDots [name] (cs.splitOn '/') = [name, cs] := by
  rw [List.splitOn_eq_singleton hslash, removeDots, push, if_neg hdot, if_neg hdots]
  rfl

/-- **A text after `/name/` is addressed as one segment** exactly when it is plain. -/
theorem addresses_iff (hname : ∀ c ∈ name, c.isAlpha) :
    Addresses (parse S ('/' :: name ++ '/' :: cs)) name cs ↔ Plain cs := by
  have hsafe : quote S name = name := quote_safe fun c hc => S.letter c (hname c hc)
  have hpercent : '%' ∉ name := fun hm => absurd (hname '%' hm) (by decide)
  constructor
  · rintro ⟨hquery, hfragment, segment, hsegs, hdec⟩
    have hnh : '#' ∉ '/' :: name ++ '/' :: cs := not_mem_of_cut hfragment
    have hnq : '?' ∉ '/' :: name ++ '/' :: cs := by
      refine not_mem_of_cut ?_
      have hcut : (cut '?' (cut '#' ('/' :: name ++ '/' :: cs)).1).2 = none := hquery
      rwa [cut_of_not_mem hnh] at hcut
    have hh : '#' ∉ cs := fun hm => hnh (by simp [hm])
    have hq : '?' ∉ cs := fun hm => hnq (by simp [hm])
    rw [parse_child hname hq hh] at hsegs
    dsimp only at hsegs
    have hmem : segment ∈ (removeDots [name] (cs.splitOn '/')).map (quote S) := by
      rw [hsegs]; simp
    obtain ⟨s, hs, rfl⟩ := List.mem_map.1 hmem
    rw [decode_quote] at hdec
    have hslash : '/' ∉ cs := by
      intro hm
      -- a segment of the path decodes to fewer bytes than all of `cs` has
      rcases mem_removeDots hs with rfl | hs | hs
      · rw [@utf8_injective cs [] hdec.symm] at hm
        cases hm
      · rw [List.mem_singleton.1 hs, decode_of_no_escape (hasEscape_of_not_mem hpercent)] at hdec
        rw [← utf8_injective hdec] at hm
        exact absurd (hname '/' hm) (by decide)
      · have hlt := (length_of_mem_splitOn hs).2 hm
        have hle := decode_length_le s
        rw [hdec] at hle
        omega
    have hdot : cs ≠ ['.'] := by
      rintro rfl
      -- a dot segment at the end leaves an empty segment
      have hempty : quote S [] = quote S s := by
        simp only [List.splitOn_eq_singleton hslash, removeDots, push, if_true, List.isEmpty_nil,
          List.reverse_cons, List.reverse_nil, List.nil_append, List.singleton_append, List.map_cons,
          List.map_nil, List.cons.injEq, and_true] at hsegs
        exact hsegs.2
      have hnil := congrArg decode hempty
      rw [decode_quote, decode_quote, hdec] at hnil
      exact absurd hnil (by decide)
    have hdots : cs ≠ ['.', '.'] := by
      rintro rfl
      -- it removes `name`, and one segment is left
      have hlen := congrArg List.length hsegs
      rw [List.splitOn_eq_singleton hslash] at hlen
      exact absurd hlen (by simp [removeDots, push])
    rw [removeDots_child hslash hdot hdots] at hsegs
    have hcs : quote S cs = quote S s := by simpa [hsafe] using hsegs
    have hdecode := congrArg decode hcs
    rw [decode_quote, decode_quote, hdec] at hdecode
    exact ⟨hslash, hq, hh, decode_eq_utf8.1 hdecode, hdot, hdots⟩
  · intro h
    rw [parse_child hname h.question h.hash, removeDots_child h.slash h.dot h.dots]
    refine ⟨rfl, rfl, quote S cs, by simp [hsafe], ?_⟩
    rw [decode_quote, decode_of_no_escape h.escape]

end Child

end Uri
