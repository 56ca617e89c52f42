import OrdersApi.Spec.Settings

/-!
# The database URL

The settings go into the URL unquoted. `makeUrl_iff` says when the engine reads them
back, `Settings.Plain.unique` when no other settings give the same URL; with a `:` in the
password or an address in the name others do (`collision_colon`, `collision_address`).
-/

namespace OrdersApi

open Uri

variable {s s' : Settings} {host a b : List Char} {port : ℕ}

/-! ## Reading -/

theorem HostName.not_mem (h : HostName host) {c : Char} (hc : ¬ c.isAlphanum = true)
    (hc' : c ≠ '-' ∧ c ≠ '.' ∧ c ≠ '_') :
    c ∉ host := by
  intro hmem
  rcases h.2 c hmem with h | h | h | h
  · exact hc h
  · exact hc'.1 h
  · exact hc'.2.1 h
  · exact hc'.2.2 h

theorem not_mem_digits {c : Char} (hc : ¬ c.isDigit = true) : c ∉ Nat.toDigits 10 port := fun hmem =>
  hc (Nat.isDigit_of_mem_toDigits (by omega) le_rfl hmem)

theorem readPort_digits (port : ℕ) : readPort (Nat.toDigits 10 port) = some port := by
  have hdigits : (Nat.toDigits 10 port).all Char.isDigit = true :=
    List.all_eq_true.2 fun c hc => Nat.isDigit_of_mem_toDigits (by omega) le_rfl hc
  unfold readPort
  rw [if_pos ⟨Nat.toDigits_ne_nil, hdigits⟩, Nat.ofDigitChars_ten_toDigits]

theorem readAddress_text (h : HostName host) (port : ℕ) (name : List Char) :
    readAddress (addressText host port name) = some (host, some port, name.takeWhile (· ≠ '?')) := by
  have hslash : '/' ∉ host ++ ':' :: Nat.toDigits 10 port := by
    simp only [List.mem_append, List.mem_cons, not_or]
    exact ⟨h.not_mem (by decide) (by decide), by decide, not_mem_digits (by decide)⟩
  have hassoc : addressText host port name = (host ++ ':' :: Nat.toDigits 10 port) ++ '/' :: name := by
    simp [addressText]
  unfold readAddress
  rw [hassoc, splitFirst_append hslash]
  simp [splitFirst_append (h.not_mem (c := ':') (by decide) (by decide)), readPort_digits]

theorem databaseUrl_toList (s : Settings) : s.databaseUrl.toList = "postgresql+asyncpg://".toList ++
    (s.dbUser.toList ++ ':' :: (s.dbPassword.toList ++ '@' ::
      addressText s.dbHost.toList s.dbPort s.dbName.toList)) := by
  have hport : (toString s.dbPort).toList = Nat.toDigits 10 s.dbPort := by
    rw [Nat.toString_eq_ofList_toDigits, String.toList_ofList]
  have hcolon : ":".toList = [':'] := by simp
  have hat : "@".toList = ['@'] := by simp
  have hslash : "/".toList = ['/'] := by simp
  unfold Settings.databaseUrl addressText
  simp only [String.toList_append, hport, hcolon, hat, hslash, List.append_assoc,
    List.cons_append, List.nil_append]

theorem makeUrl_eq (s : Settings) : makeUrl s.databaseUrl = (do
    let (username, rest) ← splitFirst ':' (s.dbUser.toList ++ ':' :: (s.dbPassword.toList ++ '@' ::
      addressText s.dbHost.toList s.dbPort s.dbName.toList))
    guard ('/' ∉ username)
    let (password, rest) ← splitFirst '@' rest
    let (host, port, database) ← readAddress rest
    return ⟨unquote username, unquote password, host, port, database⟩) := by
  unfold makeUrl
  rw [databaseUrl_toList, List.dropPrefix?_append_of_beq _ (beq_self_eq_true _)]
  rfl

theorem takeWhile_eq_self {l : List Char} : l.takeWhile (· ≠ '?') = l ↔ '?' ∉ l := by
  rw [List.takeWhile_eq_self_iff]
  refine ⟨fun h hmem => by simpa using h _ hmem, fun h c hc => ?_⟩
  have hne : c ≠ '?' := fun he => h (he ▸ hc)
  simpa using hne

/-- **The components are read back** when they have no delimiter where the reader looks
for it, and no `%XX`. -/
theorem makeUrl_iff (hs : s.Proper) : makeUrl s.databaseUrl = some s.components ↔
    (':' ∉ s.dbUser.toList ∧ hasEscape s.dbUser.toList = false) ∧ '/' ∉ s.dbUser.toList ∧
      ('@' ∉ s.dbPassword.toList ∧ hasEscape s.dbPassword.toList = false) ∧ '?' ∉ s.dbName.toList := by
  rw [makeUrl_eq]
  constructor
  · intro h
    simp only [Option.bind_eq_bind, Option.bind_eq_some_iff] at h
    obtain ⟨⟨username, rest⟩, huser, ⟨⟩, hslash, ⟨password, rest'⟩, hpassword, ⟨host, port, database⟩, haddress, h⟩ := h
    injection Option.some.inj h with hu hp hh hport hd
    -- each part is read back only if the reader has not stopped before its end
    have hcolon := (read_part huser).1 hu
    rw [splitFirst_append hcolon.1] at huser
    cases huser
    have hat := (read_part hpassword).1 hp
    rw [splitFirst_append hat.1] at hpassword
    cases hpassword
    rw [readAddress_text hs.host] at haddress
    cases haddress
    refine ⟨hcolon, ?_, hat, takeWhile_eq_self.1 hd⟩
    by_contra hmem
    simp [hmem] at hslash
  · rintro ⟨⟨hcolon, huser⟩, hslash, ⟨hat, hpassword⟩, hquestion⟩
    rw [splitFirst_append hcolon, Option.bind_eq_bind, Option.bind_some]
    simp only [hslash, not_false_eq_true, guard_true, splitFirst_append hat, Option.bind_eq_bind, Option.bind_some]
    rw [readAddress_text hs.host, Option.bind_some, unquote_eq_self.2 huser, unquote_eq_self.2 hpassword,
      takeWhile_eq_self.2 hquestion]
    rfl

/-! ## Other settings with the same URL -/

theorem databaseUrl_eq_iff : s'.databaseUrl = s.databaseUrl ↔
    s'.dbUser.toList ++ ':' :: (s'.dbPassword.toList ++ '@' :: addressText s'.dbHost.toList s'.dbPort s'.dbName.toList) =
      s.dbUser.toList ++ ':' :: (s.dbPassword.toList ++ '@' :: addressText s.dbHost.toList s.dbPort s.dbName.toList) := by
  rw [← String.toList_inj, databaseUrl_toList, databaseUrl_toList, List.append_right_inj]

theorem addressText_inj {host' name name' : List Char} {port' : ℕ} (h : HostName host)
    (h' : HostName host')
    (heq : addressText host' port' name' = addressText host port name) :
    host' = host ∧ port' = port ∧ name' = name := by
  obtain ⟨hhost, heq⟩ := split_unique (h'.not_mem (by decide) (by decide)) (h.not_mem (by decide) (by decide)) heq
  obtain ⟨hport, hname⟩ := split_unique (not_mem_digits (by decide)) (not_mem_digits (by decide)) heq
  have hvalue := congrArg (fun digits => Nat.ofDigitChars 10 digits 0) hport
  simp only [Nat.ofDigitChars_ten_toDigits] at hvalue
  exact ⟨hhost, hvalue, hname⟩

/-- An `@` in the text of an address is in the name. -/
theorem at_in_name (h : HostName host) {name y z : List Char}
    (heq : addressText host port name = y ++ '@' :: z) :
    ∃ a, name = a ++ '@' :: z := by
  have hat : '@' ∉ host ++ ':' :: (Nat.toDigits 10 port ++ ['/']) := by
    simp only [List.mem_append, List.mem_cons, List.not_mem_nil, or_false, not_or]
    exact ⟨h.not_mem (by decide) (by decide), by decide, not_mem_digits (by decide), by decide⟩
  have hassoc : addressText host port name = (host ++ ':' :: (Nat.toDigits 10 port ++ ['/'])) ++ name := by
    simp [addressText]
  rw [hassoc] at heq
  obtain ⟨a, ha, -⟩ := split_after hat heq
  exact ⟨a, ha⟩

/-- **No other settings have the URL** of plain ones. -/
theorem Settings.Plain.unique (h : s.Plain) (hs : s.Proper) (hs' : s'.Proper)
    (heq : s'.databaseUrl = s.databaseUrl) :
    s'.components = s.components := by
  rw [databaseUrl_eq_iff] at heq
  -- the `@` before the address is the same one, for the name of `s` has no address
  have haddress : ∀ x, s.dbPassword.toList ++ '@' :: addressText s.dbHost.toList s.dbPort s.dbName.toList =
      x ++ '@' :: addressText s'.dbHost.toList s'.dbPort s'.dbName.toList →
      x = s.dbPassword.toList ∧ addressText s'.dbHost.toList s'.dbPort s'.dbName.toList =
        addressText s.dbHost.toList s.dbPort s.dbName.toList := by
    intro x hx
    obtain ⟨y, hy, rfl⟩ := split_after h.password_at hx
    rcases y with _ | ⟨c, y⟩
    · exact ⟨List.append_nil _, (List.cons_eq_cons.1 hy).2.symm⟩
    · obtain ⟨a, ha⟩ := at_in_name hs.host (List.cons_eq_cons.1 hy).2
      have hname := h.name_address a _ _ _ ha hs'.host
      exact absurd (String.toList_eq_nil_iff.1 hname) hs'.name
  have hsame : s'.dbUser.toList = s.dbUser.toList ∧ s'.dbPassword.toList = s.dbPassword.toList ∧
      addressText s'.dbHost.toList s'.dbPort s'.dbName.toList =
        addressText s.dbHost.toList s.dbPort s.dbName.toList := by
    obtain ⟨x, hx, huser⟩ := split_after h.user_colon heq.symm
    rcases x with _ | ⟨c, x⟩
    · rw [List.append_nil] at huser
      exact ⟨huser, haddress _ (List.cons_eq_cons.1 hx).2⟩
    · -- a `:` in the password would be its last character
      have hrest : s.dbPassword.toList ++ '@' :: addressText s.dbHost.toList s.dbPort s.dbName.toList =
          (x ++ ':' :: s'.dbPassword.toList) ++ '@' :: addressText s'.dbHost.toList s'.dbPort s'.dbName.toList := by
        rw [List.append_assoc, List.cons_append]
        exact (List.cons_eq_cons.1 hx).2
      have hpassword := h.password_colon x _ (haddress _ hrest).1.symm
      exact absurd (String.toList_eq_nil_iff.1 hpassword) hs'.password
  obtain ⟨huser, hpassword, haddress⟩ := hsame
  obtain ⟨hhost, hport, hname⟩ := addressText_inj hs.host hs'.host haddress
  unfold Settings.components
  rw [huser, hpassword, hhost, hport, hname]

theorem ofList_ne_empty {l : List Char} (h : l ≠ []) : String.ofList l ≠ "" := by
  intro he
  have hlist := congrArg String.toList he
  rw [String.toList_ofList, String.toList_empty] at hlist
  exact h hlist

/-- A `:` in the password can end the user. -/
theorem collision_colon (hs : s.Proper) (ha : s.dbPassword.toList = a ++ ':' :: b) (hb : b ≠ []) :
    ∃ s' : Settings, s'.Proper ∧ s'.databaseUrl = s.databaseUrl ∧ s'.components ≠ s.components := by
  refine ⟨{ s with dbUser := String.ofList (s.dbUser.toList ++ ':' :: a), dbPassword := String.ofList b },
    ⟨?_, ?_, hs.name, hs.host⟩, ?_, fun he => ?_⟩
  · exact ofList_ne_empty (by simp)
  · exact ofList_ne_empty hb
  · simp [databaseUrl_eq_iff, ha]
  · simpa [Settings.components] using congrArg Url.username he

/-- An address in the name can be the one that is read. -/
theorem collision_address (hs : s.Proper) (ha : s.dbName.toList = a ++ '@' :: addressText host port b)
    (hhost : HostName host) (hb : b ≠ []) :
    ∃ s' : Settings, s'.Proper ∧ s'.databaseUrl = s.databaseUrl ∧ s'.components ≠ s.components := by
  refine ⟨{ s with
      dbPassword := String.ofList (s.dbPassword.toList ++ '@' :: addressText s.dbHost.toList s.dbPort a)
      dbHost := String.ofList host
      dbPort := port
      dbName := String.ofList b }, ⟨hs.user, ?_, ?_, ?_⟩, ?_, fun he => ?_⟩
  · exact ofList_ne_empty (by simp)
  · exact ofList_ne_empty hb
  · simpa using hhost
  · simp [databaseUrl_eq_iff, ha, addressText]
  · simpa [Settings.components] using congrArg Url.password he

/-- **The URL is faithful** to settings if and only if they are plain. -/
theorem database_url_faithful (s : Settings) (hs : s.Proper) :
    (makeUrl s.databaseUrl = some s.components ∧
      ∀ s' : Settings, s'.Proper → s'.databaseUrl = s.databaseUrl →
      s'.components = s.components) ↔ s.Plain := by
  constructor
  -- reading back excludes the delimiters, and other settings the rest
  · rintro ⟨hread, hunique⟩
    obtain ⟨⟨hcolon, huser⟩, hslash, ⟨hat, hpassword⟩, hquestion⟩ := (makeUrl_iff hs).1 hread
    refine ⟨hcolon, hslash, huser, hat, hpassword, fun a b hab => ?_, hquestion, fun a host port b hab hhost => ?_⟩
    · by_contra hb
      obtain ⟨s', hs', hurl, hne⟩ := collision_colon hs hab hb
      exact hne (hunique s' hs' hurl)
    · by_contra hb
      obtain ⟨s', hs', hurl, hne⟩ := collision_address hs hab hhost hb
      exact hne (hunique s' hs' hurl)
  · intro h
    refine ⟨(makeUrl_iff hs).2 ⟨⟨h.user_colon, h.user_escape⟩, h.user_slash, ⟨h.password_at, h.password_escape⟩,
      h.name_question⟩, fun s' hs' hurl => h.unique hs hs' hurl⟩

section Sample

/-- The defaults, with a user and a password. -/
def sampleSettings (user password : String) : Settings := { dbUser := user, dbPassword := password }

theorem sample_proper {user password : String} (hu : user ≠ "") (hp : password ≠ "") :
    (sampleSettings user password).Proper := by
  have hname : "orders_db" ≠ "" := by decide
  have hhost : HostName "postgres".toList := ⟨by simp, by simp⟩
  exact ⟨hu, hp, hname, hhost⟩

/-- A password with delimiters of the later parts and a `:` at its end is read back. -/
theorem database_url_faithful_sample :
    makeUrl (sampleSettings "orders_user" "s3/c?r%t:").databaseUrl =
      some (sampleSettings "orders_user" "s3/c?r%t:").components := by
  refine ((database_url_faithful _ (sample_proper (by decide) (by decide))).2 ?_).1
  have hat : '@' ∉ "orders_db".toList := by decide
  refine ⟨by decide, by decide, by decide, by decide, by decide, fun a b hab => ?_, by decide,
    fun a host port b hab _ => ?_⟩
  · have hab : a ++ ':' :: b = "s3/c?r%t".toList ++ ':' :: [] := hab.symm
    have hone : (a ++ ':' :: b).count ':' = 1 := by
      rw [hab]
      decide
    have ha : ':' ∉ a := by
      intro hmem
      have hpos := List.count_pos_iff.2 hmem
      rw [List.count_append, List.count_cons_self] at hone
      omega
    exact (split_unique ha (by decide) hab).2
  · have hab : "orders_db".toList = a ++ '@' :: addressText host port b := hab
    exact absurd (hab ▸ List.mem_append_right a List.mem_cons_self) hat

/-- **Not faithful**: the password `p@ss` is not read back, and the password `a:b` gives
the URL of another user. -/
theorem database_url_misread :
    makeUrl (sampleSettings "orders_user" "p@ss").databaseUrl ≠
      some (sampleSettings "orders_user" "p@ss").components ∧
    (sampleSettings "orders_user" "a:b").databaseUrl =
    (sampleSettings "orders_user:a" "b").databaseUrl ∧
    (sampleSettings "orders_user" "a:b").components ≠
    (sampleSettings "orders_user:a" "b").components := by
  refine ⟨fun h => ?_, by simp [databaseUrl_eq_iff, sampleSettings], by decide⟩
  exact absurd ((makeUrl_iff (sample_proper (by decide) (by decide))).1 h).2.2.1.1 (by decide)

end Sample

end OrdersApi
