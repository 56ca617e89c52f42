import OrdersApi.Proof.DatabaseUrl
import OrdersApi.Spec.Migrations

/-!
# Migrations and the application

The migrations connect with the URL of the application exactly when it has no `%`. A `%`
is what a user or a password with a delimiter needs, so that the engine reads it from the
URL: then the migrations cannot have the same URL (`migrations_share_url`).
-/

namespace OrdersApi

open Uri Interpolation

variable {s : Settings} {here : String} {d : Char} {x : List Char}

theorem alembicOptions_plain {here url name v : List Char} (hhere : '%' ∉ here)
    (h : alembicOptions here url name = some v) (hpercent : '%' ∈ v) : v = url := by
  unfold alembicOptions at h
  dsimp only at h
  split_ifs at h
  · cases h
    rfl
  · cases h
    exact absurd hpercent (by decide)
  · cases h
    exact absurd hpercent hhere

theorem migrationUrl_eq_iff (hhere : '%' ∉ here.toList) :
    migrationUrl here s = some s.databaseUrl ↔ '%' ∉ s.databaseUrl.toList := by
  have hself : getMainOption here.toList s.databaseUrl.toList = some s.databaseUrl.toList ↔
      '%' ∉ s.databaseUrl.toList :=
    interpolate_eq_self (fun _ _ => alembicOptions_plain hhere) 9
  have hinj : ∀ url : List Char, some (String.ofList url) = some s.databaseUrl ↔
      url = s.databaseUrl.toList := by
    intro url
    rw [Option.some_inj, ← String.toList_inj, String.toList_ofList]
  unfold migrationUrl setMainOption
  constructor
  · intro h
    obtain ⟨url, hset, h⟩ := Option.bind_eq_some_iff.1 h
    obtain ⟨out, hget, hout⟩ := Option.bind_eq_some_iff.1 h
    split_ifs at hset
    cases hset
    rw [(hinj out).1 hout] at hget
    exact hself.1 hget
  · intro h
    rw [if_pos (accepts_plain h)]
    simp only [Option.bind_eq_bind, Option.bind_some, hself.2 h]
    exact (hinj _).2 rfl

/-- Where the URL has a `%`. -/
theorem percent_mem : '%' ∈ s.databaseUrl.toList ↔ '%' ∈ s.dbUser.toList ∨ '%' ∈ s.dbPassword.toList ∨
    '%' ∈ s.dbHost.toList ∨ '%' ∈ s.dbName.toList := by
  have hport : '%' ∉ Nat.toDigits 10 s.dbPort := not_mem_digits (by decide)
  rw [databaseUrl_toList]
  simp [addressText, hport]

/-- A delimiter that is read in a part comes from a `%`. -/
theorem percent_of_unquote (hd : d ∉ x) (h : d ∈ unquote x) : '%' ∈ x := by
  by_contra hno
  rw [unquote_eq_self.2 (hasEscape_of_not_mem hno)] at h
  exact hd h

/-- A delimiter in the user or the password of the URL, as the engine reads it, comes from a `%`. -/
theorem percent_of_delimiter {url : Url} (h : makeUrl s.databaseUrl = some url)
    (hd : ':' ∈ url.username ∨ '/' ∈ url.username ∨ '@' ∈ url.password) :
    '%' ∈ s.databaseUrl.toList := by
  rw [makeUrl_eq] at h
  simp only [Option.bind_eq_bind, Option.bind_eq_some_iff] at h
  obtain ⟨⟨username, rest⟩, huser, ⟨⟩, hslash, ⟨password, rest'⟩, hpassword, ⟨host, port, database⟩, -, h⟩ := h
  cases Option.some.inj h
  have hpassword : splitFirst '@' rest = some (password, rest') := hpassword
  have hslash : '/' ∉ username := by
    intro hmem
    simp [hmem] at hslash
  have husername : '%' ∈ username ∨ '%' ∈ password := by
    rcases hd with hd | hd | hd
    · exact .inl (percent_of_unquote (splitFirst_not_mem huser) hd)
    · exact .inl (percent_of_unquote hslash hd)
    · exact .inr (percent_of_unquote (splitFirst_not_mem hpassword) hd)
  rw [databaseUrl_toList, splitFirst_eq huser, splitFirst_eq hpassword]
  simp only [List.mem_append, List.mem_cons]
  rcases husername with hmem | hmem
  · exact .inr (.inl hmem)
  · exact .inr (.inr (.inr (.inl hmem)))

/-- **The migrations have the URL of the application** exactly when no part of it has a `%`; a
user or a password with a delimiter, which the engine reads only from a `%`, excludes that. -/
theorem migrations_share_url (s : Settings) (hhere : '%' ∉ here.toList) :
    (migrationUrl here s = some s.databaseUrl ↔ '%' ∉ s.dbUser.toList ∧ '%' ∉ s.dbPassword.toList ∧
      '%' ∉ s.dbHost.toList ∧ '%' ∉ s.dbName.toList) ∧
    ∀ url, makeUrl s.databaseUrl = some url → ':' ∈ url.username ∨ '/' ∈ url.username ∨
    '@' ∈ url.password →
      migrationUrl here s ≠ some s.databaseUrl := by
  refine ⟨?_, fun url hread hd h => (migrationUrl_eq_iff hhere).1 h (percent_of_delimiter hread hd)⟩
  rw [migrationUrl_eq_iff hhere, percent_mem]
  simp only [not_or]

/-- The default user and password are those of the migrations; the password `p@ss`, written
`p%40ss` for the engine, is not. -/
theorem migrations_share_url_sample :
    migrationUrl "/app" (sampleSettings "orders_user" "orders_pass") =
      some (sampleSettings "orders_user" "orders_pass").databaseUrl ∧
    migrationUrl "/app" (sampleSettings "orders_user" "p%40ss") ≠
      some (sampleSettings "orders_user" "p%40ss").databaseUrl := by
  have hhere : '%' ∉ "/app".toList := by decide
  refine ⟨(migrations_share_url _ hhere).1.2 ⟨by decide, by decide, by decide, by decide⟩, fun h => ?_⟩
  exact absurd ((migrations_share_url _ hhere).1.1 h).2.1 (by decide)

end OrdersApi
