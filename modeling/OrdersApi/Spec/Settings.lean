import OrdersApi.Lib.Unquote

/-!
# Settings (`app/config/settings.py`)

The settings of the database access, and the URL that is built from them. `makeUrl` is
how `create_async_engine` reads a URL: the user ends at the first `:` and has no `/`, the
password at the first `@`, host and port at `/`, the database at `?`, and user and
password are percent-decoded.
-/

namespace OrdersApi

open Uri

structure Settings where
  dbHost : String := "postgres"
  dbPort : ℕ := 5432
  dbName : String := "orders_db"
  dbUser : String := "orders_user"
  dbPassword : String := "orders_pass"
  apiKey : String := "dev-api-key"
deriving DecidableEq

/-- `Settings.database_url`. -/
def Settings.databaseUrl (s : Settings) : String :=
  "postgresql+asyncpg://" ++ (s.dbUser ++ ":" ++ s.dbPassword) ++
    ("@" ++ s.dbHost ++ ":" ++ toString s.dbPort ++ "/" ++ s.dbName)

/-- What an engine connects with. -/
structure Url where
  username : List Char
  password : List Char
  host : List Char
  port : Option ℕ
  database : List Char
deriving DecidableEq

/-- `int(port)`, of a text of digits. -/
def readPort (digits : List Char) : Option ℕ :=
  if digits ≠ [] ∧ digits.all Char.isDigit then some (Nat.ofDigitChars 10 digits 0) else none

/-- Host, port and database, from what follows the password. -/
def readAddress (cs : List Char) : Option (List Char × Option ℕ × List Char) := do
  let (address, rest) ← splitFirst '/' cs
  let database := rest.takeWhile (· ≠ '?')
  match splitFirst ':' address with
  | some (host, digits) => return (host, some (← readPort digits), database)
  | none => return (address, none, database)

/-- SQLAlchemy's `make_url`. -/
def makeUrl (url : String) : Option Url := do
  let rest ← url.toList.dropPrefix? "postgresql+asyncpg://".toList
  let (username, rest) ← splitFirst ':' rest
  guard ('/' ∉ username)
  let (password, rest) ← splitFirst '@' rest
  let (host, port, database) ← readAddress rest
  return ⟨unquote username, unquote password, host, port, database⟩

/-- The components as the settings give them. -/
def Settings.components (s : Settings) : Url :=
  ⟨s.dbUser.toList, s.dbPassword.toList, s.dbHost.toList, some s.dbPort, s.dbName.toList⟩

/-! ## Which settings are meant -/

/-- A host name: letters, digits, `-`, `.` and `_`. -/
def HostName (host : List Char) : Prop :=
  host ≠ [] ∧ ∀ c ∈ host, c.isAlphanum ∨ c = '-' ∨ c = '.' ∨ c = '_'

/-- The text of an address: host, port and database name. -/
def addressText (host : List Char) (port : ℕ) (name : List Char) : List Char :=
  host ++ ':' :: (Nat.toDigits 10 port ++ '/' :: name)

/-- User, password and database name are not empty, and the host is a host name. -/
structure Settings.Proper (s : Settings) : Prop where
  user : s.dbUser ≠ ""
  password : s.dbPassword ≠ ""
  name : s.dbName ≠ ""
  host : HostName s.dbHost.toList

/-- The texts that the URL carries as they are, and that can be read in one way only: no
delimiter where the reader looks for it, no `%XX`, no `:` in the password but as its last
character, and no `@` in the name that an address and a further name follow. -/
structure Settings.Plain (s : Settings) : Prop where
  user_colon : ':' ∉ s.dbUser.toList
  user_slash : '/' ∉ s.dbUser.toList
  user_escape : hasEscape s.dbUser.toList = false
  password_at : '@' ∉ s.dbPassword.toList
  password_escape : hasEscape s.dbPassword.toList = false
  password_colon : ∀ a b, s.dbPassword.toList = a ++ ':' :: b → b = []
  name_question : '?' ∉ s.dbName.toList
  name_address : ∀ a host port b, s.dbName.toList = a ++ '@' :: addressText host port b →
    HostName host → b = []

end OrdersApi
