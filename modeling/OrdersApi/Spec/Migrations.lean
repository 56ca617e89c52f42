import OrdersApi.Lib.Interpolation
import OrdersApi.Spec.Settings

/-!
# The URL of the migrations (`alembic/env.py`, `alembic.ini`)

`env.py` puts the database URL of the settings into the configuration of Alembic and reads
it from there, through a `ConfigParser`.
-/

namespace OrdersApi

open Interpolation

/-- The options that a value of the section `[alembic]` can refer to: those of the section,
and `here`, the directory of the file. Names are put in lower case. -/
def alembicOptions (here url name : List Char) : Option (List Char) :=
  let key := name.map Char.toLower
  if key = "sqlalchemy.url".toList then some url
  else if key = "script_location".toList then some "alembic".toList
  else if key = "here".toList then some here
  else none

/-- `config.set_main_option("sqlalchemy.url", url)`. -/
def setMainOption (url : List Char) : Option (List Char) := if accepts url then some url else none

/-- `config.get_main_option("sqlalchemy.url")`. -/
def getMainOption (here url : List Char) : Option (List Char) :=
  interpolate (alembicOptions here url) maxDepth url

/-- The URL that the migrations connect with. -/
def migrationUrl (here : String) (s : Settings) : Option String := do
  let url ← setMainOption s.databaseUrl.toList
  return String.ofList (← getMainOption here.toList url)

end OrdersApi
