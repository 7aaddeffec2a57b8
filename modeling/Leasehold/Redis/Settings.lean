import Leasehold.Net.Url
import Leasehold.Text.Quoted
import Leasehold.Time.Duration

/-!
# The settings of a Redis server

An address, a password and the time a connection may take to come up.  The URL of the server is made
of the address and the password.  A password that is not empty takes the place of one in the
address.
-/

namespace Leasehold.Redis

/-- The settings of a Redis server. -/
structure Settings where
  /-- The address, as it follows `redis://` in a URL. -/
  addr : String := "127.0.0.1:6379"
  /-- The password, if the server asks for one. -/
  password? : Option String := none
  /-- How long a connection may take to come up. -/
  connectTimeout : Duration := .ofSeconds 3
deriving DecidableEq, Repr

instance : Inhabited Settings := ⟨{}⟩

namespace Settings

/-- The URL of the server, if the address is one. -/
def url? (s : Settings) : Option Url :=
  (Url.ofText? (Url.scheme ++ s.addr.toList)).map fun url =>
    match s.password? with
    | some password => if password.isEmpty then url else url.withPassword password.toList
    | none => url

/-- What is said of an address that is none. -/
def badAddress (s : Settings) : String := "invalid redis address " ++ Text.quoted s.addr

end Settings

end Leasehold.Redis
