import Leasehold.Lock.Config
import Leasehold.Pool.Config
import Leasehold.Redis.Settings

/-!
# Settings

The settings of a service that uses locks and a pool: one section for each, and one for the Redis
server that holds the locks.  Every field has a default.

Settings are valid if the pool is, the lease is long enough and the address of the server can be
read.  The first rule that fails, in this order, is reported.
-/

namespace Leasehold

/-- The settings of a service. -/
structure Settings where
  /-- The settings of locks. -/
  lock : Lock.Config := {}
  /-- The settings of the pool. -/
  pool : Pool.Config := {}
  /-- The settings of the Redis server. -/
  redis : Redis.Settings := {}
deriving DecidableEq, Repr

instance : Inhabited Settings := ⟨{}⟩

namespace Settings

/-- Why settings are refused. -/
inductive Invalid where
  /-- The settings of the pool are at fault. -/
  | pool (fault : Pool.Config.Fault)
  /-- The lease is too short. -/
  | shortLease (lease : Duration)
  /-- There is no address. -/
  | noAddress
  /-- The address cannot be read. -/
  | badAddress (redis : Redis.Settings)
deriving DecidableEq, Repr

/-- What is wrong. -/
def Invalid.reason : Invalid → String
  | .pool fault => fault.reason
  | .shortLease lease => "lock " ++ Lock.shortLeaseMessage lease
  | .noAddress => "redis addr must be set"
  | .badAddress redis => redis.badAddress

/-- The text of a fault. -/
def Invalid.message (i : Invalid) : String := refusal i.reason

/-- What is wrong with settings, if anything is. -/
def invalid? (s : Settings) : Option Invalid :=
  match s.pool.fault? with
  | some fault => some (.pool fault)
  | none =>
      if ¬Lock.IsLease s.lock.lease then some (.shortLease s.lock.lease)
      else if s.redis.addr = "" then some .noAddress
      else if s.redis.url? = none then some (.badAddress s.redis)
      else none

end Settings

end Leasehold
