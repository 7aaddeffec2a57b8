import Leasehold.Settings.Basic
import Leasehold.Settings.Shape

/-!
# The fields of settings

Which names the sections of settings have, and how their values are read, in any format.
-/

namespace Leasehold.Settings

variable {α : Type}

namespace Format

/-- The fields of the settings of locks. -/
def lockFields (f : Format α) : List (Field α Lock.Config) :=
  [ .of "backoff" (fun v => (f.shape v).duration) fun d c => { c with backoff := d },
    .of "max_renewals" (fun v => (f.shape v).word32) fun n c => { c with maxRenewals := n },
    .of "lease" (fun v => (f.shape v).duration) fun d c => { c with lease := d } ]

/-- The settings of locks. -/
def lock (f : Format α) : α → Reading Lock.Config := f.fields "LockConfig" f.lockFields {}

/-- The fields of the settings of a pool. -/
def poolFields (f : Format α) : List (Field α Pool.Config) :=
  [ .of "initial" (fun v => (f.shape v).word64) fun n c => { c with initial := n },
    .of "max" (fun v => (f.shape v).word64) fun n c => { c with max := n },
    .of "idle_timeout" (fun v => (f.shape v).duration) fun d c => { c with idleTimeout := d },
    .of "checkout" f.checkout fun p c => { c with checkout := p } ]

/-- The settings of a pool. -/
def pool (f : Format α) : α → Reading Pool.Config := f.fields "PoolConfig" f.poolFields {}

/-- The fields of the settings of a Redis server. -/
def redisFields (f : Format α) : List (Field α Redis.Settings) :=
  [ .of "addr" (fun v => (f.shape v).string) fun s c => { c with addr := s },
    .of "password" (fun v => (f.shape v).optionalString) fun s c => { c with password? := s },
    .of "connect_timeout" (fun v => (f.shape v).duration)
      fun d c => { c with connectTimeout := d } ]

/-- The settings of a Redis server. -/
def redis (f : Format α) : α → Reading Redis.Settings :=
  f.fields "RedisSettings" f.redisFields {}

/-- The sections of the settings of a service. -/
def sections (f : Format α) : List (Field α Settings) :=
  [ .of "lock" f.lock fun c s => { s with lock := c },
    .of "pool" f.pool fun c s => { s with pool := c },
    .of "redis" f.redis fun c s => { s with redis := c } ]

/-- The settings of a service. -/
def settings (f : Format α) : α → Reading Settings := f.fields "Settings" f.sections {}

end Format

end Leasehold.Settings
