import Leasehold.Lock.Scenario
import Leasehold.Net.Connector
import Leasehold.Pool.Scenario
import Leasehold.Redis.Store
import Leasehold.Settings.File
import Leasehold.Settings.Json
import Leasehold.Time.Clocks
import Leasehold.TokenDesk
import Leasehold.Proofs.Json.Text
import Leasehold.Proofs.Json.Value
import Leasehold.Proofs.Lock.Arithmetic
import Leasehold.Proofs.Lock.Contenders
import Leasehold.Proofs.Lock.Contest
import Leasehold.Proofs.Lock.Deeds
import Leasehold.Proofs.Lock.Errands
import Leasehold.Proofs.Lock.Exclusion
import Leasehold.Proofs.Lock.Expiry
import Leasehold.Proofs.Lock.Independence
import Leasehold.Proofs.Lock.Latency
import Leasehold.Proofs.Lock.Leaves
import Leasehold.Proofs.Lock.Lifetime
import Leasehold.Proofs.Lock.Likeness
import Leasehold.Proofs.Lock.Owners
import Leasehold.Proofs.Lock.Ownership
import Leasehold.Proofs.Lock.Pace
import Leasehold.Proofs.Lock.Quiescence
import Leasehold.Proofs.Lock.Registrations
import Leasehold.Proofs.Lock.Registry
import Leasehold.Proofs.Lock.Release
import Leasehold.Proofs.Lock.Renaming
import Leasehold.Proofs.Lock.Renewals
import Leasehold.Proofs.Lock.Rounding
import Leasehold.Proofs.Lock.Runs
import Leasehold.Proofs.Lock.Schedule
import Leasehold.Proofs.Lock.Seekers
import Leasehold.Proofs.Lock.Slots
import Leasehold.Proofs.Lock.Timeline
import Leasehold.Proofs.Lock.Tokens
import Leasehold.Proofs.Lock.Touch
import Leasehold.Proofs.Lock.Traceless
import Leasehold.Proofs.Net.Ipv6
import Leasehold.Proofs.Net.Path
import Leasehold.Proofs.Net.Percent
import Leasehold.Proofs.Net.Url
import Leasehold.Proofs.Pool.Abandonment
import Leasehold.Proofs.Pool.Books
import Leasehold.Proofs.Pool.Capacity
import Leasehold.Proofs.Pool.Conservation
import Leasehold.Proofs.Pool.Construction
import Leasehold.Proofs.Pool.Custody
import Leasehold.Proofs.Pool.Deeds
import Leasehold.Proofs.Pool.Filling
import Leasehold.Proofs.Pool.Queue
import Leasehold.Proofs.Pool.Runs
import Leasehold.Proofs.Pool.Selection
import Leasehold.Proofs.Pool.Shutdown
import Leasehold.Proofs.Redis.Agreement
import Leasehold.Proofs.Redis.Destination
import Leasehold.Proofs.Redis.Expiry
import Leasehold.Proofs.Redis.Opening
import Leasehold.Proofs.Redis.Password
import Leasehold.Proofs.Redis.Server
import Leasehold.Proofs.Settings.Loading
import Leasehold.Proofs.Settings.RoundTrip
import Leasehold.Proofs.Simulation.Abandonment
import Leasehold.Proofs.Simulation.Chronicle
import Leasehold.Proofs.Simulation.Completion
import Leasehold.Proofs.Simulation.History
import Leasehold.Proofs.Simulation.Omission
import Leasehold.Proofs.Simulation.Performance
import Leasehold.Proofs.Simulation.Progress
import Leasehold.Proofs.Simulation.Projection
import Leasehold.Proofs.Simulation.Run
import Leasehold.Proofs.Simulation.Tally
import Leasehold.Proofs.Simulation.Watch
import Leasehold.Proofs.Store.Calls
import Leasehold.Proofs.Store.Entries
import Leasehold.Proofs.Store.Ledger
import Leasehold.Proofs.Store.Likeness
import Leasehold.Proofs.Store.Locality
import Leasehold.Proofs.Store.Sessions
import Leasehold.Proofs.Store.Wrappers
import Leasehold.Proofs.Text.Numeral
import Leasehold.Proofs.Text.Utf8
import Leasehold.Proofs.Time.Spelled
import Leasehold.Proofs.TokenDesk
import Leasehold.Proofs.Toml.Tables
import Leasehold.Proofs.TokenDesk
