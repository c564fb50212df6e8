import Nexus.LLD.SectorDatabase
import Nexus.Ledger.Consistency
import Nexus.Ledger.Steps
import Nexus.Ledger.Supply
import Nexus.LLC.BaseUint
import Nexus.Lib.Limbs
import Nexus.Lib.Matching
import Nexus.Lib.Overflow
import Nexus.Lib.Radix
import Nexus.Safety.Acceptance
import Nexus.Safety.Accounts
import Nexus.Safety.Addresses
import Nexus.Safety.Aliases
import Nexus.Safety.Arithmetic
import Nexus.Safety.Arrivals
import Nexus.Safety.Base58
import Nexus.Safety.Base64
import Nexus.Safety.Branches
import Nexus.Safety.Buckets
import Nexus.Safety.Builds
import Nexus.Safety.Caches
import Nexus.Safety.Checks
import Nexus.Safety.Clusters
import Nexus.Safety.Commits
import Nexus.Safety.Comparisons
import Nexus.Safety.Compression
import Nexus.Safety.Confirmations
import Nexus.Safety.Consistency
import Nexus.Safety.Credits
import Nexus.Safety.Cursors
import Nexus.Safety.Deliveries
import Nexus.Safety.Dividends
import Nexus.Safety.Forks
import Nexus.Safety.Expiry
import Nexus.Safety.Expressions
import Nexus.Safety.Frames
import Nexus.Safety.Events
import Nexus.Safety.Groups
import Nexus.Safety.Hardening
import Nexus.Safety.Indexes
import Nexus.Safety.Journals
import Nexus.Safety.Layouts
import Nexus.Safety.Listings
import Nexus.Safety.Locators
import Nexus.Safety.Lookups
import Nexus.Safety.Merkles
import Nexus.Safety.Metering
import Nexus.Safety.Mints
import Nexus.Safety.Multisig
import Nexus.Safety.Orphans
import Nexus.Safety.Overlays
import Nexus.Safety.Ownership
import Nexus.Safety.Patterns
import Nexus.Safety.Penalties
import Nexus.Safety.Pools
import Nexus.Safety.Primes
import Nexus.Safety.Protected
import Nexus.Safety.Reconnects
import Nexus.Safety.Releases
import Nexus.Safety.Reserves
import Nexus.Safety.Restarts
import Nexus.Safety.Retargets
import Nexus.Safety.Rewards
import Nexus.Safety.Rollbacks
import Nexus.Safety.Scores
import Nexus.Safety.Serials
import Nexus.Safety.Sigchains
import Nexus.Safety.Slices
import Nexus.Safety.Stakepools
import Nexus.Safety.Stakes
import Nexus.Safety.Staking
import Nexus.Safety.TemplateCaches
import Nexus.Safety.Validators
import Nexus.Safety.Widths
import Nexus.Safety.Writes
import Nexus.Util.Encoding
