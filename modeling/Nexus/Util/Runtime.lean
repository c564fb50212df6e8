import Nexus.Util.Stream

/-!
# The node's environment

What a node reads besides its databases while it validates: the network clock,
the configuration flags, and the hash functions.  The hash functions are
arbitrary; a result that needs one to be collision free says so.
-/

namespace Nexus.Util

structure Runtime where
  /-- `runtime::unifiedtimestamp()`. -/
  unifiedtimestamp : UInt64
  /-- `TAO::Ledger::StartBlockTimelock(8)`. -/
  startBlockTimelock8 : UInt64
  /-- `config::fTestNet`. -/
  fTestNet : Bool
  /-- `config::GetBoolArg("-trustboost")`. -/
  fTrustBoost : Bool
  /-- `TAO::Ledger::TransactionVersionActive`. -/
  transactionVersionActive : UInt64 → UInt32 → Bool
  /-- `std::log10`, truncated. -/
  log10 : UInt64 → UInt64
  /-- What an unchecked read past the end of a byte vector returns. -/
  heap : List UInt8 → Nat → UInt8
  /-- Height, money supply and time of `ChainState::stateBest`. -/
  nBestHeight : UInt32
  nBestMoneySupply : UInt64
  nBestTime : UInt64
  /-- `LLC::SK64` of some bytes. -/
  SK64 : List UInt8 → UInt64
  /-- `LLC::SK256` of some bytes. -/
  SK256 : List UInt8 → Uint256
  /-- `LLC::SK512` of some bytes. -/
  SK512 : List UInt8 → Uint512

/-- `runtime::maxdrift()`. -/
def Runtime.maxdrift (rt : Runtime) : UInt64 :=
  if rt.unifiedtimestamp < rt.startBlockTimelock8 then 10 else 1

end Nexus.Util
