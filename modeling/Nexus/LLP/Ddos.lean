import Mathlib.Data.List.Basic

/-!
# Scores and bans of peers

A `DDOS_Score` keeps the penalties of a peer by the second in which they were given, in a ring of as
many seconds as its timespan; a `DDOS_Filter` bans the peer, longer with each ban.  The clock is in
nanoseconds, and what it reads is given with each call.
-/

namespace Nexus.LLP

/-- `runtime::timer`, while it is running. -/
structure Timer where
  start_time : Int := 0
  deriving DecidableEq, Repr

/-- `Elapsed`: whole seconds, towards zero. -/
def Timer.Elapsed (timer : Timer) (now : Int) : UInt32 :=
  UInt32.ofInt ((now - timer.start_time).tdiv 1000000000)

/-! ## Scores -/

structure DDOS_Score where
  /-- Whether the second was iterated, and its score. -/
  SCORE : List (Bool × UInt32)
  TIMER : Timer
  nIterator : Nat
  deriving DecidableEq, Repr

namespace DDOS_Score

/-- The constructor. -/
def new (nTimespan : Int32) (now : Int) : DDOS_Score where
  SCORE := List.replicate nTimespan.toNatClampNeg (true, 0)
  TIMER := ⟨now⟩
  nIterator := 0

def Reset (score : DDOS_Score) (now : Int) : DDOS_Score where
  SCORE := score.SCORE.map fun slot => (false, slot.2)
  TIMER := ⟨now⟩
  nIterator := 0

def Flush (score : DDOS_Score) (now : Int) : DDOS_Score :=
  let score := score.Reset now
  { score with SCORE := score.SCORE.map fun slot => (slot.1, 0) }

def Score (score : DDOS_Score) : Int32 :=
  let nMovingAverage := score.SCORE.foldl (fun n slot => n + slot.2) 0
  (UInt32.ofNat (nMovingAverage.toNat / score.SCORE.length)).toInt32

/-- A second that was not iterated starts anew. -/
def iterate (SCORE : List (Bool × UInt32)) (i : Nat) : List (Bool × UInt32) :=
  SCORE.modify i fun slot => if slot.1 then slot else (true, 0)

/-- `operator+=` in the second `nTime`. -/
def addAt (score : DDOS_Score) (nTime : Nat) (nScore : UInt32) : DDOS_Score :=
  let SCORE :=
    (List.range' score.nIterator (nTime + 1 - score.nIterator)).foldl iterate score.SCORE
  { score with
    SCORE := SCORE.modify nTime fun slot => (slot.1, slot.2 + nScore)
    nIterator := nTime }

/-- `operator+=`.  The timer is read at `now`, and started again at `nowReset`. -/
def add (score : DDOS_Score) (now nowReset : Int) (nScore : UInt32) : DDOS_Score :=
  let nTime := (score.TIMER.Elapsed now).toNat
  if score.SCORE.length ≤ nTime then
    (score.Reset nowReset).addAt (nTime % score.SCORE.length) nScore
  else score.addAt nTime nScore

end DDOS_Score

/-! ## Bans -/

structure DDOS_Filter where
  TIMER : Timer := {}
  BANTIME : UInt32 := 0
  TOTALBANS : UInt32 := 0
  rSCORE : DDOS_Score
  cSCORE : DDOS_Score
  deriving DecidableEq, Repr

namespace DDOS_Filter

/-- The constructor. -/
def new (nTimespan : UInt32) (now : Int) : DDOS_Filter where
  rSCORE := .new nTimespan.toInt32 now
  cSCORE := .new nTimespan.toInt32 now

def Banned (filter : DDOS_Filter) (now : Int) : Bool := filter.TIMER.Elapsed now < filter.BANTIME

/-- `Ban`.  The timer is read at `now`, and everything starts again at `nowStart`. -/
def Ban (filter : DDOS_Filter) (now nowStart : Int) : DDOS_Filter :=
  if filter.TIMER.Elapsed now < filter.BANTIME then filter
  else
    let TOTALBANS := filter.TOTALBANS + 1
    { TIMER := ⟨nowStart⟩
      TOTALBANS
      BANTIME :=
        max (TOTALBANS * (filter.rSCORE.Score + 1).toUInt32 * (filter.cSCORE.Score + 1).toUInt32)
          (TOTALBANS * 1200)
      cSCORE := filter.cSCORE.Flush nowStart
      rSCORE := filter.rSCORE.Flush nowStart }

end DDOS_Filter

end Nexus.LLP
