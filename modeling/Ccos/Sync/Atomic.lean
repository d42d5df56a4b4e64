import Ccos.Lib.Word

/-! The counters of `sync/atomic.c`, which are 32-bit integers with a sign. -/

namespace Ccos.Sync

open Lib

def atomicInc (counter : Int) : Int :=
  wrapInt (counter + 1)

def atomicDec (counter : Int) : Int :=
  wrapInt (counter - 1)

/-- Write the new value if the counter has the old one, and say whether it had. -/
def atomicCompareAndSwap (counter old new : Int) : Bool × Int :=
  if counter = old then (true, new) else (false, counter)

theorem atomicInc_of_lt {counter : Int} (low : -2 ^ 31 ≤ counter) (high : counter + 1 < 2 ^ 31) :
    atomicInc counter = counter + 1 :=
  wrapInt_of_range (by omega) high

end Ccos.Sync
