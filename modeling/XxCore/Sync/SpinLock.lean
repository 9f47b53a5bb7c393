import XxCore.Lib.Lock

/-! `sync/spin_lock.rs`: each compare-exchange and each load is one step. -/
namespace XxCore.Sync.SpinLock

/-- Where a thread stands in `lock`. -/
inductive Pc where
  | tryLock
  -- `try_spin_lock`, with the loads that are left after the next one
  | load (left : Nat)
  | tryLoaded
  -- `lock_contended`, between two rounds
  | yieldNow
  deriving DecidableEq, Repr

/-- `try_lock`: whether the exchange has succeeded, and the flag. -/
def tryLock (flag : Bool) : Bool × Bool := if flag = false then (true,true) else (false,flag)

/-- The loads of a round. -/
def loads : Nat := 97

def attempt : Pc → Bool → Option Pc × Bool
  | .tryLock,flag =>
    match tryLock flag with
    | (true,flag) => (none,flag)
    | (false,flag) => (some (.load (loads - 1)),flag)
  | .load left,flag =>
    if !flag then (some .tryLoaded,flag)
    else
      match left with
      | 0 => (some .yieldNow,flag)
      | left + 1 => (some (.load left),flag)
  | .tryLoaded,flag =>
    match tryLock flag with
    | (true,flag) => (none,flag)
    | (false,flag) => (some .yieldNow,flag)
  | .yieldNow,flag => (some (.load (loads - 1)),flag)

/-- `lock` and `unlock`. -/
def lock : Threads.Lock Pc Bool := ⟨.tryLock,attempt,fun _ => false⟩

/-- A free lock takes at most the yield, one load and one exchange. -/
theorem lawful : lock.Lawful id 3 where
  acquired := by
    intro p f f' got
    cases p with
    | tryLock | tryLoaded => cases f <;> simp_all [lock,attempt,tryLock]
    | load left => cases f <;> cases left <;> simp [lock,attempt] at got
    | yieldNow => simp [lock,attempt] at got
  refused := by
    intro p p' f f' went
    cases p with
    | tryLock | tryLoaded => cases f <;> simp_all [lock,attempt,tryLock]
    | load left => cases f <;> cases left <;> simp_all [lock,attempt]
    | yieldNow => simp_all [lock,attempt]
  unlocked _ := rfl
  starts := by
    intro f free
    obtain rfl : f = false := free
    rfl
  gets := by
    intro f free p
    obtain rfl : f = false := free
    cases p
    all_goals rfl

end XxCore.Sync.SpinLock
