import XxCore.ThreadPool.PoolSteps

/-! What `cancel_direct` finds behind a node that is not linked. -/
namespace XxCore.ThreadPool

open History Transition

variable {θ ω : Type} [DecidableEq θ] [DecidableEq ω] {s next : State θ ω} {a : ω} {n : Nat}

variable [Fintype θ]

end XxCore.ThreadPool
