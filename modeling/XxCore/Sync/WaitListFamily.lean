import XxCore.Sync.WaitListInvariant

/-! Which call of the list a thread is in, and how waiters that count are woken: the accounting of
wake-ups that the users of the list build on. -/
namespace XxCore.Sync.WaitList

variable {θ ω α : Type}

inductive Family where
  | wait
  | cancel
  | wakeOne
  | wakeAll (closing : Bool)

/-- The call that the thread is in. -/
def Pc.family : Pc ω α → Option Family
  | .idle | .returned _ => none
  | .checkInterrupt _ | .addCount _ | .suspendLock _ | .loadClosed _ | .storeEmpty _
  | .shouldBlock _ | .dropEmpty _ | .unlockDone _ _ | .append _ | .unlockPending _ | .parked _
  | .subCount _ => some .wait
  | .cancelLock _ | .unlink _ | .unlockUnlinked => some .cancel
  | .unlockTaken _ (.ok _) (.wakeOne true) | .complete _ (.ok _) (.wakeOne true) => some .wakeOne
  | .unlockTaken _ _ _ | .complete _ _ _ => some .cancel
  | .loadEmpty _ | .wakeLock _ | .popFront _ | .unlockNone => some .wakeOne
  | .storeClosed _ => some (.wakeAll true)
  | .loadEmptyAll all | .loadCount all | .wakeAllLock all _ | .popNext all _
  | .completeNext all _ _ | .unlockAll all _ => some (.wakeAll all.closing)

/-- The waiter of the `wait` that the thread is in, until its result is known. -/
def Pc.waiter : Pc ω α → Option ω
  | .checkInterrupt w | .addCount w | .suspendLock w | .loadClosed w | .storeEmpty w
  | .shouldBlock w | .dropEmpty w | .unlockDone w _ | .append w | .unlockPending w | .parked w =>
    some w
  | _ => none

/-- The thread has decided to block. -/
def Pc.blocks : Pc ω α → Bool
  | .append _ | .unlockPending _ | .parked _ => true
  | _ => false

def Call.family : Call ω α → Family
  | .wait _ => .wait
  | .cancel _ => .cancel
  | .wakeOne _ => .wakeOne
  | .wakeAll _ => .wakeAll false
  | .close _ => .wakeAll true

theorem family_of_isFree {pc : Pc ω α} (free : pc.isFree = true) : pc.family = none := by
  cases pc <;> simp [Pc.isFree] at free <;> rfl

theorem isFree_of_family {pc : Pc ω α} (free : pc.family = none) : pc.isFree = true := by
  unfold Pc.family at free
  split at free <;> first | rfl | contradiction

theorem waiter_of_family {pc : Pc ω α} (free : pc.family = none) : pc.waiter = none := by
  unfold Pc.family at free
  split at free <;> first | rfl | contradiction

theorem waiter_of_pends {pc : Pc ω α} {w : ω} (pends : pc.pends = some w) : pc.waiter = some w := by
  cases pc <;> simp_all [Pc.pends,Pc.waiter]

theorem family_of_pends {pc : Pc ω α} {w : ω} (pends : pc.pends = some w) :
    pc.family = some .wait := by
  cases pc <;> simp_all [Pc.pends,Pc.family]

theorem blocks_of_waiter {pc : Pc ω α} (free : pc.waiter = none) : pc.blocks = false := by
  cases pc <;> first | rfl | simp [Pc.waiter] at free

theorem blocks_of_pends {pc : Pc ω α} {w : ω} (pends : pc.pends = some w) : pc.blocks = true := by
  cases pc <;> simp_all [Pc.pends,Pc.blocks]

variable [DecidableEq ω]

/-- A call is one of its family until it returns. -/
theorem Step.family {t : θ} {s s' : WaitList θ ω α} {pc pc' : Pc ω α} {label : Label ω α}
    (stepped : Step t s pc label pc' s') (busy : pc.family ≠ none) :
    pc'.family = pc.family ∨ ∃ value, pc' = .returned value := by
  cases stepped with
  | wait free | cancel free | wakeOne free | wakeAll free | close free =>
    exact absurd (family_of_isFree free) busy
  | unlockTaken =>
    left
    simp only [Pc.family]
    split <;> simp_all
  | interrupted | complete | isEmpty | unlockNone | subCount | unlockUnlinked | isEmptyAll
  | unlockAll => exact .inr ⟨_,rfl⟩
  | _ => exact .inl rfl

theorem Step.family_call {t : θ} {s s' : WaitList θ ω α} {pc pc' : Pc ω α} {call : Call ω α}
    (stepped : Step t s pc (.call call) pc' s') : pc'.family = some call.family := by
  cases stepped <;> rfl

theorem Step.waiter {t : θ} {s s' : WaitList θ ω α} {pc pc' : Pc ω α} {label : Label ω α}
    (stepped : Step t s pc label pc' s') (busy : pc.family ≠ none) :
    pc'.waiter = none ∨ pc'.waiter = pc.waiter := by
  cases stepped with
  | wait free | cancel free | wakeOne free | wakeAll free | close free =>
    exact absurd (family_of_isFree free) busy
  | _ => first | exact .inl rfl | exact .inr rfl

theorem Step.waiter_call {t : θ} {s s' : WaitList θ ω α} {pc pc' : Pc ω α} {call : Call ω α}
    (stepped : Step t s pc (.call call) pc' s') {w : ω} (waiter : pc'.waiter = some w) :
    call = .wait w := by
  cases stepped <;> simp [Pc.waiter] at waiter
  subst waiter
  rfl

theorem Step.closed {t : θ} {s s' : WaitList θ ω α} {pc pc' : Pc ω α} {label : Label ω α}
    (stepped : Step t s pc label pc' s') (closed : s.closed = true) : s'.closed = true := by
  cases stepped with
  | storeClosed => rfl
  | _ => exact closed

/-- A waiter is linked only if `should_block` says so. -/
theorem Step.appends {t : θ} {s s' : WaitList θ ω α} {pc : Pc ω α} {w : ω} {label : Label ω α}
    (stepped : Step t s pc label (.append w) s') : pc = .shouldBlock w := by
  cases stepped
  rfl

theorem Step.blocks_call {t : θ} {s s' : WaitList θ ω α} {pc pc' : Pc ω α} {call : Call ω α}
    (stepped : Step t s pc (.call call) pc' s') : pc'.blocks = false := by
  cases stepped <;> rfl

theorem Step.blocks {t : θ} {s s' : WaitList θ ω α} {pc pc' : Pc ω α} {label : Label ω α}
    (stepped : Step t s pc label pc' s') (running : pc.blocks = false)
    (quiet : ∀ w, pc ≠ .shouldBlock w) : pc'.blocks = false := by
  cases stepped with
  | block => exact absurd rfl (quiet _)
  | append | unlockPending => contradiction
  | _ => rfl

end XxCore.Sync.WaitList
