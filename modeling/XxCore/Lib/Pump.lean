import Mathlib.Data.ENat.Basic
import Mathlib.Data.ENat.Lattice
import Mathlib.Data.Seq.Basic

/-! Loops of partial transfers. Each round asks for all that is left to move; a transfer may move a
part of it or nothing, and may fail. -/
universe u v w x

/-- What a loop works on: a request `α` of elements that were passed and elements that are left, and
the partner `σ` of the transfers. -/
structure Pump (σ : Type u) (ε : Type v) (β : Type w) (α : Type x) where
  /-- One transfer, if it returns; how many elements were moved, and the request and the partner
  afterwards. -/
  call : σ → α → Option (Except ε Nat × α × σ)
  advance : α → Nat → Option α
  done : α → Bool
  /-- An error that only ends the loop. -/
  stops : ε → Bool
  passed : α → List β
  left : α → List β
  call_keeps : ∀ {s s' a a' answer}, call s a = some (answer,a',s') →
    passed a' = passed a ∧ (left a').length = (left a).length
  advance_moves : ∀ {a a' n}, advance a n = some a' →
    n ≤ (left a).length ∧ passed a' = passed a ++ (left a).take n ∧ left a' = (left a).drop n
  done_left : ∀ {a}, done a = true → left a = []

namespace Pump

variable {σ : Type u} {ε : Type v} {β : Type w} {α : Type x}

/-- The loop, with the elements that it has moved so far. -/
def loop (P : Pump σ ε β α) (total : Nat) (a : α) (s : σ) : Option (Except ε Nat × α × σ) :=
  if P.done a then some (.ok total,a,s)
  else match _called : P.call s a with
    | none => none
    | some (.error e,a',s') => if P.stops e then some (.ok total,a',s') else some (.error e,a',s')
    | some (.ok n,a',s') =>
      if n = 0 then some (.ok total,a',s')
      else match _moved : P.advance a' n with
        | none => none
        | some next => loop P (total + n) next s'
termination_by (P.left a).length
decreasing_by
  have length := (P.call_keeps _called).2
  obtain ⟨few,_,left⟩ := P.advance_moves _moved
  rw [left,List.length_drop]
  omega

/-- Why a loop has ended. -/
inductive Stop (ε : Type v) where
  | done
  | zero
  | cut (e : ε)
  | failed (e : ε)

/-- What is returned after `n` elements. -/
def Stop.result (n : Nat) : Stop ε → Except ε Nat
  | .failed e => .error e
  | _ => .ok n

/-- A run of the loop that moves `n` elements. -/
inductive Run (P : Pump σ ε β α) : α → σ → (n : Nat) → Stop ε → α → σ → Prop where
  | done {a : α} {s : σ} (all : P.done a = true) : Run P a s 0 .done a s
  | zero {a a' : α} {s s' : σ} (more : P.done a = false) (called : P.call s a = some (.ok 0,a',s')) :
      Run P a s 0 .zero a' s'
  | cut {a a' : α} {s s' : σ} {e : ε} (more : P.done a = false)
      (called : P.call s a = some (.error e,a',s')) (stops : P.stops e = true) :
      Run P a s 0 (.cut e) a' s'
  | failed {a a' : α} {s s' : σ} {e : ε} (more : P.done a = false)
      (called : P.call s a = some (.error e,a',s')) (fails : P.stops e = false) :
      Run P a s 0 (.failed e) a' s'
  | moved {a a' next b : α} {s s' t : σ} {n m : Nat} {stop : Stop ε} (more : P.done a = false)
      (called : P.call s a = some (.ok n,a',s')) (pos : 0 < n) (advanced : P.advance a' n = some next)
      (rest : Run P next s' m stop b t) : Run P a s (n + m) stop b t

section Run

variable {P : Pump σ ε β α} {a b : α} {s t : σ} {n : Nat} {stop : Stop ε}

/-- A round of the loop. -/
theorem loop_eq (total : Nat) : P.loop total a s =
    if P.done a then some (.ok total,a,s)
    else (P.call s a).bind fun
      | (.error e,a,s) => if P.stops e then some (.ok total,a,s) else some (.error e,a,s)
      | (.ok n,a,s) =>
        if n = 0 then some (.ok total,a,s)
        else (P.advance a n).bind fun a => P.loop (total + n) a s := by
  rw [loop]
  split
  · rfl
  · split
    next called => rw [called,Option.bind_none]
    next called => rw [called,Option.bind_some]
    next called =>
      rw [called,Option.bind_some]
      dsimp only
      split
      · rfl
      · split
        next moved => rw [moved,Option.bind_none]
        next moved => rw [moved,Option.bind_some]

/-- A round leaves fewer elements. -/
theorem shorter {a' next : α} {s' : σ} (called : P.call s a = some (.ok n,a',s'))
    (advanced : P.advance a' n = some next) :
    n ≤ (P.left a).length ∧ (P.left next).length = (P.left a).length - n := by
  have length := (P.call_keeps called).2
  obtain ⟨few,_,left⟩ := P.advance_moves advanced
  rw [left,List.length_drop]
  omega

/-- Whatever the loop returns comes from a run, by induction on the number of elements left. -/
theorem loop_run {total : Nat} {result : Except ε Nat} (ran : P.loop total a s = some (result,b,t)) :
    ∃ n stop, Run P a s n stop b t ∧ result = stop.result (total + n) := by
  generalize size : (P.left a).length = k
  induction k using Nat.strongRecOn generalizing a s total with
  | ind k ih =>
    rw [loop_eq] at ran
    by_cases all : P.done a = true
    · rw [if_pos all] at ran
      obtain ⟨rfl,rest⟩ := Prod.mk.inj (Option.some.inj ran)
      obtain ⟨rfl,rfl⟩ := Prod.mk.inj rest
      exact ⟨0,.done,.done all,rfl⟩
    · rw [if_neg all] at ran
      have more := Bool.eq_false_iff.mpr all
      obtain ⟨⟨e | n,a',s'⟩,called,ran⟩ := Option.bind_eq_some_iff.mp ran
      · dsimp only at ran
        by_cases stops : P.stops e = true
        · rw [if_pos stops] at ran
          obtain ⟨rfl,rest⟩ := Prod.mk.inj (Option.some.inj ran)
          obtain ⟨rfl,rfl⟩ := Prod.mk.inj rest
          exact ⟨0,.cut e,.cut more called stops,rfl⟩
        · rw [if_neg stops] at ran
          obtain ⟨rfl,rest⟩ := Prod.mk.inj (Option.some.inj ran)
          obtain ⟨rfl,rfl⟩ := Prod.mk.inj rest
          exact ⟨0,.failed e,.failed more called (Bool.eq_false_iff.mpr stops),rfl⟩
      · dsimp only at ran
        by_cases zero : n = 0
        · subst zero
          rw [if_pos rfl] at ran
          obtain ⟨rfl,rest⟩ := Prod.mk.inj (Option.some.inj ran)
          obtain ⟨rfl,rfl⟩ := Prod.mk.inj rest
          exact ⟨0,.zero,.zero more called,rfl⟩
        · rw [if_neg zero] at ran
          obtain ⟨next,advanced,ran⟩ := Option.bind_eq_some_iff.mp ran
          have pos := Nat.pos_of_ne_zero zero
          obtain ⟨few,length⟩ := shorter called advanced
          obtain ⟨m,stop,run,is⟩ := ih _ (by omega) ran rfl
          refine ⟨n + m,stop,.moved more called pos advanced run,?_⟩
          rw [is,Nat.add_assoc]

/-- Transfers return, from a state that `good` holds of to such a state, and move no more than there
is. -/
structure Sound (P : Pump σ ε β α) (good : σ → Prop) : Prop where
  call : ∀ {s a}, good s → P.done a = false → ∃ answer a' s', P.call s a = some (answer,a',s') ∧
    good s' ∧ ∀ n, answer = .ok n → n ≤ (P.left a).length
  advance : ∀ {a n}, n ≤ (P.left a).length → ∃ next, P.advance a n = some next

/-- Then the loop returns. -/
theorem Sound.loop {good : σ → Prop} (sound : P.Sound good) (start : good s) (total : Nat) :
    ∃ result b t, P.loop total a s = some (result,b,t) ∧ good t := by
  generalize size : (P.left a).length = k
  induction k using Nat.strongRecOn generalizing a s total with
  | ind k ih =>
    rw [loop_eq]
    by_cases all : P.done a = true
    · rw [if_pos all]
      exact ⟨_,_,_,rfl,start⟩
    · rw [if_neg all]
      obtain ⟨answer,a',s',called,good',bounded⟩ := sound.call start (Bool.eq_false_iff.mpr all)
      rw [called,Option.bind_some]
      rcases answer with e | n
      · dsimp only
        split
        all_goals exact ⟨_,_,_,rfl,good'⟩
      · dsimp only
        by_cases zero : n = 0
        · rw [if_pos zero]
          exact ⟨_,_,_,rfl,good'⟩
        · obtain ⟨next,advanced⟩ : ∃ next, P.advance a' n = some next := by
            apply sound.advance
            rw [(P.call_keeps called).2]
            exact bounded n rfl
          obtain ⟨few,length⟩ := shorter called advanced
          rw [if_neg zero,advanced,Option.bind_some]
          exact ih _ (by omega) good' _ rfl

/-- What is passed and what is left after a round. -/
theorem round {a' next : α} {s' : σ} (called : P.call s a = some (.ok n,a',s'))
    (advanced : P.advance a' n = some next) :
    P.passed next = P.passed a ++ (P.left a').take n ∧ P.left next = (P.left a').drop n ∧
      ((P.left a').take n).length = n := by
  obtain ⟨passed,length⟩ := P.call_keeps called
  obtain ⟨few,passed',left⟩ := P.advance_moves advanced
  rw [passed] at passed'
  exact ⟨passed',left,List.length_take_of_le few⟩

/-- The first transfer, if there is one: it moves something, or the run ends with it. -/
theorem Run.first (run : Run P a s n stop b t) (more : P.done a = false) :
    ∃ answer a' s', P.call s a = some (answer,a',s') ∧
      (0 < n ∧ (∃ k, 0 < k ∧ answer = .ok k) ∨ n = 0 ∧ s' = t ∧
        (stop = .zero ∧ answer = .ok 0 ∨
          ∃ e, answer = .error e ∧ (stop = .cut e ∧ P.stops e = true ∨
            stop = .failed e ∧ P.stops e = false))) := by
  cases run with
  | done all =>
    rw [all] at more
    contradiction
  | zero _ called => exact ⟨_,_,_,called,.inr ⟨rfl,rfl,.inl ⟨rfl,rfl⟩⟩⟩
  | cut _ called stops => exact ⟨_,_,_,called,.inr ⟨rfl,rfl,.inr ⟨_,rfl,.inl ⟨rfl,stops⟩⟩⟩⟩
  | failed _ called fails => exact ⟨_,_,_,called,.inr ⟨rfl,rfl,.inr ⟨_,rfl,.inr ⟨rfl,fails⟩⟩⟩⟩
  | moved _ called pos _ _ => exact ⟨_,_,_,called,.inl ⟨by omega,_,pos,rfl⟩⟩

/-- What transfers and advances preserve. -/
theorem Run.invariant {I : α → Prop}
    (call : ∀ {s s' a a' answer}, P.call s a = some (answer,a',s') → I a → I a')
    (advance : ∀ {a a' n}, P.advance a n = some a' → I a → I a') (run : Run P a s n stop b t)
    (start : I a) : I b := by
  induction run with
  | done => exact start
  | zero _ called | cut _ called _ | failed _ called _ => exact call called start
  | moved _ called _ advanced _ ih => exact ih (advance advanced (call called start))

end Run

section Draws

open Stream'

theorem take_ofList_append (xs : List β) (s : Seq β) (k : Nat) :
    ((Seq.ofList xs).append s).take (xs.length + k) = xs ++ s.take k := by
  induction xs with
  | nil => simp
  | cons x xs ih =>
    rw [Seq.ofList_cons,Seq.cons_append,List.length_cons,Nat.add_right_comm,Seq.take_succ_cons,ih]
    rfl

theorem drop_ofList_append (xs : List β) (s : Seq β) (k : Nat) :
    ((Seq.ofList xs).append s).drop (xs.length + k) = s.drop k := by
  induction xs with
  | nil => simp
  | cons x xs ih =>
    rw [Seq.ofList_cons,Seq.cons_append,List.length_cons,Nat.add_right_comm,Seq.drop_succ_cons,ih]

/-- Elements come from a sequence that the partner holds, without errors, and none come only if
none are asked for or the sequence is at its end. -/
structure Draws (P : Pump σ ε β α) (held : σ → Seq β) (good : σ → Prop) : Prop where
  call : ∀ {s s' a a' answer}, good s → P.call s a = some (answer,a',s') → good s' ∧
    ∃ n, answer = .ok n ∧ held s = (Seq.ofList ((P.left a').take n)).append (held s') ∧
      (n = 0 → P.left a = [] ∨ held s = .nil)

variable {P : Pump σ ε β α} {held : σ → Seq β} {good : σ → Prop} {a b : α} {s t : σ} {n : Nat}
  {stop : Stop ε}

/-- A run takes as many elements as there are, up to the number that was left. -/
theorem Draws.run (draws : P.Draws held good) (start : good s) (run : Run P a s n stop b t) :
    good t ∧ n = ((held s).take (P.left a).length).length ∧
      P.passed b = P.passed a ++ (held s).take (P.left a).length ∧ held t = (held s).drop n ∧
      (P.left b).length = (P.left a).length - n ∧ (stop = .done ∨ stop = .zero) := by
  induction run with
  | done all =>
    rw [P.done_left all]
    simp [start]
  | @zero a a' s s' more called =>
    obtain ⟨passed,length⟩ := P.call_keeps called
    obtain ⟨good',n,is,stream,none⟩ := draws.call start called
    obtain rfl := Except.ok.inj is
    rw [List.take_zero,Seq.ofList_nil,Seq.nil_append] at stream
    have nothing : (held s).take (P.left a).length = [] := by
      rcases none rfl with empty | empty
      · rw [empty,List.length_nil,Seq.take_zero]
      · rw [empty,Seq.take_nil]
    rw [nothing,passed,length,← stream]
    simp [good']
  | cut more called stops | failed more called fails =>
    obtain ⟨_,_,is,_⟩ := draws.call start called
    contradiction
  | @moved a a' next b s s' t n m stop more called pos advanced rest ih =>
    obtain ⟨good',k,is,stream,_⟩ := draws.call start called
    obtain rfl := Except.ok.inj is
    obtain ⟨passed,left,length⟩ := round called advanced
    obtain ⟨few,fewer⟩ := shorter called advanced
    obtain ⟨final,count,content,remains,size,stopped⟩ := ih good'
    have whole : (held s).take (P.left a).length =
        (P.left a').take n ++ (held s').take (P.left next).length := by
      have sum : (P.left a).length = ((P.left a').take n).length + (P.left next).length := by omega
      rw [stream,sum,take_ofList_append]
    refine ⟨final,?_,?_,?_,by omega,stopped⟩
    · rw [whole,List.length_append,length,← count]
    · rw [content,passed,whole,List.append_assoc]
    · have rest := drop_ofList_append ((P.left a').take n) (held s') m
      rw [length,← stream] at rest
      rw [remains,rest]

end Draws

section Gives

/-- Elements go to a partner that has room for a number of them, without errors; none go only if
there are none or no room is left. -/
structure Gives (P : Pump σ ε β α) (taken : σ → List β) (room : σ → ℕ∞) : Prop where
  call : ∀ {s s' a a' answer}, P.call s a = some (answer,a',s') → P.left a' = P.left a ∧
    ∃ n : Nat, answer = .ok n ∧ taken s' = taken s ++ (P.left a).take n ∧ room s = n + room s' ∧
      (n = 0 → P.left a = [] ∨ room s = 0)

variable {P : Pump σ ε β α} {taken : σ → List β} {room : σ → ℕ∞} {a b : α} {s t : σ} {n : Nat}
  {stop : Stop ε}

/-- A run gives as many elements as there is room for, of those that were left. -/
theorem Gives.run (gives : P.Gives taken room) (run : Run P a s n stop b t) :
    (n : ℕ∞) = min ((P.left a).length : ℕ∞) (room s) ∧ taken t = taken s ++ (P.left a).take n ∧
      (P.left b).length = (P.left a).length - n ∧ (stop = .done ∨ stop = .zero) := by
  induction run with
  | done all =>
    rw [P.done_left all]
    simp
  | @zero a a' s s' more called =>
    obtain ⟨same,n,is,log,space,none⟩ := gives.call called
    obtain rfl := Except.ok.inj is
    rw [same,log]
    refine ⟨?_,rfl,rfl,.inr rfl⟩
    rcases none rfl with empty | empty
    · simp [empty]
    · simp [empty]
  | cut more called stops | failed more called fails =>
    obtain ⟨_,_,is,_⟩ := gives.call called
    contradiction
  | @moved a a' next b s s' t n m stop more called pos advanced rest ih =>
    obtain ⟨same,k,is,log,space,_⟩ := gives.call called
    obtain rfl := Except.ok.inj is
    obtain ⟨_,left,_⟩ := round called advanced
    obtain ⟨few,fewer⟩ := shorter called advanced
    obtain ⟨count,content,size,stopped⟩ := ih
    rw [same] at left
    refine ⟨?_,?_,by omega,stopped⟩
    · have sum : ((P.left a).length : ℕ∞) = n + ((P.left next).length : ℕ∞) := by
        rw [← Nat.cast_add,fewer,Nat.add_sub_cancel' few]
      rw [sum,space,min_add_add_left,← count,Nat.cast_add]
    · rw [content,log,left,List.append_assoc,List.take_add]

/-- The room that a run takes up. -/
theorem Gives.run_room (gives : P.Gives taken room) (run : Run P a s n stop b t) :
    room s = n + room t := by
  induction run with
  | done all => simp
  | @zero a a' s s' more called =>
    obtain ⟨_,n,is,_,space,_⟩ := gives.call called
    obtain rfl := Except.ok.inj is
    exact space
  | cut more called stops | failed more called fails =>
    obtain ⟨_,_,is,_⟩ := gives.call called
    contradiction
  | @moved a a' next b s s' t n m stop more called pos advanced rest ih =>
    obtain ⟨_,k,is,_,space,_⟩ := gives.call called
    obtain rfl := Except.ok.inj is
    rw [space,ih,Nat.cast_add,add_assoc]

end Gives

section Logs

/-- The elements that a list of answers has moved. -/
def moved : List (Except ε Nat) → Nat
  | [] => 0
  | .ok n :: answers => n + moved answers
  | .error _ :: answers => moved answers

/-- The partner keeps the answers of the transfers. -/
def Logs (P : Pump σ ε β α) (log : σ → List (Except ε Nat)) : Prop :=
  ∀ s s' a a' answer, P.call s a = some (answer,a',s') → log s' = log s ++ [answer]

variable {P : Pump σ ε β α} {log : σ → List (Except ε Nat)} {a b : α} {s t : σ} {n : Nat}
  {stop : Stop ε}

/-- What the last answer says of the end of a loop. -/
def Stop.Answered (stops : ε → Bool) (last : Option (Except ε Nat)) : Stop ε → Prop
  | .done => ∀ n, last = some (.ok n) → 0 < n
  | .zero => last = some (.ok 0)
  | .cut e => last = some (.error e) ∧ stops e = true
  | .failed e => last = some (.error e) ∧ stops e = false

theorem Logs.run (logs : P.Logs log) (run : Run P a s n stop b t) :
    ∃ answers, log t = log s ++ answers ∧ moved answers = n ∧
      stop.Answered P.stops answers.getLast? := by
  induction run with
  | done all => exact ⟨[],(List.append_nil _).symm,rfl,nofun⟩
  | zero more called => exact ⟨[.ok 0],logs _ _ _ _ _ called,rfl,rfl⟩
  | cut more called stops => exact ⟨[.error _],logs _ _ _ _ _ called,rfl,rfl,stops⟩
  | failed more called fails => exact ⟨[.error _],logs _ _ _ _ _ called,rfl,rfl,fails⟩
  | @moved a a' next b s s' t n m stop more called pos advanced rest ih =>
    obtain ⟨answers,log',count,answered⟩ := ih
    refine ⟨.ok n :: answers,?_,by rw [Pump.moved,count],?_⟩
    · rw [log',logs _ _ _ _ _ called,List.append_assoc]
      rfl
    · cases answers with
      | cons => exact answered
      | nil =>
        cases stop with
        | done =>
          rintro k last
          obtain rfl := Except.ok.inj (Option.some.inj last)
          exact pos
        | zero => contradiction
        | cut | failed => exact absurd answered.1 nofun

/-- An error that ends a run comes from a transfer. -/
theorem Run.failed_call {e : ε} (run : Run P a s n stop b t) (failed : stop = .failed e) :
    P.stops e = false ∧ ∃ a s a' s', P.call s a = some (.error e,a',s') := by
  induction run with
  | failed _ called fails =>
    obtain rfl := Stop.failed.inj failed
    exact ⟨fails,_,_,_,_,called⟩
  | moved _ _ _ _ _ ih => exact ih failed
  | _ => contradiction

/-- The partner takes what a transfer says, and nothing if it fails; a request is done once nothing
is left of it. -/
structure Pours (P : Pump σ ε β α) (taken : σ → List β) : Prop where
  call : ∀ {s s' a a' answer}, P.call s a = some (answer,a',s') →
    P.left a' = P.left a ∧ taken s' = taken s ++ (P.left a).take (moved [answer])
  done : ∀ {a}, P.left a = [] → P.done a = true

/-- A run gives elements from the front, all of them if nothing has ended it before. -/
theorem Pours.run {taken : σ → List β} (pours : P.Pours taken) (run : Run P a s n stop b t) :
    taken t = taken s ++ (P.left a).take n ∧
      (stop = .done ∧ n = (P.left a).length ∨ stop ≠ .done ∧ n < (P.left a).length) := by
  have some_ {a : α} (more : P.done a = false) : 0 < (P.left a).length := by
    apply List.length_pos_iff.mpr
    intro empty
    rw [pours.done empty] at more
    contradiction
  induction run with
  | done all => simp [P.done_left all]
  | zero more called | cut more called _ | failed more called _ =>
    exact ⟨(pours.call called).2,.inr ⟨by simp,some_ more⟩⟩
  | @moved a a' next b s s' t n m stop more called pos advanced rest ih =>
    obtain ⟨same,log⟩ := pours.call called
    obtain ⟨_,left,_⟩ := round called advanced
    obtain ⟨few,fewer⟩ := shorter called advanced
    obtain ⟨log',ended⟩ := ih
    rw [same] at left
    refine ⟨?_,?_⟩
    · rw [log',log,left,List.append_assoc,List.take_add]
      rfl
    · rw [fewer] at ended
      rcases ended with ⟨is,all⟩ | ⟨ne,part⟩
      · exact .inl ⟨is,by omega⟩
      · exact .inr ⟨ne,by omega⟩

/-- `Q` is `P` with a record of the answers. -/
structure Records (Q : Pump (σ × List (Except ε Nat)) ε β α) (P : Pump σ ε β α) : Prop where
  call : ∀ s log a, Q.call (s,log) a = (P.call s a).map fun (answer,a,s) =>
    (answer,a,(s,log ++ [answer]))
  advance : Q.advance = P.advance
  done : Q.done = P.done
  stops : Q.stops = P.stops

variable {Q : Pump (σ × List (Except ε Nat)) ε β α}

theorem Records.logs (records : Records Q P) : Q.Logs Prod.snd := by
  rintro ⟨s,log⟩ s' a a' answer called
  rw [records.call] at called
  obtain ⟨⟨_,_,_⟩,_,is⟩ := Option.map_eq_some_iff.mp called
  obtain ⟨rfl,rest⟩ := Prod.mk.inj is
  obtain ⟨_,rfl⟩ := Prod.mk.inj rest
  rfl

/-- The record changes nothing else, by induction on the number of elements left. -/
theorem Records.loop (records : Records Q P) {total : Nat} {result : Except ε Nat}
    (ran : P.loop total a s = some (result,b,t)) (log : List (Except ε Nat)) :
    ∃ log', Q.loop total a (s,log) = some (result,b,(t,log')) := by
  generalize size : (P.left a).length = k
  induction k using Nat.strongRecOn generalizing a s total log with
  | ind k ih =>
    rw [loop_eq] at ran
    rw [loop_eq,records.done,records.stops,records.advance,records.call]
    split at ran
    next all =>
      obtain ⟨rfl,rest⟩ := Prod.mk.inj (Option.some.inj ran)
      obtain ⟨rfl,rfl⟩ := Prod.mk.inj rest
      exact ⟨log,if_pos all⟩
    next more =>
      rw [if_neg more]
      obtain ⟨⟨e | n,a',s'⟩,called,ran⟩ := Option.bind_eq_some_iff.mp ran
      · rw [called,Option.map_some,Option.bind_some]
        dsimp only at ran ⊢
        refine ⟨log ++ [.error e],?_⟩
        split at ran
        next stops =>
          obtain ⟨rfl,rest⟩ := Prod.mk.inj (Option.some.inj ran)
          obtain ⟨rfl,rfl⟩ := Prod.mk.inj rest
          exact if_pos stops
        next fails =>
          obtain ⟨rfl,rest⟩ := Prod.mk.inj (Option.some.inj ran)
          obtain ⟨rfl,rfl⟩ := Prod.mk.inj rest
          exact if_neg fails
      · rw [called,Option.map_some,Option.bind_some]
        dsimp only at ran ⊢
        split at ran
        next zero =>
          obtain ⟨rfl,rest⟩ := Prod.mk.inj (Option.some.inj ran)
          obtain ⟨rfl,rfl⟩ := Prod.mk.inj rest
          exact ⟨_,if_pos zero⟩
        next pos =>
          obtain ⟨next,advanced,ran⟩ := Option.bind_eq_some_iff.mp ran
          obtain ⟨few,fewer⟩ := shorter called advanced
          rw [if_neg pos,advanced,Option.bind_some]
          exact ih _ (by omega) ran _ rfl

end Logs
end Pump
