import XxCore.Io.TypedWrite
import XxCore.Lib.Format

/-! `write_fmt` (`async_std/io/typed.rs`): text that is made in pieces goes to a writer. A string is
given as its bytes. -/
namespace XxCore.Io

open Format

variable {ω ε : Type}

structure FmtAdapter (ω ε : Type) where
  writer : ω
  wrote : Nat
  error : Option ε

/-- `write_string` -/
def Writer.writeString (W : Writer ω ε) (E : ErrorKinds ε) (interrupted : ω → Bool)
    (buf : List UInt8) (w : ω) : Option (Except ε Nat × ω) :=
  W.writeAll E interrupted buf w

/-- `try_write_string` -/
def Writer.tryWriteString (W : Writer ω ε) (E : ErrorKinds ε) (interrupted : ω → Bool)
    (buf : List UInt8) (w : ω) : Option (Except ε Nat × ω) :=
  W.tryWriteAll E interrupted buf w

/-- `write_char` -/
def Writer.writeChar (W : Writer ω ε) (E : ErrorKinds ε) (interrupted : ω → Bool) (ch : Char)
    (w : ω) : Option (Except ε Nat × ω) :=
  W.writeString E interrupted (String.utf8EncodeChar ch) w

namespace FmtAdapter

variable (W : Writer ω ε) (E : ErrorKinds ε) (interrupted : ω → Bool)

/-- The addition wraps, in a build that does not check it. -/
def writeStr (s : List UInt8) (a : FmtAdapter ω ε) : Option (Bool × FmtAdapter ω ε) :=
  (W.writeString E interrupted s a.writer).map fun
    | (.ok n,writer) => (true,{ a with writer, wrote := (a.wrote + n) % 2 ^ 64 })
    | (.error err,writer) => (false,{ a with writer, error := some err })

end FmtAdapter

/-- Every call of the writer returns. It has taken as many bytes as it says, and none if it fails. -/
structure Writer.Logged (W : Writer ω ε) (taken : ω → List UInt8) : Prop where
  returns : ∀ w buf, ∃ answer w', W.write w buf = some (answer,w') ∧
    ∀ n, answer = .ok n → n ≤ buf.length
  ok : ∀ {w w' buf n}, W.write w buf = some (.ok n,w') → taken w' = taken w ++ buf.take n
  error : ∀ {w w' buf e}, W.write w buf = some (.error e,w') → taken w' = taken w

/-- Why not everything has been written: the task is interrupted, the writer is full, or one of its
calls has failed. -/
inductive Writer.Short (W : Writer ω ε) (E : ErrorKinds ε) (interrupted : ω → Bool) (w : ω) :
    ε → Prop where
  | interrupted (is : interrupted w = true) : Short W E interrupted w E.interrupted
  | full (running : interrupted w = false) : Short W E interrupted w E.unexpectedEof
  | failed {e : ε} {w' w'' : ω} {buf : List UInt8} (call : W.write w' buf = some (.error e,w''))
      (hard : E.isInterrupted e = false) : Short W E interrupted w e

section Write

variable {W : Writer ω ε} {E : ErrorKinds ε} {interrupted : ω → Bool} {taken : ω → List UInt8}

/-- A transfer is a write. -/
theorem transfers_read {w w' : ω} {buf new : List UInt8} {answer : Except ε Nat}
    (called : W.transfers.read w buf = some (answer,new,w')) :
    new = buf ∧ W.write w buf = some (answer,w') := by
  obtain ⟨p,ran,is⟩ := Option.map_eq_some_iff.mp called
  rcases p with ⟨answer',w''⟩
  obtain ⟨rfl,rest⟩ := Prod.mk.inj is
  obtain ⟨rfl,rfl⟩ := Prod.mk.inj rest
  exact ⟨rfl,ran⟩

theorem scalar_pours (logged : W.Logged taken) :
    (W.transfers.scalar E).Sound (fun _ => True) ∧ (W.transfers.scalar E).Pours taken := by
  refine ⟨scalar_sound fun w buf _ => ?_,?_,List.isEmpty_iff.mpr⟩
  · obtain ⟨answer,w',ran,few⟩ := logged.returns w buf
    refine ⟨answer,buf,w',?_,trivial,few⟩
    simp only [Writer.transfers,ran,Option.map_some]
  · intro w w' cut cut' answer called
    obtain ⟨_,read,rfl⟩ := scalar_call called
    obtain ⟨rfl,ran⟩ := transfers_read read
    refine ⟨rfl,?_⟩
    cases answer with
    | ok n => exact logged.ok ran
    | error e => exact (logged.error ran).trans (List.append_nil _).symm

/-- A failed call of the loop is one of the writer. -/
theorem short_of_failed {w w' : ω} {n : Nat} {e : ε} {cut cut' : Cut}
    (run : (W.transfers.scalar E).Run cut w n (.failed e) cut' w') (w'' : ω) :
    W.Short E interrupted w'' e := by
  obtain ⟨hard,_,_,_,_,called⟩ := run.failed_call rfl
  obtain ⟨_,read,_⟩ := scalar_call called
  exact .failed (transfers_read read).2 hard

variable (E interrupted) in
/-- Bytes are written from the front, and the call succeeds if they were all written. -/
theorem writeAll_logged (logged : W.Logged taken) (w : ω) (buf : List UInt8) :
    ∃ (k : Nat) (result : Except ε Nat) (w' : ω),
      W.writeAll E interrupted buf w = some (result,w') ∧ taken w' = taken w ++ buf.take k ∧
      (k = buf.length ∧ result = .ok k ∨
        k < buf.length ∧ ∃ e, result = .error e ∧ W.Short E interrupted w' e) := by
  by_cases empty : buf = []
  · subst empty
    exact ⟨0,.ok 0,w,rfl,by simp,.inl ⟨rfl,rfl⟩⟩
  · obtain ⟨sound,pours⟩ := scalar_pours (E := E) logged
    obtain ⟨result,buf',w',ran,_⟩ := transferAll_sound interrupted sound (r := w) trivial buf
    obtain ⟨k,stop,cut,run,rfl,is⟩ := transferAll_run empty ran
    obtain ⟨log,ended⟩ := pours.run run
    have log : taken w' = taken w ++ buf.take k := log
    have ended : stop = .done ∧ k = buf.length ∨ stop ≠ .done ∧ k < buf.length := ended
    have tried : W.tryWriteAll E interrupted buf w = some (result,w') := by
      rw [Writer.tryWriteAll,ran]
      rfl
    rw [Writer.writeAll,if_neg (mt List.isEmpty_iff.mp empty),tried]
    cases result with
    | error e =>
      refine ⟨k,.error e,w',rfl,log,.inr ?_⟩
      have pos := List.length_pos_iff.mpr empty
      rcases ended with ⟨rfl,all⟩ | ⟨_,part⟩
      · rw [checkInterruptIfZero_eq,if_neg (by omega)] at is
        contradiction
      · refine ⟨part,e,rfl,?_⟩
        cases stop with
        | failed e' =>
          obtain rfl := Except.error.inj is
          exact short_of_failed run w'
        | _ =>
          dsimp only at is
          rw [checkInterruptIfZero_eq] at is
          split at is
          next cut =>
            obtain rfl := Except.error.inj is
            exact .interrupted cut.2
          next => contradiction
    | ok n =>
      obtain rfl : n = k := by
        cases stop with
        | failed e' => contradiction
        | _ => exact checkInterruptIfZero_ok is.symm
      have checked : lengthCheck buf n = some n := if_pos (by omega)
      simp only [Option.bind_some,checked,Option.map_some]
      by_cases part : n < buf.length
      · rw [if_pos part]
        refine ⟨n,_,w',rfl,log,.inr ⟨part,_,rfl,?_⟩⟩
        cases cut : interrupted w' with
        | false =>
          rw [shortIoErrorUnlessInterrupt_eq cut]
          exact .full cut
        | true =>
          rw [shortIoErrorUnlessInterrupt,checkInterrupt,cut]
          exact .interrupted cut
      · rw [if_neg part]
        exact ⟨n,_,w',rfl,log,.inl ⟨by omega,rfl⟩⟩

/-- What an adapter has after it has written some strings. -/
structure Wrote (taken : ω → List UInt8) (w : ω) (past : List (List UInt8)) (a : FmtAdapter ω ε) :
    Prop where
  log : taken a.writer = taken w ++ past.flatten
  count : a.wrote = past.flatten.length % 2 ^ 64
  clean : a.error = none

theorem writeStr_logged (logged : W.Logged taken) {s : List UInt8} {a a' : FmtAdapter ω ε} {ok : Bool}
    (ran : a.writeStr W E interrupted s = some (ok,a')) :
    ∃ k, taken a'.writer = taken a.writer ++ s.take k ∧
      (ok = true ∧ k = s.length ∧ a'.wrote = (a.wrote + s.length) % 2 ^ 64 ∧ a'.error = a.error ∨
        ok = false ∧ k < s.length ∧
          ∃ e, a'.error = some e ∧ W.Short E interrupted a'.writer e) := by
  obtain ⟨k,result,w',wrote,log,is⟩ := writeAll_logged E interrupted logged a.writer s
  have wrote : W.writeString E interrupted s a.writer = some (result,w') := wrote
  rw [FmtAdapter.writeStr,wrote] at ran
  rcases is with ⟨rfl,rfl⟩ | ⟨part,e,rfl,short⟩
  · obtain ⟨rfl,rfl⟩ := Prod.mk.inj (Option.some.inj ran)
    exact ⟨s.length,log,.inl ⟨rfl,rfl,rfl,rfl⟩⟩
  · obtain ⟨rfl,rfl⟩ := Prod.mk.inj (Option.some.inj ran)
    exact ⟨k,log,.inr ⟨rfl,part,e,rfl,short⟩⟩

theorem Wrote.step (logged : W.Logged taken) {w : ω} {past : List (List UInt8)} {s : List UInt8}
    {a a' : FmtAdapter ω ε} (wrote : Wrote taken w past a)
    (ran : a.writeStr W E interrupted s = some (true,a')) : Wrote taken w (past ++ [s]) a' := by
  obtain ⟨k,log,⟨_,rfl,count,error⟩ | ⟨failed,_⟩⟩ := writeStr_logged logged ran
  · refine ⟨?_,?_,error.trans wrote.clean⟩
    · rw [log,wrote.log,List.take_length,List.flatten_append,List.append_assoc,List.flatten_singleton]
    · rw [count,wrote.count,Nat.mod_add_mod,List.flatten_append,List.length_append,
        List.flatten_singleton]
  · contradiction

end Write

end XxCore.Io
