import Mathlib.Data.List.Basic

namespace Initd.Sysapi

/-! The callback queue of `sync_task_adaptor`, over an `eventfd` opened without
`EFD_SEMAPHORE`. -/

/-- The kernel's counter behind an `eventfd`. -/
structure Eventfd where
  counter : Nat
  deriving DecidableEq, Repr

namespace Eventfd

def notify (efd : Eventfd) : Eventfd := ⟨efd.counter + 1⟩

/-- A read returns the whole count, so it leaves nothing behind. -/
def read (_ : Eventfd) : Eventfd := ⟨0⟩

end Eventfd

structure FunctionQueue (Function : Type) where
  efd : Eventfd
  queue : List Function
  deriving DecidableEq, Repr

namespace FunctionQueue

variable {Function : Type}

def empty : FunctionQueue Function := ⟨⟨0⟩, []⟩

def push (fq : FunctionQueue Function) (f : Function) : FunctionQueue Function :=
  ⟨fq.efd.notify, fq.queue ++ [f]⟩

/-- The epoll callback of the `eventfd`: the function it takes to call.  There
is none where the counter is zero, as epoll does not run the callback, nor
where the deque is empty, as it then has no front. -/
def deliver (fq : FunctionQueue Function) :
    Option (Function × FunctionQueue Function) :=
  if fq.efd.counter = 0 then
    none
  else
    match fq.queue with
    | [] => none
    | f :: rest => some (f, ⟨fq.efd.read, rest⟩)

/-- Every count in the `eventfd` still has a function in the deque. -/
def Backed (fq : FunctionQueue Function) : Prop :=
  fq.efd.counter ≤ fq.queue.length

theorem backed_empty : (empty : FunctionQueue Function).Backed := Nat.le_refl 0

theorem Backed.push {fq : FunctionQueue Function} (backed : fq.Backed)
    (f : Function) : (fq.push f).Backed := by
  simpa [Backed, FunctionQueue.push, Eventfd.notify] using backed

/-- What the callback takes, and what it leaves behind. -/
theorem deliver_eq {fq rest : FunctionQueue Function} {f : Function}
    (delivered : fq.deliver = some (f, rest)) :
    fq.efd.counter ≠ 0 ∧ fq.queue = f :: rest.queue ∧ rest.efd.counter = 0 := by
  unfold deliver at delivered
  split at delivered
  · contradiction
  · next pending =>
      split at delivered
      · contradiction
      · next queue =>
          cases delivered
          exact ⟨pending, queue, rfl⟩

theorem deliver_counter {fq rest : FunctionQueue Function} {f : Function}
    (delivered : fq.deliver = some (f, rest)) : rest.efd.counter = 0 :=
  (deliver_eq delivered).2.2

theorem backed_deliver {fq rest : FunctionQueue Function} {f : Function}
    (delivered : fq.deliver = some (f, rest)) : rest.Backed := by
  rw [Backed, deliver_counter delivered]
  exact Nat.zero_le _

/-- A queue with a count in its `eventfd` has a function to call. -/
theorem Backed.deliver_isSome {fq : FunctionQueue Function}
    (backed : fq.Backed) (pending : fq.efd.counter ≠ 0) :
    fq.deliver.isSome = true := by
  unfold deliver
  rw [if_neg pending]
  cases queue : fq.queue with
  | nil =>
      simp only [Backed, queue, List.length_nil, Nat.le_zero_eq] at backed
      exact absurd backed pending
  | cons f rest => rfl

end FunctionQueue

end Initd.Sysapi
