import SortedBlob.Bytes
import SortedBlob.Span

/-!
What a reader asks of a blob, one request after another, each depending on the replies so
far. A plan says nothing about who answers, so it can be followed to the letter, with
replies that are wrong, or in turns with other plans.
-/

namespace SortedBlob

inductive Purpose where
  | trailer
  | index
  | value
  deriving DecidableEq, Repr

inductive Plan (α : Type) where
  | done (result : α)
  | length (next : UInt64 → Plan α)
  | read (purpose : Purpose) (span : Span) (next : Bytes → Plan α)

namespace Plan

variable {α β γ : Type}

def bind : Plan α → (α → Plan β) → Plan β
  | done result, f => f result
  | length next, f => length fun n => (next n).bind f
  | read purpose span next, f => read purpose span fun bytes => (next bytes).bind f

def map (f : α → β) (plan : Plan α) : Plan β :=
  plan.bind fun result => done (f result)

@[simp] theorem done_bind (result : α) (f : α → Plan β) :
    (done result).bind f = f result := rfl

@[simp] theorem length_bind (next : UInt64 → Plan α) (f : α → Plan β) :
    (length next).bind f = length fun n => (next n).bind f := rfl

@[simp] theorem read_bind (purpose : Purpose) (span : Span) (next : Bytes → Plan α)
    (f : α → Plan β) :
    (read purpose span next).bind f = read purpose span fun bytes => (next bytes).bind f :=
  rfl

@[simp] theorem bind_done (plan : Plan α) : plan.bind done = plan := by
  induction plan with
  | done _ => rfl
  | length next ih => exact congrArg length (funext ih)
  | read purpose span next ih => exact congrArg (read purpose span) (funext ih)

theorem bind_assoc (plan : Plan α) (f : α → Plan β) (g : β → Plan γ) :
    (plan.bind f).bind g = plan.bind fun result => (f result).bind g := by
  induction plan with
  | done _ => rfl
  | length next ih => exact congrArg length (funext ih)
  | read purpose span next ih => exact congrArg (read purpose span) (funext ih)

end Plan

end SortedBlob
