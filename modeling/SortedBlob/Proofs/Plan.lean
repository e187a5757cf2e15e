import SortedBlob.Source

/-!
What a plan can ask whatever it is answered (`Plan.Asks`), what can be left of it
(`Plan.Leads`), and what it asks over a store that answers everything (`Plan.requests`).
-/

namespace SortedBlob

namespace Plan

variable {α β : Type}

/-- Every request satisfies `P`, whatever the replies before it were. -/
def Asks (P : Request → Prop) : Plan α → Prop
  | done _ => True
  | length next => P .length ∧ ∀ n, (next n).Asks P
  | read purpose span next => P (.read purpose span) ∧ ∀ bytes, (next bytes).Asks P

/-- What can be left of a plan once some of its requests were answered, with whatever. -/
inductive Leads (plan : Plan α) : Plan α → Prop
  | refl : Leads plan plan
  | length {next : UInt64 → Plan α} (n : UInt64) :
      Leads plan (length next) → Leads plan (next n)
  | read {purpose : Purpose} {span : Span} {next : Bytes → Plan α} (bytes : Bytes) :
      Leads plan (read purpose span next) → Leads plan (next bytes)

/-- The requests of a plan that is answered from the store, up to one
that the store refuses. -/
def requests (store : Store) : Plan α → List Request
  | done _ => []
  | length next => .length :: (next store.length).requests store
  | read purpose span next =>
      .read purpose span ::
        match store.read span with
        | .error _ => []
        | .ok bytes => (next bytes).requests store

theorem Asks.imp {P Q : Request → Prop} (himp : ∀ request, P request → Q request)
    {plan : Plan α} (h : plan.Asks P) : plan.Asks Q := by
  induction plan with
  | done _ => trivial
  | length next ih => exact ⟨himp _ h.1, fun n => ih n (h.2 n)⟩
  | read purpose span next ih => exact ⟨himp _ h.1, fun bytes => ih bytes (h.2 bytes)⟩

theorem Asks.bind {P : Request → Prop} {plan : Plan α} {f : α → Plan β}
    (hplan : plan.Asks P) (hf : ∀ result, (f result).Asks P) : (plan.bind f).Asks P := by
  induction plan with
  | done result => exact hf result
  | length next ih => exact ⟨hplan.1, fun n => ih n (hplan.2 n)⟩
  | read purpose span next ih => exact ⟨hplan.1, fun bytes => ih bytes (hplan.2 bytes)⟩

theorem Asks.map {P : Request → Prop} {plan : Plan α} (f : α → β) (hplan : plan.Asks P) :
    (plan.map f).Asks P :=
  hplan.bind fun _ => trivial

theorem Asks.leads {P : Request → Prop} {plan rest : Plan α} (h : plan.Asks P)
    (hrest : plan.Leads rest) : rest.Asks P := by
  induction hrest with
  | refl => exact h
  | length n _ ih => exact ih.2 n
  | read bytes _ ih => exact ih.2 bytes

theorem leads_done {result : α} {rest : Plan α} (h : (done result).Leads rest) :
    rest = done result := by
  induction h with
  | refl => rfl
  | length n _ ih => cases ih
  | read bytes _ ih => cases ih

theorem eval_bind (store : Store) (plan : Plan α) (f : α → Plan β) :
    (plan.bind f).eval store = (plan.eval store).bind fun result =>
      (f result).eval store := by
  induction plan with
  | done _ => rfl
  | length next ih => exact ih store.length
  | read purpose span next ih =>
      cases hread : store.read span with
      | error error => simp only [read_bind, eval, hread, Except.bind]
      | ok bytes => simpa only [read_bind, eval, hread] using ih bytes

theorem eval_map (store : Store) (plan : Plan α) (f : α → β) :
    (plan.map f).eval store = (plan.eval store).map f := by
  rw [map, eval_bind]
  cases plan.eval store <;> rfl

theorem eval_read {store : Store} {span : Span} {bytes : Bytes}
    (h : store.read span = .ok bytes) (purpose : Purpose) (next : Bytes → Plan α) :
    (read purpose span next).eval store = (next bytes).eval store := by
  simp only [eval, h]

theorem Asks.requests {P : Request → Prop} {plan : Plan α} (h : plan.Asks P)
    (store : Store) :
    ∀ request ∈ plan.requests store, P request := by
  induction plan with
  | done _ => exact nofun
  | length next ih =>
      rw [Plan.requests]
      exact List.forall_mem_cons.mpr ⟨h.1, ih store.length (h.2 store.length)⟩
  | read purpose span next ih =>
      rw [Plan.requests]
      refine List.forall_mem_cons.mpr ⟨h.1, ?_⟩
      split
      · exact nofun
      · exact ih _ (h.2 _)

theorem requests_read {store : Store} {span : Span} {bytes : Bytes}
    (h : store.read span = .ok bytes) (purpose : Purpose) (next : Bytes → Plan α) :
    (read purpose span next).requests store =
      .read purpose span :: (next bytes).requests store := by
  simp only [Plan.requests, h]

theorem requests_bind {store : Store} {plan : Plan α} {result : α}
    (h : plan.eval store = .ok result) (f : α → Plan β) :
    (plan.bind f).requests store = plan.requests store ++ (f result).requests store := by
  induction plan with
  | done found =>
      cases h
      rfl
  | length next ih => exact congrArg _ (ih store.length h)
  | read purpose span next ih =>
      cases hread : store.read span with
      | error error => simp [eval, hread] at h
      | ok bytes =>
          rw [eval_read hread] at h
          rw [read_bind, requests_read hread, requests_read hread, ih bytes h]
          rfl

/-- A store that answers every request a plan can make lets it come to its end. -/
theorem Asks.exists_eval {store : Store} {plan : Plan α}
    (h : plan.Asks fun request => ∀ purpose span, request = .read purpose span →
      ∃ bytes, store.read span = .ok bytes) :
    ∃ result, plan.eval store = .ok result := by
  induction plan with
  | done result => exact ⟨result, rfl⟩
  | length next ih => exact ih store.length (h.2 store.length)
  | read purpose span next ih =>
      obtain ⟨bytes, hbytes⟩ := h.1 purpose span rfl
      obtain ⟨result, hresult⟩ := ih bytes (h.2 bytes)
      exact ⟨result, (eval_read hbytes purpose next).trans hresult⟩

theorem read_of_eval {store : Store} {purpose : Purpose} {span : Span}
    {next : Bytes → Plan α} {result : α}
    (h : (read purpose span next).eval store = .ok result) :
    ∃ bytes, store.read span = .ok bytes ∧ (next bytes).eval store = .ok result := by
  cases hread : store.read span with
  | error error => simp [eval, hread] at h
  | ok bytes => exact ⟨bytes, rfl, (eval_read hread purpose next).symm.trans h⟩

end Plan

end SortedBlob
