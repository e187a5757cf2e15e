import Mathlib.Algebra.GroupWithZero.Nat
import Mathlib.Order.Nat
import SortedBlob.Proofs.Plan
import SortedBlob.Query

/-!
What the requests of a query cost at most, however they are answered (`Plan.CostsAtMost`): a
search halves its window with each of them. Main statement: `Query.plan_costsAtMost`.
-/

namespace SortedBlob

variable {α β : Type}

/-- However the plan is answered, its requests cost at most so much. -/
def Plan.CostsAtMost (cost : Request → Nat) : Plan α → Nat → Prop
  | done _, _ => True
  | length next, bound =>
      cost .length ≤ bound ∧ ∀ n, (next n).CostsAtMost cost (bound - cost .length)
  | read purpose span next, bound =>
      cost (.read purpose span) ≤ bound ∧
        ∀ bytes, (next bytes).CostsAtMost cost (bound - cost (.read purpose span))

namespace Plan

variable {cost : Request → Nat}

theorem CostsAtMost.mono {plan : Plan α} {bound larger : Nat}
    (h : plan.CostsAtMost cost bound) (le : bound ≤ larger) :
    plan.CostsAtMost cost larger := by
  induction plan generalizing bound larger with
  | done _ => trivial
  | length next ih =>
      exact ⟨h.1.trans le, fun n => ih n (h.2 n) (Nat.sub_le_sub_right le _)⟩
  | read purpose span next ih =>
      exact ⟨h.1.trans le, fun bytes => ih bytes (h.2 bytes) (Nat.sub_le_sub_right le _)⟩

theorem CostsAtMost.bind {plan : Plan α} {f : α → Plan β} {first second : Nat}
    (hplan : plan.CostsAtMost cost first)
    (hf : ∀ result, (f result).CostsAtMost cost second) :
    (plan.bind f).CostsAtMost cost (first + second) := by
  induction plan generalizing first with
  | done result => exact (hf result).mono (Nat.le_add_left _ _)
  | length next ih =>
      refine ⟨hplan.1.trans (Nat.le_add_right _ _), fun n => ?_⟩
      rw [Nat.sub_add_comm hplan.1]
      exact ih n (hplan.2 n)
  | read purpose span next ih =>
      refine ⟨hplan.1.trans (Nat.le_add_right _ _), fun bytes => ?_⟩
      rw [Nat.sub_add_comm hplan.1]
      exact ih bytes (hplan.2 bytes)

theorem CostsAtMost.map {plan : Plan α} {bound : Nat} (h : plan.CostsAtMost cost bound)
    (f : α → β) : (plan.map f).CostsAtMost cost bound :=
  show (plan.bind _).CostsAtMost cost (bound + 0) from h.bind fun _ => trivial

theorem CostsAtMost.leads {plan rest : Plan α} {bound : Nat}
    (h : plan.CostsAtMost cost bound) (origin : plan.Leads rest) :
    rest.CostsAtMost cost bound := by
  induction origin with
  | refl => exact h
  | length n _ ih => exact (ih.2 n).mono (Nat.sub_le _ _)
  | read bytes _ ih => exact (ih.2 bytes).mono (Nat.sub_le _ _)

end Plan

/-! A search, with a bound that suffices for windows of the given width. -/

/-- A bound for a window that is not empty leaves, after one request, a
bound for half of it. -/
def HalvesTo (scanThreshold : UInt64) (Suffices : Nat → Nat → Prop) : Prop :=
  ∀ ⦃width bound : Nat⦄, 0 < width → Suffices width bound →
    ∃ rest, bound = rest + 1 ∧
      ((1 < scanThreshold → scanThreshold.toNat < width) →
        ∀ narrower ≤ width / 2, Suffices narrower rest)

namespace Window

variable {t : Trailer} {scanThreshold : UInt64} {key : Bytes} {w : Window}

theorem upperHalf_le_half (h : w.low < w.high) (key : Bytes) :
    (w.upperHalf key).high.toNat - (w.upperHalf key).low.toNat ≤
      (w.high.toNat - w.low.toNat) / 2 := by
  have middle := toNat_middle h
  have next := Word.toNat_succ_of_lt (middle_lt h)
  simp only [upperHalf, next]
  omega

theorem lowerHalf_le_half (h : w.low < w.high) (key : Bytes) :
    (w.lowerHalf key).high.toNat - (w.lowerHalf key).low.toNat ≤
      (w.high.toNat - w.low.toNat) / 2 := by
  have middle := toNat_middle h
  simp only [lowerHalf]
  omega

theorem search_costsAtMost {cost : Request → Nat} {Suffices : Nat → Nat → Prop}
    {bound : Nat} (single : ∀ span, cost (.read .index span) ≤ 1)
    (halves : HalvesTo scanThreshold Suffices)
    (enough : Suffices (w.high.toNat - w.low.toNat) bound) :
    (search t scanThreshold key w).CostsAtMost cost bound := by
  induction w using search.induct scanThreshold generalizing bound with
  | case1 w nonempty small =>
      have ordered := UInt64.lt_iff_toNat_lt.mp nonempty
      obtain ⟨rest, rfl, _⟩ := halves (by omega) enough
      rw [search, dif_pos nonempty, if_pos small]
      exact ⟨(single _).trans (Nat.le_add_left _ _), fun _ => trivial⟩
  | case2 w nonempty wide upper lower =>
      have ordered := UInt64.lt_iff_toNat_lt.mp nonempty
      obtain ⟨rest, rfl, half⟩ := halves (by omega) enough
      have half := half fun several => by
        rw [← toNat_width nonempty]
        exact UInt64.lt_iff_toNat_lt.mp
          (UInt64.not_le.mp fun small => wide ⟨several, small⟩)
      have cheap := single (t.recordSpan w.middle)
      have left : rest ≤ rest + 1 - cost (.read .index (t.recordSpan w.middle)) := by omega
      rw [search, dif_pos nonempty, if_neg wide]
      refine ⟨cheap.trans (Nat.le_add_left _ _), fun bytes => ?_⟩
      dsimp only
      split
      · trivial
      · split
        · trivial
        · split
          · trivial
          · split
            · exact (upper _ (half _ (upperHalf_le_half nonempty _))).mono left
            · exact (lower _ (half _ (lowerHalf_le_half nonempty _))).mono left
  | case3 w empty =>
      rw [search, dif_neg empty]
      trivial

end Window

theorem halvesTo_powers (scanThreshold : UInt64) :
    HalvesTo scanThreshold fun width bound => width < 2 ^ bound := by
  rintro width (_ | rest) positive enough
  · omega
  · refine ⟨rest, rfl, fun _ narrower le => ?_⟩
    dsimp only at enough ⊢
    omega

/-- A threshold that lets a window be read at once saves the requests for narrower ones. -/
theorem halvesTo_threshold {scanThreshold : UInt64} (several : 1 < scanThreshold) :
    HalvesTo scanThreshold fun width bound =>
      width = 0 ∨ ∃ halvings, bound = 1 + halvings ∧
        width / 2 ^ halvings ≤ scanThreshold.toNat := by
  rintro width bound positive (empty | ⟨halvings, rfl, small⟩)
  · omega
  · refine ⟨halvings, Nat.add_comm .., fun wide narrower le => ?_⟩
    have wide := wide several
    rcases halvings with _ | halvings
    · simp at small
      omega
    · refine .inr ⟨halvings, Nat.add_comm .., ?_⟩
      calc narrower / 2 ^ halvings ≤ width / 2 / 2 ^ halvings := Nat.div_le_div_right le
        _ = width / 2 ^ (halvings + 1) := by rw [Nat.div_div_eq_div_mul, ← Nat.pow_succ']
        _ ≤ scanThreshold.toNat := small

section

variable {cost : Request → Nat} {value bound : Nat} {Suffices : Nat → Nat → Prop}

theorem Record.fetch_costsAtMost (single : ∀ span, cost (.read .value span) ≤ value)
    (r : Record) (t : Trailer) : (r.fetch t).CostsAtMost cost value := by
  unfold fetch
  split
  · trivial
  · split
    · trivial
    · exact ⟨single _, fun _ => trivial⟩

theorem Query.plan_costsAtMost (query : Query) (config : Config) {t : Trailer}
    (ofIndex : ∀ span, cost (.read .index span) ≤ 1)
    (ofValue : ∀ span, cost (.read .value span) ≤ value)
    (halves : HalvesTo config.scanThreshold Suffices)
    (enough : Suffices t.entryCount.toNat bound) :
    (query.plan config (.ok t)).CostsAtMost cost (bound + value) := by
  have find (key : Bytes) : (t.find config key).CostsAtMost cost bound := by
    unfold Trailer.find
    split
    · trivial
    · exact (Window.search_costsAtMost (w := Window.whole t.entryCount) ofIndex halves
        enough).map _
  cases query with
  | trailer => trivial
  | find key => exact ((find key).map _).mono (Nat.le_add_right _ _)
  | lookup key =>
      refine ((find key).bind fun found => ?_).map _
      rcases found with error | _ | r
      · trivial
      · trivial
      · exact (r.fetch_costsAtMost ofValue t).map _

end

/-- The requests for ranges of the index. -/
def Request.indexCost : Request → Nat
  | .read .index _ => 1
  | _ => 0

end SortedBlob
