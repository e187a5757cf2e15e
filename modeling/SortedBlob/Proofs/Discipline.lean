import SortedBlob.Proofs.Moments
import SortedBlob.Proofs.Plan
import SortedBlob.Query

/-!
How calls share the trailer, whatever the source answers. A call that loads it is the only
one to do so, and a call that is past it goes by the one that was settled
(`Moment.Disciplined`).
-/

namespace SortedBlob

variable {α σ : Type}

/-- Whether a course can have come about by following the plan. -/
def Course.From (plan : Plan α) : Course α → Prop
  | running rest => plan.Leads rest
  | pending sent => plan.Leads sent.plan
  | ended (.ok result) => plan.Leads (.done result)
  | ended (.error _) => True

section

variable {source : Source σ} {s s' : Session} {state state' : σ}

theorem Course.Step.from {plan : Plan α} {course course' : Course α}
    (h : Step source (course, s, state) (course', s', state')) (origin : course.From plan) :
    course'.From plan := by
  cases h with
  | done => exact origin
  | askLength => exact origin
  | hit cached => exact origin.read _
  | askRead missed => exact origin
  | length reply => exact origin.length _
  | read reply => exact origin.read _
  | lengthFailed reply => trivial
  | readFailed reply => trivial

theorem Course.Step.config_eq {course course' : Course α}
    (h : Step source (course, s, state) (course', s', state')) : s'.config = s.config := by
  cases h with
  | askLength => exact Session.config_count ..
  | askRead missed => exact Session.config_count ..
  | read reply => exact Session.config_receive ..
  | _ => rfl

theorem Course.Step.trailer_eq {course course' : Course α}
    (h : Step source (course, s, state) (course', s', state')) :
    s'.trailer = s.trailer := by
  cases h with
  | askLength => exact Session.trailer_count ..
  | askRead missed => exact Session.trailer_count ..
  | read reply => exact Session.trailer_receive ..
  | _ => rfl

end

/-- What a call can be at, given the trailer as it is settled or not. -/
def Activity.Uses (config : Config) (query : Query)
    (trailer : Option (Except FormatError Trailer)) :
    Activity → Prop
  | waiting => True
  | loading course => trailer = none ∧ course.From (Trailer.load config)
  | working course => ∃ loaded, trailer = some loaded ∧
      course.From (query.plan config loaded)
  | finished (.ok verdict) =>
      ∃ loaded, trailer = some loaded ∧ (query.plan config loaded).Leads (.done verdict)
  | finished (.error _) => True

namespace Activity

variable {source : Source σ} {config : Config} {query : Query}
  {activity activity' : Activity} {s s' : Session} {state state' : σ}

/-- Only a call that loads has to know that the trailer is still open. -/
theorem Uses.keep {trailer trailer' : Option (Except FormatError Trailer)}
    (h : activity.Uses config query trailer) (idle : activity.isLoading = false)
    (kept : ∀ loaded, trailer = some loaded → trailer' = some loaded) :
    activity.Uses config query trailer' := by
  rcases activity with _ | course | course | interruption | verdict
  · trivial
  · cases idle
  · obtain ⟨loaded, settled, origin⟩ := h
    exact ⟨loaded, kept loaded settled, origin⟩
  · trivial
  · obtain ⟨loaded, settled, origin⟩ := h
    exact ⟨loaded, kept loaded settled, origin⟩

theorem Step.config_eq
    (h : Step source query (activity, s, state) (activity', s', state')) :
    s'.config = s.config := by
  cases h with
  | load h => exact h.config_eq
  | work h => exact h.config_eq
  | answer => exact Session.config_countEnd ..
  | _ => rfl

theorem Step.trailer_kept
    (h : Step source query (activity, s, state) (activity', s', state'))
    (uses : activity.Uses config query s.trailer) (loaded : Except FormatError Trailer)
    (settled : s.trailer = some loaded) : s'.trailer = some loaded := by
  cases h with
  | load h => exact h.trailer_eq.trans settled
  | settle =>
      rw [uses.1] at settled
      cases settled
  | work h => exact h.trailer_eq.trans settled
  | answer => exact (Session.trailer_countEnd ..).trans settled
  | _ => exact settled

theorem Step.uses (h : Step source query (activity, s, state) (activity', s', state'))
    (sameConfig : s.config = config) (uses : activity.Uses config query s.trailer) :
    activity'.Uses config query s'.trailer := by
  subst sameConfig
  cases h with
  | enter known => exact ⟨_, known, .refl⟩
  | load h => exact ⟨h.trailer_eq.trans uses.1, h.from uses.2⟩
  | settle => exact ⟨_, rfl, .refl⟩
  | giveUp => trivial
  | work h =>
      obtain ⟨loaded, settled, origin⟩ := uses
      exact ⟨loaded, h.trailer_eq.trans settled, h.from origin⟩
  | answer =>
      obtain ⟨loaded, settled, origin⟩ := uses
      exact ⟨loaded, (Session.trailer_countEnd ..).trans settled, origin⟩
  | fail => trivial

theorem Step.loading_or_settled
    (h : Step source query (activity, s, state) (activity', s', state'))
    (uses : activity.Uses config query s.trailer) :
    activity.isLoading = true ∨ s.trailer.isSome = true := by
  cases h with
  | enter known => exact .inr (by rw [known]; rfl)
  | load h => exact .inl rfl
  | settle => exact .inl rfl
  | giveUp => exact .inl rfl
  | work h =>
      obtain ⟨loaded, settled, _⟩ := uses
      exact .inr (by rw [settled]; rfl)
  | answer =>
      obtain ⟨loaded, settled, _⟩ := uses
      exact .inr (by rw [settled]; rfl)
  | fail =>
      obtain ⟨loaded, settled, _⟩ := uses
      exact .inr (by rw [settled]; rfl)

end Activity

namespace Moment

structure Disciplined (config : Config) (m : Moment σ) : Prop where
  sameConfig : m.session.config = config
  single {first second : Nat} {p q : Party} :
    m.parties[first]? = some p → m.parties[second]? = some q →
      p.activity.isLoading = true → q.activity.isLoading = true → first = second
  uses {caller : Nat} {party : Party} : m.parties[caller]? = some party →
    party.activity.Uses config party.query m.session.trailer

def OthersIdle (m : Moment σ) (caller : Nat) : Prop :=
  ∀ ⦃other : Nat⦄ ⦃party : Party⦄, m.parties[other]? = some party → other ≠ caller →
    party.activity.isLoading = false

variable {source : Source σ} {config : Config} {m m' : Moment σ} {caller : Nat}
  {query : Query} {activity : Activity} {place : Activity × Session × σ}

theorem othersIdle_of_isLoading (h : m.isLoading = false) (caller : Nat) :
    m.OthersIdle caller := by
  intro other party member _
  simp only [isLoading, List.any_eq_false] at h
  simpa using h party (List.mem_of_getElem? member)

theorem Disciplined.othersIdle (h : m.Disciplined config)
    (party : m.parties[caller]? = some ⟨query, activity⟩)
    (busy : activity.isLoading = true ∨ m.session.trailer.isSome = true) :
    m.OthersIdle caller := by
  intro other second member distinct
  cases loads : second.activity.isLoading with
  | false => rfl
  | true =>
      exfalso
      rcases busy with loading | settled
      · exact distinct (h.single member party loads loading)
      · have uses := h.uses member
        cases hactivity : second.activity with
        | loading course =>
            rw [hactivity] at uses
            rw [uses.1] at settled
            cases settled
        | _ => simp [hactivity, Activity.isLoading] at loads

/-- A call may do anything sensible while the others do not load. -/
theorem Disciplined.put (h : m.Disciplined config) (idle : m.OthersIdle caller)
    (sameConfig : place.2.1.config = config)
    (uses : place.1.Uses config query place.2.1.trailer)
    (kept : ∀ loaded, m.session.trailer = some loaded → place.2.1.trailer = some loaded) :
    (m.put caller query place).Disciplined config := by
  refine ⟨sameConfig, ?_, ?_⟩
  · intro first second p q hp hq loadsP loadsQ
    have only {other : Nat} {party : Party}
        (member : (m.put caller query place).parties[other]? = some party)
        (loads : party.activity.isLoading = true) : other = caller := by
      rcases party_put member with ⟨same, _⟩ | ⟨distinct, old⟩
      · exact same
      · rw [idle old distinct] at loads
        cases loads
    exact (only hp loadsP).trans (only hq loadsQ).symm
  · intro other party member
    rcases party_put member with ⟨_, rfl⟩ | ⟨distinct, old⟩
    · exact uses
    · exact (h.uses old).keep (idle old distinct) kept

theorem disciplined_new (config : Config) (state : σ) :
    Disciplined config ⟨Session.new config, [], state⟩ :=
  ⟨rfl, nofun, nofun⟩

theorem Disciplined.start (h : m.Disciplined config) (query : Query) :
    (m.start query).Disciplined config := by
  refine ⟨by simp [Moment.start, h.sameConfig], ?_, ?_⟩
  · intro first second p q hp hq loadsP loadsQ
    rcases party_start hp with oldP | ⟨_, rfl⟩
    · rcases party_start hq with oldQ | ⟨_, rfl⟩
      · exact h.single oldP oldQ loadsP loadsQ
      · cases loadsQ
    · cases loadsP
  · intro caller party member
    rcases party_start member with old | ⟨_, rfl⟩
    · simpa [Moment.start] using h.uses old
    · trivial

/-- What a step does, in a form that says who takes it and that nobody else loads. -/
theorem Step.cases_of_disciplined (disciplined : m.Disciplined config)
    (h : Step source m m') :
    ∃ caller query activity place, m.parties[caller]? = some ⟨query, activity⟩ ∧
      m.OthersIdle caller ∧ m' = m.put caller query place ∧
      place.2.1.config = config ∧ place.1.Uses config query place.2.1.trailer ∧
      ∀ loaded, m.session.trailer = some loaded → place.2.1.trailer = some loaded := by
  cases h with
  | @begin caller query party empty free =>
      refine ⟨caller, query, .waiting, _, party, othersIdle_of_isLoading free caller, rfl,
        disciplined.sameConfig, ⟨empty, ?_⟩, fun _ settled => settled⟩
      rw [disciplined.sameConfig]
      exact .refl
  | @call caller query activity place party h =>
      have uses := disciplined.uses party
      exact ⟨caller, query, activity, place, party,
        disciplined.othersIdle party (h.loading_or_settled uses), rfl,
        h.config_eq.trans disciplined.sameConfig, h.uses disciplined.sameConfig uses,
        h.trailer_kept uses⟩

theorem Step.disciplined (disciplined : m.Disciplined config) (h : Step source m m') :
    m'.Disciplined config := by
  obtain ⟨_, _, _, _, _, idle, rfl, sameConfig, uses, kept⟩ :=
    h.cases_of_disciplined disciplined
  exact disciplined.put idle sameConfig uses kept

theorem Disciplined.drop (h : m.Disciplined config) {stage : Stage}
    (party : m.parties[caller]? = some ⟨query, stage.activity⟩) :
    (m.put caller query (stage.dropped.activity, m.session, m.state)).Disciplined
      config := by
  have silent : stage.dropped.activity.isLoading = false := by
    cases stage <;> rfl
  refine ⟨h.sameConfig, ?_, ?_⟩
  · intro first second p q hp hq loadsP loadsQ
    rcases party_put hp with ⟨_, rfl⟩ | ⟨_, oldP⟩
    · rw [silent] at loadsP
      cases loadsP
    · rcases party_put hq with ⟨_, rfl⟩ | ⟨_, oldQ⟩
      · rw [silent] at loadsQ
        cases loadsQ
      · exact h.single oldP oldQ loadsP loadsQ
  · intro other second member
    rcases party_put member with ⟨_, rfl⟩ | ⟨_, old⟩
    · have uses := h.uses party
      cases stage with
      | finished result => exact uses
      | _ => trivial
    · exact h.uses old

end Moment

end SortedBlob
