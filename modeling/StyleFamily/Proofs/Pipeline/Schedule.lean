import StyleFamily.Proofs.Pipeline.Course

/-!
# The schedule of a pipeline

Every phase has its events in the same order, and the phases follow one another. Whatever the steps
of a run do, its events are the first of this schedule: they end with the first event that fails,
with the first phase that leaves an error, or with the last phase.
-/
namespace StyleFamily

theorem roundEvents_ne_nil (plugins : Nat) (phase : String) : roundEvents plugins phase ≠ [] := by
  simp [roundEvents]

section
variable {ω : Type}

/-- The events of phases that follow one another. -/
def scheduleOf (plugins : Nat) (phases : List (Phase (StateM ω))) : List Event :=
  phases.flatMap fun phase => roundEvents plugins phase.name

theorem scheduleOf_cons (plugins : Nat) (phase : Phase (StateM ω))
    (rest : List (Phase (StateM ω))) :
    scheduleOf plugins (phase :: rest) =
      roundEvents plugins phase.name ++ scheduleOf plugins rest :=
  List.flatMap_cons

/-- More phases have more events. -/
theorem length_scheduleOf_take_lt (plugins : Nat) {phases : List (Phase (StateM ω))}
    {count more : Nat} (h : count < more) (hm : more ≤ phases.length) :
    (scheduleOf plugins (phases.take count)).length <
      (scheduleOf plugins (phases.take more)).length := by
  induction phases generalizing count more with
  | nil => simp at hm; omega
  | cons phase rest ih =>
    obtain ⟨more, rfl⟩ : ∃ k, more = k + 1 := ⟨more - 1, by omega⟩
    have hround := List.length_pos_iff.mpr (roundEvents_ne_nil plugins phase.name)
    cases count with
    | zero =>
      rw [List.take_succ_cons, scheduleOf_cons, List.length_append]
      simp only [List.take_zero, scheduleOf, List.flatMap_nil, List.length_nil]
      omega
    | succ count =>
      have hrest := @ih count more (by omega) (by simpa using hm)
      simp only [List.take_succ_cons, scheduleOf_cons, List.length_append]
      omega

/-- The first entries of a trace, if they are these events and all of them succeeded. -/
structure Trace.Finishes (trace : Trace ω) (events : List Event) (done : List TraceEntry) :
    Prop where
  front : done <+: trace.entries
  events : done.map (·.event) = events
  succeeded : ∀ entry ∈ done, ∃ next, entry.outcome = .ok next

/-- Some event comes after these. -/
def Trace.Passes (trace : Trace ω) (events : List Event) : Prop :=
  ∃ front entry rest, trace.entries = front ++ entry :: rest ∧ front.map (·.event) = events

namespace Course
variable {plugins : List (Plugin (StateM ω))} {phases : List (Phase (StateM ω))} {start : Context}
  {world : ω} {finished : List (String × Context)} {trace : Trace ω}
  (h : Course plugins phases start world finished trace)
include h

theorem chain : Chain start trace.entries trace.answer := by
  induction h with
  | exhausted context world => exact .done _
  | failed _ round => exact round.chain
  | stopped _ round _ => exact round.chain
  | next _ round _ _ ih => exact round.chain.append ih

theorem events_prefix : trace.events <+: scheduleOf plugins.length phases := by
  induction h with
  | exhausted context world => exact List.prefix_refl _
  | @failed phase rest _ _ _ _ _ _ round =>
    have hround := round.events
    rw [Phase.events_steps] at hround
    rw [scheduleOf_cons]
    exact hround.trans (List.prefix_append _ _)
  | stopped _ round _ =>
    have hround := round.events
    rw [Phase.events_steps] at hround
    rw [scheduleOf_cons]
    exact hround.trans (List.prefix_append _ _)
  | next _ round _ _ ih =>
    have hround := round.complete _ rfl
    rw [Phase.events_steps] at hround
    rw [scheduleOf_cons, Trace.events, List.map_append]
    exact hround ▸ (List.prefix_append_right_inj _).mpr ih

theorem length_finished : finished.length ≤ phases.length := by
  induction h with
  | exhausted context world => exact Nat.le_refl _
  | failed _ _ => exact Nat.zero_le _
  | stopped _ _ _ => simp
  | next _ _ _ _ ih => simpa using ih

theorem names_finished :
    finished.map (·.1) = (phases.take finished.length).map Phase.name := by
  induction h with
  | exhausted context world => rfl
  | failed _ _ => rfl
  | stopped _ _ _ => rfl
  | next _ _ _ _ ih => simpa using ih

/-- The phases that were finished are the first of the trace, and lead to the contexts they left. -/
theorem finishes {count : Nat} (hc : count ≤ finished.length) :
    ∃ done left, trace.Finishes (scheduleOf plugins.length (phases.take count)) done ∧
      Chain start done (.ok left) ∧ (start :: finished.map (·.2))[count]? = some left := by
  have hnone : ∀ trace : Trace ω, trace.Finishes [] [] := fun trace =>
    ⟨List.nil_prefix, rfl, by simp⟩
  induction h generalizing count with
  | exhausted context world =>
    obtain rfl : count = 0 := by simpa using hc
    exact ⟨[], _, hnone _, .done _, rfl⟩
  | failed _ _ =>
    obtain rfl : count = 0 := by simpa using hc
    exact ⟨[], _, hnone _, .done _, rfl⟩
  | @stopped phase rest _ _ _ entries _ _ round _ =>
    cases count with
    | zero => exact ⟨[], _, hnone _, .done _, rfl⟩
    | succ count =>
      obtain rfl : count = 0 := by simpa using hc
      have hround := round.complete _ rfl
      rw [Phase.events_steps] at hround
      refine ⟨entries, _, ⟨List.prefix_refl _, ?_, round.chain.succeeds⟩, round.chain, rfl⟩
      rw [List.take_succ_cons, scheduleOf_cons, ← hround]
      simp [scheduleOf, Trace.events]
  | @next phase rest _ _ _ entries _ _ trace _ round _ _ ih =>
    cases count with
    | zero => exact ⟨[], _, hnone _, .done _, rfl⟩
    | succ count =>
      obtain ⟨done, left, hdone, hchain, hleft⟩ := @ih count (by simpa using hc)
      have hround := round.complete _ rfl
      rw [Phase.events_steps] at hround
      refine ⟨entries ++ done, left, ⟨(List.prefix_append_right_inj _).mpr hdone.front, ?_, ?_⟩,
        round.chain.append hchain, hleft⟩
      · rw [List.take_succ_cons, scheduleOf_cons, List.map_append, hdone.events]
        exact congrArg (· ++ _) hround
      · exact List.forall_mem_append.mpr ⟨round.chain.succeeds, hdone.succeeded⟩

/-- A run without failure has no event but those of the phases that were finished, and it ends with
the last phase or with one that left an error. -/
theorem ended {last : Context} (ha : trace.answer = .ok last) :
    trace.events = scheduleOf plugins.length (phases.take finished.length) ∧
      (last.hasErrors = true ∨ finished.length = phases.length) ∧
      (start :: finished.map (·.2)).getLast? = some last := by
  induction h with
  | exhausted context world =>
    obtain rfl := Except.ok.inj ha
    exact ⟨rfl, .inr rfl, rfl⟩
  | failed _ _ => exact absurd ha (by simp)
  | stopped _ round errors =>
    obtain rfl := Except.ok.inj ha
    have hround := round.complete _ rfl
    rw [Phase.events_steps] at hround
    refine ⟨?_, .inl errors, rfl⟩
    simpa [scheduleOf] using hround
  | @next phase rest _ _ left _ _ _ _ _ round _ _ ih =>
    obtain ⟨hevents, hend, hlast⟩ := ih ha
    have hround := round.complete _ rfl
    rw [Phase.events_steps] at hround
    refine ⟨?_, ?_, ?_⟩
    · rw [List.length_cons, List.take_succ_cons, scheduleOf_cons, ← hevents, ← hround]
      exact List.map_append
    · simpa using hend
    · rw [List.map_cons, List.getLast?_cons_cons]
      exact hlast

theorem finished_pos {last : Context} (ha : trace.answer = .ok last) (hp : phases ≠ []) :
    0 < finished.length := by
  cases h with
  | exhausted context world => exact absurd rfl hp
  | failed _ _ => exact absurd ha (by simp)
  | stopped _ _ _ => exact Nat.succ_pos _
  | next _ _ _ _ => exact Nat.succ_pos _

/-- A run that fails does so in the phase behind those that were finished. -/
theorem failed_in {failure : PipelineFailure} (ha : trace.answer = .error failure) :
    finished.length < phases.length ∧
      trace.events.length ≤
        (scheduleOf plugins.length (phases.take (finished.length + 1))).length := by
  induction h with
  | exhausted context world => exact absurd ha (by simp)
  | failed _ round =>
    have hround := round.events.length_le
    rw [Phase.events_steps] at hround
    refine ⟨by simp, ?_⟩
    simpa [scheduleOf] using hround
  | stopped _ _ _ => exact absurd ha (by simp)
  | next _ round _ _ ih =>
    obtain ⟨hlength, hevents⟩ := ih ha
    have hround := round.complete _ rfl
    rw [Phase.events_steps] at hround
    refine ⟨by simpa using hlength, ?_⟩
    rw [List.length_cons, List.take_succ_cons, scheduleOf_cons, List.length_append, ← hround]
    simpa [Trace.events] using hevents

/-- No phase counts as finished but those of which every event succeeded. -/
theorem count_le {count : Nat} (hc : count ≤ phases.length) {done : List TraceEntry}
    (hd : trace.Finishes (scheduleOf plugins.length (phases.take count)) done) :
    count ≤ finished.length := by
  refine Nat.le_of_not_lt fun hlt => ?_
  have hlength : done.length = (scheduleOf plugins.length (phases.take count)).length := by
    rw [← hd.events, List.length_map]
  have hle : done.length ≤ trace.events.length := by
    rw [Trace.events, List.length_map]
    exact hd.front.length_le
  rcases ha : trace.answer with failure | last
  · obtain ⟨_, hevents⟩ := h.failed_in ha
    have hmore : (scheduleOf plugins.length (phases.take (finished.length + 1))).length ≤
        (scheduleOf plugins.length (phases.take count)).length := by
      rcases Nat.lt_or_eq_of_le (show finished.length + 1 ≤ count by omega) with hlt | rfl
      · exact Nat.le_of_lt (length_scheduleOf_take_lt _ hlt hc)
      · exact Nat.le_refl _
    have hall : done = trace.entries := hd.front.eq_of_length (by
      rw [Trace.events, List.length_map] at hle hevents
      omega)
    obtain ⟨front, entry, hentries, hfailed⟩ := (ha ▸ h.chain).fails
    obtain ⟨next, hnext⟩ := hd.succeeded entry (by rw [hall, hentries]; simp)
    exact absurd (hnext.symm.trans hfailed) (by simp)
  · obtain ⟨hevents, _⟩ := h.ended ha
    have hmore := length_scheduleOf_take_lt plugins.length
      (show finished.length < count by omega) hc
    rw [hevents] at hle
    omega

theorem taken : ∀ entry ∈ trace.entries, ∃ phase ∈ phases,
    entry.TakenFrom (phase.steps plugins) := by
  induction h with
  | exhausted context world => simp
  | failed _ round => exact fun entry hm => ⟨_, List.mem_cons_self, round.taken entry hm⟩
  | stopped _ round _ => exact fun entry hm => ⟨_, List.mem_cons_self, round.taken entry hm⟩
  | next _ round _ _ ih =>
    intro entry hm
    rcases List.mem_append.mp hm with hm | hm
    · exact ⟨_, List.mem_cons_self, round.taken entry hm⟩
    · obtain ⟨phase, hp, htaken⟩ := ih entry hm
      exact ⟨phase, List.mem_cons_of_mem _ hp, htaken⟩

omit h in
/-- In the events of one phase there is no place for an event behind it. -/
theorem no_event_behind {phase : Phase (StateM ω)} {more : List (Phase (StateM ω))}
    {entries front rest : List TraceEntry} {entry : TraceEntry} {count : Nat}
    (he : entries = front ++ entry :: rest)
    (hf : front.map (·.event) = scheduleOf plugins.length ((phase :: more).take (count + 1)))
    (hle : entries.length ≤ (roundEvents plugins.length phase.name).length) : False := by
  have hlength := congrArg List.length hf
  rw [List.take_succ_cons, scheduleOf_cons, List.length_append, List.length_map] at hlength
  rw [he, List.length_append, List.length_cons] at hle
  omega

/-- A phase behind the first one begins only in a context without errors. -/
theorem clean_at {front rest : List TraceEntry} {entry : TraceEntry} {count : Nat}
    (he : trace.entries = front ++ entry :: rest) (hc : 0 < count)
    (hf : front.map (·.event) = scheduleOf plugins.length (phases.take count)) :
    entry.context.hasErrors = false := by
  obtain ⟨count, rfl⟩ : ∃ k, count = k + 1 := ⟨count - 1, by omega⟩
  induction h generalizing front count with
  | exhausted context world => simp at he
  | failed _ round =>
    have hround := round.events.length_le
    rw [Phase.events_steps, Trace.events, List.length_map] at hround
    exact (no_event_behind he hf hround).elim
  | stopped _ round _ =>
    have hround := round.events.length_le
    rw [Phase.events_steps, Trace.events, List.length_map] at hround
    exact (no_event_behind he hf hround).elim
  | @next phase more _ _ left entries _ _ trace _ round clean course ih =>
    have hround := round.complete _ rfl
    rw [Phase.events_steps, Trace.events] at hround
    rw [List.take_succ_cons, scheduleOf_cons, ← hround] at hf
    dsimp only at he hf
    obtain ⟨behind, rfl⟩ : ∃ behind, front = entries ++ behind := by
      have hfront := List.prefix_append entries (trace.entries)
      rw [he] at hfront
      refine (List.prefix_of_prefix_length_le hfront (List.prefix_append _ _) ?_).imp
        fun _ => Eq.symm
      have hlength := congrArg List.length hf
      rw [List.length_append, List.length_map, List.length_map] at hlength
      omega
    rw [List.append_assoc] at he
    rw [List.map_append] at hf
    have htrace := List.append_cancel_left he
    have hbehind := List.append_cancel_left hf
    cases count with
    | zero =>
      obtain rfl : behind = [] := by simpa [scheduleOf] using hbehind
      have hchain := course.chain
      rw [htrace] at hchain
      cases hchain.cut.1
      exact clean
    | succ count => exact ih htrace count (Nat.succ_pos count) hbehind

end Course
end

end StyleFamily
