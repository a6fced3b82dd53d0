import StyleFamily.Proofs.Pipeline.Annotation

/-!
# Emission is all or nothing

Phases and plugins run in a world of their own, out of reach of the sink. As long as those that are
added to a pipeline do no more to the context than add diagnostics, the sink is asked at most once,
and only for the family of a compilation that came through without an error.
-/
namespace StyleFamily

section
variable {m : Type → Type} [Monad m] {τ : Type}

/-- A program that runs while a state is passed along that it cannot reach. -/
def beside {ε α : Type} (program : ExceptT ε m α) : ExceptT ε (StateT τ m) α :=
  .mk (monadLift program.run)

def Phase.beside (phase : Phase m) : Phase (StateT τ m) where
  name := phase.name
  description := phase.description
  run context := StyleFamily.beside (phase.run context)

def Plugin.beside (plugin : Plugin m) : Plugin (StateT τ m) where
  name := plugin.name
  before phase context := StyleFamily.beside (plugin.before phase context)
  after phase context := StyleFamily.beside (plugin.after phase context)

/-- The pipeline in a setting where a sink has a state. -/
def Pipeline.beside (pipeline : Pipeline m) : Pipeline (StateT τ m) where
  lints := pipeline.lints
  extraPhases := pipeline.extraPhases.map Phase.beside
  plugins := pipeline.plugins.map Plugin.beside

/-- The sink with a record of the units it was asked to take, and of their targets. -/
def Sink.recorded (sink : Sink (StateT τ m)) :
    Sink (StateT (τ × List (SourceUnit × Target)) m) where
  accept unit target := fun (state, requests) => do
    let (answer, state) ← (sink.accept unit target).run state
    pure (answer, state, requests ++ [(unit, target)])

variable [LawfulMonad m]

theorem beside_pure {ε α : Type} (a : α) :
    (beside (pure a : ExceptT ε m α) : ExceptT ε (StateT τ m) α) = pure a :=
  monadLift_pure _

theorem beside_bind {ε α β : Type} (x : ExceptT ε m α) (f : α → ExceptT ε m β) :
    (beside (x >>= f) : ExceptT ε (StateT τ m) β) = beside x >>= fun a => beside (f a) := by
  apply ExceptT.ext
  simp only [beside, ExceptT.run_mk, ExceptT.run_bind, monadLift_bind]
  congr 1
  funext answer
  cases answer with
  | ok a => rfl
  | error e => exact monadLift_pure _

theorem foldlM_beside (plugins : List (Plugin m)) (step : Plugin m → Step m)
    (step' : Plugin (StateT τ m) → Step (StateT τ m))
    (h : ∀ plugin context, step' plugin.beside context = beside (step plugin context))
    (context : Context) :
    (plugins.map Plugin.beside).foldlM (fun context plugin => step' plugin context) context =
      beside (plugins.foldlM (fun context plugin => step plugin context) context) := by
  induction plugins generalizing context with
  | nil => exact (beside_pure context).symm
  | cons plugin rest ih =>
    simp only [List.map_cons, List.foldlM_cons, h, beside_bind]
    congr 1
    funext next
    exact ih next

namespace Pipeline

theorem runPhase_beside (plugins : List (Plugin m)) (phase : Phase m) (context : Context) :
    runPhase (plugins.map Plugin.beside) (phase.beside : Phase (StateT τ m)) context =
      StyleFamily.beside (runPhase plugins phase context) := by
  have hbefore := foldlM_beside (τ := τ) plugins (·.before phase.name) (·.before phase.name)
    fun _ _ => rfl
  have hafter := foldlM_beside (τ := τ) plugins (·.after phase.name) (·.after phase.name)
    fun _ _ => rfl
  simp only [runPhase, beside_bind]
  rw [show (phase.beside : Phase (StateT τ m)).name = phase.name from rfl, hbefore]
  congr 1
  funext entered
  congr 1
  funext left
  exact hafter left

theorem runPhases_beside (plugins : List (Plugin m)) (phases : List (Phase m)) (context : Context) :
    runPhases (plugins.map Plugin.beside) (phases.map (Phase.beside (τ := τ))) context =
      StyleFamily.beside (runPhases plugins phases context) := by
  induction phases generalizing context with
  | nil => exact (beside_pure context).symm
  | cons phase rest ih =>
    simp only [List.map_cons, runPhases, runPhase_beside, beside_bind]
    congr 1
    funext next
    by_cases he : next.hasErrors = true
    · simp only [he, ↓reduceIte]
      exact (beside_pure next).symm
    · simp only [he, Bool.false_eq_true, ↓reduceIte]
      exact ih next

/-- The two built-in phases have no effects, so they are the same in either setting. -/
theorem phases_beside (pipeline : Pipeline m) :
    (pipeline.beside : Pipeline (StateT τ m)).phases = pipeline.phases.map Phase.beside := by
  have hvalidate : (Phase.validate pipeline.lints : Phase (StateT τ m)) =
      (Phase.validate pipeline.lints).beside := by
    simp only [Phase.validate, Phase.beside, beside_pure]
  have hassemble : (Phase.assemble : Phase (StateT τ m)) = Phase.assemble.beside := by
    simp only [Phase.assemble, Phase.beside, beside_pure]
  rw [phases, phases, List.map_append, List.map_cons, List.map_cons, ← hvalidate, ← hassemble]
  rfl

theorem compile_beside (pipeline : Pipeline m) (scan : ScanOutcome) :
    (pipeline.beside : Pipeline (StateT τ m)).compile scan =
      StyleFamily.beside (pipeline.compile scan) := by
  unfold compile
  cases scan.found? with
  | error miss => exact (beside_pure _).symm
  | ok found =>
    simp only [run, map_eq_pure_bind, beside_bind, beside_pure]
    rw [phases_beside]
    exact congrArg (· >>= _) (runPhases_beside pipeline.plugins pipeline.phases _)

end Pipeline
end

section
variable {ω τ : Type}

/-- Everything there is to see of an emission: its answer, the state of the sink, what the sink was
asked to take, and the world of phases and plugins. -/
structure Delivery (ω τ : Type) where
  answer : Except EmissionFailure Outcome
  sink : τ
  requests : List (SourceUnit × Target)
  world : ω

variable (pipeline : Pipeline (StateM ω)) (language : Language) (scan : ScanOutcome)
  (target : Target) (sink : Sink (StateT τ (StateM ω))) (state : τ) (world : ω)

/-- An emission to a sink that keeps a record. -/
def Pipeline.deliver : Delivery ω τ :=
  let emission := pipeline.beside.emit language scan target sink.recorded
  let ((answer, sink, requests), world) := (emission.run.run (state, [])).run world
  ⟨answer, sink, requests, world⟩

/-- The delivery of a family: the sink is asked once, and its answer decides. -/
def Context.deliver (context : Context) (artifacts : Artifacts) : Delivery ω τ :=
  let unit := language.unit artifacts target.package
  let ((answer, sink), world) := ((sink.accept unit target).run state).run world
  { answer := (answer.mapError .sink).map fun receipt =>
      .emitted ⟨unit, receipt, artifacts, context.diagnostics⟩
    sink
    requests := [(unit, target)]
    world }

theorem mapError_ok {ε κ α : Type} (change : ε → κ) (a : α) :
    (Except.ok a : Except ε α).mapError change = .ok a := rfl

theorem mapError_error {ε κ α : Type} (change : ε → κ) (e : ε) :
    (Except.error e : Except ε α).mapError change = .error (change e) := rfl

/-- One fallible program after another, with the sink's state and the world passed along. -/
theorem run_bind_both {ε κ α β : Type} (first : ExceptT ε (StateT κ (StateM ω)) α)
    (rest : α → ExceptT ε (StateT κ (StateM ω)) β) (s : κ) :
    ((first >>= rest).run.run s).run world =
      match (first.run.run s).run world with
      | ((.error e, s), world) => ((.error e, s), world)
      | ((.ok a, s), world) => ((rest a).run.run s).run world := by
  have hbind : ((first >>= rest).run.run s).run world =
      (fun result : (Except ε α × κ) × ω =>
        ((ExceptT.bindCont rest result.1.1 : StateT κ (StateM ω) _).run result.1.2).run result.2)
          ((first.run.run s).run world) := rfl
  rw [hbind]
  rcases (first.run.run s).run world with ⟨⟨e | a, s⟩, world⟩ <;> rfl

theorem deliver_eq : pipeline.deliver language scan target sink state world =
    match pipeline.compiled scan world with
    | (.error failure, world) => ⟨.error (.pipeline failure), state, [], world⟩
    | (.ok (.error miss), world) => ⟨.ok (.noDeclaration miss), state, [], world⟩
    | (.ok (.ok context), world) =>
      match context.accepted? with
      | none => ⟨.ok (.rejected context.diagnostics), state, [], world⟩
      | some artifacts => context.deliver language target sink state world artifacts := by
  have hcompile : (((pipeline.beside.compile scan).adapt EmissionFailure.pipeline).run.run
      ((state, []) : τ × List (SourceUnit × Target))).run world =
        (((pipeline.compiled scan world).1.mapError .pipeline, state, []),
          (pipeline.compiled scan world).2) := by
    rw [Pipeline.compile_beside]
    rfl
  unfold Pipeline.deliver Pipeline.emit
  dsimp only
  rw [run_bind_both, hcompile]
  rcases pipeline.compiled scan world with ⟨failure | ⟨miss⟩ | context, next⟩
  · rfl
  · rfl
  · dsimp only [mapError_ok]
    cases context.accepted? with
    | none => rfl
    | some artifacts =>
      dsimp only
      have haccept : ((ExceptT.adapt EmissionFailure.sink (.mk (sink.recorded.accept
          (language.unit artifacts target.package) target))).run.run (state, [])).run next =
          (fun result : (Except SinkError Receipt × τ) × ω =>
            ((result.1.1.mapError .sink, result.1.2,
              [(language.unit artifacts target.package, target)]), result.2))
            (((sink.accept (language.unit artifacts target.package) target).run state).run next) :=
        rfl
      rw [run_bind_both, haccept]
      unfold Context.deliver
      dsimp only
      rcases ((sink.accept (language.unit artifacts target.package) target).run state).run next
        with ⟨⟨error | receipt, after⟩, left⟩ <;> rfl

end

section
variable {ω τ : Type}

/-- The sink was given one complete unit or nothing at all, and the answer says which. -/
structure Delivery.AllOrNothing (delivery : Delivery ω τ) (pipeline : Pipeline (StateM ω))
    (language : Language) (scan : ScanOutcome) (target : Target)
    (sink : Sink (StateT τ (StateM ω))) (state : τ) (world : ω) : Prop where
  once : delivery.requests.length ≤ 1
  asked : delivery.requests ≠ [] ↔ ∃ schema notes context, scan = .found schema notes ∧
    (pipeline.compiled scan world).1 = .ok (.ok context) ∧ context.hasErrors = false
  untouched : delivery.requests = [] → delivery.sink = state
  /-- The three answers that leave the sink alone. -/
  withheld : delivery.requests = [] ↔
    (∃ miss, scan.found? = .error miss ∧ delivery.answer = .ok (.noDeclaration miss)) ∨
      (∃ diagnostics, delivery.answer = .ok (.rejected diagnostics)) ∨
        ∃ failure, (pipeline.compiled scan world).1 = .error failure ∧
          delivery.answer = .error (.pipeline failure)
  rejected : ∀ diagnostics, delivery.answer = .ok (.rejected diagnostics) →
    ∃ d ∈ diagnostics, d.severity = .error
  emitted : ∀ emission, delivery.answer = .ok (.emitted emission) →
    delivery.requests = [(emission.unit, target)] ∧ emission.unit.package = target.package ∧
      ∃ schema notes added, scan = .found schema notes ∧
        emission.unit.content = language.text (assemble schema) target.package ∧
        emission.diagnostics =
          (notes.map fun note => ⟨.warning, "scan", note.message, note.location⟩) ++ added
  /-- A sink that is asked decides: its error is the error of the emission. -/
  answered : ∀ unit, delivery.requests = [(unit, target)] →
    let reply := ((sink.accept unit target).run state).run (pipeline.compiled scan world).2
    delivery.sink = reply.1.2 ∧ delivery.world = reply.2 ∧
      (∀ error, reply.1.1 = .error error ↔ delivery.answer = .error (.sink error)) ∧
      ∀ receipt, reply.1.1 = .ok receipt ↔
        ∃ emission, delivery.answer = .ok (.emitted emission) ∧ emission.receipt = receipt

section
variable {pipeline : Pipeline (StateM ω)} {language : Language} {scan : ScanOutcome}
  {target : Target} {sink : Sink (StateT τ (StateM ω))} {state : τ} {world : ω}

theorem allOrNothing_withheld {answer : Except EmissionFailure Outcome} {left : ω}
    (hanswer : (∃ miss, scan.found? = .error miss ∧ answer = .ok (.noDeclaration miss)) ∨
      (∃ diagnostics, answer = .ok (.rejected diagnostics) ∧
        ∃ d ∈ diagnostics, d.severity = .error) ∨
        ∃ failure, (pipeline.compiled scan world).1 = .error failure ∧
          answer = .error (.pipeline failure))
    (hnot : ¬∃ schema notes context, scan = .found schema notes ∧
      (pipeline.compiled scan world).1 = .ok (.ok context) ∧ context.hasErrors = false) :
    (⟨answer, state, [], left⟩ : Delivery ω τ).AllOrNothing pipeline language scan target sink state
      world where
  once := Nat.zero_le 1
  asked := ⟨fun hne => absurd rfl hne, fun hasked => absurd hasked hnot⟩
  untouched := fun _ => rfl
  withheld := by
    refine ⟨fun _ => ?_, fun _ => rfl⟩
    rcases hanswer with hmiss | ⟨diagnostics, hrejected, _⟩ | hfailure
    · exact .inl hmiss
    · exact .inr (.inl ⟨diagnostics, hrejected⟩)
    · exact .inr (.inr hfailure)
  rejected := by
    intro diagnostics hrejected
    rcases hanswer with ⟨miss, _, rfl⟩ | ⟨given, rfl, herror⟩ | ⟨failure, _, rfl⟩
    · simp at hrejected
    · obtain rfl : given = diagnostics := by simpa using hrejected
      exact herror
    · simp at hrejected
  emitted := by
    intro emission hemitted
    rcases hanswer with ⟨miss, _, rfl⟩ | ⟨given, rfl, _⟩ | ⟨failure, _, rfl⟩ <;> simp at hemitted
  answered := by
    intro unit hrequests
    simp at hrequests

theorem allOrNothing_deliver {schema : Schema} {notes : List ScanNote} {context : Context}
    {left : ω} (hscan : scan = .found schema notes)
    (hc : pipeline.compiled scan world = (.ok (.ok context), left))
    (hclean : context.hasErrors = false)
    (hadded : ∃ added, context.diagnostics = notes.map ScanNote.diagnostic ++ added) :
    (context.deliver language target sink state left (assemble schema)).AllOrNothing pipeline
      language scan target sink state world := by
  have hasked : ∃ schema notes context, scan = .found schema notes ∧
      (pipeline.compiled scan world).1 = .ok (.ok context) ∧ context.hasErrors = false :=
    ⟨schema, notes, context, hscan, by rw [hc], hclean⟩
  unfold Context.deliver
  dsimp only
  rcases hreply : ((sink.accept (language.unit (assemble schema) target.package) target).run
    state).run left with ⟨⟨reply, after⟩, next⟩
  refine
    { once := Nat.le_refl 1
      asked := ⟨fun _ => hasked, fun _ => by simp⟩
      untouched := fun hnone => by simp at hnone
      withheld := ⟨fun hnone => by simp at hnone, ?withheld⟩
      rejected := ?rejected
      emitted := ?emitted
      answered := ?answered }
  case withheld =>
    rintro (⟨miss, hmiss, _⟩ | ⟨diagnostics, hrejected⟩ | ⟨failure, hfailure, _⟩)
    · simp [hscan, ScanOutcome.found?] at hmiss
    · cases reply <;> simp [mapError_ok, mapError_error, Except.map] at hrejected
    · simp [hc] at hfailure
  case rejected =>
    intro diagnostics hrejected
    cases reply <;> simp [mapError_ok, mapError_error, Except.map] at hrejected
  case emitted =>
    intro emission hemitted
    cases reply with
    | error error => simp [mapError_error, Except.map] at hemitted
    | ok receipt =>
      obtain rfl := Outcome.emitted.inj (Except.ok.inj hemitted)
      obtain ⟨added, hd⟩ := hadded
      exact ⟨rfl, rfl, schema, notes, added, hscan, rfl, hd⟩
  case answered =>
    intro unit hrequests
    obtain rfl : language.unit (assemble schema) target.package = unit := by simpa using hrequests
    rw [hc]
    dsimp only
    rw [hreply]
    refine ⟨rfl, rfl, ?_, ?_⟩
    · intro error
      cases reply <;> simp [mapError_ok, mapError_error, Except.map]
    · intro receipt
      cases reply <;> simp [mapError_ok, mapError_error, Except.map]

end

/-- Whatever lints, phases and plugins a pipeline has, and whatever the sink does, an emission hands
over one unit of a compilation without errors, or leaves the sink as it was. -/
theorem emission_all_or_nothing {pipeline : Pipeline (StateM ω)} (h : pipeline.Annotates)
    (language : Language) (scan : ScanOutcome) (target : Target)
    (sink : Sink (StateT τ (StateM ω))) (state : τ) (world : ω) :
    (pipeline.deliver language scan target sink state world).AllOrNothing pipeline language scan
      target sink state world := by
  rw [deliver_eq]
  cases scan with
  | noHolder =>
    exact allOrNothing_withheld (.inl ⟨_, rfl, rfl⟩) (by simp)
  | underivableName declaration suffix =>
    exact allOrNothing_withheld (.inl ⟨_, rfl, rfl⟩) (by simp)
  | found schema notes =>
    have hcompiled := pipeline.compiled_found schema notes world
    rcases hrun : (pipeline.run (.ofScan schema notes)).run.run world with ⟨failure | context, left⟩
    · rw [hrun] at hcompiled
      rw [hcompiled]
      exact allOrNothing_withheld (.inr (.inr ⟨failure, by rw [hcompiled], rfl⟩))
        (by simp [hcompiled])
    · rw [hrun] at hcompiled
      obtain ⟨hadded, haccepted⟩ := Pipeline.compiled_completes h hrun
      rw [hcompiled]
      dsimp only
      rw [haccepted]
      cases he : context.hasErrors with
      | true =>
        obtain ⟨d, hd, herror⟩ := List.any_eq_true.mp he
        have hd : ∃ d ∈ context.diagnostics, d.severity = .error :=
          ⟨d, hd, by simpa [Diagnostic.isError] using herror⟩
        exact allOrNothing_withheld (.inr (.inl ⟨_, rfl, hd⟩)) (by simp [hcompiled, he])
      | false => exact allOrNothing_deliver rfl hcompiled he hadded

end

/-- In a world that counts its steps: a plugin that remarks on every phase, and a last phase that
objects to a component without colors when its family stands already. -/
def countingPipeline : Pipeline (StateM Nat) where
  extraPhases :=
    [{ name := "audit"
       description := "Ask for colors"
       run := fun context => do
         modify (· + 1)
         pure (if context.schema.properties.color = [] then
           context.report [⟨.error, "audit", "no colors", none⟩] else context) }]
  plugins :=
    [{ name := "counter"
       before := fun phase context => do
         modify (· + 1)
         pure (context.report [⟨.info, phase, "begins", none⟩])
       after := fun _ context => pure context }]

/-- A sink that keeps units in memory, in any world. -/
def keepingSink (ω : Type) : Sink (StateT MemoryStore (StateM ω)) where
  accept unit target := modifyGet fun store =>
    let (receipt, store) := store.accept unit target
    (.ok receipt, store)

/-- A scan that found a component with some colors, and left one parameter out. -/
def chipScan (colors : List String) : ScanOutcome :=
  .found ⟨"Chip", { color := colors }⟩ [⟨"parameter 'label' was not classified", "param.label"⟩]

def chipTarget : Target := ⟨"ui.chip", ⟨"out"⟩⟩

/-- Of two components the one with a color is handed over; the other is held back by an error that
comes after the assembly. -/
theorem counting_all_or_nothing :
    countingPipeline.Annotates ∧ ∀ colors ∈ [["content"], []],
      let delivery := countingPipeline.deliver .kotlin (chipScan colors) chipTarget
        (keepingSink Nat) {} 0
      delivery.requests.length = colors.length ∧
        delivery.AllOrNothing countingPipeline .kotlin (chipScan colors) chipTarget
          (keepingSink Nat) {} 0 := by
  have h : countingPipeline.Annotates := by
    refine ⟨?_, ?_, ?_⟩
    · intro phase hp before world after next hrun
      obtain rfl := List.mem_singleton.mp hp
      obtain ⟨he, _⟩ := Prod.mk.inj hrun
      obtain rfl := Except.ok.inj he
      split
      · exact ⟨_, rfl⟩
      · exact .refl before
    · intro plugin hp phase before world after next hrun
      obtain rfl := List.mem_singleton.mp hp
      obtain ⟨he, _⟩ := Prod.mk.inj hrun
      exact ⟨_, (Except.ok.inj he).symm⟩
    · intro plugin hp phase
      obtain rfl := List.mem_singleton.mp hp
      exact annotates_pure .refl
  refine ⟨h, ?_⟩
  intro colors hc
  refine ⟨?_, emission_all_or_nothing h _ _ _ _ _ _⟩
  revert colors
  decide +kernel

end StyleFamily
