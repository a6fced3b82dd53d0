import StyleFamily.Proofs.Model.FreshBuilder

/-!
# Generated builders behave as the store

The builder that is read from the family of an accepted schema is the fresh builder of the schema's
store. Every call on it does what the store does with the call, and so does every run of calls.
-/
namespace StyleFamily

section
variable {σ τ κ ε : Type} {f : σ → τ}

theorem answering_map (state : σ) (result : Except ε σ) :
    answering (f state) (result.map f) = (answering state result).map id f := by
  cases result <;> rfl

/-- Steps that agree through a map of states stop at the same call, in states that agree. -/
theorem untilFailure_map {step : σ → κ → Except ε σ} {step' : τ → κ → Except ε τ}
    (hstep : ∀ state call, step' (f state) call = (step state call).map f) (state : σ)
    (calls : List κ) :
    untilFailure step' (f state) calls = (untilFailure step state calls).map id f := by
  induction calls generalizing state with
  | nil => rfl
  | cons call rest ih =>
    simp only [untilFailure, hstep]
    cases step state call with
    | error e => rfl
    | ok next => exact ih next

theorem runCalls_map {step : σ → κ → Except ε Unit × σ} {step' : τ → κ → Except ε Unit × τ}
    (hstep : ∀ state call, step' (f state) call = (step state call).map id f) (state : σ)
    (calls : List κ) :
    runCalls step' (f state) calls = (runCalls step state calls).map id f := by
  induction calls generalizing state with
  | nil => rfl
  | cons call rest ih =>
    simp only [runCalls, hstep, Prod.map_fst, Prod.map_snd, ih, id]
    rfl

end

theorem lookup_diagonal (name : String) (names : List String) :
    (names.map fun n => (n, n)).lookup name = if name ∈ names then some name else none := by
  induction names with
  | nil => rfl
  | cons other rest ih =>
    rw [List.map_cons, List.lookup_cons, ih]
    by_cases he : name = other
    · simp [he]
    · have hb : (name == other) = false := beq_eq_false_iff_ne.mpr he
      simp [hb, he]

theorem lastOf?_diagonal (name : String) (properties : List Property) :
    lastOf? name (properties.map fun p => (p.name, p.name)) =
      if name ∈ properties.map Property.name then some name else none := by
  have hd := lookup_diagonal name (properties.map Property.name).reverse
  rw [← List.map_reverse, List.map_map, List.map_reverse] at hd
  simpa [lastOf?, Function.comp_def] using hd

/-- Putting back the slot of a property with a value is logging the value. -/
theorem putSlot_logged {properties : List Property} {p : Property} {log : Log} {value : Value}
    (hn : (properties.map Property.name).Nodup) (hp : p ∈ properties) :
    putSlot { Store.slot log p with value := some value } (properties.map (Store.slot log)) =
      properties.map (Store.slot ((p.name, value) :: log)) := by
  have hother : ∀ q : Property, q.name ≠ p.name →
      Store.slot ((p.name, value) :: log) q = Store.slot log q := by
    intro q hq
    have hb : (q.name == p.name) = false := beq_eq_false_iff_ne.mpr hq
    simp [Store.slot, List.lookup_cons, hb]
  induction properties with
  | nil => simp at hp
  | cons q rest ih =>
    rw [List.map_cons, List.nodup_cons] at hn
    rw [List.map_cons, putSlot, List.map_cons]
    rcases List.mem_cons.mp hp with rfl | hr
    · have hrest : rest.map (Store.slot ((p.name, value) :: log)) = rest.map (Store.slot log) := by
        apply List.map_congr_left
        intro q hq
        exact hother q fun he => hn.1 (he ▸ List.mem_map_of_mem hq)
      rw [if_pos rfl, hrest]
      simp [Store.slot]
    · have hne : q.name ≠ p.name := fun he => hn.1 (he ▸ List.mem_map_of_mem hr)
      refine (if_neg hne).trans ?_
      rw [ih hn.2 hr, hother q hne]

namespace Store
variable {store : Store} (hn : (store.properties.map Property.name).Nodup)
  (delegates : List DelegateSlot) (log : Log)

theorem property?_eq_none {name : String} (h : store.property? name = none) :
    name ∉ store.properties.map Property.name := by
  intro hm
  obtain ⟨p, hp, rfl⟩ := List.mem_map.mp hm
  simpa using List.find?_eq_none.mp h p hp

theorem builder_slot? (name : String) :
    (store.builder delegates log).slot? name = (store.property? name).map (slot log) :=
  List.find?_map

include hn

theorem builder_set (name : String) (value : Value) :
    (store.builder delegates log).set name value =
      (store.set log name value).map (store.builder delegates) := by
  have hsetters : lastOf? name (store.builder delegates log).setters = _ :=
    lastOf?_diagonal name store.properties
  rw [RecordBuilder.set, hsetters, set]
  rcases hp : store.property? name with _ | p
  · rw [if_neg (property?_eq_none hp)]
    rfl
  · obtain ⟨hm, rfl⟩ := property?_mem hp
    have htype : (slot log p).fallback.type = p.category.valueType :=
      Category.type_defaultValue p.category
    rw [if_pos (List.mem_map_of_mem hm)]
    simp only [builder_slot?, hp, Option.map_some, htype]
    by_cases ht : value.type = p.category.valueType
    · rw [if_pos ht, if_pos ht]
      have hput : putSlot { slot log p with value := some value }
          (store.properties.map (slot log)) = _ := putSlot_logged hn hm
      simp only [Except.map, builder, hput]
    · rw [if_neg ht, if_neg ht]
      rfl

theorem builder_setColor (name : String) (color : Color) :
    (store.builder delegates log).setColor name color =
      (store.setColor log name color).map (store.builder delegates) := by
  have hoverloads : lastOf? name (store.builder delegates log).overloads = _ :=
    lastOf?_diagonal name (store.properties.filter (·.category = .color))
  rw [RecordBuilder.setColor, hoverloads]
  by_cases hm : (⟨name, .color⟩ : Property) ∈ store.properties
  · have hp : store.property? name = some ⟨name, .color⟩ := property?_eq_some hn hm
    rw [if_pos (by simpa using ⟨_, ⟨hm, rfl⟩, rfl⟩), setColor_eq_set log hp rfl]
    exact builder_set hn delegates log name _
  · have hnone : ∀ p, store.property? name = some p → p.category ≠ .color := by
      rintro ⟨n, category⟩ hp rfl
      obtain ⟨hq, rfl⟩ := property?_mem hp
      exact hm hq
    rw [setColor_eq_error log hnone, if_neg]
    · rfl
    · intro hmem
      obtain ⟨⟨n, category⟩, hq, rfl⟩ := List.mem_map.mp hmem
      obtain ⟨hq, hc⟩ := List.mem_filter.mp hq
      obtain rfl : category = .color := by simpa using hc
      exact hm hq

theorem builder_call (call : BuilderCall) :
    (store.builder delegates log).call call =
      (store.call log call).map (store.builder delegates) := by
  cases call with
  | set name value => exact builder_set hn delegates log name value
  | setColor name color => exact builder_setColor hn delegates log name color

/-- A callback does to the builder what it does to the log. -/
theorem builder_callback (calls : List BuilderCall) :
    untilFailure RecordBuilder.call (store.builder delegates log) calls =
      (untilFailure store.call log calls).map id (store.builder delegates) :=
  untilFailure_map (builder_call hn delegates) log calls

omit hn in
theorem builder_resolve : (store.builder delegates log).resolve = store.build log := by
  simp [RecordBuilder.resolve, builder, build, slot, Function.comp_def]

end Store

namespace FamilyStore
variable {store : FamilyStore} (hd : store.Distinct) (delegates : List DelegateSlot)
  (log : FamilyLog)

theorem builder_build : (store.builder delegates log).build = store.build log := by
  simp [StyleBuilder.build, builder, build, Store.builder_resolve]

include hd

theorem builder_call (call : StyleCall) :
    (store.builder delegates log).call call =
      (store.call log call).map id (store.builder delegates) := by
  cases call with
  | set name value =>
    have hset : (store.builder delegates log).set name value =
        ((store.style.set log.style name value).map fun style => { log with style }).map
          (store.builder delegates) := by
      have hstyle : (store.builder delegates log).style.set name value = _ :=
        Store.builder_set hd.style delegates log.style name value
      rw [StyleBuilder.set, hstyle]
      cases store.style.set log.style name value <;> rfl
    rw [StyleBuilder.call, hset]
    exact answering_map log _
  | colors callback =>
    have hcallback := Store.builder_callback hd.colors [] log.colors callback
    simp only [StyleBuilder.call, StyleBuilder.configureColors, builder, hcallback]
    rfl
  | dimensions callback =>
    have hcallback := Store.builder_callback hd.dimensions [] log.dimensions callback
    simp only [StyleBuilder.call, StyleBuilder.configureDimensions, builder, hcallback]
    rfl

/-- A run of calls does to the builder what it does to the log. -/
theorem builder_run (calls : List StyleCall) :
    (store.builder delegates log).run calls =
      (store.run log calls).map id (store.builder delegates) :=
  runCalls_map (builder_call hd delegates) log calls

end FamilyStore

/-- What a builder of a group accepts, and what it makes of plain colors. -/
structure RecordBuilder.Serves (builder : RecordBuilder) (store : Store) : Prop where
  set : ∀ name value, (builder.set name value).isOk = true ↔
    ∃ p ∈ store.properties, p.name = name ∧ value.type = p.category.valueType
  setColor : ∀ name color, (builder.setColor name color).isOk = true ↔
    ⟨name, .color⟩ ∈ store.properties
  promotes : ∀ name color, ⟨name, .color⟩ ∈ store.properties →
    builder.setColor name color = builder.set name (.color color.interactive)

theorem Store.builder_serves {store : Store} (hn : (store.properties.map Property.name).Nodup)
    (delegates : List DelegateSlot) (log : Log) : (store.builder delegates log).Serves store := by
  have hok : ∀ result : Except ModelError Log,
      (result.map (store.builder delegates)).isOk = result.isOk := by
    rintro (_ | _) <;> rfl
  refine ⟨fun name value => ?_, fun name color => ?_, fun name color hm => ?_⟩
  · rw [builder_set hn, hok, set_isOk_iff hn]
  · rw [builder_setColor hn, hok, setColor_isOk_iff hn]
  · have hp : store.property? name = some ⟨name, .color⟩ := property?_eq_some hn hm
    rw [builder_setColor hn, builder_set hn, setColor_eq_set log hp rfl]

/-- On the family of an accepted schema every run of calls answers as the schema's store answers
and builds what the store builds, and the builders it leaves accept what the store's groups
accept. -/
theorem builder_refines_store {schema : Schema} (h : Lint.accepts schema = true) :
    ∃ builder, StyleBuilder.ofArtifacts (assemble schema) = .ok builder ∧
      ∀ calls, let store := FamilyStore.ofSchema schema
        (builder.run calls).1 = (store.run {} calls).1 ∧
          (builder.run calls).2.build = store.build (store.run {} calls).2 ∧
          (builder.run calls).2.style.Serves store.style ∧
          (builder.run calls).2.colors.Serves store.colors ∧
          (builder.run calls).2.dimensions.Serves store.dimensions := by
  have hw := accepts_iff_wellNamed.mp h
  have hd := ofSchema_distinct hw
  refine ⟨_, ofArtifacts_assemble hw, fun calls => ?_⟩
  simp only [FamilyStore.builder_run hd, Prod.map_fst, Prod.map_snd, id, FamilyStore.builder_build]
  exact ⟨trivial, trivial, Store.builder_serves hd.style _ _, Store.builder_serves hd.colors _ _,
    Store.builder_serves hd.dimensions _ _⟩

/-- Calls of which one fails outright, one in the middle of its callback and one at a plain
color. -/
def buttonCalls : List StyleCall :=
  [.set "label" (.dp .eight),
    .colors [.setColor "content" .white, .set "padding" (.dp .eight),
      .setColor "background" .white],
    .set "label" (.textStyle (.named "title")), .dimensions [.setColor "padding" .white]]

theorem button_refines_store :
    Lint.accepts buttonSchema = true ∧
      ∃ builder, StyleBuilder.ofArtifacts (assemble buttonSchema) = .ok builder ∧
        (builder.run buttonCalls).1 =
          [.error (.wrongType "ButtonStyle" "label" .textStyle .dp),
            .error (.noProperty "ButtonColors" "padding"), .ok (),
            .error (.noColorSetter "ButtonDimensions" "padding")] ∧
        (builder.run buttonCalls).2.build.colors.fields =
          [("content", .color Color.white.interactive),
            ("background", .color Color.black.interactive)] := by
  have h : Lint.accepts buttonSchema = true := by decide +kernel
  obtain ⟨builder, hb, hruns⟩ := builder_refines_store h
  obtain ⟨hanswers, hbuild, _⟩ := hruns buttonCalls
  refine ⟨h, builder, hb, ?_, ?_⟩
  · rw [hanswers]
    decide +kernel
  · rw [hbuild]
    decide +kernel

end StyleFamily
