import Mathlib.Data.List.Nodup
import StyleFamily.Model.Style

/-!
# Calls on a style builder and the store they amount to

A client sets properties of a style one call at a time and configures its colors and dimensions in
callbacks, which stop at their first failing call. The store of a family answers the same calls
from the properties alone: it keeps a log of what was set, and every property has the value it was
set to last.
-/
namespace StyleFamily

/-- A call on the builder of a group. -/
inductive BuilderCall
  | set (name : String) (value : Value)
  | setColor (name : String) (color : Color)

/-- A call on the builder of a style. A callback is the calls it makes as long as none fails. -/
inductive StyleCall
  | set (name : String) (value : Value)
  | colors (callback : List BuilderCall)
  | dimensions (callback : List BuilderCall)

section
variable {σ κ ε : Type}

/-- A call with its answer; a failing call leaves the state as it was. -/
def answering (state : σ) : Except ε σ → Except ε Unit × σ
  | .ok next => (.ok (), next)
  | .error e => (.error e, state)

/-- The calls up to the first that fails; what was done before it stays done. -/
def untilFailure (step : σ → κ → Except ε σ) (state : σ) : List κ → Except ε Unit × σ
  | [] => (.ok (), state)
  | call :: rest =>
    match step state call with
    | .ok next => untilFailure step next rest
    | .error e => (.error e, state)

/-- All calls one after another, with the answer to each. -/
def runCalls (step : σ → κ → Except ε Unit × σ) (state : σ) :
    List κ → List (Except ε Unit) × σ
  | [] => ([], state)
  | call :: rest =>
    let (answer, next) := step state call
    let (answers, last) := runCalls step next rest
    (answer :: answers, last)

end

def RecordBuilder.call (builder : RecordBuilder) : BuilderCall → Except ModelError RecordBuilder
  | .set name value => builder.set name value
  | .setColor name color => builder.setColor name color

namespace StyleBuilder

def call (builder : StyleBuilder) : StyleCall → Except ModelError Unit × StyleBuilder
  | .set name value => answering builder (builder.set name value)
  | .colors callback => builder.configureColors (untilFailure RecordBuilder.call · callback)
  | .dimensions callback => builder.configureDimensions (untilFailure RecordBuilder.call · callback)

def run (builder : StyleBuilder) (calls : List StyleCall) :
    List (Except ModelError Unit) × StyleBuilder :=
  runCalls call builder calls

end StyleBuilder

/-- What was set, the latest first. -/
abbrev Log := List (String × Value)

/-- The properties of a group and the type of the record they make up. -/
structure Store where
  typeName : String
  properties : List Property

namespace Store

/-- The property of a name. -/
def property? (store : Store) (name : String) : Option Property :=
  store.properties.find? (·.name == name)

/-- A property takes the values of its category. -/
def set (store : Store) (log : Log) (name : String) (value : Value) : Except ModelError Log :=
  match store.property? name with
  | none => .error (.noProperty store.typeName name)
  | some p =>
    if value.type = p.category.valueType then .ok ((name, value) :: log)
    else .error (.wrongType store.typeName name p.category.valueType value.type)

/-- A color property takes a plain color as the interactive one. -/
def setColor (store : Store) (log : Log) (name : String) (color : Color) :
    Except ModelError Log :=
  match store.property? name with
  | some ⟨_, .color⟩ => .ok ((name, .color color.interactive) :: log)
  | _ => .error (.noColorSetter store.typeName name)

def call (store : Store) (log : Log) : BuilderCall → Except ModelError Log
  | .set name value => store.set log name value
  | .setColor name color => store.setColor log name color

/-- Every property in declaration order, with what it was set to last or else its default. -/
def build (store : Store) (log : Log) : Record where
  typeName := store.typeName
  fields := store.properties.map fun p =>
    (p.name, (log.lookup p.name).getD p.category.defaultValue)

end Store

/-- The stores of a style, its colors and its dimensions. -/
structure FamilyStore where
  style : Store
  colors : Store
  dimensions : Store

/-- What was set in each group. -/
structure FamilyLog where
  style : Log := []
  colors : Log := []
  dimensions : Log := []

namespace FamilyStore

/-- The store of a component: the style holds the properties of four categories, the two other
groups those of one. -/
def ofSchema (schema : Schema) : FamilyStore :=
  let properties := schema.properties
  { style :=
      { typeName := schema.name ++ "Style"
        properties := properties.typography.map (⟨·, .typography⟩) ++
          properties.shape.map (⟨·, .shape⟩) ++ properties.shadow.map (⟨·, .shadow⟩) ++
          properties.floatValue.map (⟨·, .floatValue⟩) }
    colors :=
      { typeName := schema.name ++ "Colors"
        properties := properties.color.map (⟨·, .color⟩) }
    dimensions :=
      { typeName := schema.name ++ "Dimensions"
        properties := properties.dimension.map (⟨·, .dimension⟩) } }

def call (store : FamilyStore) (log : FamilyLog) : StyleCall → Except ModelError Unit × FamilyLog
  | .set name value =>
    answering log ((store.style.set log.style name value).map fun style => { log with style })
  | .colors callback =>
    let (answer, colors) := untilFailure store.colors.call log.colors callback
    (answer, { log with colors })
  | .dimensions callback =>
    let (answer, dimensions) := untilFailure store.dimensions.call log.dimensions callback
    (answer, { log with dimensions })

def run (store : FamilyStore) (log : FamilyLog) (calls : List StyleCall) :
    List (Except ModelError Unit) × FamilyLog :=
  runCalls store.call log calls

def build (store : FamilyStore) (log : FamilyLog) : Style where
  properties := store.style.build log.style
  colors := store.colors.build log.colors
  dimensions := store.dimensions.build log.dimensions

end FamilyStore

namespace Store
variable {store : Store} (hn : (store.properties.map Property.name).Nodup)

theorem property?_mem {name : String} {p : Property} (h : store.property? name = some p) :
    p ∈ store.properties ∧ p.name = name :=
  ⟨List.mem_of_find?_eq_some h, by simpa using List.find?_some h⟩

include hn in
theorem property?_eq_some {p : Property} (h : p ∈ store.properties) :
    store.property? p.name = some p := by
  obtain ⟨q, hq⟩ := Option.isSome_iff_exists.mp
    (show (store.property? p.name).isSome = true from List.find?_isSome.mpr ⟨p, h, by simp⟩)
  obtain ⟨hm, he⟩ := property?_mem hq
  rw [hq, List.inj_on_of_nodup_map hn hm h he]

include hn in
/-- Setting succeeds on the properties of the group, with a value of their category. -/
theorem set_isOk_iff (log : Log) (name : String) (value : Value) :
    (store.set log name value).isOk = true ↔
      ∃ p ∈ store.properties, p.name = name ∧ value.type = p.category.valueType := by
  constructor
  · intro h
    rw [set] at h
    rcases hp : store.property? name with _ | p
    · simp [hp, Except.isOk, Except.toBool] at h
    · obtain ⟨hm, he⟩ := property?_mem hp
      refine ⟨p, hm, he, ?_⟩
      by_contra hne
      simp [hp, hne, Except.isOk, Except.toBool] at h
  · rintro ⟨p, hm, rfl, ht⟩
    simp [set, property?_eq_some hn hm, ht, Except.isOk, Except.toBool]

/-- On a color property a plain color is set as the interactive one. -/
theorem setColor_eq_set (log : Log) {name : String} {p : Property}
    (hp : store.property? name = some p) (hc : p.category = .color) (color : Color) :
    store.setColor log name color = store.set log name (.color color.interactive) := by
  obtain ⟨_, category⟩ := p
  obtain rfl : category = .color := hc
  simp [setColor, set, hp, Value.type, Category.valueType]

theorem setColor_eq_error (log : Log) {name : String}
    (h : ∀ p, store.property? name = some p → p.category ≠ .color) (color : Color) :
    store.setColor log name color = .error (.noColorSetter store.typeName name) := by
  rw [setColor]
  split
  · next hp => exact absurd rfl (h _ hp)
  · rfl

include hn in
/-- A plain color is taken exactly by the color properties of the group. -/
theorem setColor_isOk_iff (log : Log) (name : String) (color : Color) :
    (store.setColor log name color).isOk = true ↔ ⟨name, .color⟩ ∈ store.properties := by
  constructor
  · intro h
    by_contra hm
    rw [setColor_eq_error] at h
    · simp [Except.isOk, Except.toBool] at h
    · rintro ⟨n, category⟩ hp rfl
      obtain ⟨hq, rfl⟩ := property?_mem hp
      exact hm hq
  · intro hm
    have hp : store.property? name = some ⟨name, .color⟩ := property?_eq_some hn hm
    simp [setColor, hp, Except.isOk, Except.toBool]

end Store
end StyleFamily
