import StyleFamily.Proofs.Kotlin.Vocabulary

/-!
# The symbols of a type

A type is built from leaves, and the words of its spelling are those of its leaves, one after
another. The symbols asked for with a type are those of its leaves, wherever they stand in it, apart
from the base of styles: this one is only asked for where it is the whole type.
-/
namespace StyleFamily

/-- The types without parts that a type is built from, from left to right. -/
def TypeRef.leaves : TypeRef → List TypeRef
  | .optional inner => inner.leaves
  | .callback returns => returns.leaves
  | .callbackOn receiver returns => receiver.leaves ++ returns.leaves
  | leaf => [leaf]

def TypeRef.IsLeaf : TypeRef → Prop
  | .optional _ | .callback _ | .callbackOn _ _ => False
  | .value _ | .named _ | .styleBase | .any | .unit => True

theorem TypeRef.isLeaf_of_mem_leaves {type leaf : TypeRef} (h : leaf ∈ type.leaves) :
    leaf.IsLeaf := by
  induction type with
  | optional inner ih => exact ih h
  | callback returns ih => exact ih h
  | callbackOn receiver returns ihr ih => exact (List.mem_append.mp h).elim ihr ih
  | value | named | styleBase | any | unit =>
    obtain rfl := List.mem_singleton.mp h
    trivial

theorem TypeRef.mem_valueTypes_iff {type : TypeRef} {kind : ValueType} :
    kind ∈ type.valueTypes ↔ .value kind ∈ type.leaves := by
  induction type with
  | optional inner ih => exact ih
  | callback returns ih => exact ih
  | callbackOn receiver returns ihr ih =>
    rw [valueTypes, leaves, List.mem_append, List.mem_append, ihr, ih]
  | value | named | styleBase | any | unit => simp [valueTypes, leaves]

namespace Kotlin

/-- The leaves that are no names. -/
def builtins : List TypeRef :=
  [.value .shape, .value .shadowAppearance, .value .textStyle, .value .float,
    .value .interactiveColor, .value .color, .value .dp, .styleBase, .any, .unit]

theorem mem_builtins {leaf : TypeRef} (h : leaf.IsLeaf) (hn : ∀ name, leaf ≠ .named name) :
    leaf ∈ builtins := by
  cases leaf with
  | value kind => cases kind <;> decide
  | named name => exact absurd rfl (hn name)
  | optional | callback | callbackOn => cases h
  | styleBase | any | unit => decide

/-- Each of them is spelled in its own way. -/
theorem builtins_inj {leaf other : TypeRef} (hl : leaf ∈ builtins) (ho : other ∈ builtins)
    (h : spellType leaf = spellType other) : leaf = other := by
  have hnodup : (builtins.map spellType).Nodup := by decide
  exact List.inj_on_of_nodup_map hnodup hl ho h

/-- The names in a type are identifiers. -/
def NamesIdentifiers (type : TypeRef) : Prop :=
  ∀ name, .named name ∈ type.leaves → isIdentifier name = true

theorem spelled_typeWords (type : TypeRef) :
    (typeWords type).map Word.spelled = type.leaves.map spellType := by
  induction type with
  | optional inner ih => exact ih
  | callback returns ih => exact ih
  | callbackOn receiver returns ihr ih =>
    rw [typeWords, TypeRef.leaves, List.map_append, List.map_append, ihr, ih]
  | value | named | styleBase | any | unit => rfl

theorem valid_typeWords {type : TypeRef} (h : NamesIdentifiers type) :
    ∀ word ∈ typeWords type, word.Valid := by
  induction type with
  | optional inner ih => exact ih h
  | callback returns ih => exact ih h
  | callbackOn receiver returns ihr ih =>
    exact List.forall_mem_append.mpr ⟨ihr fun name hm => h name (List.mem_append_left _ hm),
      ih fun name hm => h name (List.mem_append_right _ hm)⟩
  | named name =>
    intro word hm
    obtain rfl := List.mem_singleton.mp hm
    exact h name (List.mem_singleton_self _)
  | value | styleBase | any | unit =>
    intro word hm
    obtain rfl := List.mem_singleton.mp hm
    trivial

/-- Optionals and functions only put marks between the words of their leaves. -/
theorem words_spellType {type : TypeRef} (h : NamesIdentifiers type) :
    words (spellType type) = type.leaves.map spellType :=
  (lexes_type (valid_typeWords h)).words.trans (spelled_typeWords type)

/-- The symbol that a leaf is spelled with, if it is one of a library. -/
def leafSymbol? : TypeRef → Option Symbol
  | .value .shape => some ⟨"androidx.compose.ui.graphics", "Shape"⟩
  | .value .shadowAppearance => some ⟨"com.sdds.compose.uikit.shadow", "ShadowAppearance"⟩
  | .value .textStyle => some ⟨"androidx.compose.ui.text", "TextStyle"⟩
  | .value .interactiveColor => some ⟨"com.sdds.compose.uikit.interactions", "InteractiveColor"⟩
  | .value .color => some ⟨"androidx.compose.ui.graphics", "Color"⟩
  | .value .dp => some ⟨"androidx.compose.ui.unit", "Dp"⟩
  | .styleBase => some ⟨"com.sdds.compose.uikit.style", "Style"⟩
  | .value .float | .named _ | .optional _ | .callback _ | .callbackOn _ _ | .any | .unit => none

/-- Value types are imported as what they are spelled with. -/
theorem leafSymbol?_value (kind : ValueType) : leafSymbol? (.value kind) = typeSymbol? kind := by
  cases kind <;> rfl

theorem spellType_of_leafSymbol? {leaf : TypeRef} {symbol : Symbol}
    (h : symbol ∈ leafSymbol? leaf) : spellType leaf = symbol.name := by
  cases leaf with
  | value kind =>
    cases kind with
    | float => cases h
    | shape | shadowAppearance | textStyle | interactiveColor | color | dp =>
      obtain rfl := Option.some.inj h
      rfl
  | styleBase =>
    obtain rfl := Option.some.inj h
    rfl
  | named | optional | callback | callbackOn | any | unit => cases h

/-- A leaf that is spelled like a library symbol stands for this symbol or is a name. -/
theorem eq_of_spellType_eq (leaf : TypeRef) {other : TypeRef} {symbol : Symbol}
    (h : symbol ∈ leafSymbol? leaf) (ho : other.IsLeaf) (hs : spellType other = symbol.name) :
    other = leaf ∨ other = .named symbol.name := by
  have hbuiltin : leaf ∈ builtins := by
    cases leaf with
    | value | styleBase => exact mem_builtins trivial nofun
    | named | optional | callback | callbackOn | any | unit => cases h
  by_cases hn : ∃ name, other = .named name
  · obtain ⟨name, rfl⟩ := hn
    exact .inr (congrArg TypeRef.named hs)
  · exact .inl (builtins_inj (mem_builtins ho (not_exists.mp hn)) hbuiltin
      (hs.trans (spellType_of_leafSymbol? h).symm))

theorem mem_typeSymbols_iff {type : TypeRef} {symbol : Symbol} :
    symbol ∈ typeSymbols type ↔ ∃ leaf ∈ type.leaves, symbol ∈ leafSymbol? leaf ∧
      (leaf = .styleBase → type = .styleBase) := by
  rw [typeSymbols, List.mem_append, List.mem_filterMap]
  constructor
  · rintro (⟨kind, hkind, hsymbol⟩ | hstyle)
    · exact ⟨.value kind, TypeRef.mem_valueTypes_iff.mp hkind,
        (leafSymbol?_value kind).trans hsymbol, nofun⟩
    · split at hstyle
      · next htype =>
        obtain rfl := List.mem_singleton.mp hstyle
        subst htype
        exact ⟨.styleBase, List.mem_singleton_self _, rfl, fun _ => rfl⟩
      · cases hstyle
  · rintro ⟨leaf, hleaf, hsymbol, hwhole⟩
    cases leaf with
    | value kind =>
      exact .inl ⟨kind, TypeRef.mem_valueTypes_iff.mpr hleaf,
        (leafSymbol?_value kind).symm.trans hsymbol⟩
    | styleBase =>
      rw [if_pos (hwhole rfl)]
      exact .inr (List.mem_singleton.mpr (Option.some.inj hsymbol).symm)
    | named | optional | callback | callbackOn | any | unit => cases hsymbol

theorem name_mem_words_iff {type leaf : TypeRef} {symbol : Symbol} (h : NamesIdentifiers type)
    (hs : symbol ∈ leafSymbol? leaf) :
    symbol.name ∈ words (spellType type) ↔
      leaf ∈ type.leaves ∨ .named symbol.name ∈ type.leaves := by
  rw [words_spellType h, List.mem_map]
  constructor
  · rintro ⟨other, ho, hspelling⟩
    rcases eq_of_spellType_eq leaf hs (TypeRef.isLeaf_of_mem_leaves ho) hspelling with rfl | rfl
    · exact .inl ho
    · exact .inr ho
  · rintro (hleaf | hnamed)
    · exact ⟨leaf, hleaf, spellType_of_leafSymbol? hs⟩
    · exact ⟨_, hnamed, rfl⟩

/-- The symbols asked for with a type are those of its leaves, however deep they stand, and no
others, except for the base of styles inside another type. A library symbol's name stands in the
spelling exactly if its leaf is one of the leaves, unless a declaration has the same name. So
everything that the spelling needs is asked for exactly if the base of styles occurs only as the
whole type. -/
theorem typeSymbols_complete_iff (type : TypeRef) :
    (∀ symbol, symbol ∈ typeSymbols type ↔ ∃ leaf ∈ type.leaves, symbol ∈ leafSymbol? leaf ∧
      (leaf = .styleBase → type = .styleBase)) ∧
    (NamesIdentifiers type → ∀ leaf, ∀ symbol ∈ leafSymbol? leaf,
      (symbol.name ∈ words (spellType type) ↔
        leaf ∈ type.leaves ∨ .named symbol.name ∈ type.leaves)) ∧
    ((∀ leaf ∈ type.leaves, ∀ symbol ∈ leafSymbol? leaf, symbol ∈ typeSymbols type) ↔
      (.styleBase ∈ type.leaves → type = .styleBase)) := by
  refine ⟨fun _ => mem_typeSymbols_iff, fun h _ _ hs => name_mem_words_iff h hs, ?_, ?_⟩
  · intro hall hstyle
    obtain ⟨leaf, hleaf, hsymbol, hwhole⟩ := mem_typeSymbols_iff.mp (hall .styleBase hstyle _ rfl)
    refine hwhole ?_
    rcases eq_of_spellType_eq .styleBase rfl (TypeRef.isLeaf_of_mem_leaves hleaf)
      (spellType_of_leafSymbol? hsymbol) with hstyle | hnamed
    · exact hstyle
    · rw [hnamed] at hsymbol
      cases hsymbol
  · intro hwhole leaf hleaf symbol hsymbol
    refine mem_typeSymbols_iff.mpr ⟨leaf, hleaf, hsymbol, ?_⟩
    rintro rfl
    exact hwhole hleaf

/-- A function on an icon's type that returns one from a color to a style or nothing. -/
def iconStyle : TypeRef :=
  .callbackOn (.named "Icon") (.callbackOn (.value .interactiveColor) (.optional .styleBase))

/-- Of the two library types that are spelled in it, only the color's is asked for. -/
theorem iconStyle_symbols :
    NamesIdentifiers iconStyle ∧ spellType iconStyle = "Icon.() -> InteractiveColor.() -> Style?" ∧
    ⟨"com.sdds.compose.uikit.interactions", "InteractiveColor"⟩ ∈ typeSymbols iconStyle ∧
    "InteractiveColor" ∈ words (spellType iconStyle) ∧ "Style" ∈ words (spellType iconStyle) ∧
    ¬ ∀ leaf ∈ iconStyle.leaves, ∀ symbol ∈ leafSymbol? leaf, symbol ∈ typeSymbols iconStyle := by
  have hnames : NamesIdentifiers iconStyle := by
    intro name hm
    have hname : name = "Icon" := by simpa [iconStyle, TypeRef.leaves] using hm
    rw [hname]
    decide
  obtain ⟨hsymbols, hwords, hcomplete⟩ := typeSymbols_complete_iff iconStyle
  have hcolor : .value .interactiveColor ∈ iconStyle.leaves := by decide
  have hstyle : .styleBase ∈ iconStyle.leaves := by decide
  exact ⟨hnames, by decide, (hsymbols _).mpr ⟨_, hcolor, rfl, nofun⟩,
    (hwords hnames (.value .interactiveColor) _ rfl).mpr (.inl hcolor),
    (hwords hnames .styleBase _ rfl).mpr (.inl hstyle),
    fun h => absurd (hcomplete.mp h hstyle) (by decide)⟩

/-- An optional shape is spelled with the name of the library's type, whose symbol is asked for. An
optional style is spelled with the name of the base of styles, and no symbol is asked for. -/
theorem optional_style_without_symbol :
    spellType (.optional (.value .shape)) = "Shape?" ∧
    typeSymbols (.optional (.value .shape)) = [⟨"androidx.compose.ui.graphics", "Shape"⟩] ∧
    spellType (.optional .styleBase) = "Style?" ∧
    "Style" ∈ words (spellType (.optional .styleBase)) ∧
    ⟨"com.sdds.compose.uikit.style", "Style"⟩ ∉ typeSymbols (.optional .styleBase) := by
  decide

end Kotlin
end StyleFamily
