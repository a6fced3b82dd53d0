import StyleFamily.Proofs.Kotlin.TypeSymbols
import StyleFamily.Proofs.Text.Cut

/-!
# Reading spelled types

A reader that goes through the spelling of a type from left to right finds the type again, as long
as no receiver is a function: a function on a receiver is spelled without parentheses around the
receiver, so the arrows of the receiver are read as those of the whole type.
-/
namespace StyleFamily

namespace TypeRef

def isFunction : TypeRef → Bool
  | .callback _ | .callbackOn _ _ => true
  | .value _ | .named _ | .optional _ | .styleBase | .any | .unit => false

/-- Whether a function stands anywhere in the type. -/
def hasFunction : TypeRef → Bool
  | .callback _ | .callbackOn _ _ => true
  | .optional inner => inner.hasFunction
  | .value _ | .named _ | .styleBase | .any | .unit => false

theorem isFunction_of_hasFunction {type : TypeRef} (h : type.hasFunction = false) :
    type.isFunction = false := by
  cases type with
  | callback | callbackOn => cases h
  | value | named | optional | styleBase | any | unit => rfl

/-- No receiver in the type is a function. -/
def PlainReceivers : TypeRef → Prop
  | .optional inner => inner.PlainReceivers
  | .callback returns => returns.PlainReceivers
  | .callbackOn receiver returns =>
    receiver.isFunction = false ∧ receiver.PlainReceivers ∧ returns.PlainReceivers
  | .value _ | .named _ | .styleBase | .any | .unit => True

/-- A function on a receiver as it is read: a receiver that is a function comes first, and what it
returns becomes the receiver. -/
def onReceiver : TypeRef → TypeRef → TypeRef
  | .callback inner, returns => .callback (onReceiver inner returns)
  | .callbackOn receiver inner, returns => .callbackOn receiver (onReceiver inner returns)
  | receiver, returns => .callbackOn receiver returns

/-- What the spelling of a type is read as. -/
def reading : TypeRef → TypeRef
  | .optional inner => .optional inner.reading
  | .callback returns => .callback returns.reading
  | .callbackOn receiver returns => onReceiver receiver.reading returns.reading
  | leaf => leaf

theorem onReceiver_eq {receiver : TypeRef} (h : receiver.isFunction = false) (returns : TypeRef) :
    onReceiver receiver returns = .callbackOn receiver returns := by
  cases receiver with
  | callback | callbackOn => cases h
  | value | named | optional | styleBase | any | unit => rfl

theorem leaves_onReceiver (receiver returns : TypeRef) :
    (onReceiver receiver returns).leaves = receiver.leaves ++ returns.leaves := by
  induction receiver with
  | callback inner ih => exact ih
  | callbackOn receiver inner _ ih => simp [onReceiver, leaves, ih]
  | value | named | optional | styleBase | any | unit => rfl

theorem leaves_reading (type : TypeRef) : type.reading.leaves = type.leaves := by
  induction type with
  | optional inner ih => exact ih
  | callback returns ih => exact ih
  | callbackOn receiver returns ihr ih => rw [reading, leaves_onReceiver, ihr, ih, leaves]
  | value | named | styleBase | any | unit => rfl

theorem plainReceivers_onReceiver {receiver returns : TypeRef} (hr : receiver.PlainReceivers)
    (h : returns.PlainReceivers) : (onReceiver receiver returns).PlainReceivers := by
  induction receiver with
  | callback inner ih => exact ih hr
  | callbackOn receiver inner _ ih => exact ⟨hr.1, hr.2.1, ih hr.2.2⟩
  | value | named | optional | styleBase | any | unit => exact ⟨rfl, hr, h⟩

theorem plainReceivers_reading (type : TypeRef) : type.reading.PlainReceivers := by
  induction type with
  | optional inner ih => exact ih
  | callback returns ih => exact ih
  | callbackOn receiver returns ihr ih => exact plainReceivers_onReceiver ihr ih
  | value | named | styleBase | any | unit => trivial

theorem reading_eq_iff {type : TypeRef} : type.reading = type ↔ type.PlainReceivers := by
  refine ⟨fun h => h ▸ type.plainReceivers_reading, fun h => ?_⟩
  induction type with
  | optional inner ih => rw [reading, ih h]
  | callback returns ih => rw [reading, ih h]
  | callbackOn receiver returns ihr ih =>
    obtain ⟨hfunction, hreceiver, hreturns⟩ := h
    rw [reading, ihr hreceiver, ih hreturns, onReceiver_eq hfunction]
  | value | named | styleBase | any | unit => rfl

end TypeRef

namespace Kotlin

/-- The names in a type are identifiers, and none of them is spelled like another leaf. -/
def NamesDeclarations (type : TypeRef) : Prop :=
  ∀ name, .named name ∈ type.leaves → isIdentifier name = true ∧ name ∉ builtins.map spellType

theorem spellType_onReceiver (receiver returns : TypeRef) :
    spellType (.onReceiver receiver returns) =
      spellType receiver ++ ".() -> " ++ spellType returns := by
  induction receiver with
  | callback inner ih =>
    rw [TypeRef.onReceiver, spellType, ih, spellType]
    simp only [String.append_assoc]
  | callbackOn receiver inner _ ih =>
    rw [TypeRef.onReceiver, spellType, ih, spellType]
    simp only [String.append_assoc]
  | value | named | optional | styleBase | any | unit => rfl

theorem spellType_reading (type : TypeRef) : spellType type.reading = spellType type := by
  induction type with
  | optional inner ih => rw [TypeRef.reading, spellType, ih, spellType]
  | callback returns ih => rw [TypeRef.reading, spellType, ih, spellType]
  | callbackOn receiver returns ihr ih =>
    rw [TypeRef.reading, spellType_onReceiver, ihr, ih, spellType]
  | value | named | styleBase | any | unit => rfl

theorem toList_callback (returns : TypeRef) : (spellType (.callback returns)).toList =
    '(' :: ')' :: ' ' :: '-' :: '>' :: ' ' :: (spellType returns).toList := by
  rw [spellType, String.toList_append]
  rfl

theorem toList_callbackOn (receiver returns : TypeRef) :
    (spellType (.callbackOn receiver returns)).toList = (spellType receiver).toList ++
      '.' :: '(' :: ')' :: ' ' :: '-' :: '>' :: ' ' :: (spellType returns).toList := by
  rw [spellType, String.toList_append, String.toList_append, List.append_assoc]
  rfl

/-- A leaf is spelled with characters of names only. -/
theorem isIdentifier_leaf {leaf : TypeRef} (hl : leaf.IsLeaf) (h : NamesDeclarations leaf) :
    isIdentifier (spellType leaf) = true := by
  cases leaf with
  | value kind => cases kind <;> decide
  | named name => exact (h name (List.mem_singleton_self _)).1
  | optional | callback | callbackOn => cases hl
  | styleBase | any | unit => decide

theorem exists_cons_leaf {leaf : TypeRef} (hl : leaf.IsLeaf) (h : NamesDeclarations leaf) :
    ∃ c rest, (spellType leaf).toList = c :: rest ∧ isNamePart c = true := by
  have hname := isIdentifier_leaf hl h
  obtain ⟨c, rest, hc⟩ := List.exists_cons_of_ne_nil fun he =>
    ne_empty_of_isIdentifier hname (String.toList_eq_nil_iff.mp he)
  exact ⟨c, rest, hc, isNamePart_of_mem hname (by rw [hc]; exact List.mem_cons_self)⟩

theorem contains_arrow_iff {text : String} :
    Text.contains text "->" = true ↔ ['-', '>'] <:+: text.toList := Text.occursIn_iff

theorem arrow_infix {type : TypeRef} (h : type.hasFunction = true) :
    ['-', '>'] <:+: (spellType type).toList := by
  induction type with
  | optional inner ih =>
    have hinner : (spellType inner).toList <:+: (optionalOf (spellType inner)).toList := by
      rw [optionalOf, if_pos (contains_arrow_iff.mpr (ih h)), String.toList_append,
        String.toList_append]
      exact List.infix_append _ _ _
    exact (ih h).trans hinner
  | callback returns =>
    exact ⟨"() ".toList, ' ' :: (spellType returns).toList, by simp [spellType]⟩
  | callbackOn receiver returns =>
    exact ⟨(spellType receiver).toList ++ ".() ".toList, ' ' :: (spellType returns).toList,
      by simp [spellType]⟩
  | value | named | styleBase | any | unit => cases h

theorem dash_notMem {type : TypeRef} (hn : NamesDeclarations type) (h : type.hasFunction = false) :
    '-' ∉ (spellType type).toList := by
  have hleaf : ∀ leaf : TypeRef, leaf.IsLeaf → NamesDeclarations leaf →
      '-' ∉ (spellType leaf).toList := fun _ hl hn =>
    notMem_of_isIdentifier (isIdentifier_leaf hl hn) (by decide)
  induction type with
  | optional inner ih =>
    have hnone : ¬ Text.contains (spellType inner) "->" = true := fun hc =>
      ih hn h ((contains_arrow_iff.mp hc).subset List.mem_cons_self)
    rw [spellType, optionalOf, if_neg hnone, String.toList_append, List.mem_append, not_or]
    exact ⟨ih hn h, by decide⟩
  | callback | callbackOn => cases h
  | value | named | styleBase | any | unit => exact hleaf _ trivial hn

/-- Parentheses stand around an optional type exactly if there is a function in it. -/
theorem spellType_optional (inner : TypeRef) (h : NamesDeclarations inner) :
    spellType (.optional inner) = if inner.hasFunction then "(" ++ spellType inner ++ ")?"
      else spellType inner ++ "?" := by
  have harrow : Text.contains (spellType inner) "->" = inner.hasFunction := by
    rw [Bool.eq_iff_iff, contains_arrow_iff]
    refine ⟨fun hoccurs => ?_, arrow_infix⟩
    by_contra hnone
    exact dash_notMem h (eq_false_of_ne_true hnone) (hoccurs.subset List.mem_cons_self)
  rw [spellType, optionalOf, harrow]

/-- Marks of optional types after a type. -/
def readMarks : TypeRef → List Char → TypeRef × List Char
  | type, '?' :: rest => readMarks (.optional type) rest
  | type, rest => (type, rest)

/-- The leaf of a name. -/
def leafOf (name : String) : TypeRef := (builtins.find? (spellType · = name)).getD (.named name)

/-- Reads a type that is no function; what stands in parentheses is read by the given reader. -/
def readOperand (readInner : List Char → Option (TypeRef × List Char)) :
    List Char → Option (TypeRef × List Char)
  | '(' :: cs => (readInner cs).map fun (inner, rest) => (.optional inner, rest.drop 2)
  | cs => some (readMarks (leafOf (String.ofList (cs.takeWhile isNamePart)))
      (cs.dropWhile isNamePart))

/-- Reads what a function returns, if what was read so far is its receiver. -/
def readReturns (readInner : List Char → Option (TypeRef × List Char)) :
    TypeRef × List Char → Option (TypeRef × List Char)
  | (operand, '.' :: cs) =>
    (readInner (cs.drop 6)).map fun (returns, rest) => (.callbackOn operand returns, rest)
  | read => some read

/-- Reads a type from left to right and leaves what stands after it; each function and each pair of
parentheses takes one unit of fuel. -/
def readType : Nat → List Char → Option (TypeRef × List Char)
  | 0, _ => none
  | fuel + 1, '(' :: ')' :: cs =>
    (readType fuel (cs.drop 4)).map fun (returns, rest) => (.callback returns, rest)
  | fuel + 1, cs => (readOperand (readType fuel) cs).bind (readReturns (readType fuel))

theorem readType_of_operand {fuel : Nat} {cs : List Char} (h : ∀ more, cs ≠ '(' :: ')' :: more) :
    readType (fuel + 1) cs =
      (readOperand (readType fuel) cs).bind (readReturns (readType fuel)) := by
  rw [readType]
  exact h

/-- A rest that can stand after a type. -/
def EndsType (rest : List Char) : Prop := ∀ c ∈ rest.head?, c = ')'

/-- A rest that can stand after a type that is no function. -/
def EndsOperand (rest : List Char) : Prop := ∀ c ∈ rest.head?, c = ')' ∨ c = '.'

theorem leafOf_spellType {leaf : TypeRef} (hl : leaf.IsLeaf) (h : NamesDeclarations leaf) :
    leafOf (spellType leaf) = leaf := by
  by_cases hn : ∃ name, leaf = .named name
  · obtain ⟨name, rfl⟩ := hn
    have hnone : builtins.find? (spellType · = name) = none := by
      rw [List.find?_eq_none]
      intro builtin hm hspelling
      exact (h name (List.mem_singleton_self _)).2
        (List.mem_map.mpr ⟨builtin, hm, by simpa using hspelling⟩)
    rw [leafOf, spellType, hnone]
    rfl
  · have hm := mem_builtins hl (not_exists.mp hn)
    obtain ⟨found, hfound⟩ : ∃ found, builtins.find? (spellType · = spellType leaf) = some found :=
      Option.isSome_iff_exists.mp (List.find?_isSome.mpr ⟨leaf, hm, by simp⟩)
    have hspelling : spellType found = spellType leaf := by simpa using List.find?_some hfound
    rw [leafOf, hfound]
    exact builtins_inj (List.mem_of_find?_eq_some hfound) hm hspelling

/-- Characters of a name, up to the first that is none. -/
theorem takeWhile_name {name rest : List Char} (hn : ∀ c ∈ name, isNamePart c = true)
    (hr : ∀ c ∈ rest.head?, isNamePart c = false) :
    (name ++ rest).takeWhile isNamePart = name ∧ (name ++ rest).dropWhile isNamePart = rest := by
  rw [List.takeWhile_append_of_pos hn, List.dropWhile_append_of_pos hn]
  cases rest with
  | nil => simp
  | cons c rest =>
    have hc : isNamePart c = false := hr c rfl
    simp [hc]

theorem readOperand_leaf {leaf : TypeRef} (hl : leaf.IsLeaf) (hn : NamesDeclarations leaf)
    {readInner : List Char → Option (TypeRef × List Char)} {rest : List Char}
    (hrest : ∀ c ∈ rest.head?, isNamePart c = false) :
    readOperand readInner ((spellType leaf).toList ++ rest) = some (readMarks leaf rest) := by
  obtain ⟨htake, hdrop⟩ := takeWhile_name
    (fun _ hc => isNamePart_of_mem (isIdentifier_leaf hl hn) hc) hrest
  obtain ⟨c, more, hc, hpart⟩ := exists_cons_leaf hl hn
  have hopening : c ≠ '(' := by
    rintro rfl
    exact absurd hpart (by decide)
  have hoperand : readOperand readInner ((spellType leaf).toList ++ rest) =
      some (readMarks (leafOf (String.ofList
        (((spellType leaf).toList ++ rest).takeWhile isNamePart)))
          (((spellType leaf).toList ++ rest).dropWhile isNamePart)) := by
    rw [hc, List.cons_append, readOperand]
    exact fun cs he => hopening (List.cons.inj he).1
  rw [hoperand, htake, hdrop, String.ofList_toList, leafOf_spellType hl hn]

/-- A type without functions is its leaf and the marks after it. -/
theorem readOperand_marks {type : TypeRef} (hn : NamesDeclarations type)
    (h : type.hasFunction = false) {readInner : List Char → Option (TypeRef × List Char)}
    {rest : List Char} (hrest : ∀ c ∈ rest.head?, isNamePart c = false) :
    readOperand readInner ((spellType type).toList ++ rest) = some (readMarks type rest) := by
  induction type generalizing rest with
  | optional inner ih =>
    have hinner : inner.hasFunction = false := h
    rw [spellType_optional inner hn, if_neg (by simp [hinner]), String.toList_append,
      List.append_assoc]
    exact ih hn h (by simp; decide)
  | callback | callbackOn => cases h
  | value | named | styleBase | any | unit =>
    refine readOperand_leaf ?_ hn hrest
    trivial

theorem readMarks_of_endsOperand (type : TypeRef) {rest : List Char} (h : EndsOperand rest) :
    readMarks type rest = (type, rest) := by
  rcases rest with _ | ⟨c, rest⟩
  · rfl
  · rcases h c rfl with rfl | rfl <;> rfl

theorem isNamePart_of_endsOperand {rest : List Char} (h : EndsOperand rest) :
    ∀ c ∈ rest.head?, isNamePart c = false := by
  intro c hc
  rcases h c hc with rfl | rfl <;> decide

/-- No spelling begins like the end of another one. -/
theorem exists_cons_spellType (type : TypeRef) (hn : NamesDeclarations type) :
    ∃ c rest, (spellType type).toList = c :: rest ∧ c ≠ ')' := by
  have hleaf : ∀ leaf : TypeRef, leaf.IsLeaf → NamesDeclarations leaf →
      ∃ c rest, (spellType leaf).toList = c :: rest ∧ c ≠ ')' := by
    intro leaf hl hn
    obtain ⟨c, rest, hc, hpart⟩ := exists_cons_leaf hl hn
    refine ⟨c, rest, hc, ?_⟩
    rintro rfl
    exact absurd hpart (by decide)
  induction type with
  | optional inner ih =>
    rw [spellType_optional inner hn]
    split
    · exact ⟨'(', _, by simp; rfl, by decide⟩
    · obtain ⟨c, rest, hc, hne⟩ := ih hn
      exact ⟨c, rest ++ ['?'], by simp [hc], hne⟩
  | callback returns => exact ⟨'(', _, by simp [spellType]; rfl, by decide⟩
  | callbackOn receiver returns ih =>
    obtain ⟨c, rest, hc, hne⟩ := ih fun name hm => hn name (List.mem_append_left _ hm)
    exact ⟨c, _, by simp [spellType, hc]; rfl, hne⟩
  | value | named | styleBase | any | unit => exact hleaf _ trivial hn

/-- Parentheses that hold nothing only begin a function. -/
theorem spellType_ne_unit {type : TypeRef} (hn : NamesDeclarations type)
    (h : type.isFunction = false) (rest more : List Char) :
    (spellType type).toList ++ rest ≠ '(' :: ')' :: more := by
  have hleaf : ∀ leaf : TypeRef, leaf.IsLeaf → NamesDeclarations leaf → ∀ rest,
      (spellType leaf).toList ++ rest ≠ '(' :: ')' :: more := by
    intro leaf hl hn rest he
    obtain ⟨c, tail, hc, hpart⟩ := exists_cons_leaf hl hn
    rw [hc] at he
    obtain ⟨rfl, _⟩ := List.cons.inj he
    exact absurd hpart (by decide)
  induction type generalizing rest with
  | optional inner ih =>
    rw [spellType_optional inner hn]
    split
    · obtain ⟨c, tail, hc, hne⟩ := exists_cons_spellType inner hn
      simp [hc, hne]
    · next hf =>
      rw [String.toList_append, List.append_assoc]
      exact ih hn (TypeRef.isFunction_of_hasFunction (eq_false_of_ne_true hf)) _
  | callback | callbackOn => cases h
  | value | named | styleBase | any | unit =>
    refine hleaf _ ?_ hn rest
    trivial

/-- The spelling of the type is read as the type, with whatever can stand after it. -/
def ReadBack (type : TypeRef) : Prop :=
  ∀ fuel rest, (spellType type).toList.length < fuel → EndsType rest →
    readType fuel ((spellType type).toList ++ rest) = some (type, rest)

/-- The same for a type that is no function, also before the mark of a receiver. -/
def ReadBackOperand (type : TypeRef) : Prop :=
  ∀ fuel rest, (spellType type).toList.length ≤ fuel → EndsOperand rest →
    readOperand (readType fuel) ((spellType type).toList ++ rest) = some (type, rest)

theorem readBack_of_operand {type : TypeRef} (hn : NamesDeclarations type)
    (hf : type.isFunction = false) (h : ReadBackOperand type) : ReadBack type := by
  intro fuel rest hfuel hrest
  obtain ⟨fuel, rfl⟩ := Nat.exists_eq_add_one_of_ne_zero (Nat.ne_zero_of_lt hfuel)
  have hoperand := h fuel rest (Nat.le_of_lt_succ hfuel) fun c hc => .inl (hrest c hc)
  rw [readType_of_operand (spellType_ne_unit hn hf rest), hoperand]
  rcases rest with _ | ⟨c, rest⟩
  · rfl
  · obtain rfl := hrest c rfl
    rfl

theorem readBackOperand_of_leaf {type : TypeRef} (hn : NamesDeclarations type)
    (h : type.hasFunction = false) : ReadBackOperand type := by
  intro fuel rest _ hrest
  rw [readOperand_marks hn h (isNamePart_of_endsOperand hrest), readMarks_of_endsOperand type hrest]

/-- What stands in parentheses is read as a type of its own. -/
theorem readBackOperand_optional {inner : TypeRef} (hn : NamesDeclarations inner)
    (h : inner.hasFunction = true) (hi : ReadBack inner) : ReadBackOperand (.optional inner) := by
  intro fuel rest hfuel hrest
  rw [spellType_optional inner hn, if_pos h] at hfuel ⊢
  have hinner : readType fuel ((spellType inner).toList ++ ')' :: '?' :: rest) =
      some (inner, ')' :: '?' :: rest) := by
    refine hi fuel _ ?_ (by simp [EndsType])
    simp at hfuel
    omega
  simp [readOperand, hinner]

theorem readBack_callback {returns : TypeRef} (h : ReadBack returns) :
    ReadBack (.callback returns) := by
  intro fuel rest hfuel hrest
  obtain ⟨fuel, rfl⟩ := Nat.exists_eq_add_one_of_ne_zero (Nat.ne_zero_of_lt hfuel)
  rw [toList_callback] at hfuel ⊢
  simp only [List.length_cons] at hfuel
  have hreturns := h fuel rest (by omega) hrest
  simp only [List.cons_append, readType, List.drop_succ_cons, List.drop_zero, hreturns,
    Option.map_some]

theorem readBack_callbackOn {receiver returns : TypeRef} (hn : NamesDeclarations receiver)
    (hf : receiver.isFunction = false) (hr : ReadBackOperand receiver) (h : ReadBack returns) :
    ReadBack (.callbackOn receiver returns) := by
  intro fuel rest hfuel hrest
  obtain ⟨fuel, rfl⟩ := Nat.exists_eq_add_one_of_ne_zero (Nat.ne_zero_of_lt hfuel)
  rw [toList_callbackOn] at hfuel ⊢
  simp only [List.length_append, List.length_cons] at hfuel
  have hdot : ∀ more, EndsOperand ('.' :: more) := by
    rintro more c ⟨⟩
    exact .inr rfl
  have hreceiver : ∀ more, readOperand (readType fuel) ((spellType receiver).toList ++
      '.' :: more) = some (receiver, '.' :: more) := fun more => hr fuel _ (by omega) (hdot more)
  have hreturns := h fuel rest (by omega) hrest
  rw [List.append_assoc, readType_of_operand (spellType_ne_unit hn hf _), List.cons_append,
    hreceiver]
  simp only [Option.bind_some, readReturns, List.cons_append, List.drop_succ_cons, List.drop_zero,
    hreturns, Option.map_some]

/-- Without functions as receivers, every type is read back. -/
theorem readBack {type : TypeRef} (hn : NamesDeclarations type) (hp : type.PlainReceivers) :
    ReadBack type ∧ (type.isFunction = false → ReadBackOperand type) := by
  induction type with
  | optional inner ih =>
    have hoperand : ReadBackOperand (.optional inner) := by
      by_cases hf : inner.hasFunction = true
      · exact readBackOperand_optional hn hf (ih hn hp).1
      · exact readBackOperand_of_leaf hn (eq_false_of_ne_true hf)
    exact ⟨readBack_of_operand hn rfl hoperand, fun _ => hoperand⟩
  | callback returns ih => exact ⟨readBack_callback (ih hn hp).1, nofun⟩
  | callbackOn receiver returns ihr ih =>
    have hreceiver : NamesDeclarations receiver := fun name hm =>
      hn name (List.mem_append_left _ hm)
    have hreturns : NamesDeclarations returns := fun name hm => hn name (List.mem_append_right _ hm)
    exact ⟨readBack_callbackOn hreceiver hp.1 ((ihr hreceiver hp.2.1).2 hp.1)
      (ih hreturns hp.2.2).1, nofun⟩
  | value | named | styleBase | any | unit =>
    have hoperand := readBackOperand_of_leaf hn rfl
    exact ⟨readBack_of_operand hn rfl hoperand, fun _ => hoperand⟩

theorem namesDeclarations_reading {type : TypeRef} (h : NamesDeclarations type) :
    NamesDeclarations type.reading := by
  intro name hm
  rw [TypeRef.leaves_reading] at hm
  exact h name hm

/-- A spelling is read as the reading of the type. -/
theorem readType_spellType {type : TypeRef} (h : NamesDeclarations type) :
    readType ((spellType type).toList.length + 1) (spellType type).toList =
      some (type.reading, []) := by
  have hread := (readBack (namesDeclarations_reading h) type.plainReceivers_reading).1
    ((spellType type).toList.length + 1) []
  rw [spellType_reading, List.append_nil] at hread
  exact hread (Nat.lt_succ_self _) nofun

/-- Two types have the same spelling exactly if they are read the same. What a type is read as has
its spelling and no function as a receiver, and it is the type itself exactly if no receiver in the
type is a function. -/
theorem spellType_eq_iff {a b : TypeRef} (ha : NamesDeclarations a) (hb : NamesDeclarations b) :
    (spellType a = spellType b ↔ a.reading = b.reading) ∧
    spellType a.reading = spellType a ∧ a.reading.PlainReceivers ∧
    (a.reading = a ↔ a.PlainReceivers) := by
  refine ⟨⟨fun h => ?_, fun h => ?_⟩, spellType_reading a, a.plainReceivers_reading,
    TypeRef.reading_eq_iff⟩
  · have hread := readType_spellType ha
    rw [h, readType_spellType hb] at hread
    exact (Prod.mk.inj (Option.some.inj hread)).1.symm
  · rw [← spellType_reading a, h, spellType_reading b]

/-- A function on a receiver that is a function itself. -/
def onProvider : TypeRef := .callbackOn (.callback (.named "Action")) (.named "Chip")

/-- A function that returns a function on a receiver. -/
def toExtension : TypeRef := .callback (.callbackOn (.named "Action") (.named "Chip"))

theorem namesDeclarations_of_two {type : TypeRef}
    (h : type.leaves = [.named "Action", .named "Chip"]) : NamesDeclarations type := by
  intro name hm
  rw [h] at hm
  have hname : name = "Action" ∨ name = "Chip" := by simpa using hm
  rcases hname with rfl | rfl <;> decide

theorem onProvider_spelling :
    (NamesDeclarations onProvider ∧ NamesDeclarations toExtension) ∧
    (spellType onProvider = spellType toExtension ↔ onProvider.reading = toExtension.reading) ∧
    spellType onProvider.reading = spellType onProvider ∧ onProvider.reading.PlainReceivers ∧
    (onProvider.reading = onProvider ↔ onProvider.PlainReceivers) :=
  have ha : NamesDeclarations onProvider := namesDeclarations_of_two rfl
  have hb : NamesDeclarations toExtension := namesDeclarations_of_two rfl
  ⟨⟨ha, hb⟩, spellType_eq_iff ha hb⟩

/-- Without parentheses around it, a receiver that is a function is lost in the spelling. -/
theorem function_receiver_lost :
    (NamesDeclarations onProvider ∧ NamesDeclarations toExtension) ∧
    spellType onProvider = "() -> Action.() -> Chip" ∧
    spellType toExtension = "() -> Action.() -> Chip" ∧ onProvider ≠ toExtension :=
  ⟨⟨namesDeclarations_of_two rfl, namesDeclarations_of_two rfl⟩, by decide⟩

end Kotlin
end StyleFamily
