import Mathlib.Data.List.Nodup
import StyleFamily.Proofs.Text.Characters

/-!
# The first fault of a manifest

A fault is a place of a manifest where something is not as it should be: whether there is one at a
place is told from the manifest alone, without regard to other faults. Validation accepts the
manifests without faults. Of any other it reports the first fault in the order of the text, and an
error about a parameter says which declaration the parameter belongs to.
-/
namespace StyleFamily

inductive ParameterFault
  | name
  | blankType
  | repetition

inductive DeclarationFault
  | name
  | repetition
  /-- A fault of the parameter at an index. -/
  | parameter (index : Nat) (fault : ParameterFault)

inductive ManifestFault
  | package
  | owner
  /-- A fault of the declaration at an index. -/
  | declaration (index : Nat) (fault : DeclarationFault)

/-- A list of identifiers with dots between them. -/
def IsPackage (package : String) : Prop :=
  ∃ segments : List String, segments ≠ [] ∧ (∀ s ∈ segments, isIdentifier s = true) ∧
    package = ".".intercalate segments

/-- The fault is one of a parameter after others with the given names. -/
def ParameterFault.Concerns (earlier : List String) (p : SourceParameter) : ParameterFault → Prop
  | .name => isIdentifier p.name = false
  | .blankType => Text.trim p.type = ""
  | .repetition => p.name ∈ earlier

/-- The fault is one of a declaration after others with the given names. -/
def DeclarationFault.Concerns (earlier : List String) (d : SourceDeclaration) :
    DeclarationFault → Prop
  | .name => isIdentifier d.name = false
  | .repetition => d.name ∈ earlier
  | .parameter j fault => ∃ p, d.parameters[j]? = some p ∧
    fault.Concerns ((d.parameters.take j).map (·.name)) p

def ManifestFault.Concerns (manifest : Manifest) : ManifestFault → Prop
  | .package => ¬ IsPackage manifest.output.package
  | .owner => Text.trim manifest.scanner.owner = ""
  | .declaration i fault => ∃ d, manifest.declarations[i]? = some d ∧
    fault.Concerns ((manifest.declarations.take i).map (·.name)) d

/-- The order of faults at indices: that of the indices, and at one index that of the faults. -/
def Along {φ : Type} (noLater : φ → φ → Prop) (f g : Nat × φ) : Prop :=
  f.1 < g.1 ∨ f.1 = g.1 ∧ noLater f.2 g.2

/-- The faults of a parameter: its name, its type, its repetition. -/
inductive ParameterFault.NoLater : ParameterFault → ParameterFault → Prop
  | name (fault : ParameterFault) : NoLater .name fault
  | blankType {fault : ParameterFault} (h : fault ≠ .name) : NoLater .blankType fault
  | repetition : NoLater .repetition .repetition

/-- The faults of a declaration: its name, its repetition, its parameters one after another. -/
inductive DeclarationFault.NoLater : DeclarationFault → DeclarationFault → Prop
  | name (fault : DeclarationFault) : NoLater .name fault
  | repetition {fault : DeclarationFault} (h : fault ≠ .name) : NoLater .repetition fault
  | parameter {j k : Nat} {fault other : ParameterFault}
    (h : Along ParameterFault.NoLater (j, fault) (k, other)) :
    NoLater (.parameter j fault) (.parameter k other)

/-- The faults of a manifest: its package, its owner, its declarations one after another. -/
inductive ManifestFault.NoLater : ManifestFault → ManifestFault → Prop
  | package (fault : ManifestFault) : NoLater .package fault
  | owner {fault : ManifestFault} (h : fault ≠ .package) : NoLater .owner fault
  | declaration {i k : Nat} {fault other : DeclarationFault}
    (h : Along DeclarationFault.NoLater (i, fault) (k, other)) :
    NoLater (.declaration i fault) (.declaration k other)

theorem Along.antisymm {φ : Type} {noLater : φ → φ → Prop}
    (hanti : ∀ f g, noLater f g → noLater g f → f = g) {f g : Nat × φ} (h : Along noLater f g)
    (h' : Along noLater g f) : f = g := by
  rcases h with hlt | ⟨heq, hle⟩
  · rcases h' with hgt | ⟨heq, _⟩ <;> omega
  · rcases h' with hgt | ⟨_, hle'⟩
    · omega
    · exact Prod.ext heq (hanti _ _ hle hle')

theorem ParameterFault.NoLater.antisymm (fault other : ParameterFault) (h : fault.NoLater other)
    (h' : other.NoLater fault) : fault = other := by
  cases h <;> cases h' <;> simp_all

theorem DeclarationFault.NoLater.antisymm (fault other : DeclarationFault)
    (h : fault.NoLater other) (h' : other.NoLater fault) : fault = other := by
  cases h with
  | name => cases h' <;> simp_all
  | repetition => cases h' <;> simp_all
  | parameter h =>
    cases h' with
    | parameter h' =>
      obtain ⟨rfl, rfl⟩ := Prod.mk.inj (h.antisymm ParameterFault.NoLater.antisymm h')
      rfl

theorem ManifestFault.NoLater.antisymm (fault other : ManifestFault) (h : fault.NoLater other)
    (h' : other.NoLater fault) : fault = other := by
  cases h with
  | package => cases h' <;> simp_all
  | owner => cases h' <;> simp_all
  | declaration h =>
    cases h' with
    | declaration h' =>
      obtain ⟨rfl, rfl⟩ := Prod.mk.inj (h.antisymm DeclarationFault.NoLater.antisymm h')
      rfl

section
variable (source : List Char)
open Quotation

def ParameterFault.Reported (d : SourceDeclaration) (p : SourceParameter) (error : ManifestError) :
    ParameterFault → Prop
  | .name => ∃ fault, nameFault? p.name = some fault ∧
    error = .invalidName p.name (.parameterOf d.name) fault (span? source p.name)
  | .blankType => error =
    .blankType p.name d.name (spanFrom? source p.name (Manifest.parameterStart source d.name))
  | .repetition => ∃ first,
    first = spanFrom? source p.name (Manifest.parameterStart source d.name) ∧
      error = .repeatedParameter p.name d.name first (spanAfter? source p.name first)

def DeclarationFault.Reported (d : SourceDeclaration) (error : ManifestError) :
    DeclarationFault → Prop
  | .name => ∃ fault, nameFault? d.name = some fault ∧
    error = .invalidName d.name .declaration fault (span? source d.name)
  | .repetition => error =
    .repeatedDeclaration d.name (spanAfter? source d.name (span? source d.name))
  | .parameter j fault => ∃ p, d.parameters[j]? = some p ∧ fault.Reported source d p error

def ManifestFault.Reported (manifest : Manifest) (error : ManifestError) : ManifestFault → Prop
  | .package => ∃ fault, packageFault? manifest.output.package = some fault ∧
    error = .invalidPackage manifest.output.package fault (span? source manifest.output.package)
  | .owner => error = .blankOwner
  | .declaration i fault => ∃ d, manifest.declarations[i]? = some d ∧
    fault.Reported source d error

end

/-- What a check comes to: nothing if there is no fault, and else the report of the first one. -/
inductive Finds {φ ε : Type} (noLater : φ → φ → Prop) (concerns : φ → Prop)
    (reported : ε → φ → Prop) : Except ε Unit → Prop
  | clear (h : ∀ f, ¬ concerns f) : Finds noLater concerns reported (.ok ())
  | fault (f : φ) {e : ε} (hc : concerns f) (hf : ∀ g, concerns g → noLater f g)
    (hr : reported e f) : Finds noLater concerns reported (.error e)

section
variable {φ ε : Type} {noLater : φ → φ → Prop} {concerns : φ → Prop} {reported : ε → φ → Prop}
  {result : Except ε Unit}

/-- With one first fault and one report of it, the report is all that an error can be. -/
theorem Finds.error_iff (h : Finds noLater concerns reported result)
    (hanti : ∀ f g, noLater f g → noLater g f → f = g)
    (hone : ∀ f e e', reported e f → reported e' f → e = e') {e : ε} :
    result = .error e ↔ ∃ f, (concerns f ∧ ∀ g, concerns g → noLater f g) ∧ reported e f := by
  cases h with
  | clear h =>
    constructor
    · intro he
      cases he
    · rintro ⟨f, ⟨hc, _⟩, _⟩
      exact absurd hc (h f)
  | fault f hc hf hr =>
    constructor
    · rintro ⟨⟩
      exact ⟨f, ⟨hc, hf⟩, hr⟩
    · rintro ⟨g, ⟨hc', hf'⟩, hr'⟩
      obtain rfl := hanti _ _ (hf _ hc') (hf' _ hc)
      rw [hone _ _ _ hr hr']

theorem Finds.ok_iff (h : Finds noLater concerns reported result) :
    result = .ok () ↔ ∀ f, ¬ concerns f := by
  cases h with
  | clear h => exact ⟨fun _ => h, fun _ => rfl⟩
  | fault f hc hf hr =>
    constructor
    · intro he
      cases he
    · intro h
      exact absurd hc (h f)

/-- Faults seen as some of a larger kind, of which there are no others. -/
theorem Finds.embed {ψ : Type} {noLater' : ψ → ψ → Prop} {concerns' : ψ → Prop}
    {reported' : ε → ψ → Prop} (h : Finds noLater concerns reported result) (m : φ → ψ)
    (hc : ∀ f, concerns' (m f) ↔ concerns f) (honly : ∀ g, concerns' g → ∃ f, g = m f)
    (hle : ∀ f g, noLater f g → noLater' (m f) (m g))
    (hr : ∀ e f, reported e f → reported' e (m f)) :
    Finds noLater' concerns' reported' result := by
  cases h with
  | clear h =>
    refine .clear fun g hg => ?_
    obtain ⟨f, rfl⟩ := honly g hg
    exact h f ((hc f).mp hg)
  | fault f hf hle' hr' =>
    refine .fault (m f) ((hc f).mpr hf) (fun g hg => ?_) (hr _ f hr')
    obtain ⟨f', rfl⟩ := honly g hg
    exact hle f f' (hle' f' ((hc f').mp hg))

end

section
variable {α ε : Type} (name : α → String) (check : List String → α → Except ε Unit)

/-- Checks entries one after another, each with the names of those before it, the latest first. -/
def inTurn : List String → List α → Except ε Unit
  | _, [] => .ok ()
  | seen, x :: rest => do
    check seen x
    inTurn (name x :: seen) rest

/-- Either every entry passes, or the error is that of the first entry that does not. -/
theorem inTurn_cases (seen : List String) (xs : List α) :
    (inTurn name check seen xs = .ok () ∧
      ∀ i x, xs[i]? = some x → check (((xs.take i).map name).reverse ++ seen) x = .ok ()) ∨
    ∃ i x e, inTurn name check seen xs = .error e ∧ xs[i]? = some x ∧
      check (((xs.take i).map name).reverse ++ seen) x = .error e ∧
      ∀ k y, k < i → xs[k]? = some y →
        check (((xs.take k).map name).reverse ++ seen) y = .ok () := by
  induction xs generalizing seen with
  | nil => exact .inl ⟨rfl, by simp⟩
  | cons x rest ih =>
    cases hx : check seen x with
    | error e =>
      refine .inr ⟨0, x, e, ?_, rfl, hx, ?_⟩
      · rw [inTurn, hx]
        rfl
      · intro k y hk
        exact absurd hk (Nat.not_lt_zero k)
    | ok _ =>
      have hstep :
          inTurn name check seen (x :: rest) = inTurn name check (name x :: seen) rest := by
        rw [inTurn, hx]
        rfl
      have hshift : ∀ i, (((x :: rest).take (i + 1)).map name).reverse ++ seen =
          ((rest.take i).map name).reverse ++ name x :: seen := by
        intro i
        simp
      rcases ih (name x :: seen) with ⟨hr, hall⟩ | ⟨i, y, e, hr, hi, hy, hall⟩
      · refine .inl ⟨hstep.trans hr, ?_⟩
        rintro (_ | i) y hy
        · obtain rfl : x = y := by simpa using hy
          exact hx
        · rw [hshift]
          exact hall i y (by simpa using hy)
      · refine .inr ⟨i + 1, y, e, hstep.trans hr, by simpa using hi, ?_, ?_⟩
        · rw [hshift]
          exact hy
        · rintro (_ | k) z hk hz
          · obtain rfl : x = z := by simpa using hz
            exact hx
          · rw [hshift]
            exact hall k z (Nat.lt_of_succ_lt_succ hk) (by simpa using hz)

end

section
variable {α φ ε : Type} {name : α → String} {check : List String → α → Except ε Unit}
  {noLater : φ → φ → Prop} {concerns : List String → α → φ → Prop} {reported : α → ε → φ → Prop}

/-- If every entry's check finds the entry's first fault, then checking in turn finds the first
fault of the first entry that has any. -/
theorem inTurn_finds (h : ∀ earlier x,
      Finds noLater (concerns earlier x) (reported x) (check (earlier.reverse ++ []) x))
    (xs : List α) :
    Finds (Along noLater)
      (fun f => ∃ x, xs[f.1]? = some x ∧ concerns ((xs.take f.1).map name) x f.2)
      (fun e f => ∃ x, xs[f.1]? = some x ∧ reported x e f.2)
      (inTurn name check [] xs) := by
  rcases inTurn_cases name check [] xs with ⟨hr, hall⟩ | ⟨i, x, e, hr, hi, hx, hall⟩
  · rw [hr]
    refine .clear ?_
    rintro ⟨i, f⟩ ⟨x, hx, hc⟩
    exact (h _ x).ok_iff.mp (hall i x hx) f hc
  · have hx' := h ((xs.take i).map name) x
    rw [hx] at hx'
    rw [hr]
    cases hx' with
    | fault f hc hf hrep =>
      refine .fault (i, f) ⟨x, hi, hc⟩ ?_ ⟨x, hi, hrep⟩
      rintro ⟨k, g⟩ ⟨y, hk, hg⟩
      rcases Nat.lt_trichotomy i k with hlt | rfl | hgt
      · exact .inl hlt
      · obtain rfl : x = y := Option.some.inj (hi.symm.trans hk)
        exact .inr ⟨rfl, hf g hg⟩
      · exact absurd hg ((h _ y).ok_iff.mp (hall k y hgt hk) g)

end

theorem trim_eq_empty {text : String} : Text.trim text = "" ↔ Text.trimmed text.toList = [] := by
  rw [Text.trim, String.ofList_eq_empty_iff]

namespace Manifest

/-- The checks of one parameter after others with the given names. -/
def checkParameter (source : List Char) (declaration : String) (start : Nat) (seen : List String)
    (p : SourceParameter) : Except ManifestError Unit := do
  checkName source p.name (.parameterOf declaration)
  if Text.trim p.type = "" then
    .error (.blankType p.name declaration (Quotation.spanFrom? source p.name start))
  else if p.name ∈ seen then
    let first := Quotation.spanFrom? source p.name start
    .error (.repeatedParameter p.name declaration first (Quotation.spanAfter? source p.name first))
  else .ok ()

/-- The checks of one declaration after others with the given names. -/
def checkDeclaration (source : List Char) (seen : List String) (d : SourceDeclaration) :
    Except ManifestError Unit := do
  checkName source d.name .declaration
  if d.name ∈ seen then
    .error (.repeatedDeclaration d.name
      (Quotation.spanAfter? source d.name (Quotation.span? source d.name)))
  else checkParameters source d.name (parameterStart source d.name) [] d.parameters

theorem checkParameters_eq (source : List Char) (declaration : String) (start : Nat)
    (seen : List String) (parameters : List SourceParameter) :
    checkParameters source declaration start seen parameters =
      inTurn (·.name) (checkParameter source declaration start) seen parameters := by
  induction parameters generalizing seen with
  | nil => rfl
  | cons p rest ih =>
    rw [checkParameters, inTurn, checkParameter, ← ih]
    simp only [trim_eq_empty, List.isEmpty_iff, List.contains_iff_mem]
    cases checkName source p.name (.parameterOf declaration) with
    | error e => rfl
    | ok _ =>
      by_cases ht : Text.trimmed p.type.toList = []
      · simp only [ht, ↓reduceIte]
        rfl
      by_cases hs : p.name ∈ seen
      · simp only [ht, hs, ↓reduceIte]
        rfl
      · simp only [ht, hs, ↓reduceIte]
        rfl

theorem checkDeclarations_eq (source : List Char) (seen : List String)
    (declarations : List SourceDeclaration) :
    checkDeclarations source seen declarations =
      inTurn (·.name) (checkDeclaration source) seen declarations := by
  induction declarations generalizing seen with
  | nil => rfl
  | cons d rest ih =>
    rw [checkDeclarations, inTurn, checkDeclaration, ← ih]
    simp only [List.contains_iff_mem]
    cases checkName source d.name .declaration with
    | error e => rfl
    | ok _ =>
      by_cases hs : d.name ∈ seen
      · simp only [hs, ↓reduceIte]
        rfl
      · simp only [hs, ↓reduceIte]
        rfl

/-- A check of a name comes first or lets the next check decide. -/
theorem checkName_bind (source : List Char) (name : String) (named : Named)
    (next : Unit → Except ManifestError Unit) :
    (isIdentifier name = false ∧ ∃ fault, nameFault? name = some fault ∧
      (checkName source name named >>= next) =
        .error (.invalidName name named fault (Quotation.span? source name))) ∨
    (isIdentifier name = true ∧ (checkName source name named >>= next) = next ()) := by
  rw [checkName]
  cases hn : nameFault? name with
  | some fault =>
    refine .inl ⟨?_, fault, rfl, rfl⟩
    rw [← Bool.not_eq_true, ← nameFault_eq_none, hn]
    simp
  | none => exact .inr ⟨nameFault_eq_none.mp hn, rfl⟩

variable (source : List Char)

theorem checkParameter_finds (d : SourceDeclaration) (earlier : List String) (p : SourceParameter) :
    Finds ParameterFault.NoLater (·.Concerns earlier p)
      (fun e fault => fault.Reported source d p e)
      (checkParameter source d.name (parameterStart source d.name) (earlier.reverse ++ []) p) := by
  rw [checkParameter]
  rcases checkName_bind source p.name (.parameterOf d.name) _ with ⟨hn, fault, hf, he⟩ | ⟨hn, he⟩
  · rw [he]
    exact .fault ParameterFault.name hn (fun g _ => .name g) ⟨fault, hf, rfl⟩
  rw [he]
  have hname : ¬ ParameterFault.name.Concerns earlier p := by simp [ParameterFault.Concerns, hn]
  by_cases ht : Text.trim p.type = ""
  · rw [if_pos ht]
    refine .fault ParameterFault.blankType ht (fun g hg => .blankType ?_) rfl
    rintro rfl
    exact hname hg
  rw [if_neg ht]
  by_cases hs : p.name ∈ earlier
  · rw [if_pos (by simpa using hs)]
    refine .fault ParameterFault.repetition hs ?_ ⟨_, rfl, rfl⟩
    rintro (_ | _ | _) hg
    · exact absurd hg hname
    · exact absurd hg ht
    · exact .repetition
  · rw [if_neg (by simpa using hs)]
    refine .clear ?_
    rintro (_ | _ | _) hg
    · exact hname hg
    · exact ht hg
    · exact hs hg

/-- Behind the name and its repetition, only the faults of the parameters are left. -/
theorem checkDeclaration_finds (earlier : List String) (d : SourceDeclaration) :
    Finds DeclarationFault.NoLater (·.Concerns earlier d)
      (fun e fault => fault.Reported source d e)
      (checkDeclaration source (earlier.reverse ++ []) d) := by
  rw [checkDeclaration]
  rcases checkName_bind source d.name .declaration _ with ⟨hn, fault, hf, he⟩ | ⟨hn, he⟩
  · rw [he]
    exact .fault DeclarationFault.name hn (fun g _ => .name g) ⟨fault, hf, rfl⟩
  rw [he]
  have hname : ¬ DeclarationFault.name.Concerns earlier d := by simp [DeclarationFault.Concerns, hn]
  by_cases hs : d.name ∈ earlier
  · rw [if_pos (by simpa using hs)]
    refine .fault DeclarationFault.repetition hs (fun g hg => .repetition ?_) rfl
    rintro rfl
    exact hname hg
  rw [if_neg (by simpa using hs), checkParameters_eq]
  refine (inTurn_finds (checkParameter_finds source d) d.parameters).embed
    (fun f => .parameter f.1 f.2) (fun _ => .rfl) ?_ ?_ (fun _ _ hr => hr)
  · rintro (_ | _ | ⟨j, fault⟩) hg
    · exact absurd hg hname
    · exact absurd hg hs
    · exact ⟨(j, fault), rfl⟩
  · intro _ _ hle
    exact .parameter hle

/-- Segments without dots are what their text with dots between them is split into. -/
theorem splitAt_intercalate {segments : List String} (hne : segments ≠ [])
    (hs : ∀ s ∈ segments, isIdentifier s = true) :
    Text.splitAt '.' (".".intercalate segments) = segments := by
  have hdot : ∀ s ∈ segments, '.' ∉ s.toList := fun s hm =>
    notMem_of_isIdentifier (hs s hm) (by decide)
  rw [Text.splitAt, String.toList_intercalate, pieces_eq_splitOn]
  have hsplit : List.splitOn '.' (".".toList.intercalate (segments.map String.toList)) =
      segments.map String.toList := by
    apply List.splitOn_intercalate
    · simpa using hdot
    · simpa using hne
  rw [hsplit, List.map_map]
  simp [Function.comp_def]

theorem packageFault?_eq_none {package : String} :
    packageFault? package = none ↔ IsPackage package := by
  constructor
  · intro h
    refine ⟨Text.splitAt '.' package, ?_, isIdentifier_of_package h,
      (intercalate_splitAt package).symm⟩
    obtain ⟨init, last, hp⟩ := exists_pieces '.' package.toList
    simp [Text.splitAt, hp]
  · rintro ⟨segments, hne, hs, rfl⟩
    have hempty : ¬ isIdentifier "" = true := by decide
    have hpackage : ".".intercalate segments ≠ "" := by
      intro he
      have hsplit := splitAt_intercalate hne hs
      rw [he] at hsplit
      exact hempty (hs "" (hsplit ▸ List.mem_singleton.mpr rfl))
    have hsegment : segments.any (· == "") = false := by
      rw [List.any_eq_false]
      intro s hm he
      exact hempty (beq_iff_eq.mp he ▸ hs s hm)
    have hfault : segments.findSome? nameFault? = none :=
      List.findSome?_eq_none_iff.mpr fun s hm => nameFault_eq_none.mpr (hs s hm)
    simp [packageFault?, hpackage, splitAt_intercalate hne hs, hsegment, hfault]

theorem validate_finds (manifest : Manifest) :
    Finds ManifestFault.NoLater (·.Concerns manifest)
      (fun e fault => fault.Reported source manifest e) (manifest.validate source) := by
  unfold validate
  cases hp : packageFault? manifest.output.package with
  | some fault =>
    refine .fault ManifestFault.package ?_ (fun g _ => .package g) ⟨fault, hp, rfl⟩
    rw [ManifestFault.Concerns, ← packageFault?_eq_none, hp]
    simp
  | none =>
    have hpackage : ¬ ManifestFault.package.Concerns manifest :=
      not_not.mpr (packageFault?_eq_none.mp hp)
    by_cases ho : Text.trim manifest.scanner.owner = ""
    · have hblank : Text.trimmed manifest.scanner.owner.toList = [] := trim_eq_empty.mp ho
      simp only [hblank, List.isEmpty_nil, ↓reduceIte]
      refine .fault ManifestFault.owner ho (fun g hg => .owner ?_) rfl
      rintro rfl
      exact hpackage hg
    · have hblank : Text.trimmed manifest.scanner.owner.toList ≠ [] := fun h =>
        ho (trim_eq_empty.mpr h)
      simp only [List.isEmpty_iff, hblank, ↓reduceIte, checkDeclarations_eq]
      refine (inTurn_finds (checkDeclaration_finds source) manifest.declarations).embed
        (fun f => .declaration f.1 f.2) (fun _ => .rfl) ?_ ?_ (fun _ _ hr => hr)
      · rintro (_ | _ | ⟨i, fault⟩) hg
        · exact absurd hg hpackage
        · exact absurd hg ho
        · exact ⟨(i, fault), rfl⟩
      · intro _ _ hle
        exact .declaration hle

end Manifest

section
variable {source : List Char} {e e' : ManifestError}

theorem ParameterFault.Reported.unique {d : SourceDeclaration} {p : SourceParameter}
    {fault : ParameterFault} (h : fault.Reported source d p e) (h' : fault.Reported source d p e') :
    e = e' := by
  cases fault with
  | name =>
    obtain ⟨f, hf, rfl⟩ := h
    obtain ⟨f', hf', rfl⟩ := h'
    rw [Option.some.inj (hf.symm.trans hf')]
  | blankType => exact h.trans h'.symm
  | repetition =>
    obtain ⟨_, rfl, rfl⟩ := h
    obtain ⟨_, rfl, rfl⟩ := h'
    rfl

theorem DeclarationFault.Reported.unique {d : SourceDeclaration} {fault : DeclarationFault}
    (h : fault.Reported source d e) (h' : fault.Reported source d e') : e = e' := by
  cases fault with
  | name =>
    obtain ⟨f, hf, rfl⟩ := h
    obtain ⟨f', hf', rfl⟩ := h'
    rw [Option.some.inj (hf.symm.trans hf')]
  | repetition => exact h.trans h'.symm
  | parameter j fault =>
    obtain ⟨p, hp, hr⟩ := h
    obtain ⟨q, hq, hr'⟩ := h'
    obtain rfl := Option.some.inj (hp.symm.trans hq)
    exact hr.unique hr'

theorem ManifestFault.Reported.unique {manifest : Manifest} {fault : ManifestFault}
    (h : fault.Reported source manifest e) (h' : fault.Reported source manifest e') : e = e' := by
  cases fault with
  | package =>
    obtain ⟨f, hf, rfl⟩ := h
    obtain ⟨f', hf', rfl⟩ := h'
    rw [Option.some.inj (hf.symm.trans hf')]
  | owner => exact h.trans h'.symm
  | declaration i fault =>
    obtain ⟨d, hd, hr⟩ := h
    obtain ⟨d', hd', hr'⟩ := h'
    obtain rfl := Option.some.inj (hd.symm.trans hd')
    exact hr.unique hr'

/-- The declaration that a faulty parameter belongs to. -/
def ManifestFault.holder? (manifest : Manifest) : ManifestFault → Option SourceDeclaration
  | .declaration i (.parameter _ _) => manifest.declarations[i]?
  | _ => none

/-- The message of an error about a parameter quotes the name of the parameter's declaration. -/
theorem ParameterFault.Reported.quotes {d : SourceDeclaration} {p : SourceParameter}
    {fault : ParameterFault} (h : fault.Reported source d p e) :
    ∃ front back, e.message = front ++ ("'" ++ d.name ++ "'") ++ back := by
  cases fault with
  | name =>
    obtain ⟨f, _, rfl⟩ := h
    have hopening : "parameter in '" = "parameter in " ++ "'" := rfl
    refine ⟨"'" ++ p.name ++ "' is not a valid " ++ "parameter in ", " name", ?_⟩
    show "'" ++ p.name ++ "' is not a valid " ++ ("parameter in '" ++ d.name ++ "'") ++ " name" = _
    simp only [hopening, String.append_assoc]
  | blankType =>
    subst h
    have hopening : "' of '" = "' of " ++ "'" := rfl
    have hclosing : "' has an empty type" = "'" ++ " has an empty type" := rfl
    refine ⟨"parameter '" ++ p.name ++ "' of ", " has an empty type", ?_⟩
    show "parameter '" ++ p.name ++ "' of '" ++ d.name ++ "' has an empty type" = _
    simp only [hopening, hclosing, String.append_assoc]
  | repetition =>
    obtain ⟨_, _, rfl⟩ := h
    have hclosing : "' declares parameter '" = "'" ++ " declares parameter '" := rfl
    refine ⟨"", " declares parameter '" ++ p.name ++ "' twice", ?_⟩
    show "'" ++ d.name ++ "' declares parameter '" ++ p.name ++ "' twice" = _
    simp only [hclosing, String.append_assoc, String.empty_append]

theorem ManifestFault.Reported.quotes {manifest : Manifest} {fault : ManifestFault}
    (h : fault.Reported source manifest e) :
    ∀ d ∈ fault.holder? manifest,
      ∃ front back, e.message = front ++ ("'" ++ d.name ++ "'") ++ back := by
  intro d hd
  rcases fault with _ | _ | ⟨i, _ | _ | ⟨j, fault⟩⟩
  · simp [holder?] at hd
  · simp [holder?] at hd
  · simp [holder?] at hd
  · simp [holder?] at hd
  · obtain ⟨d', hd', p, _, hr⟩ := h
    obtain rfl := Option.some.inj (hd'.symm.trans hd)
    exact hr.quotes

end

namespace Manifest

/-- A manifest in which everything is as it should be. -/
structure IsFaultless (manifest : Manifest) : Prop where
  package : IsPackage manifest.output.package
  owner : Text.trim manifest.scanner.owner ≠ ""
  declarationNames : ∀ d ∈ manifest.declarations, isIdentifier d.name = true
  parameterNames : ∀ d ∈ manifest.declarations, ∀ p ∈ d.parameters, isIdentifier p.name = true
  distinctDeclarations : (manifest.declarations.map (·.name)).Nodup
  distinctParameters : ∀ d ∈ manifest.declarations, (d.parameters.map (·.name)).Nodup
  types : ∀ d ∈ manifest.declarations, ∀ p ∈ d.parameters, Text.trim p.type ≠ ""

/-- The fault that comes first in the manifest. -/
def FirstFault (manifest : Manifest) (fault : ManifestFault) : Prop :=
  fault.Concerns manifest ∧ ∀ other : ManifestFault, other.Concerns manifest → fault.NoLater other

theorem validate_eq_ok_iff {source : List Char} {manifest : Manifest} :
    manifest.validate source = .ok () ↔ manifest.IsFaultless := by
  simp only [validate_eq_ok, packageFault?_eq_none, SourceDeclaration.acceptable_iff]
  constructor
  · rintro ⟨hp, ho, hd, hn⟩
    exact ⟨hp, mt trim_eq_empty.mp ho, fun d h => (hd d h).1,
      fun d h p hp => ((hd d h).2.1 p hp).1, hn, fun d h => (hd d h).2.2,
      fun d h p hp => mt trim_eq_empty.mp ((hd d h).2.1 p hp).2⟩
  · intro h
    exact ⟨h.package, mt trim_eq_empty.mpr h.owner, fun d hd =>
      ⟨h.declarationNames d hd, fun p hp =>
        ⟨h.parameterNames d hd p hp, mt trim_eq_empty.mpr (h.types d hd p hp)⟩,
        h.distinctParameters d hd⟩, h.distinctDeclarations⟩

/-- Validation accepts exactly the manifests without faults, and an error is the report of the first
fault there is; about a parameter, it quotes the name of the parameter's declaration. -/
theorem validate_first_fault (source : List Char) (manifest : Manifest) :
    (manifest.validate source = .ok () ↔ manifest.IsFaultless) ∧
    ∀ error, manifest.validate source = .error error ↔
      ∃ fault, manifest.FirstFault fault ∧ fault.Reported source manifest error ∧
        ∀ d ∈ fault.holder? manifest,
          ∃ front back, error.message = front ++ ("'" ++ d.name ++ "'") ++ back := by
  refine ⟨validate_eq_ok_iff, fun error => ?_⟩
  rw [(validate_finds source manifest).error_iff ManifestFault.NoLater.antisymm
    (fun _ _ _ h h' => h.unique h')]
  constructor
  · rintro ⟨fault, hf, hr⟩
    exact ⟨fault, hf, hr, hr.quotes⟩
  · rintro ⟨fault, hf, hr, _⟩
    exact ⟨fault, hf, hr⟩

/-- The repeated parameter of the first declaration comes before the name of the second. -/
example :
    let chip : SourceDeclaration := ⟨"Chip", [], [⟨"icon", "Painter"⟩, ⟨"icon", "Shape"⟩]⟩
    Manifest.validate [] { declarations := [chip, ⟨"1st", [], []⟩] } =
      .error (.repeatedParameter "icon" "Chip" none none) := by decide +kernel

end Manifest
end StyleFamily
