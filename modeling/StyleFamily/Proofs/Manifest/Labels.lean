import Mathlib.Data.List.Sort
import StyleFamily.Proofs.Manifest.CanonicalReading
import StyleFamily.Proofs.Manifest.FirstFault

/-!
# Labels of faulty manifests

In the canonical layout every value has a place. The labels of an error are those of the first
places that hold the text the error is about, looked for in the order of the text, and for a
parameter from the first place on that holds the name of its declaration. They mark the values at
fault exactly if no other place on the way holds the same text.
-/
namespace StyleFamily
open Quotation Canonical

namespace Canonical

/-- The places that hold a text. -/
def placesOf (text : String) (values : List (Position × String)) : List Position :=
  (values.filter (·.2 = text)).map (·.1)

/-- The values after the first place that holds a text. -/
def valuesAfter (text : String) (values : List (Position × String)) : List (Position × String) :=
  (values.dropWhile (·.2 ≠ text)).tail

/-- Where the text of a place stands. -/
def spanOf (lines : List ManifestLine) (place : Position) : Option Span :=
  ((entries 0 lines).find? (·.place = place)).map (·.span)

theorem placesOf_eq_cons {text : String} {values : List (Position × String)} {p : Position}
    {more : List Position} (h : placesOf text values = p :: more) :
    ∃ front rest, values = front ++ (p, text) :: rest ∧ placesOf text rest = more ∧
      valuesAfter text values = rest := by
  obtain ⟨⟨q, t⟩, found, hfilter, rfl, hmore⟩ := List.map_eq_cons_iff.mp h
  obtain ⟨front, rest, rfl, hfront, ht, rfl⟩ := List.filter_eq_cons_iff.mp hfilter
  obtain rfl : t = text := by simpa using ht
  refine ⟨front, rest, rfl, hmore, ?_⟩
  rw [valuesAfter, List.dropWhile_append_of_pos (by simpa using hfront)]
  simp

theorem exists_first_entry {name : String} {found : List LineEntry} {p : Position}
    {more : List Position} (h : placesOf name (found.map fun e => (e.place, e.text)) = p :: more) :
    ∃ e rest, found.filter (·.text = name) = e :: rest ∧ e.place = p := by
  rw [placesOf, List.filter_map, List.map_map] at h
  obtain ⟨e, rest, hfilter, rfl, _⟩ := List.map_eq_cons_iff.mp h
  exact ⟨e, rest, hfilter, rfl⟩

/-- What comes after a place with a text comes after the first one. -/
theorem sublist_valuesAfter {text : String} (value : Position × String)
    {some values : List (Position × String)} (h : (value :: some).Sublist values)
    (ht : value.2 = text) : some.Sublist (valuesAfter text values) := by
  induction values with
  | nil => cases h
  | cons first rest ih =>
    by_cases hf : first.2 = text
    · have hafter : valuesAfter text (first :: rest) = rest := by simp [valuesAfter, hf]
      rw [hafter]
      exact h.tail
    · have hafter : valuesAfter text (first :: rest) = valuesAfter text rest := by
        simp [valuesAfter, hf]
      rw [hafter]
      cases h with
      | cons _ h => exact ih h
      | cons_cons _ h => exact absurd ht hf

theorem sublist_placesOf {text : String} (some : List (Position × String))
    {values : List (Position × String)} (h : some.Sublist values)
    (ht : ∀ value ∈ some, value.2 = text) :
    (some.map (·.1)).Sublist (placesOf text values) := by
  have hfilter : some.filter (·.2 = text) = some :=
    List.filter_eq_self.mpr fun value hm => decide_eq_true (ht value hm)
  rw [← hfilter]
  exact (h.filter _).map _

theorem exists_cons_cons_of_sublist {p q : Position} {places : List Position}
    (h : [p, q].Sublist places) : ∃ first second more, places = first :: second :: more := by
  rcases places with _ | ⟨first, _ | ⟨second, more⟩⟩
  · exact absurd h.length_le (by simp)
  · exact absurd h.length_le (by simp)
  · exact ⟨first, second, more, rfl⟩

end Canonical

namespace CanonicalManifest

section
variable {c : CanonicalManifest} {lines : List ManifestLine} (hc : c.Plain) (hw : c.WrittenAs lines)

include hw in
/-- The entries of the text are the values of the manifest. -/
theorem entries_eq_values :
    (entries 0 lines).map (fun e => (e.place, e.text)) = c.values := by
  have hblank : ∀ lines : List ManifestLine, lines.flatMap ManifestLine.values =
      (lines.filter (! ·.isBlank)).flatMap ManifestLine.values := by
    intro lines
    induction lines with
    | nil => rfl
    | cons line rest ih =>
      rw [List.flatMap_cons, List.filter_cons, ih]
      cases line <;> rfl
  rw [entries_values, hblank, hw, values]

include hw in
/-- The span of a place is that of its entry, for there is one of the place only. -/
theorem spanOf_eq {e : LineEntry} (he : e ∈ entries 0 lines) :
    spanOf lines e.place = some e.span := by
  have hplaces : ((entries 0 lines).map (·.place)).Nodup := by
    have hnodup := c.nodup_places
    rw [← entries_eq_values hw, List.map_map] at hnodup
    exact hnodup
  obtain ⟨e', hfind⟩ : ∃ e', (entries 0 lines).find? (·.place = e.place) = some e' :=
    Option.isSome_iff_exists.mp (List.find?_isSome.mpr ⟨e, he, by simp⟩)
  have hplace : e'.place = e.place := by simpa using List.find?_some hfind
  rw [spanOf, hfind, List.inj_on_of_nodup_map hplaces (List.mem_of_find?_eq_some hfind) he hplace]
  rfl

include hc hw in
/-- The search for a name comes to the first place that holds it. -/
theorem span?_eq_spanOf {name : String} {p : Position} {more : List Position}
    (h : placesOf name c.values = p :: more) :
    ∃ span, span? (source lines) name = some span ∧ spanOf lines p = some span := by
  obtain ⟨_, _, hv, _, _⟩ := placesOf_eq_cons h
  have hn : Canonical.Plain name := c.plain_of_mem_values hc (hv ▸ by simp : (p, name) ∈ c.values)
  obtain ⟨e, others, hfirst, rfl⟩ := exists_first_entry (entries_eq_values hw ▸ h)
  have he : e ∈ entries 0 lines := List.mem_of_mem_filter (hfirst ▸ List.mem_cons_self)
  have hall : (entries 0 lines).filter (fun f => f.text = name ∧ 0 + 4 ≤ f.span.offset) =
      (entries 0 lines).filter (·.text = name) :=
    List.filter_congr fun f hf => by simpa using fun _ => (bounds_of_mem_entries hf).1
  exact ⟨e.span, spanFrom?_eq_first (c.plain_lines hc hw) hn (hall.trans hfirst)
    (dropBytes_append [] _), spanOf_eq hw he⟩

include hc hw in
/-- The search for a name from a place on comes to the first place behind it that holds the name. -/
theorem spanFrom?_eq_spanOf {name text : String} {p q : Position} {span : Span}
    {front rest : List (Position × String)} {more : List Position}
    (hv : c.values = front ++ (p, text) :: rest) (hp : spanOf lines p = some span)
    (h : placesOf name rest = q :: more) :
    ∃ next, spanFrom? (source lines) name span.stop = some next ∧ spanOf lines q = some next := by
  obtain ⟨_, _, hrest, _, _⟩ := placesOf_eq_cons h
  have hn : Canonical.Plain name :=
    c.plain_of_mem_values hc (by rw [hv, hrest]; simp : (q, name) ∈ c.values)
  have htext : Canonical.Plain text :=
    c.plain_of_mem_values hc (by rw [hv]; simp : (p, text) ∈ c.values)
  obtain ⟨entriesFront, others, hentries, _, hothers⟩ :=
    List.map_eq_append_iff.mp ((entries_eq_values hw).trans hv)
  obtain ⟨e, entriesRest, rfl, hvalue, rfl⟩ := List.map_eq_cons_iff.mp hothers
  obtain ⟨rfl, rfl⟩ := Prod.mk.inj hvalue
  have he : e ∈ entries 0 lines := by rw [hentries]; simp
  obtain rfl : e.span = span := Option.some.inj ((spanOf_eq hw he).symm.trans hp)
  obtain ⟨f, others, hfirst, rfl⟩ := exists_first_entry h
  have hf : f ∈ entries 0 lines := by
    rw [hentries]
    have hm := List.mem_of_mem_filter (hfirst ▸ List.mem_cons_self : f ∈ _)
    simp [hm]
  obtain ⟨cut, hcut⟩ := exists_dropBytes_stop (c.plain_lines hc hw) he htext
  exact ⟨f.span, spanFrom?_eq_first (c.plain_lines hc hw) hn
    ((filter_after hentries name).trans hfirst) hcut, spanOf_eq hw hf⟩

end

end CanonicalManifest

/-- The places that hold the text an error is about. A parameter's name is looked for after the
first place that holds the name of its declaration. -/
def ManifestError.sought (values : List (Position × String)) : ManifestError → List Position
  | .invalidPackage text _ _ | .invalidName text _ _ _ | .repeatedDeclaration text _ =>
    placesOf text values
  | .blankType text holder _ | .repeatedParameter text holder _ _ =>
    placesOf text (valuesAfter holder values)
  | .unreadable _ | .malformed _ | .blankOwner => []

/-- The first index that has the same name as the given one. -/
def firstIndex (names : List String) (i : Nat) : Nat := names.idxOf (names[i]?.getD "")

/-- Where a name is repeated, an earlier entry of that name is the first one. -/
theorem exists_first_of_repeated {α : Type} {name : α → String} {items : List α} {item : α}
    {i : Nat} (h : items[i]? = some item) (hm : name item ∈ (items.take i).map name) :
    ∃ first, firstIndex (items.map name) i < i ∧
      items[firstIndex (items.map name) i]? = some first ∧ name first = name item := by
  have hitem : (items.map name)[i]? = some (name item) := by rw [List.getElem?_map, h]; rfl
  rw [List.map_take] at hm
  have hindex : firstIndex (items.map name) i = ((items.map name).take i).idxOf (name item) := by
    rw [firstIndex, hitem, Option.getD_some]
    conv_lhs => rw [← List.take_append_drop i (items.map name)]
    exact List.idxOf_append_of_mem hm
  have hlt : firstIndex (items.map name) i < i :=
    hindex ▸ (List.idxOf_lt_length_iff.mpr hm).trans_le (List.length_take_le _ _)
  have hfirst : (items.map name)[firstIndex (items.map name) i]? = some (name item) := by
    rw [firstIndex, hitem, Option.getD_some]
    exact List.getElem?_idxOf (List.mem_of_mem_take hm)
  rw [List.getElem?_map, Option.map_eq_some_iff] at hfirst
  obtain ⟨first, hfirst, hsame⟩ := hfirst
  exact ⟨first, hlt, hfirst, hsame⟩

namespace ManifestFault

/-- The places a fault is about: of a repetition the first of the names and the one at fault. -/
def occurrences (manifest : Manifest) : ManifestFault → List Position
  | .package => [.package]
  | .owner => []
  | .declaration i .name => [.declaration i]
  | .declaration i .repetition =>
    [.declaration (firstIndex (manifest.declarations.map (·.name)) i), .declaration i]
  | .declaration i (.parameter j .repetition) =>
    let parameters := manifest.declarations[i]?.elim [] (·.parameters)
    [.parameter i (firstIndex (parameters.map (·.name)) j), .parameter i j]
  | .declaration i (.parameter j _) => [.parameter i j]

/-- Which of the places are labelled: of a repeated declaration only the second. -/
def labelled (places : List Position) : ManifestFault → List Position
  | .declaration _ .repetition => places.drop 1
  | _ => places

theorem labelled_subset (fault : ManifestFault) (places : List Position) :
    fault.labelled places ⊆ places := by
  rcases fault with _ | _ | ⟨i, _ | _ | _⟩
  case declaration.repetition => exact List.drop_subset _ _
  all_goals exact List.Subset.refl _

end ManifestFault

namespace CanonicalManifest
section
variable {c : CanonicalManifest} {lines : List ManifestLine} {error : ManifestError} (hc : c.Plain)
  (hw : c.WrittenAs lines)

include hc hw in
/-- Of the places behind one that hold a name, the search finds the first and then the second. -/
theorem spanAfter?_eq_spanOf {name : String} {p q : Position} {span : Span}
    {front rest : List (Position × String)} {more : List Position} (hv : c.values = front ++ rest)
    (h : placesOf name rest = p :: q :: more) (hp : spanOf lines p = some span) :
    ∃ next, spanAfter? (source lines) name (some span) = some next ∧
      spanOf lines q = some next := by
  obtain ⟨before, after, rfl, hafter, _⟩ := placesOf_eq_cons h
  rw [← List.append_assoc] at hv
  exact spanFrom?_eq_spanOf hc hw hv hp hafter

include hc hw in
/-- A parameter is looked up behind the first place that holds the name of its declaration. -/
theorem exists_parameterStart {holder : String} {p : Position} (hp : (p, holder) ∈ c.values) :
    ∃ front first span, c.values = front ++ (first, holder) :: valuesAfter holder c.values ∧
      spanOf lines first = some span ∧
        Manifest.parameterStart (source lines) holder = span.stop := by
  have hne : placesOf holder c.values ≠ [] :=
    List.ne_nil_of_mem (List.mem_map.mpr ⟨_, List.mem_filter.mpr ⟨hp, by simp⟩, rfl⟩)
  obtain ⟨first, more, hfirst⟩ := List.exists_cons_of_ne_nil hne
  obtain ⟨span, hspan, hof⟩ := span?_eq_spanOf hc hw hfirst
  obtain ⟨front, rest, hv, _, hafter⟩ := placesOf_eq_cons hfirst
  refine ⟨front, first, span, by rw [hafter]; exact hv, hof, ?_⟩
  rw [Manifest.parameterStart, hspan]
  rfl

include hc hw in
/-- A name that is looked for on its own has the one label of its first place. -/
theorem label_eq_sought {name : String} {p : Position} (remark : Option String)
    (hp : [p].Sublist (placesOf name c.values)) :
    ((span? (source lines) name).toList.map (·, remark)).map (fun label => some label.1) =
      ((placesOf name c.values).take 1).map (spanOf lines) := by
  obtain ⟨first, more, hfirst⟩ := List.exists_cons_of_ne_nil (List.ne_nil_of_mem
    (hp.subset List.mem_cons_self))
  obtain ⟨span, hspan, hof⟩ := span?_eq_spanOf hc hw hfirst
  rw [hspan, hfirst]
  simp [hof]

include hc hw in
theorem parameter_labels_eq_sought {i j : Nat} {d : SourceDeclaration} {p : SourceParameter}
    (hd : c.manifest.declarations[i]? = some d) {fault : ParameterFault}
    (hr : fault.Reported (source lines) d p error)
    (ho : ((ManifestFault.declaration i (.parameter j fault)).occurrences c.manifest).Sublist
      (error.sought c.values)) :
    error.labels.map (fun label => some label.1) = ((error.sought c.values).take
      ((ManifestFault.declaration i (.parameter j fault)).occurrences
        c.manifest).length).map (spanOf lines) := by
  obtain ⟨front, first, span, hv, hof, hstart⟩ :=
    exists_parameterStart hc hw (c.mem_values_declaration hd)
  cases fault with
  | name =>
    obtain ⟨f, _, rfl⟩ := hr
    exact label_eq_sought hc hw _ ho
  | blankType =>
    subst hr
    obtain ⟨place, more, hsought⟩ := List.exists_cons_of_ne_nil (List.ne_nil_of_mem
      (ho.subset List.mem_cons_self))
    rw [ManifestError.sought] at hsought
    obtain ⟨found, hfound, hofFound⟩ := spanFrom?_eq_spanOf hc hw hv hof hsought
    rw [hstart, hfound, ManifestError.sought, hsought]
    simp [ManifestError.labels, ManifestFault.occurrences, hofFound]
  | repetition =>
    obtain ⟨_, rfl, rfl⟩ := hr
    obtain ⟨place, again, more, hsought⟩ := exists_cons_cons_of_sublist ho
    rw [ManifestError.sought] at hsought
    obtain ⟨found, hfound, hofFound⟩ := spanFrom?_eq_spanOf hc hw hv hof hsought
    rw [List.append_cons] at hv
    obtain ⟨next, hnext, hofNext⟩ := spanAfter?_eq_spanOf hc hw hv hsought hofFound
    rw [hstart, hfound, hnext, ManifestError.sought, hsought]
    simp [ManifestError.labels, ManifestFault.occurrences, hofFound, hofNext]

include hc hw in
/-- The labels of an error are those of the places that are found first. -/
theorem labels_eq_sought {fault : ManifestFault}
    (hr : fault.Reported (source lines) c.manifest error)
    (ho : (fault.occurrences c.manifest).Sublist (error.sought c.values)) :
    error.labels.map (fun label => some label.1) = (fault.labelled ((error.sought c.values).take
      (fault.occurrences c.manifest).length)).map (spanOf lines) := by
  cases fault with
  | package =>
    obtain ⟨f, _, rfl⟩ := hr
    exact label_eq_sought hc hw _ ho
  | owner =>
    subst hr
    rfl
  | declaration i fault =>
    obtain ⟨d, hd, hr⟩ := hr
    cases fault with
    | name =>
      obtain ⟨f, _, rfl⟩ := hr
      exact label_eq_sought hc hw _ ho
    | repetition =>
      subst hr
      obtain ⟨first, second, more, hsought⟩ := exists_cons_cons_of_sublist ho
      rw [ManifestError.sought] at hsought
      obtain ⟨span, hspan, hof⟩ := span?_eq_spanOf hc hw hsought
      obtain ⟨next, hnext, hofNext⟩ :=
        spanAfter?_eq_spanOf hc hw (List.nil_append _).symm hsought hof
      rw [hspan, hnext, ManifestError.sought, hsought]
      simp [ManifestError.labels, ManifestFault.occurrences, ManifestFault.labelled, hofNext]
    | parameter j fault =>
      obtain ⟨p, _, hr⟩ := hr
      exact parameter_labels_eq_sought hc hw hd hr ho

theorem singleton_sublist_placesOf {p : Position} {name : String} (h : (p, name) ∈ c.values) :
    [p].Sublist (placesOf name c.values) :=
  sublist_placesOf [(p, name)] (List.singleton_sublist.mpr h) (by simp)

/-- A fault of a parameter is looked for behind the name of its declaration, or by its own. -/
theorem parameter_occurrences_sublist {i j : Nat} {d : SourceDeclaration} {p : SourceParameter}
    (hd : c.manifest.declarations[i]? = some d) (hp : d.parameters[j]? = some p)
    {fault : ParameterFault} (hf : fault.Concerns ((d.parameters.take j).map (·.name)) p)
    (hr : fault.Reported (source lines) d p error) :
    ((ManifestFault.declaration i (.parameter j fault)).occurrences c.manifest).Sublist
      (error.sought c.values) := by
  cases fault with
  | name =>
    obtain ⟨f, _, rfl⟩ := hr
    exact singleton_sublist_placesOf (c.mem_values_parameter hd hp)
  | blankType =>
    subst hr
    refine sublist_placesOf [(.parameter i j, p.name)]
      (sublist_valuesAfter (.declaration i, d.name) (c.sublist_values ?_ ?_) rfl) (by simp)
    · simp [Position.Before, Position.rank]
    · simpa using ⟨c.mem_values_declaration hd, c.mem_values_parameter hd hp⟩
  | repetition =>
    obtain ⟨_, _, rfl⟩ := hr
    obtain ⟨first, hlt, hfirst, hsame⟩ := exists_first_of_repeated hp hf
    have hoccurrences : (ManifestFault.declaration i (.parameter j .repetition)).occurrences
        c.manifest = [.parameter i (firstIndex (d.parameters.map (·.name)) j),
          .parameter i j] := by
      rw [ManifestFault.occurrences, hd]
      rfl
    rw [hoccurrences]
    refine sublist_placesOf [(.parameter i _, p.name), (.parameter i j, p.name)]
      (sublist_valuesAfter (.declaration i, d.name) (c.sublist_values ?_ ?_) rfl) (by simp)
    · simpa [Position.Before, Position.rank] using hlt
    · simpa using ⟨c.mem_values_declaration hd,
        hsame ▸ c.mem_values_parameter hd hfirst, c.mem_values_parameter hd hp⟩

/-- The values a fault is about are among those that are looked through for them. -/
theorem occurrences_sublist {fault : ManifestFault} (hf : fault.Concerns c.manifest)
    (hr : fault.Reported (source lines) c.manifest error) :
    (fault.occurrences c.manifest).Sublist (error.sought c.values) := by
  cases fault with
  | package =>
    obtain ⟨f, _, rfl⟩ := hr
    refine singleton_sublist_placesOf (c.mem_values_package ?_)
    cases hwritten : c.output.bind (·.package) with
    | some package => simp [manifest, hwritten]
    | none =>
      have hdefault : packageFault? ({} : OutputSettings).package = none := by decide +kernel
      rw [ManifestFault.Concerns, manifest, hwritten, Option.getD_none] at hf
      exact absurd (Manifest.packageFault?_eq_none.mp hdefault) hf
  | owner => exact List.nil_sublist _
  | declaration i fault =>
    obtain ⟨d, hd, hr⟩ := hr
    obtain ⟨d', hd', hf⟩ := hf
    obtain rfl := Option.some.inj (hd.symm.trans hd')
    cases fault with
    | name =>
      obtain ⟨f, _, rfl⟩ := hr
      exact singleton_sublist_placesOf (c.mem_values_declaration hd)
    | repetition =>
      subst hr
      obtain ⟨first, hlt, hfirst, hsame⟩ := exists_first_of_repeated hd hf
      refine sublist_placesOf [(.declaration _, d.name), (.declaration i, d.name)]
        (c.sublist_values ?_ ?_) (by simp)
      · simpa [Position.Before, Position.rank, manifest] using hlt
      · simpa using ⟨hsame ▸ c.mem_values_declaration hfirst, c.mem_values_declaration hd⟩
    | parameter j fault =>
      obtain ⟨p, hp, hr⟩ := hr
      obtain ⟨p', hp', hf⟩ := hf
      obtain rfl := Option.some.inj (hp.symm.trans hp')
      exact parameter_occurrences_sublist hd hp hf hr

theorem sought_sublist (error : ManifestError) (values : List (Position × String)) :
    (error.sought values).Sublist (values.map (·.1)) := by
  have hplaces : ∀ {text : String} {some : List (Position × String)}, some.Sublist values →
      (placesOf text some).Sublist (values.map (·.1)) := by
    intro text some hsome
    exact (List.filter_sublist.trans hsome).map _
  have hafter : ∀ {holder : String}, (valuesAfter holder values).Sublist values :=
    (List.tail_sublist _).trans (List.dropWhile_sublist _)
  cases error with
  | invalidPackage | invalidName | repeatedDeclaration => exact hplaces (.refl _)
  | blankType | repeatedParameter => exact hplaces hafter
  | unreadable | malformed | blankOwner => exact List.nil_sublist _

include hw in
/-- Two places do not share a span. -/
theorem spanOf_inj {p q : Position} (hp : p ∈ c.values.map (·.1)) (hq : q ∈ c.values.map (·.1))
    (h : spanOf lines p = spanOf lines q) : p = q := by
  rw [← entries_eq_values hw, List.map_map] at hp hq
  obtain ⟨e, he, rfl⟩ := List.mem_map.mp hp
  obtain ⟨f, hf, rfl⟩ := List.mem_map.mp hq
  have hspans : ((entries 0 lines).map (·.span)).Nodup := by
    rw [List.nodup_iff_pairwise_ne, List.pairwise_map]
    refine (pairwise_entries 0 lines).imp fun hlt heq => ?_
    rw [← heq, Span.stop] at hlt
    omega
  simp only [Function.comp_apply] at h ⊢
  rw [spanOf_eq hw he, spanOf_eq hw hf] at h
  rw [List.inj_on_of_nodup_map hspans he hf (Option.some.inj h)]

include hw in
theorem map_spanOf_inj {places others : List Position} (hp : places ⊆ c.values.map (·.1))
    (ho : others ⊆ c.values.map (·.1)) :
    places.map (spanOf lines) = others.map (spanOf lines) ↔ places = others := by
  refine ⟨fun h => ?_, congrArg _⟩
  induction places generalizing others with
  | nil => exact (List.map_eq_nil_iff.mp h.symm).symm
  | cons p places ih =>
    cases others with
    | nil => cases h
    | cons q others =>
      obtain ⟨hspan, hspans⟩ := List.cons.inj h
      obtain ⟨hpm, hp⟩ := List.cons_subset.mp hp
      obtain ⟨hqm, ho⟩ := List.cons_subset.mp ho
      rw [spanOf_inj hw hpm hqm hspan, ih hp ho hspans]

/-- The first places that are found are those of the fault exactly if these come first. -/
theorem labelled_take_eq_iff {fault : ManifestFault} {sought : List Position}
    (ho : (fault.occurrences c.manifest).Sublist sought) (hnodup : sought.Nodup) :
    fault.labelled (sought.take (fault.occurrences c.manifest).length) =
      fault.labelled (fault.occurrences c.manifest) ↔ fault.occurrences c.manifest <+: sought := by
  rw [List.prefix_iff_eq_take, eq_comm]
  rcases fault with _ | _ | ⟨i, _ | _ | _⟩
  · rfl
  · rfl
  · rfl
  · obtain ⟨first, second, more, rfl⟩ := exists_cons_cons_of_sublist ho
    obtain ⟨hfirst, hrest⟩ := List.nodup_cons.mp hnodup
    simp only [ManifestFault.occurrences, ManifestFault.labelled, List.length_cons,
      List.length_nil, List.take_succ_cons, List.take_zero, List.drop_succ_cons, List.drop_zero,
      List.cons.injEq, and_true] at ho ⊢
    refine ⟨?_, fun h => h.2⟩
    rintro rfl
    refine ⟨?_, rfl⟩
    cases ho with
    | cons_cons => rfl
    | cons _ ho =>
      exact absurd (ho.tail.subset List.mem_cons_self) (List.nodup_cons.mp hrest).1
  · rfl

include hc hw in
/-- Whatever a text in canonical layout is refused for, the labels of the error are those of the
first places that hold what it is about. They mark the values of the first fault exactly if no
other place that is looked through before them holds the same. -/
theorem labels_mark_iff {fileName : String}
    (h : Manifest.parse (String.ofList (source lines)) fileName = .error error) :
    ∃ fault, c.manifest.FirstFault fault ∧ fault.Reported (source lines) c.manifest error ∧
      error.labels.map (fun label => some label.1) = (fault.labelled ((error.sought c.values).take
        (fault.occurrences c.manifest).length)).map (spanOf lines) ∧
      (error.labels.map (fun label => some label.1) =
          (fault.labelled (fault.occurrences c.manifest)).map (spanOf lines) ↔
        fault.occurrences c.manifest <+: error.sought c.values) := by
  have hrefused : c.manifest.validate (source lines) = .error error := by
    rw [parse_source hc hw] at h
    cases hresult : c.manifest.validate (source lines) with
    | error refusal =>
      rw [hresult] at h
      exact congrArg _ (Except.error.inj h)
    | ok _ =>
      rw [hresult] at h
      cases h
  have hfinds := Manifest.validate_finds (source lines) c.manifest
  rw [hrefused] at hfinds
  cases hfinds with
  | fault fault hf hfirst hr =>
    have ho := occurrences_sublist hf hr
    have hlabels := labels_eq_sought hc hw hr ho
    have hsought := sought_sublist error c.values
    refine ⟨fault, ⟨hf, hfirst⟩, hr, hlabels, ?_⟩
    rw [hlabels, ← labelled_take_eq_iff ho (c.nodup_places.sublist hsought)]
    have hsubset : ∀ places ⊆ error.sought c.values, fault.labelled places ⊆ c.values.map (·.1) :=
      fun places hp => (List.Subset.trans (fault.labelled_subset places)
        (List.Subset.trans hp hsought.subset))
    exact map_spanOf_inj hw (hsubset _ (List.take_subset _ _)) (hsubset _ ho.subset)

end

/-- A card whose title has a type that is declared after it, without the type of an icon. -/
def card : CanonicalManifest where
  declarations :=
    [⟨"CardProperties", ["PropertyOwner"],
      [⟨"title", "TextProperties"⟩, ⟨"icon", "ShapeProperty"⟩]⟩,
      ⟨"TextProperties", ["PropertyOwner"], [⟨"icon", ""⟩]⟩]

/-- What is reported of it. -/
def cardError : ManifestError := .blankType "icon" "TextProperties" (some ⟨162, 4⟩)

theorem card_plain : card.Plain := by decide +kernel

theorem card_written : card.WrittenAs card.lines := by decide +kernel

theorem card_refused (fileName : String) :
    Manifest.parse (String.ofList (source card.lines)) fileName = .error cardError := by
  have hvalidate : card.manifest.validate (source card.lines) = .error cardError := by
    decide +kernel
  rw [parse_source card_plain card_written, hvalidate]
  rfl

theorem card_labels_mark_iff :
    (card.Plain ∧ card.WrittenAs card.lines ∧
      Manifest.parse (String.ofList (source card.lines)) Manifest.defaultFileName =
        .error cardError) ∧
    ∃ fault, card.manifest.FirstFault fault ∧
      fault.Reported (source card.lines) card.manifest cardError ∧
      cardError.labels.map (fun label => some label.1) =
        (fault.labelled ((cardError.sought card.values).take
          (fault.occurrences card.manifest).length)).map (spanOf card.lines) ∧
      (cardError.labels.map (fun label => some label.1) =
          (fault.labelled (fault.occurrences card.manifest)).map (spanOf card.lines) ↔
        fault.occurrences card.manifest <+: cardError.sought card.values) :=
  ⟨⟨card_plain, card_written, card_refused _⟩,
    labels_mark_iff card_plain card_written (card_refused Manifest.defaultFileName)⟩

/-- The declaration's name first stands as a type, so the parameter that follows it there is
labelled in place of the one at fault. -/
theorem card_label_in_other_declaration :
    Manifest.parse (String.ofList (source card.lines)) Manifest.defaultFileName =
      .error cardError ∧
    cardError.labels.map (fun label => some label.1) = [spanOf card.lines (.parameter 0 1)] ∧
    spanOf card.lines (.parameter 0 1) ≠ spanOf card.lines (.parameter 1 0) :=
  ⟨card_refused _, by decide +kernel⟩

end CanonicalManifest
end StyleFamily
