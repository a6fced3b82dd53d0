import StyleFamily.Files.Sink
import StyleFamily.Proofs.Files.Tree

/-!
# What a directory sink leaves behind

The files of a machine may refuse any operation at any time. All that is asked of them is that an
operation which reports success has had its effect: what was read or written stands at its path,
and what was moved stands at the new path as it stood at the old one. A sink over such files that
takes a unit leaves the unit's content at the path it reports.
-/
namespace StyleFamily

/-- Operations that succeed have had their effect, as far as a view of the state shows it. -/
structure FileAccess.Keeps {σ : Type} (files : FileAccess (StateM σ))
    (view : σ → Path → Option String) : Prop where
  read : ∀ {path s next text}, (files.read path).run s = (some text, next) →
    view next path = some text
  write : ∀ {path text s next}, (files.write path text).run s = (true, next) →
    view next path = some text
  rename : ∀ {source destination s next}, (files.rename source destination).run s = (true, next) →
    view next destination = view s source

namespace Tree

/-- The operations on a tree keep to what is read from the tree. -/
theorem access_keeps : access.Keeps Tree.read where
  read := by
    intro path s next text h
    obtain ⟨hr, rfl⟩ : s.read path = some text ∧ s = next := Prod.mk.inj h
    exact hr
  write := read_write
  rename := read_rename

end Tree

/-- Makes the directory that a file at the path stands in. -/
def FileAccess.prepare {m : Type → Type} [Monad m] (files : FileAccess m) (path : Path) : m Bool :=
  match path.parent? with
  | none => pure true
  | some above => files.createDirectories above

section
variable {σ : Type} {files : FileAccess (StateM σ)} {view : σ → Path → Option String}

theorem replace_eq (path : Path) (text : String) :
    files.replace path text = do
      let ready ← files.prepare path
      if !ready then return false
      if ← files.write path.draft text then
        if ← files.rename path.draft path then return true
      files.remove path.draft
      return false := by
  unfold FileAccess.replace FileAccess.prepare
  cases path.parent? <;> rfl

/-- The first step of a program ends where the rest begins. -/
theorem exists_run_of_bind {α β : Type} {first : StateM σ α} {rest : α → StateM σ β} {s last : σ}
    {b : β} (h : (first >>= rest).run s = (b, last)) :
    ∃ a next, first.run s = (a, next) ∧ (rest a).run next = (b, last) :=
  ⟨_, _, rfl, h⟩

theorem run_bind_of_run {α β : Type} {first : StateM σ α} {rest : α → StateM σ β} {s next : σ}
    {a : α} (h : first.run s = (a, next)) : (first >>= rest).run s = (rest a).run next := by
  change (rest (first.run s).1).run (first.run s).2 = _
  rw [h]

/-- A discarded draft is never reported as a success. -/
theorem run_discard {path : Path} {s last : σ} :
    ¬(do files.remove path; return false : StateM σ Bool).run s = (true, last) := by
  intro h
  obtain ⟨_, next, _, h⟩ := exists_run_of_bind h
  exact absurd (Prod.mk.inj h).1 (by decide)

theorem replace_keeps (hk : files.Keeps view) {path : Path} {text : String} {s last : σ}
    (h : (files.replace path text).run s = (true, last)) : view last path = some text := by
  rw [replace_eq] at h
  obtain ⟨ready, s1, _, h⟩ := exists_run_of_bind h
  cases ready with
  | false => exact absurd (Prod.mk.inj h).1 (by decide)
  | true =>
    obtain ⟨drafted, s2, hdraft, h⟩ := exists_run_of_bind h
    cases drafted with
    | false => exact absurd h run_discard
    | true =>
      obtain ⟨moved, s3, hmove, h⟩ := exists_run_of_bind h
      cases moved with
      | false => exact absurd h run_discard
      | true =>
        obtain rfl : s3 = last := (Prod.mk.inj h).2
        rw [hk.rename hmove, hk.write hdraft]

/-- The file at a unit's path is read, and replaced unless it holds the unit's content. -/
theorem accept_cases {unit : SourceUnit} {target : Target} {s last : σ}
    {answer : Except SinkError Receipt}
    (h : ((Sink.directory files).accept unit target).run s = (answer, last)) :
    ∃ found between, (files.read (target.pathOf unit)).run s = (found, between) ∧
      (found = some unit.content ∧ answer = .ok ⟨target.pathOf unit, .unchanged⟩ ∧
          last = between ∨
        found ≠ some unit.content ∧ ∃ replaced,
          (files.replace (target.pathOf unit) unit.content).run between = (replaced, last) ∧
          answer = if replaced then .ok ⟨target.pathOf unit, .written⟩
            else .error (.unwritable (target.pathOf unit))) := by
  obtain ⟨found, between, hread, h⟩ := exists_run_of_bind h
  refine ⟨found, between, hread, ?_⟩
  by_cases hsame : found = some unit.content
  · rw [if_pos (by simp [hsame])] at h
    obtain ⟨rfl, rfl⟩ := Prod.mk.inj h
    exact .inl ⟨hsame, rfl, rfl⟩
  · rw [if_neg (by simpa using hsame)] at h
    obtain ⟨replaced, next, hreplace, h⟩ := exists_run_of_bind h
    refine .inr ⟨hsame, replaced, ?_⟩
    cases replaced <;> obtain ⟨rfl, rfl⟩ := Prod.mk.inj h <;> exact ⟨hreplace, rfl⟩

/-- A unit that is taken stands at its path, whether it was written or stood there before. -/
theorem accept_keeps (hk : files.Keeps view) {unit : SourceUnit} {target : Target}
    {receipt : Receipt} {s last : σ}
    (h : ((Sink.directory files).accept unit target).run s = (.ok receipt, last)) :
    receipt.path = target.pathOf unit ∧ view last receipt.path = some unit.content := by
  obtain ⟨found, between, hread, ⟨rfl, hanswer, rfl⟩ | ⟨_, replaced, hreplace, hanswer⟩⟩ :=
    accept_cases h
  · obtain rfl := Except.ok.inj hanswer
    exact ⟨rfl, hk.read hread⟩
  · cases replaced with
    | false => cases hanswer
    | true =>
      obtain rfl := Except.ok.inj hanswer
      exact ⟨rfl, replace_keeps hk hreplace⟩

/-- A directory that takes no unit says which path it could not write. -/
theorem accept_error {unit : SourceUnit} {target : Target} {error : SinkError} {s last : σ}
    (h : ((Sink.directory files).accept unit target).run s = (.error error, last)) :
    error = .unwritable (target.pathOf unit) := by
  obtain ⟨found, between, _, ⟨_, hanswer, _⟩ | ⟨_, replaced, _, hanswer⟩⟩ := accept_cases h
  · cases hanswer
  · cases replaced with
    | false => exact Except.error.inj hanswer
    | true => cases hanswer

end
end StyleFamily
