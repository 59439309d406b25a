import NullGuard.Command.Check
import NullGuard.Command.Transform
import NullGuard.Proofs.SessionReports

/-!
# Loops over files

A transformation and a check each take files one after the other and keep
counters of their own. Both are run here in an arbitrary world: what a file
holds, whether it can be read, and whether a result can be written may depend on
everything that happened before.

What the two loops have in common is the batch, which depends on the contents
that were read and on nothing else (`Batch.afterAll`). So `readings` says what a
loop reads on its way, and a step lemma for each of the loops says what another
file does to its counters (`transformNext_on`, `checkNext_run`). By induction,
`transformed_on` says that a transformation that gets to its end has counted
every file once, as written or as failed, and `checked_run` that a check has
collected the same batch from the same contents.

The count of errors is the count of files that came to nothing:
`errors_afterAll`, from what is known of a session.
-/

namespace NullGuard.Command

open NullGuard.Files NullGuard.Transform NullGuard.Diagnostics

section Runs

variable {World : Type} {α β : Type}

/-- What a command comes to in a world, and the world after it. -/
def Act.on (act : Act (StateM World) α) (w : World) :
    Except Failure α × World :=
  act.run.run w

variable {act : Act (StateM World) α} {next : α → Act (StateM World) β}
  {w v : World}

@[simp] theorem Act.pure_on (a : α) : Act.on (pure a) w = (.ok a, w) :=
  rfl

@[simp] theorem Act.throw_on (f : Failure) :
    Act.on (throw f : Act (StateM World) α) w = (.error f, w) :=
  rfl

/-- Something that cannot fail. -/
@[simp] theorem Act.lift_on (act : StateM World α) :
    Act.on (liftM act) w = (.ok (act.run w).1, (act.run w).2) :=
  rfl

/-- A command goes on in the world that its first part leaves. -/
theorem Act.bind_on_ok {a : α} (first : act.on w = (.ok a, v)) :
    (act >>= next).on w = (next a).on v := by
  have run : act.run.run w = (.ok a, v) := first
  simp only [on, ExceptT.run_bind, StateT.run_bind, run]
  rfl

/-- A command ends where its first part fails. -/
theorem Act.bind_on_error {f : Failure} (first : act.on w = (.error f, v)) :
    (act >>= next).on w = (.error f, v) := by
  have run : act.run.run w = (.error f, v) := first
  simp only [on, ExceptT.run_bind, StateT.run_bind, run]
  rfl

/-- A command that does not fail comes to something. -/
theorem Act.ends_of_isOk (act : Act (StateM World) α) (w : World)
    (ends : (act.on w).1.isOk = true) :
    ∃ a v, act.on w = (.ok a, v) := by
  cases ran : act.on w with
  | mk result v =>
    cases result with
    | ok a => exact ⟨a, v, rfl⟩
    | error f =>
      rw [ran] at ends
      cases ends

/-- What cannot fail goes on in the world that its first part leaves. -/
theorem bind_run {act : StateM World α} {next : α → StateM World β} {a : α}
    (first : act.run w = (a, v)) :
    (act >>= next).run w = (next a).run v := by
  rw [StateT.run_bind, first]
  rfl

end Runs

/-- What is read of a file. -/
abbrev Reading := Except FileFault String

instance decidableEqExcept {ε α : Type} [DecidableEq ε] [DecidableEq α] :
    DecidableEq (Except ε α)
  | .ok a, .ok b => decidable_of_iff (a = b) ⟨congrArg Except.ok, Except.ok.inj⟩
  | .error e, .error f =>
    decidable_of_iff (e = f) ⟨congrArg Except.error, Except.error.inj⟩
  | .ok _, .error _ => isFalse nofun
  | .error _, .ok _ => isFalse nofun

section Contents

variable (options : Options)

/-- What there is for a file of some content: nothing if it cannot be read or is
rejected. -/
def Batch.answer (b : Batch) (path : String) : Reading → Option Rewritten
  | .error _ => none
  | .ok text => (b.rewrite options path text).1

/-- A batch with another file, whatever comes of it. -/
def Batch.after (b : Batch) (path : String) : Reading → Batch
  | .error fault => b.skip path fault
  | .ok text => (b.rewrite options path text).2

/-- A batch with more files, each with what is read of it. -/
def Batch.afterAll (b : Batch) : List (String × Reading) → Batch
  | [] => b
  | (path, content) :: files => (b.after options path content).afterAll files

/-- How many of some files come to nothing. -/
def Batch.failures (b : Batch) : List (String × Reading) → Nat
  | [] => 0
  | (path, content) :: files =>
    (if (b.answer options path content).isNone then 1 else 0) +
      (b.after options path content).failures files

variable {options}

/-- A file that comes to nothing is one error more, and any other file is
none. -/
theorem errors_after (b : Batch) (path : String) (content : Reading) :
    countOf .error (b.after options path content).session.diagnostics =
      countOf .error b.session.diagnostics +
      if (b.answer options path content).isNone then 1 else 0 := by
  cases content with
  | error fault =>
    simp [Batch.after, Batch.answer, Batch.skip, Session.report, countOf,
      Batch.unreadable, Diagnostic.ofCode, Code.severity]
  | ok text =>
    obtain ⟨added, -, behind, -, accounts⟩ :=
      rewrite_adds b.session options path text
    have session : (b.rewrite options path text).2.session =
        (b.session.rewrite options path text).2 := by
      unfold Batch.rewrite
      split <;> simp_all
    have answer : (b.rewrite options path text).1 =
        (b.session.rewrite options path text).1 := by
      unfold Batch.rewrite
      split <;> simp_all
    simp only [Batch.after, Batch.answer, session, answer, behind]
    rw [← accounts.errors, countOf, List.filter_append, List.length_append]
    rfl

/-- **There are as many errors as files that came to nothing.** -/
theorem errors_afterAll (options : Options) (files : List (String × Reading))
    (b : Batch) :
    countOf .error (b.afterAll options files).session.diagnostics =
      countOf .error b.session.diagnostics + b.failures options files := by
  induction files generalizing b with
  | nil => rfl
  | cons file files ih =>
    obtain ⟨path, content⟩ := file
    rw [Batch.afterAll, Batch.failures, ih, errors_after]
    omega

/-- Leaving out hints leaves out no errors. -/
theorem errors_withoutHints (ds : List Diagnostic) :
    countOf .error (withoutHints ds) = countOf .error ds := by
  rw [countOf, countOf, withoutHints, List.filter_filter]
  congr 2
  funext d
  cases d.severity <;> rfl

end Contents

section Loops

variable {World β : Type} (h : Host (StateM World))

/-- What a loop reads of the files that it takes, up to one at which it
fails. -/
def readings (next : β → String → Act (StateM World) β) :
    β → List String → World → List Reading
  | _, [], _ => []
  | b, path :: paths, w =>
    ((h.readText path).run w).1 ::
      match (next b path).on w with
      | (.ok b, w) => readings next b paths w
      | (.error _, _) => []

variable {h}

/-- A loop that gets to its end has read every file. -/
theorem length_readings {next : β → String → Act (StateM World) β} {b b' : β}
    {paths : List String} {w w' : World}
    (ran : (paths.foldlM next b : Act (StateM World) β).on w = (.ok b', w')) :
    (readings h next b paths w).length = paths.length := by
  induction paths generalizing b w with
  | nil => rfl
  | cons path paths ih =>
    rw [List.foldlM_cons] at ran
    rw [readings, List.length_cons, List.length_cons]
    cases step : (next b path).on w with
    | mk result v =>
      cases result with
      | error f =>
        rw [Act.bind_on_error step] at ran
        cases ran
      | ok b =>
        rw [Act.bind_on_ok step] at ran
        exact congrArg (· + 1) (ih ran)

end Loops

section Transformations

/-- What a transformation reads of its files. -/
def transformReadings {World : Type} (h : Host (StateM World))
    (options : Options) (target? : String → Option String) :
    List String → World → List Reading :=
  readings h (transformNext h options target?) {}

variable {World : Type} {h : Host (StateM World)} {options : Options}
  {target? : String → Option String} {t t' : Totals} {path : String}
  {paths : List String} {w w' : World}

/-- What a transformation has counted after another file, of which there is a
result or none. -/
structure Counted (options : Options) (t : Totals) (path : String)
    (content : Reading) (t' : Totals) : Prop where
  batch : t'.toBatch = t.toBatch.after options path content
  files : t'.files = t.files + 1
  failed : t'.failed = t.failed +
    if (t.toBatch.answer options path content).isNone then 1 else 0
  written : t'.written = t.written +
    if (t.toBatch.answer options path content).isNone then 0 else 1

/-- **What the next file comes to**: it is counted, unless there is a result
that cannot be delivered. -/
theorem transformNext_on (h : Host (StateM World)) (options : Options)
    (target? : String → Option String) (t : Totals) (path : String)
    (w : World) :
    (∃ t' w', (transformNext h options target? t path).on w = (.ok t', w') ∧
      Counted options t path ((h.readText path).run w).1 t') ∨ ∃ r f w',
      t.toBatch.answer options path ((h.readText path).run w).1 = some r ∧
      (deliver h (target? path) r.code).on ((h.readText path).run w).2 =
        (.error f, w') ∧
      (transformNext h options target? t path).on w = (.error f, w') := by
  have first : Act.on (liftM (h.readText path)) w =
      (.ok ((h.readText path).run w).1, ((h.readText path).run w).2) := rfl
  generalize ((h.readText path).run w).1 = content,
    ((h.readText path).run w).2 = v at first ⊢
  unfold transformNext
  rw [Act.bind_on_ok first]
  cases content with
  | error fault => exact .inl ⟨_, _, rfl, rfl, rfl, rfl, rfl⟩
  | ok text =>
    dsimp only
    cases rewritten : t.toBatch.rewrite options path text with
    | mk answer batch =>
      cases answer with
      | none =>
        refine .inl ⟨_, _, rfl, ?_, rfl, ?_, ?_⟩
        all_goals simp [Batch.after, Batch.answer, rewritten]
      | some r =>
        cases delivered : (deliver h (target? path) r.code).on v with
        | mk result w' =>
          cases result with
          | error f =>
            refine .inr ⟨r, f, w', ?_, delivered, Act.bind_on_error delivered⟩
            simp [Batch.answer, rewritten]
          | ok u =>
            refine .inl ⟨_, _, Act.bind_on_ok delivered, ?_, rfl, ?_, ?_⟩
            all_goals simp [Batch.after, Batch.answer, rewritten]

/-- What a transformation has counted after more files, with what was read of
each. -/
structure CountedAll (options : Options) (t : Totals)
    (given : List (String × Reading)) (t' : Totals) : Prop where
  batch : t'.toBatch = t.toBatch.afterAll options given
  files : t'.files = t.files + given.length
  failed : t'.failed = t.failed + t.toBatch.failures options given
  split : t'.written + t'.failed = t.written + t.failed + given.length

theorem CountedAll.nil (t : Totals) : CountedAll options t [] t :=
  ⟨rfl, rfl, rfl, rfl⟩

theorem CountedAll.cons {t'' : Totals} {content : Reading}
    {given : List (String × Reading)}
    (first : Counted options t path content t')
    (others : CountedAll options t' given t'') :
    CountedAll options t ((path, content) :: given) t'' where
  batch := by rw [others.batch, first.batch, Batch.afterAll]
  files := by
    rw [others.files, first.files, List.length_cons, Nat.add_right_comm,
      Nat.add_assoc]
  failed := by
    rw [others.failed, first.failed, first.batch, Batch.failures, Nat.add_assoc]
  split := by
    rw [others.split, first.written, first.failed, List.length_cons]
    split <;> omega

/-- A transformation that ends at a file: all files before it are counted, and
for this one there is a result that cannot be delivered. -/
structure Undelivered (h : Host (StateM World)) (options : Options)
    (target? : String → Option String) (t : Totals) (paths : List String)
    (w : World) (f : Failure) (w' : World) : Prop where
  at_file : ∃ (front : List String) (path : String) (rest : List String)
    (t' : Totals) (v : World) (r : Rewritten), paths = front ++ path :: rest ∧
    (front.foldlM (transformNext h options target?) t : Act _ _).on w =
      (.ok t', v) ∧
    t'.toBatch.answer options path ((h.readText path).run v).1 = some r ∧
    (deliver h (target? path) r.code).on ((h.readText path).run v).2 =
      (.error f, w')

/-- **What a transformation comes to**: every file is counted, or it ends at a
result that cannot be delivered. -/
theorem transformed_on (h : Host (StateM World)) (options : Options)
    (target? : String → Option String) (t : Totals) (paths : List String)
    (w : World) :
    (∃ t' w', (paths.foldlM (transformNext h options target?) t : Act _ _).on
      w = (.ok t', w') ∧ CountedAll options t
      (paths.zip (readings h (transformNext h options target?) t paths w)) t') ∨
      ∃ f w', (paths.foldlM (transformNext h options target?) t : Act _ _).on
      w = (.error f, w') ∧
      Undelivered h options target? t paths w f w' := by
  -- The world after a file decides what is read of the next one, so the
  -- induction is for any world.
  induction paths generalizing t w with
  | nil => exact .inl ⟨t, w, rfl, .nil t⟩
  | cons path paths ih =>
    rw [List.foldlM_cons, readings]
    obtain ⟨t', v, step, counted⟩ | ⟨r, f, v, answer, undelivered, step⟩ :=
      transformNext_on h options target? t path w
    · rw [step, Act.bind_on_ok step]
      obtain ⟨t'', w', run, all⟩ | ⟨f, w', run,
          ⟨front, path', rest, t'', v', r, same, before, later⟩⟩ := ih t' v
      · exact .inl ⟨t'', w', run, .cons counted all⟩
      · refine .inr ⟨f, w', run, ⟨path :: front, path', rest, t'', v', r,
          by rw [same]; rfl, ?_, later⟩⟩
        rw [List.foldlM_cons, Act.bind_on_ok step, before]
    · refine .inr ⟨f, v, Act.bind_on_error step,
        ⟨[], path, paths, t, w, r, rfl, rfl, answer, undelivered⟩⟩

end Transformations

section Checks

/-- What a check reads of its files. -/
def checkReadings {World : Type} (h : Host (StateM World)) (options : Options)
    (isVerbose : Bool) :
    List String → World → List Reading :=
  readings h (fun f path => liftM (checkNext h options isVerbose f path)) {}

variable {World : Type} (h : Host (StateM World)) (options : Options)
  (isVerbose : Bool)

/-- What the next file comes to. -/
theorem checkNext_run (f : Findings) (path : String) (w : World) :
    ((checkNext h options isVerbose f path).run w).1.toBatch =
      f.toBatch.after options path ((h.readText path).run w).1 := by
  cases read : (h.readText path).run w with
  | mk content v =>
  rw [checkNext, bind_run read]
  cases content with
  | error fault => rfl
  | ok text =>
    dsimp only [Batch.after]
    cases f.toBatch.rewrite options path text with
    | mk answer batch =>
      cases answer with
      | none => rfl
      | some r =>
        dsimp only
        by_cases shown : (isVerbose && r.report.isChanged) = true
        · rw [if_pos shown]
          rfl
        · rw [if_neg shown]
          rfl

/-- **What a check comes to**: the batch that belongs to the contents that it
reads. -/
theorem checked_run (f : Findings) (paths : List String) (w : World) :
    ((paths.foldlM (checkNext h options isVerbose) f).run w).1.toBatch =
      f.toBatch.afterAll options (paths.zip (readings h (fun f path =>
      liftM (checkNext h options isVerbose f path)) f paths w)) := by
  induction paths generalizing f w with
  | nil => rfl
  | cons path paths ih =>
    rw [List.foldlM_cons, readings, Act.lift_on, List.zip_cons_cons,
      Batch.afterAll, ← checkNext_run h options isVerbose f path w, ← ih]
    rfl

end Checks

end NullGuard.Command
