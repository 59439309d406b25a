import NullGuard.Command.Rehearsal
import NullGuard.Proofs.Batches

/-!
# How transformations and checks end

A transformation and a check of the same files with the same options come to the
same verdict, as long as they read the same contents: both fail just if a file
cannot be read or is rejected, and both count these files, the one as failed
files and the other as errors (`same_verdict`). They need not read the same
contents even of the same tree: a result that is written over an input before
that is read is read in its place (`written_over_input`).

A transformation shows what it found when it gets to the end of its files. If a
result cannot be delivered, it ends there and shows nothing, not even what it
found before (`shows_all_or_undelivered`).
-/

namespace NullGuard.Command

open NullGuard.Files NullGuard.Transform NullGuard.Diagnostics

section Ends

variable {World : Type} (h : Host (StateM World)) (options : Options)
  (globals : Globals) (isColored : Bool)

/-- A transformation of an input gets to the input's files. -/
def Begins (input : String) (outDir : Option String) (paths : List String)
    (w w' : World) : Prop :=
  ∃ kind v, (h.kind? input).run w = (some kind, v) ∧ (kind = .directory →
    outDir.isSome = true) ∧ (h.sourceFiles input).run v = (paths, w')

variable {h} {input : String} {output outDir : Option String}
  {paths : List String} {w w' : World}

/-- A transformation that gets to its files shows what it found and sums it up,
unless it ends among them. -/
theorem transform_on (begun : Begins h input outDir paths w w') :
    (transform h options globals isColored input output outDir).on w =
      match (transformAll h options (targetOf input output outDir) paths).on w'
      with
      | (.ok t, v) =>
        (sumUp h globals isColored (output.isSome || outDir.isSome) t).on
          ((h.report (t.shown globals.format isColored)).run v).2
      | (.error f, v) => (.error f, v) := by
  obtain ⟨kind, v, isKind, inDirectory, listed⟩ := begun
  have there : Act.on (liftM (h.kind? input)) w = (.ok (some kind), v) := by
    rw [Act.lift_on, isKind]
  have found : Act.on (liftM (h.sourceFiles input)) v = (.ok paths, w') := by
    rw [Act.lift_on, listed]
  have allowed : ¬ (some kind == some EntryKind.directory && outDir.isNone) =
      true := by
    cases kind with
    | file => exact nofun
    | directory =>
      have given := inDirectory rfl
      rw [Option.isSome_iff_exists] at given
      obtain ⟨directory, rfl⟩ := given
      exact nofun
  rw [transform, Act.bind_on_ok there]
  simp only [Option.isNone_some, Bool.false_eq_true, if_false, if_neg allowed]
  rw [Act.bind_on_ok found]
  cases ran : (transformAll h options (targetOf input output outDir) paths).on
    w' with
  | mk result v =>
    cases result with
    | ok t =>
      rw [Act.bind_on_ok ran]
      exact Act.bind_on_ok
        (Act.lift_on (h.report (t.shown globals.format isColored)))
    | error f => exact Act.bind_on_error ran

/-- A last step that fails under a condition. -/
theorem unless_ok_iff {b : Prop} [Decidable b] (f : Failure) (w : World) :
    (Act.on (if b then throw f else pure () : Act (StateM World) Unit) w).1 =
      .ok () ↔ ¬ b := by
  by_cases holds : b
  · rw [if_pos holds]
    exact iff_of_false nofun (not_not_intro holds)
  · rw [if_neg holds]
    exact iff_of_true rfl holds

/-- A summary is a failure just if a file failed. -/
theorem sumUp_ok_iff {writesFiles : Bool} {t : Totals} :
    ((sumUp h globals isColored writesFiles t).on w).1 = .ok () ↔
      t.failed = 0 := by
  have none_failed : ¬ t.failed > 0 ↔ t.failed = 0 := by omega
  rw [← none_failed, sumUp]
  cases globals.format with
  | text =>
    by_cases shown : (!globals.isQuiet && writesFiles) = true
    · simp only [if_pos shown]
      exact unless_ok_iff ..
    · simp only [if_neg shown]
      exact unless_ok_iff ..
  | json => exact unless_ok_iff ..

/-- A check of some files pronounces on what it found in them. -/
theorem check_on {isStrict showsHints : Bool}
    (listed : (h.sourceFiles input).run w = (paths, w'))
    (nonempty : paths ≠ []) :
    (check h options globals isColored input showsHints isStrict).on w =
      let ran := (checkAll h options globals.isVerbose paths).run
        ((announce h globals.format paths).run w').2
      (pronounce h globals isColored isStrict (ran.1.select showsHints)).on
        ran.2 := by
  have found : Act.on (liftM (h.sourceFiles input)) w = (.ok paths, w') := by
    rw [Act.lift_on, listed]
  rw [check, Act.bind_on_ok found]
  have notEmpty : ¬ paths.isEmpty = true := by simpa using nonempty
  rw [if_neg notEmpty]
  rw [Act.bind_on_ok (Act.lift_on (announce h globals.format paths))]
  exact Act.bind_on_ok
    (Act.lift_on (checkAll h options globals.isVerbose paths))

/-- A pronouncement is a failure just if the findings block. -/
theorem pronounce_ok_iff {isStrict : Bool} {f : Findings} :
    ((pronounce h globals isColored isStrict f).on w).1 = .ok () ↔
      isBlocked isStrict f = false := by
  rw [← Bool.not_eq_true, pronounce]
  cases globals.format with
  | text => exact unless_ok_iff ..
  | json => exact unless_ok_iff ..

end Ends

section Verdict

variable {World : Type} {h : Host (StateM World)} {options : Options}

theorem errors_select (showsHints : Bool) (f : Findings) :
    (f.select showsHints).counts.errors = f.counts.errors := by
  cases showsHints with
  | true => rfl
  | false => exact errors_withoutHints _

theorem calls_select (showsHints : Bool) (f : Findings) :
    (f.select showsHints).calls = f.calls := by
  cases showsHints <;> rfl

/-- A check that is not strict fails just if there is an error. -/
theorem isBlocked_select {showsHints : Bool} {f : Findings} :
    isBlocked false (f.select showsHints) = false ↔ f.counts.errors = 0 := by
  rw [isBlocked, errors_select]
  simp

section Delivered

variable {target? : String → Option String} {paths : List String} {w v : World}
  {t : Totals}

/-- A transformation that delivers all its results has counted every file. -/
theorem counted_of_delivered
    (delivered : (transformAll h options target? paths).on w = (.ok t, v)) :
    CountedAll options {}
      (paths.zip (transformReadings h options target? paths w)) t := by
  obtain ⟨t', w', ran, counted⟩ | ⟨f, w', ran, -⟩ :=
    transformed_on h options target? {} paths w
  · cases ran.symm.trans delivered
    exact counted
  · cases ran.symm.trans delivered

/-- Then there are as many failed files as errors, and every file is written or
failed. -/
theorem accounts_of_delivered
    (delivered : (transformAll h options target? paths).on w = (.ok t, v)) :
    t.failed = t.counts.errors ∧ t.files = paths.length ∧
      t.files = t.written + t.failed := by
  have counted := counted_of_delivered delivered
  have taken : (paths.zip
      (transformReadings h options target? paths w)).length = paths.length := by
    rw [List.length_zip, transformReadings, length_readings (h := h) delivered,
      Nat.min_self]
  have files : t.files = paths.length := by
    rw [counted.files, taken]
    exact Nat.zero_add _
  refine ⟨?_, files, ?_⟩
  · have none_before : countOf .error (Totals.toBatch {}).session.diagnostics =
        0 := rfl
    have all := errors_afterAll options (paths.zip
      (transformReadings h options target? paths w)) (Totals.toBatch {})
    rw [← counted.batch, none_before] at all
    exact counted.failed.trans all.symm
  · rw [counted.split, taken, files]
    exact (Nat.zero_add _).symm

/-- **The same contents make the same batch**, in a transformation and in a
check. -/
theorem batch_of_undisturbed {isVerbose : Bool} {u : World}
    (delivered : (transformAll h options target? paths).on w = (.ok t, v))
    (undisturbed : transformReadings h options target? paths w =
      checkReadings h options isVerbose paths u) :
    ((checkAll h options isVerbose paths).run u).1.toBatch = t.toBatch := by
  have found := checked_run h options isVerbose {} paths u
  rw [← checkReadings, ← undisturbed] at found
  exact found.trans (counted_of_delivered delivered).batch.symm

end Delivered

/-- **Checks and transformations agree.** Take any input with some files, in any
worlds, and let a transformation deliver all its results. Then it has as many
failed files as errors, and each of its files is written or failed. If a check
with the same options reads the same contents, both commands succeed or both
fail, whatever else they are told, and both count the same errors and the same
calls. -/
theorem same_verdict (globals globals' : Globals)
    (isColored isColored' showsHints : Bool) {input : String}
    {output outDir : Option String} {paths : List String}
    {w w₁ w₂ v v₁ : World} {t : Totals}
    (begun : Begins h input outDir paths w w₁)
    (listed : (h.sourceFiles input).run v = (paths, v₁))
    (nonempty : paths ≠ [])
    (delivered : (transformAll h options
      (targetOf input output outDir) paths).on w₁ = (.ok t, w₂)) :
    (t.failed = t.counts.errors ∧ t.files = paths.length ∧
      t.files = t.written + t.failed) ∧
      (transformReadings h options (targetOf input output outDir) paths w₁ =
        checkReadings h options globals'.isVerbose paths
        ((announce h globals'.format paths).run v₁).2 →
        let ran := (checkAll h options globals'.isVerbose paths).run
          ((announce h globals'.format paths).run v₁).2
        let f := ran.1.select showsHints
        (((check h options globals' isColored' input showsHints false).on v).1 =
            .ok () ↔
          ((transform h options globals isColored input output outDir).on w).1 =
            .ok ()) ∧
          t.counts.errors = f.counts.errors ∧ t.calls = f.calls) := by
  have accounts := accounts_of_delivered delivered
  refine ⟨accounts, fun undisturbed => ?_⟩
  intro ran f
  have batch : ran.1.toBatch = t.toBatch :=
    batch_of_undisturbed delivered undisturbed
  have calls : f.calls = t.calls :=
    (calls_select showsHints _).trans (congrArg Batch.calls batch)
  have errors : f.counts.errors = t.counts.errors :=
    (errors_select showsHints _).trans (congrArg (·.counts.errors) batch)
  refine ⟨?_, errors.symm, calls.symm⟩
  -- Each verdict is a statement about a counter, and the counters are the same.
  rw [transform_on options globals isColored begun, delivered, sumUp_ok_iff,
    accounts.1, ← errors, check_on options globals' isColored' listed nonempty,
    pronounce_ok_iff, isBlocked_select, errors_select]

end Verdict

/-- The source files of a directory that is held in memory, if they are listed
in order. -/
theorem stage_sourceFiles {s : Stage} {path : String} {paths : List String}
    (isDirectory : s.tree.lookup path = .ok .directory)
    (entered : (fileName? path).getD path ≠ Host.passedOver)
    (found : (((s.tree.filesUnder path).filter fun names =>
      !names.contains Host.passedOver).map fun names =>
      names.foldl join path).filter isSourceFile = paths)
    (sorted : paths.Pairwise fun p q => pathsInOrder p q = true) :
    (stageHost.kind? path).run s = (some .directory, s) ∧
      (stageHost.sourceFiles path).run s = (paths, s) := by
  have isKind : (stageHost.kind? path).run s = (some .directory, s) := by
    have here : (get : StateM Stage Stage).run s = (s, s) := rfl
    refine (bind_run here).trans ?_
    rw [isDirectory]
    rfl
  have listed : (stageHost.filesUnder path).run s =
      (s.tree.filesUnder path, s) := rfl
  have goes_on : ¬ ((fileName? path).getD path == Host.passedOver) = true := by
    simpa using entered
  refine ⟨isKind, ?_⟩
  rw [Host.sourceFiles, bind_run isKind, if_neg (by decide), if_neg goes_on,
    bind_run listed, ← List.mergeSort_of_pairwise sorted, ← found]
  rfl

/-- A directory with an empty file, and below it a directory with a file of the
same name that is no text. -/
def nested : Stage where
  tree := { entries := [(["work"], .directory), (["work", "d"], .directory),
    (["work", "d", "a.js"], .file (.text "")), (["work", "d", "sub"],
    .directory), (["work", "d", "sub", "a.js"], .file (.bytes [255]))] }

/-- Its source files. -/
def nestedPaths : List String :=
  ["d/a.js", "d/sub/a.js"]

theorem nested_files :
    (stageHost.kind? "d").run nested = (some .directory, nested) ∧
      (stageHost.sourceFiles "d").run nested = (nestedPaths, nested) :=
  stage_sourceFiles (by decide +kernel) (by decide +kernel) (by decide +kernel)
    (by decide +kernel)

theorem nested_begins (outDir : String) :
    Begins stageHost "d" (some outDir) nestedPaths nested nested :=
  ⟨.directory, nested, nested_files.1, fun _ => rfl, nested_files.2⟩

/-- Into another directory: the commands agree, on one failed file. -/
theorem same_verdict_nested :
    ∃ t, ((transformAll stageHost {}
      (targetOf "d" none (some "o")) nestedPaths).on nested).1 = .ok t ∧
      (((check stageHost {} {} false "d" false false).on nested).1 = .ok () ↔
        ((transform stageHost {} {} false "d" none (some "o")).on nested).1 =
        .ok ()) ∧
      t.failed = t.counts.errors ∧ t.files = 2 ∧
        t.files = t.written + t.failed := by
  obtain ⟨t, v, delivered⟩ := Act.ends_of_isOk (transformAll stageHost {}
    (targetOf "d" none (some "o")) nestedPaths) nested (by decide +kernel)
  have undisturbed : transformReadings stageHost {} (targetOf "d" none
      (some "o")) nestedPaths nested = checkReadings stageHost {} false
      nestedPaths ((announce stageHost .text nestedPaths).run nested).2 := by
    decide +kernel
  obtain ⟨⟨failed, files, split⟩, agree⟩ :=
    same_verdict {} {} false false false
      (nested_begins "o") nested_files.2 nofun delivered
  rw [delivered]
  exact ⟨t, rfl, (agree undisturbed).1, failed, files, split⟩

/-- **Not so if a result is written over an input**: the check fails, but the
transformation finds the empty file's result in the place of the file that is no
text, and it fails at nothing. -/
theorem written_over_input :
    (stageHost.sourceFiles "d").run nested = (nestedPaths, nested) ∧
      (∃ t, ((transformAll stageHost {}
        (targetOf "d" none (some "d/sub")) nestedPaths).on nested).1 = .ok t) ∧
      ((check stageHost {} {} false "d" false false).on nested).1 ≠ .ok () ∧
      ((transform stageHost {} {} false "d" none (some "d/sub")).on nested).1 =
        .ok () := by
  have blocked : (((checkAll stageHost {} false nestedPaths).run
      ((announce stageHost .text nestedPaths).run nested).2).1.select
      false).counts.errors = 1 := by
    decide +kernel
  obtain ⟨t, v, ran⟩ := Act.ends_of_isOk (transformAll stageHost {}
    (targetOf "d" none (some "d/sub")) nestedPaths) nested (by decide +kernel)
  have none_failed : ((transformAll stageHost {} (targetOf "d" none
      (some "d/sub")) nestedPaths).on nested).1.map (·.failed) = .ok 0 := by
    decide +kernel
  rw [ran] at none_failed
  refine ⟨nested_files.2, ⟨t, by rw [ran]⟩, ?_, ?_⟩
  · rw [check_on {} {} false nested_files.2 nofun, Ne, pronounce_ok_iff,
      isBlocked_select, ← errors_select false, blocked]
    exact nofun
  · rw [transform_on {} {} false (nested_begins "d/sub"), ran, sumUp_ok_iff]
    exact Except.ok.inj none_failed

section Showing

variable {World : Type} {h : Host (StateM World)}

/-- **What a transformation shows.** If all results are delivered, every file is
counted, one that cannot be read or is rejected as failed; what was found is
shown, and then it is summed up. If a result cannot be delivered, the
transformation ends there with that failure, in the world that the attempt
leaves: nothing is shown of the files before, and no file after it is read. -/
theorem shows_all_or_undelivered (options : Options) (globals : Globals)
    (isColored : Bool) {input : String} (output : Option String)
    {outDir : Option String} {paths : List String} {w v : World}
    (begun : Begins h input outDir paths w v) :
    (∃ t v', (transformAll h options (targetOf input output outDir) paths).on
      v = (.ok t, v') ∧ CountedAll options {} (paths.zip
      (transformReadings h options (targetOf input output outDir) paths v)) t ∧
      (transform h options globals isColored input output outDir).on w =
      (sumUp h globals isColored (output.isSome || outDir.isSome) t).on
      ((h.report (t.shown globals.format isColored)).run v').2) ∨ ∃ f v',
      Undelivered h options (targetOf input output outDir) {} paths v f v' ∧
      (transform h options globals isColored input output outDir).on w =
        (.error f, v') := by
  rw [transform_on options globals isColored begun]
  obtain ⟨t, v', ran, counted⟩ | ⟨f, v', ran, undelivered⟩ :=
    transformed_on h options (targetOf input output outDir) {} paths v
  · have all : (transformAll h options (targetOf input output outDir) paths).on
        v = (.ok t, v') := ran
    refine .inl ⟨t, v', all, counted, ?_⟩
    rw [all]
  · have all : (transformAll h options (targetOf input output outDir) paths).on
        v = (.error f, v') := ran
    refine .inr ⟨f, v', undelivered, ?_⟩
    rw [all]

end Showing

/-- A file that is no text, and an empty file whose result has a directory in
its place. -/
def barred : Stage where
  tree := { entries := [(["work"], .directory), (["work", "d"], .directory),
    (["work", "d", "a.js"], .file (.bytes [255])),
    (["work", "d", "b.js"], .file (.text "")), (["work", "o"], .directory),
    (["work", "o", "b.js"], .directory)] }

/-- Its source files. -/
def barredPaths : List String :=
  ["d/a.js", "d/b.js"]

theorem barred_files :
    (stageHost.kind? "d").run barred = (some .directory, barred) ∧
      (stageHost.sourceFiles "d").run barred = (barredPaths, barred) :=
  stage_sourceFiles (by decide +kernel) (by decide +kernel) (by decide +kernel)
    (by decide +kernel)

/-- The second result cannot be delivered, so the error about the first file is
not shown. -/
theorem shows_all_or_undelivered_barred :
    ∃ f w, Undelivered stageHost {} (targetOf "d" none (some "o"))
      {} barredPaths barred f w ∧
      (transform stageHost {} {} false "d" none (some "o")).on barred =
        (.error f, w) := by
  have begun : Begins stageHost "d" (some "o") barredPaths barred barred :=
    ⟨.directory, barred, barred_files.1, fun _ => rfl, barred_files.2⟩
  obtain ⟨t, w, ran, -⟩ | undelivered :=
    shows_all_or_undelivered {} {} false none begun
  · have fails : ((transformAll stageHost {} (targetOf "d" none (some "o"))
        barredPaths).on barred).1.isOk = false := by
      decide +kernel
    rw [ran] at fails
    cases fails
  · exact undelivered

end NullGuard.Command
