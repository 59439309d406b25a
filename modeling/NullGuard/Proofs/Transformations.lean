import NullGuard.Proofs.Kept
import NullGuard.Transform.Program

/-!
# What a transformation does

A transformation that succeeds leaves the program alone, or analyses it, plans a
rewrite and carries it out (`transformProgram_ok`). In the last case
(`Performed`) the result is related to the program by `Rewrites`, and the report
counts what the relation lists (`Performed.rewrites`).
-/

namespace NullGuard.Transform

open NullGuard.Text (Span)
open NullGuard.Tree NullGuard.Chain NullGuard.Scope

section Program

variable {setting : Setting} {h : List String} {a : List RewrittenCall}

/-- Nothing becomes of no nodes. -/
theorem rewrites_nil {js : List Treatment} {ns' : List Node}
    (rewritten : Rewrites setting js [] ns' h a) :
    ns' = [] ∧ h = [] ∧ a = [] := by
  generalize none : [] = ns at rewritten
  cases rewritten with
  | nil => exact ⟨rfl, rfl, rfl⟩
  | _ => cases none

/-- **What becomes of a program**: its items are rewritten, some are dropped,
and what is left starts with the temporaries that are still to be declared. -/
theorem rewrites_program {tree tree' : Node}
    (isProgram : Scope.isProgram tree.kind = true)
    (rewritten : Rewrites setting [.place] [tree] [tree'] h a) :
    ∃ b i s ns ns' names h', tree = .node (.program b i) s ns ∧
      tree' = .node (.program b i) s
        (declareIn names (ns'.filter (staysIn setting.removals))) ∧
      h = [] ∧ Rewrites setting (ns.map fun _ => .place) ns ns' h' a ∧
        names.Perm h' := by
  generalize places : [Treatment.place] = js, whole : [tree] = ns,
    result : [tree'] = ns' at rewritten
  induction rewritten with
  | cons head tail ih _ =>
    cases places
    cases whole
    obtain ⟨rfl, rfl, rfl⟩ := rewrites_nil tail
    rw [List.append_nil, List.append_nil]
    cases result
    exact ih rfl rfl rfl
  | program children all _ =>
    cases whole
    cases result
    exact ⟨_, _, _, _, _, _, _, rfl, rfl, rfl, children, all⟩
  | node notProgram _ _ _ =>
    cases whole
    cases notProgram.symm.trans isProgram
  | base planned | guarded planned =>
    cases whole
    rw [kind_of_planned planned] at isProgram
    cases isProgram
  | nil => cases places
  | _ => cases places

end Program

section Performed

variable {options : Options} {text : String} {tree : Node}
  {comments : CommentMap} {transformed : Transformed}

/-- The analysis of a program has the table of its outline and avoids all its
identifiers. -/
theorem analysis_of_analyze {m : String} {analysis : Analysis}
    (analyzed : analyze m tree = .ok analysis) :
    analysis =
      ⟨Table.ofOutline (outline m tree), ⟨(identifiers tree).eraseDups⟩⟩ := by
  unfold analyze at analyzed
  dsimp only at analyzed
  split at analyzed
  · cases analyzed
  · exact (Except.ok.inj analyzed).symm

theorem table_of_analyze {m : String} {analysis : Analysis}
    (analyzed : analyze m tree = .ok analysis) :
    analysis.table = Table.ofOutline (outline m tree) := by
  rw [analysis_of_analyze analyzed]

/-- The analysis of a program succeeds just if its outline has no
malformed import. -/
theorem analyze_isOk {m : String} :
    (∃ analysis, analyze m tree = .ok analysis) ↔
      malformedAmong? (outline m tree) = none := by
  unfold analyze
  dsimp only
  constructor
  · rintro ⟨analysis, analyzed⟩
    split at analyzed
    · cases analyzed
    · assumption
  · intro fine
    rw [fine]
    exact ⟨_, rfl⟩

/-- What a transformation that carried out a plan did. -/
structure Performed (options : Options) (tree : Node) (comments : CommentMap)
    (transformed : Transformed) where
  analysis : Analysis
  plan : Plan
  progress : Progress
  analyzed : analyze options.importName tree = .ok analysis
  planned : Transform.plan analysis.table = .ok plan
  rewritten : rewriteProgram options plan analysis.names tree comments =
    .ok (transformed.tree, progress)
  settled : transformed.comments = progress.comments
  report : transformed.report = plan.report analysis.table.unrecognized progress

/-- **A transformation that succeeds** skips the program, finds no helper in it,
or carries out a plan. -/
theorem transformProgram_ok
    (h : transformProgram options text tree comments = .ok transformed) :
    (mayReferenceHelper text options = false ∧
      transformed = ⟨tree, comments, { isSkipped := true }⟩) ∨
      (∃ analysis, analyze options.importName tree = .ok analysis ∧
      Transform.plan analysis.table = .ok ⟨[]⟩ ∧ transformed = ⟨tree,
      comments, { unrecognizedRequires := analysis.table.unrecognized }⟩) ∨
      Nonempty (Performed options tree comments transformed) := by
  unfold transformProgram at h
  split at h
  · rename_i notThere
    cases h
    exact .inl ⟨by simpa using notThere, rfl⟩
  · cases analyzed : analyze options.importName tree with
    | error e => simp [analyzed, bind, Except.bind] at h
    | ok analysis =>
      cases planned : Transform.plan analysis.table with
      | error e => simp [analyzed, planned, bind, Except.bind] at h
      | ok plan =>
        simp only [analyzed, planned, bind, Except.bind] at h
        split at h
        · rename_i none
          obtain ⟨helpers⟩ := plan
          cases List.isEmpty_iff.1 none
          cases h
          exact .inr (.inl ⟨analysis, rfl, planned, rfl⟩)
        · cases rewritten : rewriteProgram options plan analysis.names tree
            comments with
          | error e => simp [rewritten] at h
          | ok r =>
            obtain ⟨tree', progress⟩ := r
            simp only [rewritten] at h
            cases h
            exact .inr (.inr ⟨⟨analysis, plan, progress, analyzed, planned,
              rewritten, rfl, rfl⟩⟩)

namespace Performed

variable (p : Performed options tree comments transformed)

/-- The setting in which a transformation rewrites. -/
def setting : Setting :=
  { options
    plan := p.plan
    removals := p.plan.removals
    programStart := itemStart tree }

/-- **A transformation rewrites the program by the relation**, and reports the
calls and temporaries of it. -/
theorem rewrites :
    ∃ h a, Rewrites p.setting [.place] [tree] [transformed.tree] h a ∧
      Advances { supply := p.analysis.names, comments := comments }
        p.progress h a ∧
      (isProgram tree.kind = true → (transformed.report.temporaries.map
        Temporary.name).Perm (temporaries a)) := by
  obtain ⟨h, a, rewritten, adv, made⟩ := rewrites_of_runs p.rewritten
  refine ⟨h, a, rewritten, adv, fun program => ?_⟩
  rw [p.report]
  exact made program

theorem table_eq :
    p.analysis.table = Table.ofOutline (outline options.importName tree) :=
  table_of_analyze p.analyzed

theorem used_eq : p.analysis.names.used = (identifiers tree).eraseDups := by
  rw [analysis_of_analyze p.analyzed]

end Performed

end Performed

/-- A result with a property that can be checked is there. -/
theorem exists_of_check {ε α : Type} {r : Except ε α} {property : α → Prop}
    [DecidablePred property]
    (h : r.toOption.any (fun a => decide (property a)) = true) :
    ∃ a, r = .ok a ∧ property a := by
  cases r with
  | error e => cases h
  | ok a => exact ⟨a, rfl, of_decide_eq_true h⟩

/-- A node that was read from some characters. -/
def readAt (k : Kind) (start stop : Nat) (ns : List Node) : Node :=
  .node k (some ⟨start, stop⟩) ns

/-- `idx(base, _ => _.property)` at an offset, for words of one letter. -/
def shortCall (start : Nat) (base property : String) : Node :=
  let parameter :=
    readAt (.bindingIdent "_" false) (start + 7) (start + 8) [.none]
  let body := readAt .member (start + 12) (start + 15)
    [readAt (.ident "_") (start + 12) (start + 13) [],
    readAt (.propName property) (start + 14) (start + 15) []]
  readAt .call start (start + 16)
    [readAt (.ident "idx") start (start + 3) [], .ofList
    [readAt (.ident base) (start + 4) (start + 5) [], readAt (.arrow false)
    (start + 7) (start + 15) [.ofList [parameter], body, .none, .none]], .none]

/-- `import idx from 'idx';` at the start of a program. -/
def shortImport : Node :=
  readAt (.importDecl false) 0 22
    [.ofList [readAt .importDefault 7 10 [readAt (.name "idx") 7 10 []]],
      readAt (.str "'idx'" (some "idx")) 16 21 [], .none]

/-- A program that imports the helper and calls it. -/
def importedCallText : String :=
  "import idx from 'idx'; idx(a, _ => _.b);"

/-- The tree of `importedCallText`. -/
def importedCall : Node :=
  readAt (.program true none) 0 40
    [shortImport, readAt .exprStmt 23 40 [shortCall 23 "a" "b"]]

end NullGuard.Transform
