import NullGuard.Transform.Session

/-!
# What a session reports of a text

Rewriting a text in a session adds the text to the files and some diagnostics to
those that are there. What is added points into the new file only. A diagnostic
is an error just if the text has no answer: then the error is the last one that
is added, and the only error (`rewrite_accounts`). So over any sequence of texts
there are as many errors more as there are texts without an answer
(`errors_of_texts`).

The two places where an error can come from are a fault that stops the reader
and a rejection of the program. All else that is said is a warning or a hint:
`calm_faultWarnings`, `calm_report`.
-/

namespace NullGuard.Transform

open NullGuard.Text NullGuard.Tree NullGuard.Reading NullGuard.Diagnostics
  NullGuard.Files

/-- Every place that a diagnostic names, its own and those of its notes, is in a
file. -/
def PointsInto (file : Nat) (d : Diagnostic) : Prop :=
  ∀ p, d.span = some p ∨ (∃ n ∈ d.notes, n.span = some p) → p.file = file

/-- What an answer says about the diagnostics that were added: there is one
unless the last one is the only error. -/
structure Accounts {α : Type} (answer : Option α) (added : List Diagnostic) :
    Prop where
  answered : answer = none ↔ ∃ d ∈ added, d.severity = .error
  lastOnly : answer = none → ∃ before d, added = before ++ [d] ∧
    d.severity = .error ∧ ∀ d ∈ before, d.severity ≠ .error

section Places

variable {file : Nat}

theorem file_of_inFile {s : Option Span} {p : FileSpan}
    (h : inFile file s = some p) : p.file = file := by
  obtain ⟨-, -, rfl⟩ := Option.map_eq_some_iff.1 h
  rfl

/-- A diagnostic without notes points where it stands. -/
theorem pointsInto_ofCode (code : Code) (message : String) (s : Option Span) :
    PointsInto file (.ofCode code message (inFile file s)) := by
  rintro p (own | ⟨_, noNote, _⟩)
  · exact file_of_inFile own
  · cases noNote

/-- Warnings of the reader point where the faults are. -/
theorem pointsInto_faultWarnings (faults : List Fault) :
    ∀ d ∈ faults.map (faultWarning file), PointsInto file d := by
  intro d hd
  obtain ⟨f, -, rfl⟩ := List.mem_map.1 hd
  rintro p (own | ⟨_, noNote, _⟩)
  · exact file_of_inFile (s := some f.span) own
  · cases noNote

theorem pointsInto_rejection (r : Rejection) :
    PointsInto file (r.diagnostic file) := by
  rintro p (own | ⟨n, inNotes, there⟩)
  · exact file_of_inFile own
  · cases r with
    | redefinition s declaredAt =>
      obtain rfl := List.mem_singleton.1 inNotes
      exact file_of_inFile there
    | _ => cases inNotes

theorem pointsInto_retained (h : RetainedHelper) (use : Option Span) :
    PointsInto file (h.diagnostic file use) := by
  rintro p (own | ⟨n, inNotes, there⟩)
  · exact file_of_inFile own
  · obtain rfl := List.mem_singleton.1 inNotes
    exact file_of_inFile there

/-- What a report says points into its file. -/
theorem pointsInto_report (r : Report) :
    ∀ d ∈ r.diagnostics file, PointsInto file d := by
  intro d hd
  rcases List.mem_append.1 hd with kept | alone
  · obtain ⟨h, -, inUses⟩ := List.mem_flatMap.1 kept
    obtain ⟨use, -, rfl⟩ := List.mem_map.1 inUses
    exact pointsInto_retained h use
  · obtain ⟨s, -, rfl⟩ := List.mem_map.1 alone
    exact pointsInto_ofCode _ _ s

theorem calm_faultWarnings (faults : List Fault) :
    ∀ d ∈ faults.map (faultWarning file), d.severity ≠ .error := by
  intro d hd
  obtain ⟨f, -, rfl⟩ := List.mem_map.1 hd
  exact nofun

theorem error_rejection (r : Rejection) :
    (r.diagnostic file).severity = .error := by
  cases r <;> rfl

/-- A report warns and hints. -/
theorem calm_report (r : Report) :
    ∀ d ∈ r.diagnostics file, d.severity ≠ .error := by
  intro d hd
  rcases List.mem_append.1 hd with kept | alone
  · obtain ⟨h, -, inUses⟩ := List.mem_flatMap.1 kept
    obtain ⟨use, -, rfl⟩ := List.mem_map.1 inUses
    exact nofun
  · obtain ⟨s, -, rfl⟩ := List.mem_map.1 alone
    exact nofun

end Places

namespace Accounts

variable {α : Type} {before : List Diagnostic} {d : Diagnostic}

/-- No answer, and an error behind what is no error. -/
theorem refused (calm : ∀ d ∈ before, d.severity ≠ .error)
    (error : d.severity = .error) :
    Accounts (none : Option α) (before ++ [d]) where
  answered := iff_of_true rfl ⟨d, by simp, error⟩
  lastOnly _ := ⟨before, d, rfl, error, calm⟩

/-- An answer, and no error. -/
theorem given (answer : α) (calm : ∀ d ∈ before, d.severity ≠ .error) :
    Accounts (some answer) before where
  answered := iff_of_false nofun fun ⟨d, hd, error⟩ => calm d hd error
  lastOnly := nofun

/-- There are as many errors as there are missing answers. -/
theorem errors {answer : Option α} {added : List Diagnostic}
    (h : Accounts answer added) :
    countOf .error added = if answer.isNone then 1 else 0 := by
  have none_of_calm {ds : List Diagnostic}
      (calm : ∀ d ∈ ds, d.severity ≠ .error) : countOf .error ds = 0 := by
    rw [countOf, List.length_eq_zero_iff, List.filter_eq_nil_iff]
    exact fun d hd error => calm d hd (beq_iff_eq.1 error)
  cases answer with
  | none =>
    obtain ⟨before, d, rfl, error, calm⟩ := h.lastOnly rfl
    have first := none_of_calm calm
    rw [countOf] at first ⊢
    simp [List.filter_append, first, error]
  | some a =>
    refine none_of_calm fun d hd error => ?_
    cases h.answered.2 ⟨d, hd, error⟩

end Accounts

/-- What becomes of a text in a session: it cannot be read, it is rejected, or
it is rewritten. -/
theorem rewrite_cases (s : Session) (options : Options) (name text : String) :
    (∃ fault, s.rewrite options name text = (none, ⟨⟨s.files.files ++ [⟨name,
      text⟩]⟩, s.diagnostics ++ [faultError s.files.files.length fault]⟩)) ∨
      (∃ (faults : List Fault) (rejection : Rejection),
      s.rewrite options name text = (none, ⟨⟨s.files.files ++ [⟨name, text⟩]⟩,
      s.diagnostics ++ (faults.map (faultWarning s.files.files.length) ++
      [Rejection.diagnostic s.files.files.length rejection])⟩)) ∨
      ∃ (faults : List Fault) (r : Rewritten), s.rewrite options name text =
      (some r, ⟨⟨s.files.files ++ [⟨name, text⟩]⟩,
      s.diagnostics ++ (faults.map (faultWarning s.files.files.length) ++
      r.report.diagnostics s.files.files.length)⟩) ∧
      (r.report.isChanged = false → r.code = text) := by
  unfold Session.rewrite Session.read
  dsimp only [SourceFiles.add]
  cases Source.read (dialectOf name) text with
  | error fault => exact .inl ⟨fault, rfl⟩
  | ok source =>
    dsimp only [Session.report]
    cases transformProgram options text source.tree source.comments with
    | error rejection =>
      exact .inr (.inl ⟨source.faults, rejection, by rw [← List.append_assoc]⟩)
    | ok transformed =>
      let code :=
        if transformed.report.isChanged
          then Writing.toSource transformed.tree transformed.comments else text
      refine .inr (.inr ⟨source.faults, ⟨code, transformed.report⟩,
        by rw [← List.append_assoc], fun unchanged => ?_⟩)
      exact if_neg (Bool.not_eq_true _ ▸ unchanged)

/-- A text adds one file and some diagnostics that point into it, with an error
among them just if there is no answer. -/
theorem rewrite_adds (s : Session) (options : Options) (name text : String) :
    ∃ added, (s.rewrite options name text).2.files.files = s.files.files ++
      [⟨name, text⟩] ∧
      (s.rewrite options name text).2.diagnostics = s.diagnostics ++ added ∧
        (∀ d ∈ added, PointsInto s.files.files.length d) ∧
        Accounts (s.rewrite options name text).1 added := by
  rcases rewrite_cases s options name text
    with ⟨fault, same⟩ | ⟨faults, rejection, same⟩ | ⟨faults, r, same, -⟩
  all_goals rw [same]
  · refine ⟨_, rfl, rfl, List.forall_mem_singleton.2 (pointsInto_ofCode _ _ _),
      ?_⟩
    exact .refused (List.forall_mem_nil _) rfl
  · refine ⟨_, rfl, rfl, ?_,
      .refused (calm_faultWarnings faults) (error_rejection rejection)⟩
    exact List.forall_mem_append.2 ⟨pointsInto_faultWarnings faults,
      List.forall_mem_singleton.2 (pointsInto_rejection _)⟩
  · refine ⟨_, rfl, rfl, ?_, .given r ?_⟩
    · exact List.forall_mem_append.2 ⟨pointsInto_faultWarnings faults,
        pointsInto_report _⟩
    · exact List.forall_mem_append.2 ⟨calm_faultWarnings faults, calm_report _⟩

/-- An answer gives a text back as it was, unless the program changed. -/
theorem rewrite_verbatim {s : Session} {options : Options} {name text : String}
    {r : Rewritten} (answer : (s.rewrite options name text).1 = some r)
    (unchanged : r.report.isChanged = false) : r.code = text := by
  rcases rewrite_cases s options name text with
    ⟨fault, same⟩ | ⟨faults, rejection, same⟩ | ⟨faults, r', same, verbatim⟩
  all_goals rw [same] at answer
  · cases answer
  · cases answer
  · cases answer
    exact verbatim unchanged

/-- **Every text is accounted for.** Whatever becomes of a text, the session has
exactly this file more, under the number of files before, and some diagnostics
more, behind those that were there. They point into the new file. There is no
answer just if there is an error among them, which is then the last one and the
only one. An answer gives the text back as it was, unless the report says that
the program changed. -/
theorem rewrite_accounts (s : Session) (options : Options)
    (name text : String) :
    ∃ added, (s.rewrite options name text).2.files.files = s.files.files ++
      [⟨name, text⟩] ∧
      (s.rewrite options name text).2.diagnostics = s.diagnostics ++ added ∧
        (∀ d ∈ added, PointsInto s.files.files.length d) ∧
        Accounts (s.rewrite options name text).1 added ∧
      ∀ r, (s.rewrite options name text).1 = some r →
        r.report.isChanged = false → r.code = text := by
  obtain ⟨added, files, diagnostics, inside, accounts⟩ :=
    rewrite_adds s options name text
  exact ⟨added, files, diagnostics, inside, accounts, fun _ => rewrite_verbatim⟩

/-- What becomes of several texts, one after the other. -/
def Session.rewriteAll (s : Session) (options : Options) :
    List (String × String) → List (Option Rewritten) × Session
  | [] => ([], s)
  | (name, text) :: texts =>
    let (r, s) := s.rewrite options name text
    let (rs, s) := s.rewriteAll options texts
    (r :: rs, s)

/-- **A run over several texts** adds them to the files in their order, leaves
the diagnostics that were there, and adds as many errors as there are texts
without an answer. -/
theorem errors_of_texts (options : Options) (texts : List (String × String))
    (s : Session) :
    (s.rewriteAll options texts).2.files.files = s.files.files ++
      texts.map (fun t => ⟨t.1, t.2⟩) ∧
      ∃ added, (s.rewriteAll options texts).2.diagnostics =
        s.diagnostics ++ added ∧
      countOf .error added =
        ((s.rewriteAll options texts).1.filter Option.isNone).length := by
  induction texts generalizing s with
  | nil => exact ⟨(List.append_nil _).symm, [], (List.append_nil _).symm, rfl⟩
  | cons t texts ih =>
    obtain ⟨files, behind, diagnostics, errors⟩ :=
      ih (s.rewrite options t.1 t.2).2
    obtain ⟨added, oneFile, own, -, accounts⟩ := rewrite_adds s options t.1 t.2
    have here := accounts.errors
    rw [oneFile, List.append_assoc] at files
    rw [own, List.append_assoc] at diagnostics
    refine ⟨files, added ++ behind, diagnostics, ?_⟩
    rw [countOf] at here errors ⊢
    rw [List.filter_append, List.length_append, here, errors,
      Session.rewriteAll]
    cases answer : (s.rewrite options t.1 t.2).1 with
    | none => simp [answer, Nat.add_comm]
    | some r => simp [answer]

end NullGuard.Transform
