import PlaceFeed.Proofs.Invocation

/-!
# Settings that are named

A run reads no file but those of its request (`Command.run_congr`): the file of the settings, or
those at the paths that are tried when none is named, and that of the input.  So settings at a path
that is named (`Request.exists_names_iff`) are replaced by no others.  The empty path is the
exception: it stands for no path at all, and the settings are looked for as if their option were not
there.

* `Settings.load_congr` : loading reads the named file only, or else those that are tried;
* `Command.run_congr` : **what a run reads**;
* `Command.explicit_settings_decide` : **settings that are named decide**, unless their path is
  empty.
-/

namespace PlaceFeed

variable {files files' : Files}

/-! ### What a run reads -/

namespace Settings

theorem firstFile_congr {paths : List Bytes} (h : ∀ p ∈ paths, files' p = files p) :
    firstFile files' paths = firstFile files paths := by
  induction paths with
  | nil => rfl
  | cons path paths ih =>
    obtain ⟨hpath, hpaths⟩ := List.forall_mem_cons.1 h
    have ih := ih hpaths
    unfold firstFile at ih ⊢
    rw [List.findSome?_cons, List.findSome?_cons, hpath, ih]

/-- Loading reads the named file only, or else those that are tried. -/
theorem load_congr {path : Bytes}
    (h : ∀ p ∈ if path.isEmpty then searchPaths else [path], files' p = files p) :
    load files' path = load files path := by
  cases hpath : path.isEmpty with
  | true =>
    rw [hpath, if_pos rfl] at h
    rw [load, load, hpath, if_pos rfl, if_pos rfl, firstFile_congr h]
  | false =>
    rw [hpath, if_neg Bool.false_ne_true, List.forall_mem_singleton] at h
    rw [load, load, hpath, if_neg Bool.false_ne_true, if_neg Bool.false_ne_true, h]

end Settings

namespace Command

open Request (Names standardInput configOption)

variable {args : List Bytes} {path : Bytes} {config input : Option Bytes}

theorem checkInput_congr {file : Bytes} (stdin : Bytes) (settings : Settings)
    (log : List Log.Message)
    (h : ∀ p ∈ if file = standardInput then [] else [file], files' p = files p) :
    checkInput files' stdin settings log file = checkInput files stdin settings log file := by
  by_cases hfile : file = standardInput
  · rw [checkInput, checkInput, if_pos hfile, if_pos hfile]
  · rw [if_neg hfile, List.forall_mem_singleton] at h
    rw [checkInput, checkInput, if_neg hfile, if_neg hfile, h]

/-- **A run reads no file but those of its request**: over files that agree on these, its outcome
is the same. -/
theorem run_congr (stdin : Bytes) (logger : Log.Logger)
    (h : ∀ p ∈ (Request.ofArgs args).paths, files' p = files p) :
    run files' stdin logger args = run files stdin logger args := by
  unfold run
  cases hrequest : Request.ofArgs args with
  | help => rfl
  | misuse => rfl
  | check config file =>
    -- the paths of a request are those of its settings, and that of its input
    rw [hrequest, Request.paths, List.forall_mem_append] at h
    obtain ⟨hconfig, hfile⟩ := h
    dsimp only
    rw [Settings.load_congr hconfig]
    obtain ⟨loaded, remark⟩ := Settings.load files config
    cases loaded with
    | none => rfl
    | some settings => exact checkInput_congr stdin settings _ hfile

/-- A logger has no part in the result. -/
theorem run_result_logger (stdin : Bytes) (logger logger' : Log.Logger) :
    (run files stdin logger' args).result = (run files stdin logger args).result :=
  ends_iff.1 (ends_iff.2 rfl)

/-! ### Settings at a path -/

/-- Arguments that name the same settings and input have the same outcome. -/
theorem run_eq_of_names {args' : List Bytes} {config' : Option Bytes} (stdin : Bytes)
    (logger : Log.Logger) (h : Names args config input) (h' : Names args' config' input)
    (hconfig : config.getD [] = config'.getD []) :
    run files stdin logger args = run files stdin logger args' := by
  rw [run, run, h.ofArgs_eq, h'.ofArgs_eq, hconfig]

theorem result_congr_of_names (stdin : Bytes) (logger logger' : Log.Logger)
    (h : Names args (some path) input) (hpath : path ≠ []) (hfile : files' path = files path)
    (hinput : ∀ p ∈ input, p ≠ standardInput → files' p = files p) :
    (run files' stdin logger' args).result = (run files stdin logger args).result := by
  have hreads : ∀ p ∈ (Request.ofArgs args).paths, files' p = files p := by
    rw [h.ofArgs_eq, Request.paths, List.forall_mem_append, Option.getD_some,
      List.isEmpty_eq_false_iff.2 hpath, if_neg Bool.false_ne_true, List.forall_mem_singleton]
    refine ⟨hfile, ?_⟩
    cases input with
    | none => exact List.forall_mem_nil _
    | some file =>
      rw [Option.getD_some]
      split_ifs with hstdin
      · exact List.forall_mem_nil _
      · rw [List.forall_mem_singleton]
        exact hinput file rfl hstdin
  rw [run_result_logger stdin logger logger', run_congr stdin logger hreads]

/-- **Settings that are named decide.**  When the last path after the option is not empty, its file
must exist, or the command fails and writes nothing; and the result depends on this file, that of
the input and standard input alone.  An empty path names nothing: the outcome is that of the input
without the option. -/
theorem explicit_settings_decide (h : Names args (some path) input) (files : Files)
    (stdin : Bytes) (logger : Log.Logger) :
    let outcome := run files stdin logger args
    (path ≠ [] → files path = none → outcome.result = (1, [], [])) ∧
    (path ≠ [] → ∀ files' logger', files' path = files path →
      (∀ p ∈ input, p ≠ standardInput → files' p = files p) →
        (run files' stdin logger' args).result = outcome.result) ∧
    (path = [] → outcome = run files stdin logger input.toList) := by
  intro outcome
  refine ⟨?_, ?_, ?_⟩
  · intro hpath hfile
    exact Ends.result_eq (.noSettings h hpath hfile)
  · intro hpath files' logger' hfile hinput
    exact result_congr_of_names stdin logger logger' h hpath hfile hinput
  · rintro rfl
    exact run_eq_of_names stdin logger h h.toList_input rfl

/-- The last option decides: without its file the run fails, although every other file exists, and
with it no other file matters.  After an empty path the earlier option has no effect either. -/
theorem explicit_settings_decide_last_option :
    let first := Bytes.ofString "first.json"
    let last := Bytes.ofString "last.json"
    let text := Bytes.ofString "\x7b\"pretty\":true\x7d"
    let others : Files := fun p => if p = last then none else some text
    let alone : Files := fun p => if p = last then some text else none
    let stdin := Bytes.ofString "?\n"
    let logger : Log.Logger := ⟨.info, []⟩
    let args := [configOption, first, configOption, last]
    (run others stdin logger args).result = (1, [], []) ∧
      (run (fun _ => some text) stdin logger args).result = (run alone stdin logger args).result ∧
      run others stdin logger [configOption, first, configOption, []] =
        run others stdin logger [] := by
  intro first last text others alone stdin logger args
  have hargs : Names args (some last) none := (Names.nothing.config first).config last
  have hempty : Names [configOption, first, configOption, []] (some []) none :=
    (Names.nothing.config first).config []
  obtain ⟨hmissing, -, -⟩ := explicit_settings_decide hargs others stdin logger
  obtain ⟨-, hcongr, -⟩ := explicit_settings_decide hargs alone stdin logger
  obtain ⟨-, -, hnothing⟩ := explicit_settings_decide hempty others stdin logger
  exact ⟨hmissing (by decide) (if_pos rfl),
    hcongr (by decide) (fun _ => some text) logger (by decide +kernel) nofun, hnothing rfl⟩

/-- The file at an empty path does not exist, but the command succeeds, and the settings that are
found elsewhere decide how the report is laid out. -/
theorem explicit_empty_path_ignored :
    let found := Bytes.ofString "venue_check.json"
    let text := Bytes.ofString "\x7b\"pretty\":true\x7d"
    let bare : Files := fun _ => none
    let files : Files := fun p => if p = found then some text else none
    let stdin := Bytes.ofString "?\n"
    let logger : Log.Logger := ⟨.info, []⟩
    let args := [configOption, []]
    Names args (some []) none ∧ bare [] = none ∧ files [] = bare [] ∧
      (run bare stdin logger args).code = 0 ∧ (run bare stdin logger args).out ≠ [] ∧
      (run files stdin logger args).out ≠ (run bare stdin logger args).out := by
  intro found text bare files stdin logger args
  have hargs : Names args (some []) none := Names.nothing.config []
  exact ⟨hargs, rfl, by decide +kernel, by decide +kernel, by decide +kernel, by decide +kernel⟩

end Command

end PlaceFeed
