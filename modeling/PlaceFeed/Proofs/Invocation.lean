import PlaceFeed.Proofs.Arguments
import PlaceFeed.Proofs.Loading

/-!
# How the command ends

`Command.Ends` says how the command ends and what it writes, by what the arguments ask for
(`Request.Asks`), by the settings that the files give (`Settings.Loads`) and by the bytes of the
input.  Nothing is written before all of these are known.

* `Command.result_checkInput` : the result of checking an input, which may not exist;
* `Command.ends_iff` : the command ends in this way, and in no other;
* `Command.invocation_exact` : **the outcome of any arguments**.
-/

namespace PlaceFeed

/-- How a run ended and what it wrote besides messages. -/
def Outcome.result (o : Outcome) : UInt8 × Bytes × Bytes := (o.code, o.out, o.err)

namespace Command

open Request (Asks Names standardInput)

variable {files : Files} {stdin : Bytes} {logger : Log.Logger} {args : List Bytes}
  {config input : Option Bytes} {settings : Settings} {code : UInt8} {out err : Bytes}

/-! ### What the outcome depends on -/

/-- The bytes of an input, unless it is a file that does not exist. -/
def inputText? (files : Files) (stdin input : Bytes) : Option Bytes :=
  if input = standardInput then some stdin else files input

/-- The command **ends with a code** and has written these bytes to its output and its usage. -/
inductive Ends (files : Files) (stdin : Bytes) (args : List Bytes) :
    (code : UInt8) → (out err : Bytes) → Prop
  | help (h : Asks args .help) : Ends files stdin args 0 [] usage
  | misuse (h : Asks args .misuse) : Ends files stdin args 2 [] usage
  | noSettings {path : Bytes} {input : Option Bytes} (h : Names args (some path) input)
    (hpath : path ≠ []) (hfile : files path = none) : Ends files stdin args 1 [] []
  | noInput {config input : Option Bytes} {settings : Settings} (h : Names args config input)
    (hsettings : Settings.Loads files (config.getD []) (some settings))
    (htext : inputText? files stdin (input.getD standardInput) = none) :
    Ends files stdin args 1 [] []
  | checked {config input : Option Bytes} {settings : Settings} {text : Bytes}
    (h : Names args config input)
    (hsettings : Settings.Loads files (config.getD []) (some settings))
    (htext : inputText? files stdin (input.getD standardInput) = some text) :
    Ends files stdin args 0 ((Checker.new settings).output ((Checker.new settings).run text).1) []

/-! ### Results -/

/-- The result of checking an input. -/
theorem result_checkInput (files : Files) (stdin : Bytes) (settings : Settings)
    (log : List Log.Message) (input : Bytes) :
    (checkInput files stdin settings log input).result =
      match inputText? files stdin input with
      | some text => (0, (Checker.new settings).output ((Checker.new settings).run text).1, [])
      | none => (1, [], []) := by
  unfold checkInput inputText?
  dsimp only
  split
  · rfl
  · cases files input <;> rfl

theorem result_of_asks_help (h : Asks args .help) :
    (run files stdin logger args).result = (0, [], usage) := by
  rw [run, h.ofArgs_eq]
  rfl

theorem result_of_asks_misuse (h : Asks args .misuse) :
    (run files stdin logger args).result = (2, [], usage) := by
  rw [run, h.ofArgs_eq]
  rfl

theorem result_of_names (h : Names args config input) :
    (run files stdin logger args).result =
      match (Settings.load files (config.getD [])).1 with
      | none => (1, [], [])
      | some settings =>
        (checkInput files stdin settings [] (input.getD standardInput)).result := by
  rw [run, h.ofArgs_eq]
  dsimp only
  obtain ⟨loaded, remark⟩ := Settings.load files (config.getD [])
  cases loaded with
  | none => rfl
  | some settings =>
    -- the messages so far are no part of the result
    dsimp only
    rw [result_checkInput, result_checkInput]

theorem Ends.result_eq (h : Ends files stdin args code out err) :
    (run files stdin logger args).result = (code, out, err) := by
  cases h with
  | help h => exact result_of_asks_help h
  | misuse h => exact result_of_asks_misuse h
  | noSettings h hpath hfile =>
    rw [result_of_names h, Option.getD_some, Settings.load_eq_none_iff.2 ⟨hpath, hfile⟩]
  | noInput h hsettings htext | checked h hsettings htext =>
    rw [result_of_names h, hsettings.load_eq]
    dsimp only
    rw [result_checkInput, htext]

/-- The command ends once the arguments name settings and an input. -/
theorem exists_ends_of_names (files : Files) (stdin : Bytes) (h : Names args config input) :
    ∃ code out err, Ends files stdin args code out err := by
  obtain ⟨loaded, hloads⟩ := Settings.exists_loads files (config.getD [])
  cases loaded with
  | none =>
    -- only settings that are named can be missing
    obtain ⟨hpath, hfile⟩ := Settings.load_eq_none_iff.1 hloads.load_eq
    cases config with
    | none => exact absurd rfl hpath
    | some path => exact ⟨_, _, _, .noSettings h hpath hfile⟩
  | some settings =>
    cases htext : inputText? files stdin (input.getD standardInput) with
    | none => exact ⟨_, _, _, .noInput h hloads htext⟩
    | some text => exact ⟨_, _, _, .checked h hloads htext⟩

/-- The command ends, whatever it is asked for. -/
theorem exists_ends (files : Files) (stdin : Bytes) (args : List Bytes) :
    ∃ code out err, Ends files stdin args code out err := by
  obtain ⟨r, hasks⟩ : ∃ r, Asks args r := ⟨_, Request.asks_iff.2 rfl⟩
  cases r with
  | help => exact ⟨_, _, _, .help hasks⟩
  | misuse => exact ⟨_, _, _, .misuse hasks⟩
  | check path input =>
    cases hasks with
    | check h => exact exists_ends_of_names files stdin h

/-- **The command ends in this way**, and in no other. -/
theorem ends_iff :
    Ends files stdin args code out err ↔
      (run files stdin logger args).result = (code, out, err) := by
  refine ⟨Ends.result_eq, fun h => ?_⟩
  obtain ⟨code', out', err', hends⟩ := exists_ends files stdin args
  rw [hends.result_eq, Prod.mk.injEq, Prod.mk.injEq] at h
  obtain ⟨rfl, rfl, rfl⟩ := h
  exact hends

/-- Nothing is written but by a check that succeeds. -/
theorem Ends.out_eq_nil (h : Ends files stdin args code out err)
    (hcode : code ≠ 0 ∨ Asks args .help) : out = [] := by
  cases h with
  | checked h hsettings htext =>
    obtain hcode | hhelp := hcode
    · exact absurd rfl hcode
    · cases h.ofArgs_eq.symm.trans hhelp.ofArgs_eq
  | _ => rfl

/-- The usage is written only for help and for misuse. -/
theorem Ends.err_eq_nil (h : Ends files stdin args code out err) (hhelp : ¬Asks args .help)
    (hmisuse : ¬Asks args .misuse) : err = [] := by
  cases h with
  | help h => exact absurd h hhelp
  | misuse h => exact absurd h hmisuse
  | _ => rfl

/-- **The outcome of any arguments.**  They ask for one thing, and the command ends with the code,
the output and the usage that this, the files and standard input call for, whatever the logger.  It
writes no output when it fails or helps, and nothing besides when it does neither that nor refuse
the arguments. -/
theorem invocation_exact (files : Files) (stdin : Bytes) (logger : Log.Logger)
    (args : List Bytes) :
    let outcome := run files stdin logger args
    (∃! r, Asks args r) ∧
    (∀ code out err, Ends files stdin args code out err ↔
      outcome.code = code ∧ outcome.out = out ∧ outcome.err = err) ∧
    (outcome.code ≠ 0 ∨ Asks args .help → outcome.out = []) ∧
    (¬Asks args .help → ¬Asks args .misuse → outcome.err = []) := by
  intro outcome
  have hends : Ends files stdin args outcome.code outcome.out outcome.err := ends_iff.2 rfl
  refine ⟨⟨Request.ofArgs args, Request.asks_iff.2 rfl, ?_⟩, ?_, hends.out_eq_nil, hends.err_eq_nil⟩
  · intro r hr
    exact hr.ofArgs_eq.symm
  · intro code out err
    rw [ends_iff, Outcome.result, Prod.mk.injEq, Prod.mk.injEq]

/-- A path that looks like a call for help names the settings, which indent the report on standard
input; and a second input is misuse, although a call for help follows. -/
theorem invocation_exact_option_like_path :
    let path := Bytes.ofString "--help"
    let files : Files := fun p =>
      if p = path then some (Bytes.ofString "\x7b\"pretty\":true\x7d") else none
    let stdin := Bytes.ofString "?\n"
    let logger : Log.Logger := ⟨.info, []⟩
    let args := [Request.configOption, path, standardInput]
    let wrong := [standardInput, Bytes.ofString "feed.jsonl", path]
    let report := Bytes.ofString
      "\x7b\n  \"line\": 1,\n  \"reason\": \"<json error>\",\n  \"status\": \"malformed\"\n\x7d\n"
    Ends files stdin args 0 report [] ∧ (¬Asks args .help ∧ ¬Asks args .misuse) ∧
      (run files stdin logger args).err = [] ∧ Ends files stdin wrong 2 [] usage ∧
      (run files stdin logger wrong).code ≠ 0 ∧ (run files stdin logger wrong).out = [] := by
  intro path files stdin logger args wrong report
  obtain ⟨-, hends, -, herr⟩ := invocation_exact files stdin logger args
  obtain ⟨-, hendsWrong, hout, -⟩ := invocation_exact files stdin logger wrong
  have hhelp : ¬Asks args .help := mt Asks.ofArgs_eq (by decide)
  have hmisuse : ¬Asks args .misuse := mt Asks.ofArgs_eq (by decide)
  have hcode : (run files stdin logger wrong).code ≠ 0 := by decide +kernel
  exact ⟨(hends 0 report []).2 (by decide +kernel), ⟨hhelp, hmisuse⟩, herr hhelp hmisuse,
    (hendsWrong 2 [] usage).2 (by decide +kernel), hcode, hout (.inl hcode)⟩

end Command

end PlaceFeed
