import PlaceFeed.Command

/-!
# What arguments ask for

Arguments are read from the first to the last, and the first that decides settles the request.
Arguments that decide nothing name settings, each path after its option, and at most one input
(`Request.Names`).  `Request.Asks` says what becomes of the next one, or of their end, and with it
what any arguments ask for.

* `Request.isInput_iff` : an input is what is neither an option nor a call for help;
* `Request.Names.ofArgs_append` : arguments that decide nothing leave the rest to decide;
* `Request.asks_iff` : **a request is what the arguments ask for**, and they ask for one thing only;
* `Request.exists_names_iff` : the arguments that name settings.
-/

namespace PlaceFeed

namespace Request

variable {arg path : Bytes} {args rest : List Bytes} {config input : Option Bytes} {r : Request}

/-! ### The grammar of arguments -/

/-- The argument calls for help. -/
def CallsForHelp (arg : Bytes) : Prop := arg = Bytes.ofString "--help" ∨ arg = Bytes.ofString "-h"

/-- The argument is an input: it is `-`, or anything else that neither starts with `--` nor calls
for help. -/
def IsInput (arg : Bytes) : Prop :=
  arg = standardInput ∨ (¬Bytes.ofString "--" <+: arg ∧ ¬CallsForHelp arg)

/-- The arguments decide nothing.  They **name settings and an input**, as far as they do: the
settings of the last option, and the only input. -/
inductive Names : (args : List Bytes) → (config input : Option Bytes) → Prop
  | nothing : Names [] none none
  | config {args : List Bytes} {config input : Option Bytes} (h : Names args config input)
    (path : Bytes) : Names (args ++ [configOption, path]) (some path) input
  | input {args : List Bytes} {config : Option Bytes} {arg : Bytes} (h : Names args config none)
    (harg : IsInput arg) : Names (args ++ [arg]) config (some arg)

/-- What the arguments **ask for**, by the first of them that decides, or else by their names. -/
inductive Asks : List Bytes → Request → Prop
  | help {args rest : List Bytes} {config input : Option Bytes} {arg : Bytes}
    (h : Names args config input) (harg : CallsForHelp arg) : Asks (args ++ arg :: rest) .help
  | noPath {args : List Bytes} {config input : Option Bytes} (h : Names args config input) :
    Asks (args ++ [configOption]) .misuse
  | secondInput {args rest : List Bytes} {config : Option Bytes} {first arg : Bytes}
    (h : Names args config (some first)) (harg : IsInput arg) : Asks (args ++ arg :: rest) .misuse
  | unknown {args rest : List Bytes} {config input : Option Bytes} {arg : Bytes}
    (h : Names args config input) (harg : Bytes.ofString "--" <+: arg) (hhelp : ¬CallsForHelp arg)
    (hconfig : arg ≠ configOption) : Asks (args ++ arg :: rest) .misuse
  | check {args : List Bytes} {config input : Option Bytes} (h : Names args config input) :
    Asks args (.check (config.getD []) (input.getD standardInput))

/-! ### One argument -/

theorem isHelp_iff : isHelp arg = true ↔ CallsForHelp arg := by
  simp [isHelp, CallsForHelp]

theorem isOption_iff : isOption arg = true ↔ Bytes.ofString "--" <+: arg :=
  List.isPrefixOf_iff_prefix

theorem isInput_iff : IsInput arg ↔ ¬CallsForHelp arg ∧ ¬Bytes.ofString "--" <+: arg := by
  constructor
  · rintro (rfl | ⟨hoption, hhelp⟩)
    · rw [← isHelp_iff, ← isOption_iff]
      decide
    · exact ⟨hhelp, hoption⟩
  · rintro ⟨hhelp, hoption⟩
    exact .inr ⟨hoption, hhelp⟩

theorem IsInput.ne_configOption (h : IsInput arg) : arg ≠ configOption := by
  rintro rfl
  have hoption : Bytes.ofString "--" <+: configOption := by
    rw [← isOption_iff]
    decide
  exact (isInput_iff.1 h).2 hoption

section Step

variable (config : Bytes) (input : Option Bytes) (rest : List Bytes)

theorem ofArgsAux_cons (arg : Bytes) :
    ofArgsAux config input (arg :: rest) =
      if isHelp arg then .help
      else if arg = configOption then
        match rest with
        | [] => .misuse
        | path :: rest => ofArgsAux path input rest
      else if input.isNone && !isOption arg then ofArgsAux config (some arg) rest
      else .misuse := by
  cases rest <;> rfl

theorem ofArgsAux_help (h : CallsForHelp arg) : ofArgsAux config input (arg :: rest) = .help := by
  rw [ofArgsAux_cons, if_pos (isHelp_iff.2 h)]

theorem ofArgsAux_noPath : ofArgsAux config input [configOption] = .misuse := rfl

theorem ofArgsAux_config (path : Bytes) :
    ofArgsAux config input (configOption :: path :: rest) = ofArgsAux path input rest := rfl

theorem ofArgsAux_of_ne (hhelp : ¬CallsForHelp arg) (hconfig : arg ≠ configOption) :
    ofArgsAux config input (arg :: rest) =
      if input.isNone && !isOption arg then ofArgsAux config (some arg) rest else .misuse := by
  rw [ofArgsAux_cons, if_neg (mt isHelp_iff.1 hhelp), if_neg hconfig]

theorem ofArgsAux_unknown (h : Bytes.ofString "--" <+: arg) (hhelp : ¬CallsForHelp arg)
    (hconfig : arg ≠ configOption) : ofArgsAux config input (arg :: rest) = .misuse := by
  rw [ofArgsAux_of_ne _ _ _ hhelp hconfig, isOption_iff.2 h, Bool.not_true, Bool.and_false]
  rfl

theorem ofArgsAux_isInput (h : IsInput arg) :
    ofArgsAux config input (arg :: rest) =
      if input.isNone then ofArgsAux config (some arg) rest else .misuse := by
  obtain ⟨hhelp, hoption⟩ := isInput_iff.1 h
  rw [← isOption_iff, Bool.not_eq_true] at hoption
  rw [ofArgsAux_of_ne _ _ _ hhelp h.ne_configOption, hoption, Bool.not_false, Bool.and_true]

end Step

/-! ### Requests -/

/-- Arguments that decide nothing leave the rest to decide. -/
theorem Names.ofArgs_append (h : Names args config input) (rest : List Bytes) :
    ofArgs (args ++ rest) = ofArgsAux (config.getD []) input rest := by
  -- the last of these arguments goes to the rest, which those before it leave to decide
  induction h generalizing rest with
  | nothing => rfl
  | config h path ih =>
    rw [List.append_assoc, ih]
    exact ofArgsAux_config _ _ rest path
  | input h harg ih =>
    rw [List.append_assoc, ih]
    exact ofArgsAux_isInput _ _ rest harg

theorem Asks.ofArgs_eq (h : Asks args r) : ofArgs args = r := by
  cases h with
  | help h harg => rw [h.ofArgs_append, ofArgsAux_help _ _ _ harg]
  | noPath h => rw [h.ofArgs_append, ofArgsAux_noPath]
  | secondInput h harg => rw [h.ofArgs_append, ofArgsAux_isInput _ _ _ harg]; rfl
  | unknown h harg hhelp hconfig =>
    rw [h.ofArgs_append, ofArgsAux_unknown _ _ _ harg hhelp hconfig]
  | check h =>
    have hrest := h.ofArgs_append []
    rwa [List.append_nil] at hrest

/-- After arguments that decide nothing, the rest decides. -/
theorem Names.asks (h : Names args config input) (rest : List Bytes) :
    Asks (args ++ rest) (ofArgsAux (config.getD []) input rest) := by
  generalize hpath : config.getD [] = path
  -- each step moves the arguments that it reads from the rest to those that decide nothing
  fun_induction ofArgsAux path input rest generalizing args config with
  | case1 path input =>
    rw [List.append_nil, ← hpath]
    exact .check h
  | case2 path input arg rest hhelp => exact .help h (isHelp_iff.1 hhelp)
  | case3 path input => exact .noPath h
  | case4 path input next rest _ ih =>
    have hasks := ih (h.config next) rfl
    rwa [List.append_assoc] at hasks
  | case5 path input arg rest hhelp _ hfree ih =>
    rw [Bool.and_eq_true, Option.isNone_iff_eq_none, Bool.not_eq_true', ← Bool.not_eq_true,
      isOption_iff] at hfree
    obtain ⟨rfl, hoption⟩ := hfree
    have hasks := ih (h.input (isInput_iff.2 ⟨mt isHelp_iff.2 hhelp, hoption⟩)) hpath
    rwa [List.append_assoc] at hasks
  | case6 path input arg rest hhelp hconfig hbusy =>
    rw [isHelp_iff] at hhelp
    by_cases hoption : Bytes.ofString "--" <+: arg
    · exact .unknown h hoption hhelp hconfig
    · cases input with
      | none =>
        rw [← isOption_iff, Bool.not_eq_true] at hoption
        rw [hoption] at hbusy
        exact absurd rfl hbusy
      | some first => exact .secondInput h (isInput_iff.2 ⟨hhelp, hoption⟩)

/-- **A request is what the arguments ask for**, and they ask for one thing only. -/
theorem asks_iff : Asks args r ↔ ofArgs args = r := by
  refine ⟨Asks.ofArgs_eq, ?_⟩
  rintro rfl
  exact Names.nothing.asks args

theorem Names.ofArgs_eq (h : Names args config input) :
    ofArgs args = .check (config.getD []) (input.getD standardInput) :=
  asks_iff.1 (.check h)

/-! ### What is named -/

/-- Settings are named exactly when their option is among the arguments. -/
theorem Names.isSome_config_iff (h : Names args config input) :
    config.isSome = true ↔ configOption ∈ args := by
  induction h with
  | nothing => simp
  | config h path ih => simp
  | input h harg ih => simp [ih, harg.ne_configOption.symm]

/-- The input alone names the same input. -/
theorem Names.toList_input (h : Names args config input) : Names input.toList none input := by
  induction h with
  | nothing => exact .nothing
  | config h path ih => exact ih
  | input h harg ih => exact Names.nothing.input harg

/-- Arguments name settings exactly when they ask for neither help nor misuse and the option of the
settings is among them. -/
theorem exists_names_iff :
    (∃ path input, Names args (some path) input) ↔
      ¬Asks args .help ∧ ¬Asks args .misuse ∧ configOption ∈ args := by
  simp only [asks_iff]
  constructor
  · rintro ⟨path, input, h⟩
    rw [h.ofArgs_eq]
    exact ⟨Request.noConfusion, Request.noConfusion, h.isSome_config_iff.1 rfl⟩
  · rintro ⟨hhelp, hmisuse, hconfig⟩
    have hasks : Asks args (ofArgs args) := asks_iff.2 rfl
    generalize ofArgs args = r at hasks hhelp hmisuse
    cases hasks with
    | @check _ config input h =>
      obtain ⟨path, rfl⟩ := Option.isSome_iff_exists.1 (h.isSome_config_iff.2 hconfig)
      exact ⟨path, input, h⟩
    | help => exact absurd rfl hhelp
    | _ => exact absurd rfl hmisuse

end Request

end PlaceFeed
