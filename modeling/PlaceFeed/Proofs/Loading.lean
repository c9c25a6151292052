import PlaceFeed.Proofs.ParsedValues
import PlaceFeed.Settings

/-!
# Where settings come from

Loading settings is said here by files and texts alone, without a reader: which file is chosen
(`Settings.IsChosen`), what makes its text hold no settings (`Settings.IsBroken`), and which
settings the members of an object give (`Settings.AreIn`).  `Settings.Loads` puts these together.

* `Settings.exists_areIn` : a text that is not broken has settings, and no other has;
* `Settings.load_of_isChosen` : only the chosen file matters;
* `Settings.loads_iff` : loading gives what the files call for, and nothing else;
* `Settings.loading_exact` : **the settings of any files and path**, and what they depend on.
-/

namespace PlaceFeed

namespace Settings

open Json (Members IsText lookup)

variable {files : Files} {path chosen text : Bytes} {members : Members} {settings : Settings}

/-! ### The members of a settings file -/

/-- The keys of the texts in a settings file. -/
def textKeys : List String := ["log_level", "log_pattern"]

/-- The keys of the truth values in a settings file. -/
def flagKeys : List String := ["require_map_point", "pretty"]

/-- What makes a text hold no settings. -/
inductive IsBroken (text : Bytes) : Prop
  | notText (h : ∀ v, ¬IsText text v)
  | notObject {v : Json} (h : IsText text v) (hv : ∀ members, v ≠ .obj members)
  | text {members : Members} {key : String} {v : Json} (h : IsText text (.obj members))
    (hkey : key ∈ textKeys) (hv : lookup members (Bytes.ofString key) = some v)
    (hkind : ∀ s, v ≠ .str s)
  | flag {members : Members} {key : String} {v : Json} (h : IsText text (.obj members))
    (hkey : key ∈ flagKeys) (hv : lookup members (Bytes.ofString key) = some v)
    (hkind : ∀ b, v ≠ .bool b)

/-- The value is that of a key, made into JSON, or the default when the key is absent. -/
def IsAt {α : Type} (members : Members) (key : String) (toJson : α → Json) (default a : α) : Prop :=
  (lookup members (Bytes.ofString key) = none ∧ a = default) ∨
    lookup members (Bytes.ofString key) = some (toJson a)

/-- The **settings in the members** of an object. -/
structure AreIn (settings : Settings) (members : Members) : Prop where
  logLevel : IsAt members "log_level" .str default.logLevel settings.logLevel
  logPattern : IsAt members "log_pattern" .str default.logPattern settings.logPattern
  requireMapPoint :
    IsAt members "require_map_point" .bool default.requireMapPoint settings.requireMapPoint
  pretty : IsAt members "pretty" .bool default.pretty settings.pretty

/-- A member read as one kind is that of the key, when the kind is made so. -/
theorem read_eq_some_iff {α : Type} {kind : Json → Option α} {toJson : α → Json} {key : String}
    {default a : α} (h : ∀ {v a}, kind v = some a ↔ v = toJson a) :
    Json.read kind default members key = some a ↔ IsAt members key toJson default a := by
  simp [Json.read_eq_some, IsAt, h]

theorem ofMembers?_eq_some : ofMembers? members = some settings ↔ settings.AreIn members := by
  unfold ofMembers?
  simp only [Option.bind_eq_bind, Option.bind_eq_some_iff, read_eq_some_iff Json.string?_eq_some,
    read_eq_some_iff Json.bool?_eq_some]
  constructor
  · rintro ⟨level, hlevel, pattern, hpattern, map, hmap, pretty, hpretty, h⟩
    cases h
    exact ⟨hlevel, hpattern, hmap, hpretty⟩
  · rintro ⟨hlevel, hpattern, hmap, hpretty⟩
    exact ⟨_, hlevel, _, hpattern, _, hmap, _, hpretty, rfl⟩

theorem exists_isAt {α : Type} {key : String} {toJson : α → Json} (default : α)
    (h : ∀ v, lookup members (Bytes.ofString key) = some v → ∃ a, v = toJson a) :
    ∃ a, IsAt members key toJson default a := by
  cases hv : lookup members (Bytes.ofString key) with
  | none => exact ⟨default, .inl ⟨hv, rfl⟩⟩
  | some v =>
    obtain ⟨a, rfl⟩ := h v hv
    exact ⟨a, .inr hv⟩

theorem IsAt.eq_of_lookup {α : Type} {key : String} {toJson : α → Json} {default a : α} {v : Json}
    (h : IsAt members key toJson default a) (hv : lookup members (Bytes.ofString key) = some v) :
    v = toJson a := by
  obtain ⟨hnone, -⟩ | hsome := h
  · rw [hnone] at hv
    cases hv
  · exact Option.some.inj (hv.symm.trans hsome)

/-- The members of an object hold settings unless its text is broken. -/
theorem exists_areIn (h : IsText text (.obj members)) :
    (∃ settings : Settings, settings.AreIn members) ↔ ¬IsBroken text := by
  constructor
  · rintro ⟨settings, hsettings⟩ hbroken
    cases hbroken with
    | notText hnone => exact hnone _ h
    | notObject hv hne => exact hne members (hv.unique h)
    | text hobj hkey hv hkind =>
      obtain rfl := Json.obj.inj (hobj.unique h)
      simp only [textKeys, List.mem_cons, List.not_mem_nil, or_false] at hkey
      rcases hkey with rfl | rfl
      · exact hkind _ (hsettings.logLevel.eq_of_lookup hv)
      · exact hkind _ (hsettings.logPattern.eq_of_lookup hv)
    | flag hobj hkey hv hkind =>
      obtain rfl := Json.obj.inj (hobj.unique h)
      simp only [flagKeys, List.mem_cons, List.not_mem_nil, or_false] at hkey
      rcases hkey with rfl | rfl
      · exact hkind _ (hsettings.requireMapPoint.eq_of_lookup hv)
      · exact hkind _ (hsettings.pretty.eq_of_lookup hv)
  · intro hbroken
    -- every member that is there has the right kind, for the text would be broken otherwise
    have htext : ∀ key ∈ textKeys, ∀ v, lookup members (Bytes.ofString key) = some v →
        ∃ s, v = .str s := by
      intro key hkey v hv
      by_contra hkind
      exact hbroken (.text h hkey hv (not_exists.1 hkind))
    have hflag : ∀ key ∈ flagKeys, ∀ v, lookup members (Bytes.ofString key) = some v →
        ∃ b, v = .bool b := by
      intro key hkey v hv
      by_contra hkind
      exact hbroken (.flag h hkey hv (not_exists.1 hkind))
    obtain ⟨level, hlevel⟩ := exists_isAt default.logLevel (htext "log_level" (by decide))
    obtain ⟨pattern, hpattern⟩ := exists_isAt default.logPattern (htext "log_pattern" (by decide))
    obtain ⟨map, hmap⟩ :=
      exists_isAt default.requireMapPoint (hflag "require_map_point" (by decide))
    obtain ⟨pretty, hpretty⟩ := exists_isAt default.pretty (hflag "pretty" (by decide))
    exact ⟨⟨level, pattern, map, pretty⟩, hlevel, hpattern, hmap, hpretty⟩

/-- A text that is not broken is an object with settings. -/
theorem exists_areIn_of_not_isBroken (h : ¬IsBroken text) :
    ∃ members, IsText text (.obj members) ∧ ∃ settings : Settings, settings.AreIn members := by
  have hobj : ∃ members, IsText text (.obj members) := by
    by_contra hobj
    by_cases hany : ∃ v, IsText text v
    · obtain ⟨v, hv⟩ := hany
      refine h (.notObject hv ?_)
      rintro members rfl
      exact hobj ⟨members, hv⟩
    · exact h (.notText (not_exists.1 hany))
  obtain ⟨members, hmembers⟩ := hobj
  exact ⟨members, hmembers, (exists_areIn hmembers).2 h⟩

/-! ### The text of a file -/

/-- The path of a file is only in the remark on it. -/
theorem ofText_fst (path text : Bytes) :
    (ofText path text).1 = ((Json.parse? text).bind ofJson?).getD default := by
  unfold ofText
  cases Json.parse? text with
  | none => rfl
  | some v =>
    cases v with
    | obj members =>
      dsimp only [Option.bind_some, ofJson?]
      cases ofMembers? members <;> rfl
    | _ => rfl

theorem ofText_of_areIn (path : Bytes) (h : IsText text (.obj members))
    (hsettings : settings.AreIn members) : (ofText path text).1 = settings := by
  rw [ofText_fst, Json.parse?_eq_some_iff.2 h, Option.bind_some, ofJson?,
    ofMembers?_eq_some.2 hsettings, Option.getD_some]

/-- A broken text gives none of its settings. -/
theorem ofText_of_isBroken (path : Bytes) (h : IsBroken text) :
    (ofText path text).1 = default := by
  rw [ofText_fst]
  cases hread : (Json.parse? text).bind ofJson? with
  | none => rfl
  | some settings =>
    obtain ⟨v, hv, hsettings⟩ := Option.bind_eq_some_iff.1 hread
    cases v with
    | obj members =>
      have hin := ofMembers?_eq_some.1 hsettings
      exact absurd h ((exists_areIn (Json.parse?_eq_some_iff.1 hv)).1 ⟨settings, hin⟩)
    | _ => cases hsettings

/-- The texts are the same, or they are objects that agree on the keys of the settings. -/
def SayTheSame (text other : Bytes) : Prop :=
  other = text ∨ ∃ members others, IsText text (.obj members) ∧ IsText other (.obj others) ∧
    ∀ key ∈ textKeys ++ flagKeys,
      lookup others (Bytes.ofString key) = lookup members (Bytes.ofString key)

theorem ofMembers?_congr {others : Members}
    (h : ∀ key ∈ textKeys ++ flagKeys,
      lookup others (Bytes.ofString key) = lookup members (Bytes.ofString key)) :
    ofMembers? others = ofMembers? members := by
  rw [ofMembers?, ofMembers?, Json.read_congr (h "log_level" (by decide)),
    Json.read_congr (h "log_pattern" (by decide)),
    Json.read_congr (h "require_map_point" (by decide)), Json.read_congr (h "pretty" (by decide))]

/-- Other members have no effect. -/
theorem ofText_congr {other : Bytes} (path path' : Bytes) (h : SayTheSame text other) :
    (ofText path' other).1 = (ofText path text).1 := by
  rw [ofText_fst, ofText_fst]
  obtain rfl | ⟨members, others, hmembers, hothers, hkeys⟩ := h
  · rfl
  · rw [Json.parse?_eq_some_iff.2 hmembers, Json.parse?_eq_some_iff.2 hothers, Option.bind_some,
      Option.bind_some, ofJson?, ofJson?, ofMembers?_congr hkeys]

/-! ### The choice of a file -/

/-- The file at `chosen`, with this text, is **chosen**: it is the one that is named, or it is the
first that exists at the paths that are tried when none is named. -/
inductive IsChosen (files : Files) : (path chosen text : Bytes) → Prop
  | named {path text : Bytes} (hpath : path ≠ []) (hfile : files path = some text) :
    IsChosen files path path text
  | first {before after : List Bytes} {chosen text : Bytes}
    (hpaths : searchPaths = before ++ chosen :: after) (hbefore : ∀ p ∈ before, files p = none)
    (hfile : files chosen = some text) : IsChosen files [] chosen text

theorem firstFile_eq_some {paths : List Bytes} :
    firstFile files paths = some (chosen, text) ↔
      ∃ before after, paths = before ++ chosen :: after ∧ (∀ p ∈ before, files p = none) ∧
        files chosen = some text := by
  simp only [firstFile, List.findSome?_eq_some_iff, Option.map_eq_some_iff,
    Option.map_eq_none_iff, Prod.mk.injEq]
  constructor
  · rintro ⟨before, path, after, hpaths, ⟨text', hfile, rfl, rfl⟩, hbefore⟩
    exact ⟨before, after, hpaths, hbefore, hfile⟩
  · rintro ⟨before, after, hpaths, hbefore, hfile⟩
    exact ⟨before, chosen, after, hpaths, ⟨text, hfile, rfl, rfl⟩, hbefore⟩

theorem firstFile_eq_none {paths : List Bytes} :
    firstFile files paths = none ↔ ∀ p ∈ paths, files p = none := by
  simp [firstFile, List.findSome?_eq_none_iff]

theorem load_of_ne_nil (h : path ≠ []) :
    (load files path).1 = (files path).map fun text => (ofText path text).1 := by
  rw [load, List.isEmpty_eq_false_iff.2 h]
  cases files path <;> rfl

theorem load_nil :
    (load files []).1 = some ((firstFile files searchPaths).elim default fun f =>
      (ofText f.1 f.2).1) := by
  rw [load, List.isEmpty_nil]
  cases firstFile files searchPaths <;> rfl

theorem load_of_isChosen (h : IsChosen files path chosen text) :
    (load files path).1 = some (ofText chosen text).1 := by
  cases h with
  | named hpath hfile => rw [load_of_ne_nil hpath, hfile, Option.map_some]
  | first hpaths hbefore hfile =>
    rw [load_nil, firstFile_eq_some.2 ⟨_, _, hpaths, hbefore, hfile⟩, Option.elim_some]

/-- A file is chosen unless there is none to choose. -/
theorem exists_isChosen_or (files : Files) (path : Bytes) :
    (∃ chosen text, IsChosen files path chosen text) ∨ (path ≠ [] ∧ files path = none) ∨
      (path = [] ∧ ∀ p ∈ searchPaths, files p = none) := by
  rcases eq_or_ne path [] with rfl | hpath
  · cases hfirst : firstFile files searchPaths with
    | none => exact .inr (.inr ⟨rfl, firstFile_eq_none.1 hfirst⟩)
    | some f =>
      obtain ⟨before, after, hpaths, hbefore, hfile⟩ := firstFile_eq_some.1 hfirst
      exact .inl ⟨f.1, f.2, .first hpaths hbefore hfile⟩
  · obtain hfile | ⟨text, hfile⟩ := Option.eq_none_or_eq_some (files path)
    · exact .inr (.inl ⟨hpath, hfile⟩)
    · exact .inl ⟨path, text, .named hpath hfile⟩

/-! ### Loading -/

/-- Loading at a path **gives these settings**, or none when the file that is named does not exist.
A broken text gives the default settings, as does no file at all. -/
inductive Loads (files : Files) (path : Bytes) : Option Settings → Prop
  | missing (hpath : path ≠ []) (hfile : files path = none) : Loads files path none
  | nowhere (hpath : path = []) (hfiles : ∀ p ∈ searchPaths, files p = none) :
    Loads files path (some default)
  | broken {chosen text : Bytes} (h : IsChosen files path chosen text) (hbroken : IsBroken text) :
    Loads files path (some default)
  | members {chosen text : Bytes} {members : Members} {settings : Settings}
    (h : IsChosen files path chosen text) (htext : IsText text (.obj members))
    (hsettings : settings.AreIn members) : Loads files path (some settings)

variable {loaded : Option Settings}

theorem Loads.load_eq (h : Loads files path loaded) : (load files path).1 = loaded := by
  cases h with
  | missing hpath hfile => rw [load_of_ne_nil hpath, hfile, Option.map_none]
  | nowhere hpath hfiles =>
    rw [hpath, load_nil, firstFile_eq_none.2 hfiles, Option.elim_none]
  | broken h hbroken => rw [load_of_isChosen h, ofText_of_isBroken _ hbroken]
  | members h htext hsettings => rw [load_of_isChosen h, ofText_of_areIn _ htext hsettings]

theorem exists_loads (files : Files) (path : Bytes) : ∃ loaded, Loads files path loaded := by
  obtain ⟨chosen, text, h⟩ | ⟨hpath, hfile⟩ | ⟨hpath, hfiles⟩ := exists_isChosen_or files path
  · by_cases hbroken : IsBroken text
    · exact ⟨_, .broken h hbroken⟩
    · obtain ⟨members, htext, settings, hsettings⟩ := exists_areIn_of_not_isBroken hbroken
      exact ⟨_, .members h htext hsettings⟩
  · exact ⟨_, .missing hpath hfile⟩
  · exact ⟨_, .nowhere hpath hfiles⟩

/-- **Loading gives what the files call for**, and nothing else. -/
theorem loads_iff : Loads files path loaded ↔ (load files path).1 = loaded := by
  refine ⟨Loads.load_eq, ?_⟩
  rintro rfl
  obtain ⟨loaded, hloads⟩ := exists_loads files path
  rwa [hloads.load_eq]

theorem load_eq_none_iff : (load files path).1 = none ↔ path ≠ [] ∧ files path = none := by
  rw [← loads_iff]
  constructor
  · intro h
    cases h with
    | missing hpath hfile => exact ⟨hpath, hfile⟩
  · rintro ⟨hpath, hfile⟩
    exact .missing hpath hfile

/-- **The settings of any files and path.**  They are those of the chosen file, each with its
default where the file does not have it, or all default settings when its text is broken; there are
none only for a named file that does not exist.  Only the chosen file matters, and of it only the
members of the settings. -/
theorem loading_exact (files : Files) (path : Bytes) :
    (∀ loaded, Loads files path loaded ↔ (load files path).1 = loaded) ∧
    ((load files path).1 = none ↔ path ≠ [] ∧ files path = none) ∧
    ∀ chosen text, IsChosen files path chosen text →
      ∀ files' path' chosen' other, IsChosen files' path' chosen' other → SayTheSame text other →
        (load files' path').1 = (load files path).1 := by
  refine ⟨fun loaded => loads_iff, load_eq_none_iff, ?_⟩
  intro chosen text h files' path' chosen' other h' hsame
  rw [load_of_isChosen h, load_of_isChosen h', ofText_congr chosen chosen' hsame]

/-- The first file that exists decides, although its last member is broken, and two files that are
named say the same, although one has other members too. -/
theorem loading_exact_broken_first :
    let broken := Bytes.ofString "\x7b\"log_level\":\"warn\",\"pretty\":null\x7d"
    let text := Bytes.ofString "\x7b\"pretty\":true\x7d"
    let other := Bytes.ofString "\x7b\"pretty\":0,\"note\":[],\"pretty\":true\x7d"
    let last := Bytes.ofString "build/venue_check.json"
    let more := Bytes.ofString "more.json"
    let files : Files := fun path =>
      if path = Bytes.ofString "../venue_check.json" then some broken
      else if path = last then some text
      else if path = more then some other else none
    Loads files [] (some default) ∧ (load files more).1 = some { default with pretty := true } ∧
      IsChosen files last last text ∧ IsChosen files more more other ∧ SayTheSame text other ∧
      (load files more).1 = (load files last).1 := by
  intro broken text other last more files
  have htext : Json.parse? text = some (.obj [(Bytes.ofString "pretty", .bool true)]) := rfl
  have hother : Json.parse? other = some (.obj [(Bytes.ofString "pretty", .int 0),
    (Bytes.ofString "note", .arr []), (Bytes.ofString "pretty", .bool true)]) := rfl
  rw [Json.parse?_eq_some_iff] at htext hother
  have hsame : SayTheSame text other := by
    refine .inr ⟨_, _, htext, hother, ?_⟩
    intro key hkey
    simp only [textKeys, flagKeys, List.cons_append, List.nil_append, List.mem_cons,
      List.not_mem_nil, or_false] at hkey
    rcases hkey with rfl | rfl | rfl | rfl <;> rfl
  have hlast : IsChosen files last last text := .named (by decide) (by decide +kernel)
  have hmore : IsChosen files more more other := .named (by decide) (by decide +kernel)
  obtain ⟨-, -, hcongr⟩ := loading_exact files last
  exact ⟨((loading_exact files []).1 _).2 (by decide +kernel), by decide +kernel, hlast, hmore,
    hsame, hcongr last text hlast files more more other hmore hsame⟩

end Settings

end PlaceFeed
