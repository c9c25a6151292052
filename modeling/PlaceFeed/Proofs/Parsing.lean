import PlaceFeed.Proofs.Tokens

/-!
# Reading values

A `Builder` stands for the tokens that were read: those of its open containers, from the outside
in, and then those of what is complete.  `Builder.step?` adds one token to them
(`Builder.tokens_step?`), so that a value that is read from some tokens has these tokens.
Conversely the tokens of a value lead to that value, inside any containers
(`Builder.foldlM_tokens`), by induction on the value.

With the scanner before it, **the reader accepts exactly the JSON texts** and gives their values
(`Json.parse?_eq_some_iff`).
-/

namespace PlaceFeed

namespace Json

/-! ### Induction on values -/

/-- A property of all values, when containers have it with their items and members. -/
theorem forall_of_parts {P : Json → Prop} (null : P .null) (bool : ∀ b, P (.bool b))
    (int : ∀ n, P (.int n)) (float : ∀ x, P (.float x)) (str : ∀ s, P (.str s))
    (arr : ∀ items, (∀ v ∈ items, P v) → P (.arr items))
    (obj : ∀ members, (∀ m ∈ members, P m.2) → P (.obj members)) (v : Json) : P v :=
  @Json.rec P (fun items => ∀ v ∈ items, P v) (fun members => ∀ m ∈ members, P m.2)
    (fun m => P m.2) null bool int float str arr obj (fun _ h => absurd h List.not_mem_nil)
    (fun _ _ hv hitems => List.forall_mem_cons.2 ⟨hv, hitems⟩)
    (fun _ h => absurd h List.not_mem_nil)
    (fun _ _ hm hmembers => List.forall_mem_cons.2 ⟨hm, hmembers⟩) (fun _ _ h => h) v

/-! ### The tokens of containers -/

theorem itemTokens_eq_map (items : List Json) : itemTokens items = items.map tokens := by
  induction items with
  | nil => rfl
  | cons v items ih => rw [itemTokens, ih, List.map_cons]

/-- The tokens of a member. -/
def tokensOfMember (m : Bytes × Json) : List Token := .value (.str m.1) :: .colon :: m.2.tokens

theorem memberTokens_eq_map (members : Members) :
    memberTokens members = members.map tokensOfMember := by
  induction members with
  | nil => rfl
  | cons m members ih => rw [memberTokens, ih, List.map_cons, tokensOfMember]

theorem tokens_arr (items : List Json) :
    (arr items).tokens = .leftBracket :: (separated (items.map tokens) ++ [.rightBracket]) := by
  rw [tokens, itemTokens_eq_map]

theorem tokens_obj (members : Members) :
    (obj members).tokens =
      .leftBrace :: (separated (members.map tokensOfMember) ++ [.rightBrace]) := by
  rw [tokens, memberTokens_eq_map]

/-- Some runs of tokens with a comma after each. -/
def terminated (runs : List (List Token)) : List Token := runs.flatMap (· ++ [.comma])

theorem separated_cons_cons (run next : List Token) (runs : List (List Token)) :
    separated (run :: next :: runs) = run ++ .comma :: separated (next :: runs) := by
  simp [separated]

theorem exists_separated_cons (run : List Token) (runs : List (List Token)) :
    ∃ ts, separated (run :: runs) = run ++ ts := by
  cases runs with
  | nil => exact ⟨[], by simp [separated]⟩
  | cons next runs => exact ⟨_, separated_cons_cons run next runs⟩

theorem separated_concat (runs : List (List Token)) (run : List Token) :
    separated (runs ++ [run]) = terminated runs ++ run := by
  induction runs with
  | nil => simp [separated, terminated]
  | cons first runs ih =>
    cases runs with
    | nil => simp [separated, terminated]
    | cons next runs =>
      rw [List.cons_append, List.cons_append, separated_cons_cons, ← List.cons_append, ih]
      simp [terminated]

/-- The value of the token, if it has one, holds no other values. -/
def Token.IsAtom (t : Token) : Prop := ∀ v, t = .value v → v.tokens = [.value v]

theorem Token.Spelling.isAtom {p : Bytes} {t : Token} (h : Spelling p t) : t.IsAtom := by
  cases h with
  | leftBrace | rightBrace | leftBracket | rightBracket | colon | comma => rintro v ⟨⟩
  | null | true | false | string => rintro v ⟨⟩; rfl
  | numeral h =>
    rintro v ⟨⟩
    cases h <;> rfl

theorem Lexes.isAtom {text : Bytes} {ts : List Token} (h : Lexes text ts) :
    ∀ t ∈ ts, t.IsAtom := by
  induction h with
  | spaces => exact List.forall_mem_nil _
  | cons _ hp _ ih => exact List.forall_mem_cons.2 ⟨hp.isAtom, ih⟩

/-- The tokens that have opened a container and filled it so far. -/
def Frame.tokens : Frame → List Token
  | .arr items => .leftBracket :: terminated (items.reverse.map Json.tokens)
  | .obj members key =>
    .leftBrace :: (terminated (members.reverse.map tokensOfMember) ++ [.value (.str key), .colon])

namespace Builder

/-- The tokens of some containers around a place. -/
def opened (around : List Frame) : List Token := around.reverse.flatMap Frame.tokens

theorem opened_cons (f : Frame) (around : List Frame) :
    opened (f :: around) = opened around ++ f.tokens := by
  simp [opened]

/-- The **tokens that were read**. -/
def tokens : Builder → List Token
  | .value around => opened around
  | .firstItem around => opened around ++ [.leftBracket]
  | .firstKey around => opened around ++ [.leftBrace]
  | .key members around =>
    opened around ++ .leftBrace :: terminated (members.reverse.map tokensOfMember)
  | .colon members k around =>
    opened around ++ .leftBrace :: (terminated (members.reverse.map tokensOfMember) ++
      [.value (.str k)])
  | .complete v around => opened around ++ v.tokens

/-! ### What is read has the tokens -/

theorem tokens_start? {around : List Frame} {t : Token} {b : Builder} (ht : t.IsAtom)
    (h : start? around t = some b) : b.tokens = opened around ++ [t] := by
  cases t with
  | value v =>
    obtain rfl := Option.some.inj h
    rw [tokens, ht v rfl]
  | leftBracket | leftBrace =>
    obtain rfl := Option.some.inj h
    rw [tokens]
  | rightBrace | rightBracket | colon | comma => cases h

/-- One token more. -/
theorem tokens_step? {b b' : Builder} {t : Token} (ht : t.IsAtom) (h : b.step? t = some b') :
    b'.tokens = b.tokens ++ [t] := by
  -- one case for each equation of the step, in its order
  unfold step? at h
  split at h
  · rw [tokens_start? ht h, tokens]
  · obtain rfl := Option.some.inj h
    rw [tokens, tokens, tokens_arr]
    simp [separated]
  · rw [tokens_start? ht h, tokens, opened_cons]
    rfl
  · obtain rfl := Option.some.inj h
    rw [tokens, tokens, tokens_obj]
    simp [separated]
  · obtain rfl := Option.some.inj h
    simp [tokens, terminated]
  · obtain rfl := Option.some.inj h
    simp [tokens]
  · obtain rfl := Option.some.inj h
    simp [tokens, opened_cons, Frame.tokens]
  · obtain rfl := Option.some.inj h
    simp [tokens, opened_cons, Frame.tokens, terminated]
  · obtain rfl := Option.some.inj h
    simp only [tokens, opened_cons, Frame.tokens, tokens_arr, List.reverse_cons, List.map_append,
      List.map_cons, List.map_nil, separated_concat]
    simp
  · obtain rfl := Option.some.inj h
    simp [tokens, opened_cons, Frame.tokens, terminated, tokensOfMember]
  · obtain rfl := Option.some.inj h
    simp only [tokens, opened_cons, Frame.tokens, tokens_obj, List.reverse_cons, List.map_append,
      List.map_cons, List.map_nil, separated_concat, tokensOfMember]
    simp
  · cases h

theorem tokens_foldlM {ts : List Token} {b b' : Builder} (hts : ∀ t ∈ ts, t.IsAtom)
    (h : ts.foldlM step? b = some b') : b'.tokens = b.tokens ++ ts := by
  induction ts generalizing b with
  | nil =>
    obtain rfl := Option.some.inj h
    rw [List.append_nil]
  | cons t ts ih =>
    obtain ⟨ht, hts⟩ := List.forall_mem_cons.1 hts
    obtain ⟨b₁, hb, hrest⟩ := foldlM_cons_eq_some.1 h
    rw [ih hts hrest, tokens_step? ht hb, List.append_assoc, List.singleton_append]

/-! ### The tokens of a value are read -/

/-- After a value there is no second one. -/
theorem step?_value_value {b b' : Builder} {v : Json} (h : b.step? (.value v) = some b')
    (w : Json) : b'.step? (.value w) = none := by
  have hcomplete : ∀ v around, step? (.complete v around) (.value w) = none := by
    intro v around
    rcases around with _ | ⟨_ | _, around⟩ <;> rfl
  cases b with
  | value around | firstItem around =>
    obtain rfl := Option.some.inj h
    exact hcomplete v _
  | firstKey around | key members around =>
    cases v with
    | str k =>
      obtain rfl := Option.some.inj h
      rfl
    | null | bool | int | float | arr | obj => cases h
  | colon members k around => cases h
  | complete u around =>
    rcases around with _ | ⟨_ | _, around⟩ <;> cases h

/-- Tokens that are read have no two values side by side. -/
theorem areApart_of_foldlM {ts : List Token} {b b' : Builder}
    (h : ts.foldlM step? b = some b') : AreApart ts := by
  induction ts generalizing b with
  | nil => exact .nil
  | cons t ts ih =>
    obtain ⟨b₁, ht, hrest⟩ := foldlM_cons_eq_some.1 h
    refine List.isChain_cons.2 ⟨?_, ih hrest⟩
    rintro u hu ⟨⟨v, rfl⟩, w, rfl⟩
    cases ts with
    | nil => cases hu
    | cons u ts =>
      obtain rfl := Option.some.inj hu
      obtain ⟨b₂, hw, -⟩ := foldlM_cons_eq_some.1 hrest
      rw [step?_value_value ht] at hw
      cases hw

/-- The first token of a value ends no array. -/
theorem exists_tokens_cons (v : Json) : ∃ t ts, v.tokens = t :: ts ∧ t ≠ .rightBracket := by
  cases v with
  | arr items => exact ⟨_, _, tokens_arr items, by rintro ⟨⟩⟩
  | obj members => exact ⟨_, _, tokens_obj members, by rintro ⟨⟩⟩
  | null | bool | int | float | str => exact ⟨_, _, rfl, by rintro ⟨⟩⟩

/-- The first item of an array is read like any other. -/
theorem foldlM_firstItem (v : Json) (ts : List Token) (around : List Frame) :
    (v.tokens ++ ts).foldlM step? (.firstItem around) =
      (v.tokens ++ ts).foldlM step? (.value (.arr [] :: around)) := by
  obtain ⟨t, us, htokens, ht⟩ := exists_tokens_cons v
  have hstep : step? (.firstItem around) t = step? (.value (.arr [] :: around)) t := by
    cases t with
    | rightBracket => exact absurd rfl ht
    | leftBrace | rightBrace | leftBracket | colon | comma | value => rfl
  rw [htokens, List.cons_append, List.foldlM_cons, List.foldlM_cons, hstep]

/-- The first key of an object is read like any other. -/
theorem foldlM_firstKey (m : Bytes × Json) (ts : List Token) (around : List Frame) :
    (tokensOfMember m ++ ts).foldlM step? (.firstKey around) =
      (tokensOfMember m ++ ts).foldlM step? (.key [] around) := by
  have hstep : step? (.firstKey around) (.value (.str m.1)) =
      step? (.key [] around) (.value (.str m.1)) := rfl
  rw [tokensOfMember, List.cons_append, List.foldlM_cons, List.foldlM_cons, hstep]

/-- The value is read to itself, whatever is around it. -/
def IsRead (v : Json) : Prop :=
  ∀ around, v.tokens.foldlM step? (.value around) = some (.complete v around)

theorem foldlM_items {v : Json} {items : List Json} (hv : IsRead v)
    (hitems : ∀ w ∈ items, IsRead w) (done : List Json) (around : List Frame) :
    (separated ((v :: items).map Json.tokens) ++ [Token.rightBracket]).foldlM step?
        (.value (.arr done :: around)) =
      some (.complete (.arr (done.reverse ++ v :: items)) around) := by
  induction items generalizing v done with
  | nil =>
    rw [List.map_cons, List.map_nil, ← List.nil_append [v.tokens], separated_concat,
      terminated, List.flatMap_nil, List.nil_append, foldlM_append_of_eq (hv _),
      ← List.reverse_cons]
    exact foldlM_cons_of_eq rfl
  | cons w items ih =>
    obtain ⟨hw, hitems⟩ := List.forall_mem_cons.1 hitems
    rw [List.map_cons, List.map_cons, separated_cons_cons, List.append_assoc,
      foldlM_append_of_eq (hv _), List.cons_append,
      foldlM_cons_of_eq (y := .value (.arr (v :: done) :: around)) rfl, ← List.map_cons,
      ih hw hitems, List.reverse_cons, List.append_assoc, List.singleton_append]

theorem foldlM_tokensOfMember {m : Bytes × Json} (hm : IsRead m.2) (done : Members)
    (around : List Frame) :
    (tokensOfMember m).foldlM step? (.key done around) =
      some (.complete m.2 (.obj done m.1 :: around)) := by
  rw [tokensOfMember, foldlM_cons_of_eq (y := .colon done m.1 around) rfl,
    foldlM_cons_of_eq (y := .value (.obj done m.1 :: around)) rfl, hm]

theorem foldlM_members {m : Bytes × Json} {members : Members} (hm : IsRead m.2)
    (hmembers : ∀ w ∈ members, IsRead w.2) (done : Members) (around : List Frame) :
    (separated ((m :: members).map tokensOfMember) ++ [Token.rightBrace]).foldlM step?
        (.key done around) =
      some (.complete (.obj (done.reverse ++ m :: members)) around) := by
  induction members generalizing m done with
  | nil =>
    rw [List.map_cons, List.map_nil, ← List.nil_append [tokensOfMember m], separated_concat,
      terminated, List.flatMap_nil, List.nil_append,
      foldlM_append_of_eq (foldlM_tokensOfMember hm done around), ← List.reverse_cons]
    exact foldlM_cons_of_eq rfl
  | cons w members ih =>
    obtain ⟨hw, hmembers⟩ := List.forall_mem_cons.1 hmembers
    rw [List.map_cons, List.map_cons, separated_cons_cons, List.append_assoc,
      foldlM_append_of_eq (foldlM_tokensOfMember hm done around), List.cons_append,
      foldlM_cons_of_eq (y := .key (m :: done) around) rfl, ← List.map_cons,
      ih hw hmembers, List.reverse_cons, List.append_assoc, List.singleton_append]

/-- The tokens of a value lead to it. -/
theorem foldlM_tokens (v : Json) : IsRead v := by
  induction v using forall_of_parts with
  | null | bool | int | float | str =>
    intro around
    rfl
  | arr items ih =>
    intro around
    rw [tokens_arr, foldlM_cons_of_eq (y := .firstItem around) rfl]
    cases items with
    | nil => rfl
    | cons v items =>
      obtain ⟨hv, hitems⟩ := List.forall_mem_cons.1 ih
      have hread := foldlM_items hv hitems [] around
      obtain ⟨ts, hts⟩ := exists_separated_cons v.tokens (items.map Json.tokens)
      rw [List.map_cons, hts, List.append_assoc] at hread ⊢
      rw [foldlM_firstItem, hread, List.reverse_nil, List.nil_append]
  | obj members ih =>
    intro around
    rw [tokens_obj, foldlM_cons_of_eq (y := .firstKey around) rfl]
    cases members with
    | nil => rfl
    | cons m members =>
      obtain ⟨hm, hmembers⟩ := List.forall_mem_cons.1 ih
      have hread := foldlM_members hm hmembers [] around
      obtain ⟨ts, hts⟩ := exists_separated_cons (tokensOfMember m) (members.map tokensOfMember)
      rw [List.map_cons, hts, List.append_assoc] at hread ⊢
      rw [foldlM_firstKey, hread, List.reverse_nil, List.nil_append]

end Builder

/-- **The tokens of a value, and no others, have it as their value.** -/
theorem ofTokens?_eq_some_iff {ts : List Token} (hts : ∀ t ∈ ts, t.IsAtom) {v : Json} :
    ofTokens? ts = some v ↔ v.tokens = ts := by
  unfold ofTokens?
  constructor
  · intro h
    obtain ⟨b, hb, hfinish⟩ := Option.bind_eq_some_iff.1 h
    have htokens := Builder.tokens_foldlM hts hb
    unfold Builder.finish? at hfinish
    split at hfinish
    · obtain rfl := Option.some.inj hfinish
      exact htokens
    · cases hfinish
  · rintro rfl
    rw [Builder.foldlM_tokens v, Option.bind_some, Builder.finish?]

/-- **The reader accepts exactly the JSON texts**, and gives their values. -/
theorem parse?_eq_some_iff {text : Bytes} {v : Json} : parse? text = some v ↔ IsText text v := by
  unfold parse? IsText
  constructor
  · intro h
    obtain ⟨ts, hts, hv⟩ := Option.bind_eq_some_iff.1 h
    have hlexes := Token.lexes_of_scan? hts
    rw [ofTokens?_eq_some_iff hlexes.isAtom] at hv
    rwa [hv]
  · intro h
    have hapart := Builder.areApart_of_foldlM (Builder.foldlM_tokens v [])
    rw [Token.scan?_of_lexes h hapart, Option.bind_some, ofTokens?_eq_some_iff h.isAtom]

/-- A text has one value. -/
theorem IsText.unique {text : Bytes} {v w : Json} (hv : IsText text v) (hw : IsText text w) :
    v = w := by
  rw [← parse?_eq_some_iff] at hv hw
  exact Option.some.inj (hv.symm.trans hw)

end Json

end PlaceFeed
