import PlaceFeed.Proofs.Grammar
import PlaceFeed.Proofs.NearestNumbers

/-!
# Reading numerals

A numeral is read byte by byte by an automaton with eight states.  For each state there is one lemma
that says what the rest of the bytes are when the reading ends well, and each rests on those of the
states that can follow.

* `Numeral.read?_bytes` : a written numeral is read, to what its parts say;
* `Numeral.exists_literal` : **what is read to a value is a written numeral**;
* `Literal.value?_eq_some_iff` : and the value is the one that the numeral means.
-/

namespace PlaceFeed

/-! ### Folds that may fail -/

section Folds

variable {α β : Type} {f : β → α → Option β} {x y z : β} {a : α} {l l₁ l₂ : List α}

theorem foldlM_cons_of_eq (h : f x a = some y) : (a :: l).foldlM f x = l.foldlM f y := by
  rw [List.foldlM_cons, h]
  rfl

theorem foldlM_cons_eq_some :
    (a :: l).foldlM f x = some z ↔ ∃ y, f x a = some y ∧ l.foldlM f y = some z := by
  rw [List.foldlM_cons]
  exact Option.bind_eq_some_iff

theorem foldlM_append_of_eq (h : l₁.foldlM f x = some y) :
    (l₁ ++ l₂).foldlM f x = l₂.foldlM f y := by
  rw [List.foldlM_append, h]
  rfl

end Folds

namespace Json

/-! ### Digits -/

theorem digit?_digitByte (d : Fin 10) : Ascii.digit? (digitByte d) = some d.val := by
  revert d
  decide

theorem exists_digitByte {b : UInt8} {n : Nat} (h : Ascii.digit? b = some n) :
    ∃ d : Fin 10, b = digitByte d ∧ n = d.val := by
  unfold Ascii.digit? at h
  split at h
  · next hb =>
    simp only [UInt8.le_iff_toNat_le, UInt8.reduceToNat] at hb
    have hn := Option.some.inj h
    refine ⟨⟨n, by omega⟩, ?_, rfl⟩
    apply UInt8.toNat_inj.1
    simp only [digitByte, UInt8.toNat_ofNat']
    omega
  · cases h

@[simp] theorem digitByte_ne_point (d : Fin 10) : digitByte d ≠ Ascii.point := by
  revert d
  decide

@[simp] theorem digitByte_ne_plus (d : Fin 10) : digitByte d ≠ Ascii.plus := by
  revert d
  decide

@[simp] theorem digitByte_ne_minus (d : Fin 10) : digitByte d ≠ Ascii.minus := by
  revert d
  decide

@[simp] theorem isExponentMark_digitByte (d : Fin 10) :
    Numeral.isExponentMark (digitByte d) = false := by
  revert d
  decide

theorem digitByte_eq_zero_iff {d : Fin 10} : digitByte d = Ascii.zero ↔ d = 0 := by
  revert d
  decide

theorem appendDigits_cons (n : Nat) (d : Fin 10) (ds : List (Fin 10)) :
    appendDigits n (d :: ds) = appendDigits (n * 10 + d) ds := rfl

namespace Numeral

/-! ### Parts of a numeral -/

/-- The numeral with a fraction after it, if there is one. -/
def addFraction (n : Numeral) : Option Digits → Numeral
  | none => n
  | some ds => { n with
      part := .fraction, digits := appendDigits n.digits ds.toList, places := ds.toList.length }

/-- The numeral with an exponent after it, if there is one. -/
def addExponent (n : Numeral) : Option Exponent → Numeral
  | none => n
  | some e => { n with
      part := .exponent, exponentNegative := decide (e.sign = .minus), exponent := e.digits.value }

/-- The numeral with these digits and nothing after them. -/
def ofWhole (negative : Bool) (ds : Digits) : Numeral :=
  ⟨if ds.first = 0 then .zero else .whole, negative, ds.value, 0, false, 0⟩

/-- The numeral that a written one is read to. -/
def ofLiteral (l : Literal) : Numeral :=
  ((ofWhole l.negative l.whole).addFraction l.fraction).addExponent l.exponent

/-- The numeral of some bytes. -/
def read? : Bytes → Option Numeral
  | [] => none
  | b :: s => (start? b).bind (s.foldlM extend?)

/-- The numeral may end where it ends. -/
def IsComplete (n : Numeral) : Prop :=
  n.part = .zero ∨ n.part = .whole ∨ n.part = .fraction ∨ n.part = .exponent

theorem isComplete_of_value? {n : Numeral} {v : Json} (h : n.value? = some v) : n.IsComplete := by
  unfold value? at h
  unfold IsComplete
  split at h <;> simp_all

variable {negative exponentNegative : Bool} {digits places exponent : Nat} {m : Numeral} {s : Bytes}

/-! ### Reading what is written -/

theorem foldlM_whole (ds : List (Fin 10)) :
    (ds.map digitByte).foldlM extend? ⟨.whole, negative, digits, places, exponentNegative, exponent⟩
      = some ⟨.whole, negative, appendDigits digits ds, places, exponentNegative, exponent⟩ := by
  induction ds generalizing digits with
  | nil => rfl
  | cons d ds ih =>
    rw [List.map_cons, foldlM_cons_of_eq (y := ⟨.whole, negative, digits * 10 + d, places,
      exponentNegative, exponent⟩) (by simp [extend?, digit?_digitByte]), ih]
    rfl

theorem foldlM_fraction (ds : List (Fin 10)) :
    (ds.map digitByte).foldlM extend?
        ⟨.fraction, negative, digits, places, exponentNegative, exponent⟩ =
      some ⟨.fraction, negative, appendDigits digits ds, places + ds.length, exponentNegative,
        exponent⟩ := by
  induction ds generalizing digits places with
  | nil => rfl
  | cons d ds ih =>
    rw [List.map_cons, foldlM_cons_of_eq (y := ⟨.fraction, negative, digits * 10 + d, places + 1,
      exponentNegative, exponent⟩) (by simp [extend?, digit?_digitByte]), ih]
    simp only [appendDigits_cons, List.length_cons, Nat.add_assoc, Nat.add_comm 1]

theorem foldlM_exponent (ds : List (Fin 10)) :
    (ds.map digitByte).foldlM extend?
        ⟨.exponent, negative, digits, places, exponentNegative, exponent⟩ =
      some ⟨.exponent, negative, digits, places, exponentNegative, appendDigits exponent ds⟩ := by
  induction ds generalizing exponent with
  | nil => rfl
  | cons d ds ih =>
    rw [List.map_cons, foldlM_cons_of_eq (y := ⟨.exponent, negative, digits, places,
      exponentNegative, exponent * 10 + d⟩) (by simp [extend?, digit?_digitByte]), ih]
    rfl

theorem extend?_point {part : Part} (hpart : part = .zero ∨ part = .whole) :
    extend? ⟨part, negative, digits, places, exponentNegative, exponent⟩ Ascii.point =
      some ⟨.point, negative, digits, places, exponentNegative, exponent⟩ := by
  obtain rfl | rfl := hpart <;> rfl

theorem extend?_exponentMark {part : Part} (hpart : part = .zero ∨ part = .whole ∨ part = .fraction)
    {b : UInt8} (hb : isExponentMark b = true) :
    extend? ⟨part, negative, digits, places, exponentNegative, exponent⟩ b =
      some ⟨.exponentMark, negative, digits, places, exponentNegative, exponent⟩ := by
  have hpoint : b ≠ Ascii.point := by
    rintro rfl
    cases hb
  obtain rfl | rfl | rfl := hpart <;> simp [extend?, hb, hpoint]

theorem foldlM_addFraction {part : Part} (hpart : part = .zero ∨ part = .whole)
    (fraction : Option Digits) :
    (fraction.elim [] fun ds => Ascii.point :: ds.bytes).foldlM extend?
        ⟨part, negative, digits, 0, false, 0⟩ =
      some ((⟨part, negative, digits, 0, false, 0⟩ : Numeral).addFraction fraction) := by
  cases fraction with
  | none => rfl
  | some ds =>
    rw [Option.elim_some, foldlM_cons_of_eq (extend?_point hpart), Digits.bytes, Digits.toList,
      List.map_cons, foldlM_cons_of_eq (y := ⟨.fraction, negative, digits * 10 + ds.first, 1, false,
      0⟩) (by simp [extend?, digit?_digitByte]), foldlM_fraction]
    simp [addFraction, Digits.toList, appendDigits_cons, Nat.add_comm]

/-- The digits of an exponent, after its mark or its sign. -/
theorem foldlM_exponentDigits {part : Part} (hpart : part = .exponentMark ∨ part = .exponentSign)
    (ds : Digits) :
    ds.bytes.foldlM extend? ⟨part, negative, digits, places, exponentNegative, exponent⟩ =
      some ⟨.exponent, negative, digits, places, exponentNegative, ds.value⟩ := by
  have hfirst : extend? ⟨part, negative, digits, places, exponentNegative, exponent⟩
      (digitByte ds.first) =
        some ⟨.exponent, negative, digits, places, exponentNegative, ds.first⟩ := by
    obtain rfl | rfl := hpart <;> simp [extend?, digit?_digitByte]
  rw [Digits.bytes, Digits.toList, List.map_cons, foldlM_cons_of_eq hfirst, foldlM_exponent]
  simp [Digits.value, Digits.toList, appendDigits_cons]

theorem foldlM_addExponent {part : Part} (hpart : part = .zero ∨ part = .whole ∨ part = .fraction)
    (e : Option Exponent) :
    (e.elim [] Exponent.bytes).foldlM extend? ⟨part, negative, digits, places, false, 0⟩ =
      some ((⟨part, negative, digits, places, false, 0⟩ : Numeral).addExponent e) := by
  cases e with
  | none => rfl
  | some e =>
    obtain ⟨upper, sign, ds⟩ := e
    have hmark : isExponentMark (if upper then 0x45 else 0x65) = true := by
      cases upper <;> rfl
    rw [Option.elim_some, Exponent.bytes, foldlM_cons_of_eq (extend?_exponentMark hpart hmark)]
    cases sign with
    | absent => exact foldlM_exponentDigits (.inl rfl) ds
    | plus =>
      rw [ExponentSign.bytes, List.singleton_append,
        foldlM_cons_of_eq (y := ⟨.exponentSign, negative, digits, places, false, 0⟩) rfl]
      exact foldlM_exponentDigits (.inr rfl) ds
    | minus =>
      rw [ExponentSign.bytes, List.singleton_append,
        foldlM_cons_of_eq (y := ⟨.exponentSign, negative, digits, places, true, 0⟩) rfl]
      exact foldlM_exponentDigits (.inr rfl) ds

/-- The numeral with one digit. -/
def ofDigit (negative : Bool) (d : Fin 10) : Numeral :=
  ⟨if d = 0 then .zero else .whole, negative, d, 0, false, 0⟩

theorem start?_digitByte (d : Fin 10) : start? (digitByte d) = some (ofDigit false d) := by
  by_cases h : d = 0
  · subst h
    rfl
  · simp [start?, ofDigit, h, digitByte_eq_zero_iff, digit?_digitByte]

theorem extend?_sign_digitByte (d : Fin 10) :
    extend? ⟨.sign, negative, 0, 0, false, 0⟩ (digitByte d) = some (ofDigit negative d) := by
  by_cases h : d = 0
  · subst h
    rfl
  · simp [extend?, ofDigit, h, digitByte_eq_zero_iff, digit?_digitByte]

theorem foldlM_ofDigit (negative : Bool) {ds : Digits} (hzero : ds.first = 0 → ds.rest = []) :
    (ds.rest.map digitByte).foldlM extend? (ofDigit negative ds.first) =
      some (ofWhole negative ds) := by
  by_cases h : ds.first = 0
  · simp [hzero h, ofDigit, ofWhole, h, Digits.value, Digits.toList, appendDigits]
  · rw [ofDigit, if_neg h, foldlM_whole]
    simp [ofWhole, h, Digits.value, Digits.toList, appendDigits_cons]

/-- The digits before the point, with the sign before them. -/
theorem read?_whole (l : Literal) (s : Bytes) :
    read? ((if l.negative then [Ascii.minus] else []) ++ (l.whole.bytes ++ s)) =
      s.foldlM extend? (ofWhole l.negative l.whole) := by
  have hrest := fun negative => foldlM_ofDigit negative l.no_leading_zero
  rw [Digits.bytes, Digits.toList, List.map_cons, List.cons_append]
  cases l.negative with
  | false =>
    rw [if_neg Bool.false_ne_true, List.nil_append, read?, start?_digitByte, Option.bind_some]
    exact foldlM_append_of_eq (hrest false)
  | true =>
    rw [if_pos rfl, List.singleton_append, read?]
    change List.foldlM extend? ⟨.sign, true, 0, 0, false, 0⟩ _ = _
    rw [foldlM_cons_of_eq (extend?_sign_digitByte _)]
    exact foldlM_append_of_eq (hrest true)

theorem read?_bytes (l : Literal) : read? l.bytes = some (ofLiteral l) := by
  have hwhole : (if l.whole.first = 0 then Part.zero else .whole) = .zero ∨
      (if l.whole.first = 0 then Part.zero else .whole) = .whole := by
    split
    · exact .inl rfl
    · exact .inr rfl
  rw [Literal.bytes, read?_whole, ofLiteral, ofWhole,
    foldlM_append_of_eq (foldlM_addFraction hwhole _)]
  cases l.fraction with
  | none => exact foldlM_addExponent (hwhole.imp_right .inl) _
  | some ds => exact foldlM_addExponent (.inr (.inr rfl)) _

/-! ### What is read is written -/

theorem exists_digits_of_exponent
    (h : s.foldlM extend? ⟨.exponent, negative, digits, places, exponentNegative, exponent⟩ =
      some m) :
    ∃ ds : List (Fin 10), s = ds.map digitByte ∧
      m = ⟨.exponent, negative, digits, places, exponentNegative, appendDigits exponent ds⟩ := by
  induction s generalizing exponent with
  | nil => exact ⟨[], rfl, (Option.some.inj h).symm⟩
  | cons b s ih =>
    obtain ⟨n, hb, h⟩ := foldlM_cons_eq_some.1 h
    obtain ⟨k, hk, rfl⟩ := Option.map_eq_some_iff.1 hb
    obtain ⟨d, rfl, rfl⟩ := exists_digitByte hk
    obtain ⟨ds, rfl, rfl⟩ := ih h
    exact ⟨d :: ds, rfl, rfl⟩

/-- After the first digit of an exponent. -/
theorem exists_digits_of_first {b : UInt8} {n : Numeral}
    (hb : (Ascii.digit? b).map
      (fun d => (⟨.exponent, negative, digits, places, exponentNegative, d⟩ : Numeral)) = some n)
    (h : s.foldlM extend? n = some m) :
    ∃ ds : Digits, b :: s = ds.bytes ∧
      m = ⟨.exponent, negative, digits, places, exponentNegative, ds.value⟩ := by
  obtain ⟨k, hk, rfl⟩ := Option.map_eq_some_iff.1 hb
  obtain ⟨d, rfl, rfl⟩ := exists_digitByte hk
  obtain ⟨ds, rfl, rfl⟩ := exists_digits_of_exponent h
  refine ⟨⟨d, ds⟩, rfl, ?_⟩
  simp [Digits.value, Digits.toList, appendDigits_cons]

theorem exists_digits_of_exponentSign
    (h : s.foldlM extend? ⟨.exponentSign, negative, digits, places, exponentNegative, exponent⟩ =
      some m) (hm : m.IsComplete) :
    ∃ ds : Digits, s = ds.bytes ∧
      m = ⟨.exponent, negative, digits, places, exponentNegative, ds.value⟩ := by
  cases s with
  | nil =>
    obtain rfl := Option.some.inj h
    simp [IsComplete] at hm
  | cons b s =>
    obtain ⟨n, hb, h⟩ := foldlM_cons_eq_some.1 h
    exact exists_digits_of_first hb h

theorem exists_exponent_of_mark
    (h : s.foldlM extend? ⟨.exponentMark, negative, digits, places, false, exponent⟩ = some m)
    (hm : m.IsComplete) :
    ∃ (sign : ExponentSign) (ds : Digits), s = sign.bytes ++ ds.bytes ∧
      m = ⟨.exponent, negative, digits, places, decide (sign = .minus), ds.value⟩ := by
  cases s with
  | nil =>
    obtain rfl := Option.some.inj h
    simp [IsComplete] at hm
  | cons b s =>
    obtain ⟨n, hb, h⟩ := foldlM_cons_eq_some.1 h
    simp only [extend?] at hb
    split at hb
    · next hplus =>
      obtain rfl := Option.some.inj hb
      obtain ⟨ds, rfl, rfl⟩ := exists_digits_of_exponentSign h hm
      exact ⟨.plus, ds, by rw [hplus]; rfl, rfl⟩
    · split at hb
      · next hminus =>
        obtain rfl := Option.some.inj hb
        obtain ⟨ds, rfl, rfl⟩ := exists_digits_of_exponentSign h hm
        exact ⟨.minus, ds, by rw [hminus]; rfl, rfl⟩
      · obtain ⟨ds, hds, rfl⟩ := exists_digits_of_first hb h
        exact ⟨.absent, ds, hds, rfl⟩

/-- From the mark of an exponent to the end. -/
theorem exists_exponent {b : UInt8} (hb : isExponentMark b = true)
    (h : s.foldlM extend? ⟨.exponentMark, negative, digits, places, false, 0⟩ = some m)
    (hm : m.IsComplete) (part : Part) :
    ∃ e : Exponent, b :: s = e.bytes ∧
      m = (⟨part, negative, digits, places, false, 0⟩ : Numeral).addExponent (some e) := by
  obtain ⟨sign, ds, rfl, rfl⟩ := exists_exponent_of_mark h hm
  refine ⟨⟨b == 0x45, sign, ds⟩, ?_, rfl⟩
  simp only [isExponentMark, Bool.or_eq_true, beq_iff_eq] at hb
  obtain rfl | rfl := hb <;> rfl

/-- From a digit of the fraction to the end. -/
theorem exists_of_fraction
    (h : s.foldlM extend? ⟨.fraction, negative, digits, places, false, 0⟩ = some m)
    (hm : m.IsComplete) :
    ∃ (ds : List (Fin 10)) (e : Option Exponent),
      s = ds.map digitByte ++ e.elim [] Exponent.bytes ∧
        m = (⟨.fraction, negative, appendDigits digits ds, places + ds.length, false, 0⟩ :
          Numeral).addExponent e := by
  induction s generalizing digits places with
  | nil => exact ⟨[], none, rfl, (Option.some.inj h).symm⟩
  | cons b s ih =>
    obtain ⟨n, hb, h⟩ := foldlM_cons_eq_some.1 h
    simp only [extend?] at hb
    split at hb
    · next hmark =>
      obtain rfl := Option.some.inj hb
      obtain ⟨e, he, rfl⟩ := exists_exponent hmark h hm .fraction
      exact ⟨[], some e, he, rfl⟩
    · obtain ⟨k, hk, rfl⟩ := Option.map_eq_some_iff.1 hb
      obtain ⟨d, rfl, rfl⟩ := exists_digitByte hk
      obtain ⟨ds, e, rfl, rfl⟩ := ih h
      refine ⟨d :: ds, e, rfl, ?_⟩
      rw [appendDigits_cons, List.length_cons, Nat.add_assoc, Nat.add_comm 1]

/-- From the point to the end. -/
theorem exists_of_point
    (h : s.foldlM extend? ⟨.point, negative, digits, 0, false, 0⟩ = some m) (hm : m.IsComplete)
    (part : Part) :
    ∃ (ds : Digits) (e : Option Exponent), s = ds.bytes ++ e.elim [] Exponent.bytes ∧
      m = ((⟨part, negative, digits, 0, false, 0⟩ : Numeral).addFraction
        (some ds)).addExponent e := by
  cases s with
  | nil =>
    obtain rfl := Option.some.inj h
    simp [IsComplete] at hm
  | cons b s =>
    obtain ⟨n, hb, h⟩ := foldlM_cons_eq_some.1 h
    obtain ⟨k, hk, rfl⟩ := Option.map_eq_some_iff.1 hb
    obtain ⟨d, rfl, rfl⟩ := exists_digitByte hk
    obtain ⟨ds, e, rfl, rfl⟩ := exists_of_fraction h hm
    refine ⟨⟨d, ds⟩, e, rfl, ?_⟩
    simp [addFraction, Digits.toList, appendDigits_cons, Nat.add_comm]

/-- From the end of the digits before the point, when the next byte is none of them. -/
theorem exists_of_tail (part : Part) {b : UInt8} {n : Numeral}
    (hb : (if b = Ascii.point then some ⟨.point, negative, digits, 0, false, 0⟩
      else if isExponentMark b then some ⟨.exponentMark, negative, digits, 0, false, 0⟩
      else none) = some n)
    (h : s.foldlM extend? n = some m) (hm : m.IsComplete) :
    ∃ (fraction : Option Digits) (e : Option Exponent),
      b :: s = fraction.elim [] (fun ds => Ascii.point :: ds.bytes) ++ e.elim [] Exponent.bytes ∧
        m = ((⟨part, negative, digits, 0, false, 0⟩ : Numeral).addFraction
          fraction).addExponent e := by
  split at hb
  · next hpoint =>
    obtain rfl := Option.some.inj hb
    obtain ⟨ds, e, rfl, rfl⟩ := exists_of_point h hm part
    exact ⟨some ds, e, by rw [hpoint]; rfl, rfl⟩
  · split at hb
    · next hmark =>
      obtain rfl := Option.some.inj hb
      obtain ⟨e, he, rfl⟩ := exists_exponent hmark h hm part
      exact ⟨none, some e, he, rfl⟩
    · cases hb

/-- From a digit before the point to the end. -/
theorem exists_of_whole
    (h : s.foldlM extend? ⟨.whole, negative, digits, 0, false, 0⟩ = some m) (hm : m.IsComplete) :
    ∃ (ds : List (Fin 10)) (fraction : Option Digits) (e : Option Exponent),
      s = ds.map digitByte ++ (fraction.elim [] (fun ds => Ascii.point :: ds.bytes) ++
        e.elim [] Exponent.bytes) ∧
        m = ((⟨.whole, negative, appendDigits digits ds, 0, false, 0⟩ : Numeral).addFraction
          fraction).addExponent e := by
  induction s generalizing digits with
  | nil => exact ⟨[], none, none, rfl, (Option.some.inj h).symm⟩
  | cons b s ih =>
    obtain ⟨n, hb, h⟩ := foldlM_cons_eq_some.1 h
    cases hd : Ascii.digit? b with
    | none =>
      simp only [extend?, hd, Option.map_none] at hb
      obtain ⟨fraction, e, hs, rfl⟩ := exists_of_tail .whole hb h hm
      exact ⟨[], fraction, e, hs, rfl⟩
    | some k =>
      obtain ⟨d, rfl, rfl⟩ := exists_digitByte hd
      simp only [extend?, digitByte_ne_point, isExponentMark_digitByte, digit?_digitByte,
        if_false, Bool.false_eq_true, Option.map_some, Option.some.injEq] at hb
      subst hb
      obtain ⟨ds, fraction, e, rfl, rfl⟩ := ih h
      exact ⟨d :: ds, fraction, e, rfl, rfl⟩

/-- From the first digit to the end. -/
theorem exists_of_ofDigit {d : Fin 10} (h : s.foldlM extend? (ofDigit negative d) = some m)
    (hm : m.IsComplete) : ∃ l : Literal, m = ofLiteral l ∧
      l.bytes = (if negative then [Ascii.minus] else []) ++ digitByte d :: s := by
  by_cases hd : d = 0
  · subst hd
    have htail : ∃ (fraction : Option Digits) (e : Option Exponent),
        s = fraction.elim [] (fun ds => Ascii.point :: ds.bytes) ++ e.elim [] Exponent.bytes ∧
          m = ((⟨.zero, negative, 0, 0, false, 0⟩ : Numeral).addFraction
            fraction).addExponent e := by
      cases s with
      | nil => exact ⟨none, none, rfl, (Option.some.inj h).symm⟩
      | cons b s =>
        obtain ⟨n, hb, h⟩ := foldlM_cons_eq_some.1 h
        exact exists_of_tail .zero hb h hm
    obtain ⟨fraction, e, rfl, rfl⟩ := htail
    exact ⟨⟨negative, ⟨0, []⟩, fraction, e, fun _ => rfl⟩, rfl, rfl⟩
  · rw [ofDigit, if_neg hd] at h
    obtain ⟨ds, fraction, e, rfl, rfl⟩ := exists_of_whole h hm
    refine ⟨⟨negative, ⟨d, ds⟩, fraction, e, fun h => absurd h hd⟩, ?_, rfl⟩
    simp [ofLiteral, ofWhole, hd, Digits.value, Digits.toList, appendDigits_cons]

theorem exists_of_extend?_sign {b : UInt8} {n : Numeral}
    (h : extend? ⟨.sign, negative, 0, 0, false, 0⟩ b = some n) :
    ∃ d, b = digitByte d ∧ n = ofDigit negative d := by
  simp only [extend?] at h
  split at h
  · next hb => exact ⟨0, hb, (Option.some.inj h).symm⟩
  · next hb =>
    obtain ⟨k, hk, rfl⟩ := Option.map_eq_some_iff.1 h
    obtain ⟨d, rfl, rfl⟩ := exists_digitByte hk
    rw [digitByte_eq_zero_iff] at hb
    exact ⟨d, rfl, by simp [ofDigit, hb]⟩

theorem exists_of_start? {b : UInt8} {n : Numeral} (h : start? b = some n) :
    (b = Ascii.minus ∧ n = ⟨.sign, true, 0, 0, false, 0⟩) ∨
      ∃ d, b = digitByte d ∧ n = ofDigit false d := by
  unfold start? at h
  split at h
  · next hb => exact .inl ⟨hb, (Option.some.inj h).symm⟩
  · exact .inr (exists_of_extend?_sign h)

/-- **A numeral that is read, and may end, is a written one.** -/
theorem exists_literal {n : Numeral} (h : read? s = some n) (hn : n.IsComplete) :
    ∃ l : Literal, n = ofLiteral l ∧ l.bytes = s := by
  cases s with
  | nil => cases h
  | cons b s =>
    obtain ⟨n₁, hb, h⟩ := Option.bind_eq_some_iff.1 h
    obtain ⟨rfl, rfl⟩ | ⟨d, rfl, rfl⟩ := exists_of_start? hb
    · cases s with
      | nil =>
        obtain rfl := Option.some.inj h
        simp [IsComplete] at hn
      | cons b s =>
        obtain ⟨n₂, hb, h⟩ := foldlM_cons_eq_some.1 h
        obtain ⟨d, rfl, rfl⟩ := exists_of_extend?_sign hb
        exact exists_of_ofDigit h hn
    · exact exists_of_ofDigit h hn

/-! ### Values -/

theorem scale_ofLiteral (l : Literal) : (ofLiteral l).scale = l.scale := by
  obtain ⟨negative, whole, fraction, exponent, hzero⟩ := l
  cases fraction <;> cases exponent <;>
    simp [scale, ofLiteral, addFraction, addExponent, ofWhole, Literal.scale, Exponent.value]

theorem negative_ofLiteral (l : Literal) : (ofLiteral l).negative = l.negative := by
  obtain ⟨negative, whole, fraction, exponent, hzero⟩ := l
  cases fraction <;> cases exponent <;> rfl

theorem digits_ofLiteral (l : Literal) : (ofLiteral l).digits = l.digits := by
  obtain ⟨negative, whole, fraction, exponent, hzero⟩ := l
  cases fraction <;> cases exponent <;> rfl

theorem float?_ofLiteral (l : Literal) :
    (ofLiteral l).float? = (Binary64.ofDecimal? l.negative l.digits l.scale).map .float := by
  rw [float?, negative_ofLiteral, digits_ofLiteral, scale_ofLiteral]

/-- What a written integer is read to. -/
theorem int?_ofLiteral (l : Literal) :
    (ofLiteral l).int? =
      if -0x8000000000000000 ≤ l.int ∧ l.int < 0x10000000000000000 then some (.int l.int)
      else (ofLiteral l).float? := by
  rw [int?, negative_ofLiteral, digits_ofLiteral, Literal.int]
  cases l.negative with
  | true =>
    have h : l.digits ≤ 0x8000000000000000 ↔
        -0x8000000000000000 ≤ -(l.digits : Int) ∧ -(l.digits : Int) < 0x10000000000000000 := by
      omega
    simp only [if_true, h]
  | false =>
    have h : l.digits < 0x10000000000000000 ↔
        -0x8000000000000000 ≤ (l.digits : Int) ∧ (l.digits : Int) < 0x10000000000000000 := by
      omega
    simp only [Bool.false_eq_true, if_false, h]

theorem value?_ofLiteral (l : Literal) :
    (ofLiteral l).value? =
      if l.isInteger = true then (ofLiteral l).int? else (ofLiteral l).float? := by
  cases hint : l.isInteger with
  | true =>
    have hpart : (ofLiteral l).part = .zero ∨ (ofLiteral l).part = .whole := by
      rw [Literal.isInteger, Bool.and_eq_true, Option.isNone_iff_eq_none,
        Option.isNone_iff_eq_none] at hint
      rw [ofLiteral, hint.1, hint.2]
      simp only [addFraction, addExponent, ofWhole]
      split
      · exact .inl rfl
      · exact .inr rfl
    rw [value?, if_pos rfl]
    obtain h | h := hpart <;> rw [h]
  | false =>
    have hpart : (ofLiteral l).part = .fraction ∨ (ofLiteral l).part = .exponent := by
      obtain ⟨negative, whole, fraction, exponent, hzero⟩ := l
      cases fraction <;> cases exponent <;> simp_all [Literal.isInteger, ofLiteral, addFraction,
        addExponent]
    rw [value?, if_neg Bool.false_ne_true]
    obtain h | h := hpart <;> rw [h]

end Numeral

namespace Literal

variable {l : Literal} {v : Json}

theorem abs_number (l : Literal) : |l.number| = l.digits * 10 ^ l.scale :=
  Binary64.abs_signed (by positivity) l.negative

theorem ofDecimal?_eq_some_iff {x : Binary64} :
    Binary64.ofDecimal? l.negative l.digits l.scale = some x ↔
      x.isNegative = l.negative ∧ |l.number| < Binary64.overflow ∧ x.IsNearest l.number := by
  rw [Binary64.ofDecimal?_eq_some_iff, abs_number, number]

theorem float?_eq_some_iff (h : ¬l.IsInt) : (Numeral.ofLiteral l).float? = some v ↔ l.Means v := by
  rw [Numeral.float?_ofLiteral, Option.map_eq_some_iff]
  simp only [ofDecimal?_eq_some_iff]
  constructor
  · rintro ⟨x, ⟨hsign, hlt, hx⟩, rfl⟩
    exact .float h hsign hlt hx
  · rintro (hint | ⟨-, hsign, hlt, hx⟩)
    · exact absurd hint h
    · exact ⟨_, ⟨hsign, hlt, hx⟩, rfl⟩

/-- A written numeral is read to **what it means**, and to nothing when it means nothing. -/
theorem value?_eq_some_iff : (Numeral.ofLiteral l).value? = some v ↔ l.Means v := by
  rw [Numeral.value?_ofLiteral, Numeral.int?_ofLiteral]
  split_ifs with hinteger hbounds
  · have hint : l.IsInt := ⟨hinteger, hbounds⟩
    constructor
    · rintro ⟨⟩
      exact .int hint
    · rintro (- | hfloat)
      · rfl
      · exact absurd hint hfloat
  · exact float?_eq_some_iff fun hint => hbounds hint.2
  · exact float?_eq_some_iff fun hint => hinteger hint.1

end Literal

/-! ### The bytes of a numeral -/

/-- The bytes that numerals are written with. -/
def numeralBytes : Bytes := Bytes.ofString "0123456789.eE+-"

theorem Digits.bytes_subset (ds : Digits) : ds.bytes ⊆ numeralBytes := by
  have hdigit : ∀ d, digitByte d ∈ numeralBytes := by decide
  exact List.forall_mem_map.2 fun d _ => hdigit d

theorem Exponent.bytes_subset (e : Exponent) : e.bytes ⊆ numeralBytes := by
  refine List.cons_subset.2 ⟨?_, List.append_subset.2 ⟨?_, e.digits.bytes_subset⟩⟩
  · cases e.upper <;> decide
  · cases e.sign <;> decide

theorem Literal.bytes_subset (l : Literal) : l.bytes ⊆ numeralBytes := by
  have hsign : (if l.negative then [Ascii.minus] else []) ⊆ numeralBytes := by
    cases l.negative <;> decide
  have hfraction : (l.fraction.elim [] fun ds => Ascii.point :: ds.bytes) ⊆ numeralBytes := by
    cases l.fraction with
    | none => exact List.nil_subset _
    | some ds => exact List.cons_subset.2 ⟨by decide, ds.bytes_subset⟩
  have hexponent : l.exponent.elim [] Exponent.bytes ⊆ numeralBytes := by
    cases l.exponent with
    | none => exact List.nil_subset _
    | some e => exact e.bytes_subset
  simp only [bytes, List.append_subset]
  exact ⟨hsign, l.whole.bytes_subset, hfraction, hexponent⟩

end Json

end PlaceFeed
