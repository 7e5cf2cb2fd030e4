import ContractAudit.Proofs.Text.Digit
import ContractAudit.Timestamp

namespace ContractAudit.Timestamp

open Text

theorem number?_padZeros {width n : Nat} (hw : 0 < width) (hn : n < 10 ^ width)
    (rest : List Char) : number? width ((padZeros width n).toList ++ rest) = some (n, rest) := by
  have hdigits (c : Char) (hc : c ∈ (padZeros width n).toList) : c.isDigit :=
    isDigit_of_mem_padZeros hc
  have htake : takeDigits width ((padZeros width n).toList ++ rest) =
      ((padZeros width n).toList, rest) :=
    takeDigits_append hdigits (.inl (length_padZeros hw hn))
  simp [number?, trimStart_of_isDigit (padZeros_ne_nil width n) hdigits, htake, readNat?_padZeros]

theorem mark?_cons {mark : Char} (h : isBlank mark = false) (rest : List Char) :
    mark? mark (mark :: rest) = some rest := by
  simp [mark?, trimStart, h]

theorem year?_of_isDigit {digits rest : List Char} (hne : digits ≠ [])
    (h : ∀ c ∈ digits, c.isDigit) :
    year? (digits ++ rest) = (number? 4 (digits ++ rest)).map fun (n, rest) ↦ ((n : Int), rest) := by
  rw [year?, trimStart_of_isDigit hne h]
  cases digits with
  | nil => exact absurd rfl hne
  | cons c digits =>
    have hc := h c List.mem_cons_self
    split
    next heq =>
      cases heq
      cases hc
    next heq =>
      cases heq
      cases hc
    next => rfl

theorem year?_dash (chars : List Char) :
    year? ('-' :: chars) = (readNat? (takeDigits chars.length chars).1).map fun (n : Nat) ↦
      (-(n : Int), (takeDigits chars.length chars).2) := by
  have htrim : trimStart ('-' :: chars) = '-' :: chars := rfl
  rw [year?, htrim]
  cases h : readNat? (takeDigits chars.length chars).1 <;> simp [h]

theorem year?_plus (chars : List Char) :
    year? ('+' :: chars) = (readNat? (takeDigits chars.length chars).1).map fun (n : Nat) ↦
      ((n : Int), (takeDigits chars.length chars).2) := by
  have htrim : trimStart ('+' :: chars) = '+' :: chars := rfl
  rw [year?, htrim]
  cases h : readNat? (takeDigits chars.length chars).1 <;> simp [h]

theorem year?_renderYear (year : Int) (rest : List Char) :
    year? ((renderYear year).toList ++ '-' :: rest) = some (year, '-' :: rest) := by
  have hdigits (width n : Nat) (c : Char) (hc : c ∈ (padZeros width n).toList) : c.isDigit :=
    isDigit_of_mem_padZeros hc
  rw [renderYear]
  by_cases hplain : 0 ≤ year ∧ year ≤ 9999
  · have hyear : year.toNat < 10 ^ 4 := by omega
    have hcast : (year.toNat : Int) = year := by omega
    rw [if_pos hplain, year?_of_isDigit (padZeros_ne_nil _ _) (hdigits _ _),
      number?_padZeros (by decide) hyear]
    simp [hcast]
  · -- The digits after a sign go on up to the mark before the month.
    let chars := (padZeros 4 year.natAbs).toList ++ '-' :: rest
    have htake : takeDigits chars.length chars =
        ((padZeros 4 year.natAbs).toList, '-' :: rest) := by
      refine takeDigits_append (hdigits _ _) (.inr ⟨?_, ?_⟩)
      · simp only [chars, List.length_append]
        omega
      · intro c hc
        cases hc
        rfl
    rw [if_neg hplain]
    by_cases hneg : year < 0
    · have hcast : -(year.natAbs : Int) = year := by omega
      have hchars : ((if year < 0 then "-" else "+") ++ padZeros 4 year.natAbs).toList ++
          '-' :: rest = '-' :: chars := by simp [hneg, chars]
      rw [hchars, year?_dash, htake, readNat?_padZeros, Option.map_some, hcast]
    · have hcast : (year.natAbs : Int) = year := by omega
      have hchars : ((if year < 0 then "-" else "+") ++ padZeros 4 year.natAbs).toList ++
          '-' :: rest = '+' :: chars := by simp [hneg, chars]
      rw [hchars, year?_plus, htake, readNat?_padZeros, Option.map_some, hcast]

theorem fraction?_renderFraction {nanosecond : Nat} (h : nanosecond < 1000000000) :
    fraction? ((renderFraction nanosecond).toList ++ ['Z']) = some (nanosecond, ['Z']) := by
  have hread {width n : Nat} (hw : 0 < width) (hwidth : width ≤ 9) (hn : n < 10 ^ width)
      (hvalue : n * 10 ^ (9 - width) = nanosecond) :
      fraction? (("." ++ padZeros width n).toList ++ ['Z']) = some (nanosecond, ['Z']) := by
    have hlength := length_padZeros hw hn
    have htake : takeDigits 9 ((padZeros width n).toList ++ ['Z']) =
        ((padZeros width n).toList, ['Z']) := by
      refine takeDigits_append (fun c hc ↦ isDigit_of_mem_padZeros hc) (.inr ⟨by omega, ?_⟩)
      intro c hc
      cases hc
      rfl
    simp [fraction?, htake, readNat?_padZeros, hlength, hvalue, isAsciiDigit_eq_isDigit]
  rw [renderFraction]
  split
  next hzero =>
    subst hzero
    rfl
  next =>
    split
    next => exact hread (by decide) (by decide) (by omega) (by omega)
    next =>
      split
      next => exact hread (by decide) (by decide) (by omega) (by omega)
      next => exact hread (by decide) (by decide) (by omega) (by omega)

theorem ofFields?_eq (t : Timestamp) :
    ofFields? t.year t.month t.day t.hour t.minute t.second t.nanosecond = some t :=
  dif_pos t.valid

theorem moveBack?_zero (t : Timestamp) : t.moveBack? 0 = some t := by
  obtain ⟨-, -, -, hhour, hminute, -⟩ := t.valid
  have hlow : ¬ (((t.hour * 60 + t.minute : Nat) : Int) - 0 < 0) := by omega
  have hhigh : ¬ (1440 ≤ ((t.hour * 60 + t.minute : Nat) : Int) - 0) := by omega
  have hmod : ((((t.hour * 60 + t.minute : Nat) : Int) - 0) % 1440).toNat =
      t.hour * 60 + t.minute := by omega
  have hhours : (t.hour * 60 + t.minute) / 60 = t.hour := by omega
  have hminutes : (t.hour * 60 + t.minute) % 60 = t.minute := by omega
  simp only [moveBack?, if_neg hlow, if_neg hhigh, hmod, hhours, hminutes]
  exact t.ofFields?_eq

theorem toList_render (t : Timestamp) : t.render.toList =
    (renderYear t.year).toList ++ '-' :: ((padZeros 2 t.month).toList ++ '-' ::
      ((padZeros 2 t.day).toList ++ 'T' :: ((padZeros 2 t.hour).toList ++ ':' ::
        ((padZeros 2 t.minute).toList ++ ':' :: ((padZeros 2 t.second).toList ++
          ((renderFraction t.nanosecond).toList ++ ['Z'])))))) := by
  simp [render, renderDate, renderTime]

theorem parse?_render (t : Timestamp) : parse? t.render = some t := by
  obtain ⟨-, hmonth, hday, hhour, hminute, hsecond, hnanosecond⟩ := t.valid
  have hdays : daysInMonth t.year t.month ≤ 31 := by
    rw [daysInMonth]
    repeat' split
    all_goals omega
  have hnumber {n : Nat} (hn : n < 100) (rest : List Char) :
      number? 2 ((padZeros 2 n).toList ++ rest) = some (n, rest) :=
    number?_padZeros (by decide) hn rest
  have hstep {α : Type} {x : Option α} {a : α} {next : α → Option Timestamp} (hx : x = some a)
      (hnext : next a = some t) : x >>= next = some t := hx ▸ hnext
  rw [parse?, toList_render]
  refine hstep (year?_renderYear t.year _) ?_
  refine hstep (mark?_cons rfl _) (hstep (hnumber (show t.month < 100 by omega) _) ?_)
  refine hstep (mark?_cons rfl _) (hstep (hnumber (show t.day < 100 by omega) _) ?_)
  refine hstep (a := ()) rfl ?_
  refine hstep (hnumber (show t.hour < 100 by omega) _) ?_
  refine hstep (mark?_cons rfl _) (hstep (hnumber (show t.minute < 100 by omega) _) ?_)
  refine hstep (mark?_cons rfl _) (hstep (hnumber (show t.second < 100 by omega) _) ?_)
  refine hstep (fraction?_renderFraction hnanosecond) ?_
  refine hstep (a := (0, [])) rfl (hstep (a := ()) rfl ?_)
  exact hstep t.ofFields?_eq t.moveBack?_zero

end ContractAudit.Timestamp
