/-
# Texts with one value a line

A text is cut into lines, blank lines are skipped, and every other line is parsed on its own; the
first one that does not parse is reported by its number, counted from one over all lines.

So a text is accepted exactly if every line that is not blank parses, and it yields their values in
order (`parseFrom_eq_ok_iff`); and an error names the first line at fault
(`parseFrom_eq_error_iff`).
-/
import Mathlib.Data.List.Forall2

namespace ZearchEngine.Lines

variable {α : Type}

/-! ## 1. Lines -/

/-- Cut after every newline; what is after the last one is a line if it is not empty. -/
def lines : List Char → List (List Char)
  | [] => []
  | c :: cs =>
    if c = '\n' then [] :: lines cs
    else
      match lines cs with
      | [] => [[c]]
      | line :: rest => (c :: line) :: rest

/-- `char::is_whitespace`: the property White_Space. -/
def isWhitespace (c : Char) : Bool :=
  (9 ≤ c.toNat && c.toNat ≤ 13) || c.toNat = 0x20 || c.toNat = 0x85 || c.toNat = 0xa0 ||
    c.toNat = 0x1680 || (0x2000 ≤ c.toNat && c.toNat ≤ 0x200a) || c.toNat = 0x2028 ||
    c.toNat = 0x2029 || c.toNat = 0x202f || c.toNat = 0x205f || c.toNat = 0x3000

/-- `trim`. -/
def trim (line : List Char) : List Char :=
  ((line.dropWhile isWhitespace).reverse.dropWhile isWhitespace).reverse

/-- Lines that are not blank. -/
def Written (line : List Char) : Prop := trim line ≠ []

instance : DecidablePred Written := fun _ => inferInstanceAs (Decidable (_ ≠ _))

/-! ## 2. Parsing -/

/-- What is said of a line that does not parse. -/
def report (number : Nat) (e : String) : String := s!"line {number}: {e}"

/-- The loop over the lines: `number` of them are behind, which had the values `values`. -/
def parseFrom (parse : String → Except String α) : Nat → List (List Char) → List α →
    Except String (List α)
  | _, [], values => .ok values
  | number, line :: rest, values =>
    let line := trim line
    if line.isEmpty then parseFrom parse (number + 1) rest values
    else
      match parse (String.ofList line) with
      | .ok value => parseFrom parse (number + 1) rest (values ++ [value])
      | .error e => .error (report (number + 1) e)

/-- The values of a text, a line each. -/
def parseText (parse : String → Except String α) (text : String) : Except String (List α) :=
  parseFrom parse 0 (lines text.toList) []

/-- The line holds the value. -/
def Holds (parse : String → Except String α) (line : List Char) (value : α) : Prop :=
  parse (String.ofList (trim line)) = .ok value

variable {parse : String → Except String α}

theorem parseFrom_blank {line : List Char} (h : ¬ Written line) (number : Nat)
    (rest : List (List Char)) (values : List α) :
    parseFrom parse number (line :: rest) values = parseFrom parse (number + 1) rest values := by
  have hempty : (trim line).isEmpty = true := List.isEmpty_iff.mpr (not_not.mp h)
  rw [parseFrom, if_pos hempty]

theorem parseFrom_holds {line : List Char} {value : α} (h : Written line)
    (hvalue : Holds parse line value) (number : Nat) (rest : List (List Char)) (values : List α) :
    parseFrom parse number (line :: rest) values
      = parseFrom parse (number + 1) rest (values ++ [value]) := by
  have hempty : ¬ (trim line).isEmpty = true := fun hnil => h (List.isEmpty_iff.mp hnil)
  rw [parseFrom, if_neg hempty, show parse (String.ofList (trim line)) = .ok value from hvalue]

theorem parseFrom_error {line : List Char} {e : String} (h : Written line)
    (herror : parse (String.ofList (trim line)) = .error e) (number : Nat)
    (rest : List (List Char)) (values : List α) :
    parseFrom parse number (line :: rest) values = .error (report (number + 1) e) := by
  have hempty : ¬ (trim line).isEmpty = true := fun hnil => h (List.isEmpty_iff.mp hnil)
  rw [parseFrom, if_neg hempty, herror]

/-- **What is accepted**: a text whose lines all parse, but for blank ones. -/
theorem parseFrom_eq_ok_iff : ∀ {ls : List (List Char)} {number : Nat} {values all : List α},
    parseFrom parse number ls values = .ok all ↔
      ∃ new, all = values ++ new ∧
        List.Forall₂ (Holds parse) (ls.filter (fun line => Written line)) new
  | [], _, values, all => by
    rw [parseFrom, Except.ok.injEq]
    constructor
    · rintro rfl
      exact ⟨[], (List.append_nil _).symm, List.Forall₂.nil⟩
    · rintro ⟨new, rfl, hnew⟩
      rw [List.filter_nil, List.forall₂_nil_left_iff] at hnew
      rw [hnew, List.append_nil]
  | line :: ls, number, values, all => by
    by_cases hwritten : Written line
    · rw [List.filter_cons_of_pos (by simpa using hwritten)]
      cases hparse : parse (String.ofList (trim line)) with
      | error e =>
        rw [parseFrom_error hwritten hparse]
        refine ⟨fun h => (by cases h), ?_⟩
        rintro ⟨new, -, hnew⟩
        obtain ⟨value, rest, hvalue, -, -⟩ := List.forall₂_cons_left_iff.mp hnew
        rw [Holds, hparse] at hvalue
        cases hvalue
      | ok value =>
        rw [parseFrom_holds hwritten hparse, parseFrom_eq_ok_iff]
        constructor
        · rintro ⟨new, rfl, hnew⟩
          exact ⟨value :: new, by simp, List.Forall₂.cons hparse hnew⟩
        · rintro ⟨new, rfl, hnew⟩
          obtain ⟨value', rest, hvalue, hrest, rfl⟩ := List.forall₂_cons_left_iff.mp hnew
          obtain rfl : value = value' := Except.ok.inj (hparse.symm.trans hvalue)
          exact ⟨rest, by simp, hrest⟩
    · rw [List.filter_cons_of_neg (by simpa using hwritten), parseFrom_blank hwritten,
        parseFrom_eq_ok_iff]

/-- **What is reported**: the first line that does not parse. -/
theorem parseFrom_eq_error_iff : ∀ {ls : List (List Char)} {number : Nat} {values : List α}
    {message : String}, parseFrom parse number ls values = .error message ↔
      ∃ before line after e, ls = before ++ line :: after ∧ Written line ∧
        parse (String.ofList (trim line)) = .error e ∧
        message = report (number + before.length + 1) e ∧
        ∀ earlier ∈ before, Written earlier → ∃ value, Holds parse earlier value
  | [], _, _, _ => by simp [parseFrom]
  | line :: ls, number, values, message => by
    have hstep : ∀ {values' : List α}, (Written line → ∃ value, Holds parse line value) →
        (parseFrom parse (number + 1) ls values' = .error message ↔
          ∃ before line' after e, line :: ls = before ++ line' :: after ∧ Written line' ∧
            parse (String.ofList (trim line')) = .error e ∧
            message = report (number + before.length + 1) e ∧
            ∀ earlier ∈ before, Written earlier → ∃ value, Holds parse earlier value) := by
      intro values' hline
      rw [parseFrom_eq_error_iff]
      constructor
      · rintro ⟨before, line', after, e, rfl, hwritten, herror, hmessage, hearlier⟩
        refine ⟨line :: before, line', after, e, rfl, hwritten, herror, ?_, ?_⟩
        · rw [hmessage, List.length_cons, Nat.add_comm before.length 1, Nat.add_assoc number 1]
        · intro earlier hmem
          rcases List.mem_cons.mp hmem with rfl | hmem
          · exact hline
          · exact hearlier earlier hmem
      · rintro ⟨before, line', after, e, heq, hwritten, herror, hmessage, hearlier⟩
        cases before with
        | nil =>
          obtain ⟨rfl, rfl⟩ := List.cons.inj heq
          obtain ⟨value, hvalue⟩ := hline hwritten
          rw [Holds, herror] at hvalue
          cases hvalue
        | cons first before =>
          obtain ⟨rfl, rfl⟩ := List.cons.inj heq
          refine ⟨before, line', after, e, rfl, hwritten, herror, ?_,
            fun earlier hmem => hearlier earlier (List.mem_cons_of_mem _ hmem)⟩
          rw [hmessage, List.length_cons, Nat.add_comm before.length 1, Nat.add_assoc number 1]
    by_cases hwritten : Written line
    · cases hparse : parse (String.ofList (trim line)) with
      | ok value =>
        rw [parseFrom_holds hwritten hparse]
        exact hstep (fun _ => ⟨value, hparse⟩)
      | error e =>
        rw [parseFrom_error hwritten hparse, Except.error.injEq]
        constructor
        · rintro rfl
          exact ⟨[], line, ls, e, rfl, hwritten, hparse, rfl, fun _ hmem => (by cases hmem)⟩
        · rintro ⟨before, line', after, e', heq, -, herror, hmessage, hearlier⟩
          cases before with
          | nil =>
            obtain ⟨rfl, rfl⟩ := List.cons.inj heq
            rw [hparse] at herror
            obtain rfl := Except.error.inj herror
            exact hmessage.symm
          | cons first before =>
            obtain ⟨rfl, rfl⟩ := List.cons.inj heq
            obtain ⟨value, hvalue⟩ := hearlier _ List.mem_cons_self hwritten
            rw [Holds, hparse] at hvalue
            cases hvalue
    · rw [parseFrom_blank hwritten]
      exact hstep (fun h => absurd h hwritten)

end ZearchEngine.Lines
