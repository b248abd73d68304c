import ProviderKit.Proofs.Function.Accepting
import ProviderKit.Proofs.Listing
import ProviderKit.Proofs.Value.Contents

-- What functions refuse. A wrong number of arguments is an error of the whole call. Otherwise each
-- argument that is null or unknown where its parameter does not allow that is told on a line of its
-- own, in the order of the arguments, and the error names the first of them. All other calls go
-- through, and every argument is dealt once.

namespace ProviderKit

/-! ## Lines of a text -/

namespace Text

theorem isHidden_digitChar : ∀ n < 16, isHidden (Nat.digitChar n) = false := by decide

theorem all_hex_shown (n : Nat) : (hex n).all (fun d => !isHidden d) = true := by
  induction n using Nat.strongRecOn with
  | ind n ih =>
    unfold hex at ih ⊢
    rw [Nat.toDigits_eq_if (by decide)]
    split
    · next hn => simp [isHidden_digitChar n hn]
    · next hn =>
      have hlast : n % 16 < 16 := Nat.mod_lt n (by decide)
      rw [List.all_append, ih (n / 16) (by omega)]
      simp [isHidden_digitChar _ hlast]

theorem all_escaped_shown (c : Char) : (escaped c).all (fun d => !isHidden d) = true := by
  unfold escaped
  split
  · decide
  split
  · decide
  split
  · decide
  split
  · decide
  split
  · decide
  split
  · decide
  split
  · rw [List.all_append, List.all_append, all_hex_shown]
    decide
  · next hshown => simpa using hshown

/-- A text in quotes has nothing hidden in it. -/
theorem all_quoted_shown (text : String) :
    (quoted text).toList.all (fun d => !isHidden d) = true := by
  have hquote : ['"'].all (fun d => !isHidden d) = true := by decide
  have hchars : (text.toList.flatMap escaped).all (fun d => !isHidden d) = true := by
    rw [List.all_flatMap, List.all_eq_true]
    intro c _
    exact all_escaped_shown c
  rw [quoted, String.toList_ofList, quotedChars, ← List.singleton_append, List.all_append,
    List.all_append, hquote, hchars]
  rfl

/-- So it stands on one line. -/
theorem newline_not_mem_quoted (text : String) : '\n' ∉ (quoted text).toList := by
  intro h
  have hshown := List.all_eq_true.mp (all_quoted_shown text) '\n' h
  have hhidden : isHidden '\n' = true := by decide
  rw [hhidden] at hshown
  cases hshown

/-- Lines are told apart again. -/
theorem splitOn_intercalate {lines : List String} (hlines : ∀ l ∈ lines, '\n' ∉ l.toList)
    (hne : lines ≠ []) :
    ("\n".intercalate lines).toList.splitOn '\n' = lines.map String.toList := by
  rw [String.toList_intercalate]
  apply List.splitOn_intercalate
  · intro l hl
    obtain ⟨line, hline, rfl⟩ := List.mem_map.mp hl
    exact hlines line hline
  · simpa using hne

end Text

/-! ## Errors told as one -/

namespace FuncError

/-- Each error has a line of its own, and the first argument that is named stays. -/
theorem foldl_join (first : FuncError) (errors : List FuncError) :
    errors.foldl (fun joined e => some (join joined e)) (some first) =
      some ⟨"\n".intercalate (first.text :: errors.map text),
        first.argument.or (errors.findSome? argument)⟩ := by
  induction errors generalizing first with
  | nil => simp
  | cons e rest ih =>
    have htext : "\n".intercalate ((first.text ++ "\n" ++ e.text) :: rest.map text) =
        "\n".intercalate (first.text :: e.text :: rest.map text) := by
      cases rest <;> simp [String.append_assoc]
    have hargument : (first.argument.or e.argument).or (rest.findSome? argument) =
        first.argument.or ((e :: rest).findSome? argument) := by
      rw [Option.or_assoc, List.findSome?_cons]
      cases e.argument <;> rfl
    rw [List.foldl_cons, ih, join, htext, hargument]
    rfl

end FuncError

/-! ## Violations -/

/-- What an argument may be instead of a value that is known. -/
inductive Blank where
  | null | unknown

def Blank.value : Blank → Value
  | .null => .null
  | .unknown => .unknown

def Value.blank? : Value → Option Blank
  | .null => some .null
  | .unknown => some .unknown
  | _ => none

theorem Value.blank?_eq_some_iff {v : Value} {b : Blank} : v.blank? = some b ↔ v = b.value := by
  cases v <;> cases b <;> simp [blank?, Blank.value]

def Parameter.allows (p : Parameter) : Blank → Bool
  | .null => p.allowNull
  | .unknown => p.allowUnknown

/-- An argument that its parameter does not allow. -/
structure Violation where
  position : Nat
  parameter : Parameter
  blank : Blank

namespace Violation

/-- What is said of a violation. -/
def line (x : Violation) : String :=
  match x.blank with
  | .null =>
    "Invalid Null Function Argument: Parameter " ++ Text.quoted x.parameter.name
      ++ " does not accept null values."
  | .unknown =>
    "Invalid Unknown Function Argument: Parameter " ++ Text.quoted x.parameter.name
      ++ " does not accept unknown values."

def error (x : Violation) : FuncError := .ofArgument x.position x.line

theorem newline_not_mem_line (x : Violation) : '\n' ∉ x.line.toList := by
  have hname := Text.newline_not_mem_quoted x.parameter.name
  unfold line
  cases x.blank with
  | null => simp [hname]
  | unknown => simp [hname]

end Violation

namespace FunctionDefinition

variable {d : FunctionDefinition} {given : List Value}

/-- The argument at a position is for the parameter there, and past the last one for the variadic
parameter. -/
inductive Takes (d : FunctionDefinition) : Nat → Parameter → Prop
  | own {i : Nat} {p : Parameter} (h : d.parameters[i]? = some p) : Takes d i p
  | variadic {i : Nat} {p : Parameter} (hpast : d.parameters.length ≤ i)
      (h : d.variadic = some p) : Takes d i p

/-- An argument of the call is null or unknown where its parameter does not allow that. -/
structure Violated (d : FunctionDefinition) (given : List Value) (x : Violation) : Prop where
  takes : d.Takes x.position x.parameter
  argument : given[x.position]? = some x.blank.value
  refused : x.parameter.allows x.blank = false

theorem parameter?_eq_some_iff {i : Nat} {p : Parameter} :
    d.parameter? i = some p ↔ d.Takes i p := by
  constructor
  · intro h
    by_cases hi : i < d.parameters.length
    · rw [parameter?_of_lt hi] at h
      exact .own (by rw [List.getElem?_eq_getElem hi, h])
    · rw [parameter?_of_le (Nat.not_lt.mp hi)] at h
      exact .variadic (Nat.not_lt.mp hi) h
  · rintro (h | ⟨hpast, h⟩)
    · rw [parameter?, h, Option.some_or]
    · rw [parameter?_of_le hpast, h]

/-- The violation at a position, if the argument is one there. -/
def violation? (d : FunctionDefinition) (position : Nat) (argument : Value) : Option Violation := do
  let p ← d.parameter? position
  let b ← argument.blank?
  if p.allows b then none else some ⟨position, p, b⟩

theorem violation?_eq_some_iff {i : Nat} {v : Value} {x : Violation} :
    d.violation? i v = some x ↔
      x.position = i ∧ d.Takes i x.parameter ∧ v = x.blank.value ∧
        x.parameter.allows x.blank = false := by
  simp only [violation?, ← parameter?_eq_some_iff, ← Value.blank?_eq_some_iff]
  cases d.parameter? i with
  | none => simp
  | some p =>
    cases v.blank? with
    | none => simp
    | some b =>
      obtain ⟨j, q, c⟩ := x
      simp only [Option.bind_eq_bind, Option.bind_some, Option.some.injEq]
      constructor
      · intro h
        split at h
        · cases h
        · next hrefused =>
          cases h
          exact ⟨rfl, rfl, rfl, Bool.eq_false_iff.mpr hrefused⟩
      · rintro ⟨rfl, rfl, rfl, hrefused⟩
        simp [hrefused]

theorem refusal_eq (d : FunctionDefinition) (i : Nat) (v : Value) :
    d.refusal i v = (d.violation? i v).map Violation.error := by
  unfold refusal violation?
  cases d.parameter? i with
  | none => rfl
  | some p =>
    cases v with
    | null =>
      cases hallow : p.allowNull <;>
        simp [Value.isNull, Value.isUnknown, Value.blank?, Parameter.allows, hallow]
      rfl
    | unknown =>
      cases hallow : p.allowUnknown <;>
        simp [Value.isNull, Value.isUnknown, Value.blank?, Parameter.allows, hallow]
      rfl
    | _ => rfl

/-- The violations of arguments from a position on. -/
def violationsFrom (d : FunctionDefinition) : Nat → List Value → List Violation
  | _, [] => []
  | position, v :: rest => (d.violation? position v).toList ++ d.violationsFrom (position + 1) rest

/-- Arguments are refused for their violations. -/
theorem refusals_eq (d : FunctionDefinition) (position : Nat) (given : List Value) :
    d.refusals position given = (d.violationsFrom position given).map Violation.error := by
  induction given generalizing position with
  | nil => rfl
  | cons v rest ih =>
    rw [refusals, violationsFrom, refusal_eq, ih, List.map_append]
    cases d.violation? position v <;> rfl

/-- One more argument adds its own violation, if it is one. -/
theorem lists_violated_snoc {xs : List Violation}
    (h : Lists Violation.position (d.Violated given) xs) (v : Value) :
    Lists Violation.position (d.Violated (given ++ [v]))
      (xs ++ (d.violation? given.length v).toList) := by
  apply h.snoc
  · intro x y hx hy
    obtain ⟨hplace, -⟩ := violation?_eq_some_iff.mp hy
    rw [hplace]
    exact (List.getElem?_eq_some_iff.mp hx.argument).1
  · intro x
    rw [violation?_eq_some_iff]
    constructor
    · rintro ⟨htakes, hargument, hrefused⟩
      rcases getElem?_snoc_eq_some_iff.mp hargument with hargument | ⟨hplace, hv⟩
      · exact .inl ⟨htakes, hargument, hrefused⟩
      · exact .inr ⟨hplace, hplace ▸ htakes, hv, hrefused⟩
    · rintro (⟨htakes, hargument, hrefused⟩ | ⟨hplace, htakes, hv, hrefused⟩)
      · exact ⟨htakes, getElem?_snoc_eq_some_iff.mpr (.inl hargument), hrefused⟩
      · exact ⟨hplace ▸ htakes, getElem?_snoc_eq_some_iff.mpr (.inr ⟨hplace, hv⟩), hrefused⟩

theorem lists_violationsFrom {xs : List Violation}
    (h : Lists Violation.position (d.Violated given) xs) (rest : List Value) :
    Lists Violation.position (d.Violated (given ++ rest))
      (xs ++ d.violationsFrom given.length rest) := by
  -- The violations so far are `xs`, and the next position is the number of arguments so far.
  induction rest generalizing given xs with
  | nil => simpa [violationsFrom] using h
  | cons v rest ih =>
    have hrest := ih (lists_violated_snoc h v)
    simpa [violationsFrom, List.append_assoc] using hrest

/-- All violations of a call come up, in the order of the arguments. -/
theorem lists_violations (d : FunctionDefinition) (given : List Value) :
    Lists Violation.position (d.Violated given) (d.violationsFrom 0 given) := by
  have hnone : Lists Violation.position (d.Violated []) [] := by
    apply Lists.of_none
    intro x hx
    simpa using hx.argument
  exact lists_violationsFrom hnone given

/-! ## Calls -/

theorem arguments_of_not_counts (h : ¬ d.Counts given) :
    ∃ expectation, d.arguments given =
      .error (wrongCount expectation d.parameters.length given.length) := by
  unfold arguments
  dsimp only
  split
  · exact ⟨_, rfl⟩
  · next hcount =>
    split
    · exact ⟨_, rfl⟩
    · next hless =>
      have hcounts : d.Counts given := by
        constructor
        · omega
        · intro hvariadic
          by_contra hne
          exact hcount ⟨by simp [hvariadic], hne⟩
      exact absurd hcounts h

/-- Violations are told line by line, and the first one is named. -/
theorem joinAll_violations (first : Violation) (rest : List Violation) :
    ∃ e, FuncError.joinAll ((first :: rest).map Violation.error) = some e ∧
      e.argument = some first.position ∧
      e.text.toList.splitOn '\n' = (first :: rest).map fun x => x.line.toList := by
  refine ⟨_, FuncError.foldl_join first.error (rest.map Violation.error), rfl, ?_⟩
  have htext : first.error.text :: (rest.map Violation.error).map FuncError.text =
      (first :: rest).map Violation.line := by
    rw [List.map_map]
    rfl
  rw [htext, Text.splitOn_intercalate, List.map_map]
  · rfl
  · intro l hl
    obtain ⟨x, -, rfl⟩ := List.mem_map.mp hl
    exact x.newline_not_mem_line
  · simp

/-- What the arguments of a call come to when they are checked. -/
inductive Settles (d : FunctionDefinition) (given : List Value) :
    Except FuncError Arguments → Prop
  | miscounted {e : FuncError} (hcounts : ¬ d.Counts given) (hargument : e.argument = none) :
      Settles d given (.error e)
  | refused {e : FuncError} {first : Violation} {rest : List Violation} (hcounts : d.Counts given)
      (hlists : Lists Violation.position (d.Violated given) (first :: rest))
      (hargument : e.argument = some first.position)
      (hlines : e.text.toList.splitOn '\n' = (first :: rest).map fun x => x.line.toList) :
      Settles d given (.error e)
  | dealt {a : Arguments} (hcounts : d.Counts given) (hnone : ∀ x, ¬ d.Violated given x)
      (hlength : a.values.length = d.parameters.length)
      (hall : a.values ++ a.variadic = given) :
      Settles d given (.ok a)

theorem settles_arguments (d : FunctionDefinition) (given : List Value) :
    d.Settles given (d.arguments given) := by
  by_cases hcounts : d.Counts given
  · have hlists := d.lists_violations given
    rw [hcounts.checked, refusals_eq]
    cases hxs : d.violationsFrom 0 given with
    | nil =>
      rw [hxs] at hlists
      have hlength := List.length_take_of_le hcounts.enough
      exact .dealt hcounts (hlists.eq_nil_iff.mp rfl) hlength (List.take_append_drop _ given)
    | cons first rest =>
      rw [hxs] at hlists
      obtain ⟨e, hjoined, hargument, hlines⟩ := joinAll_violations first rest
      rw [hjoined]
      exact .refused hcounts hlists hargument hlines
  · obtain ⟨expectation, hfails⟩ := arguments_of_not_counts hcounts
    rw [hfails]
    exact .miscounted hcounts rfl

/-- Exactly the calls with the right number of arguments and without violations go through. Their
arguments are dealt to the parameters in order, and none is lost. If the number of arguments is
wrong, the error names none of them; any other error names the first violation, and tells all of
them line by line. -/
theorem arguments_exact (d : FunctionDefinition) (given : List Value) :
    ((∃ a, d.arguments given = .ok a) ↔ d.Counts given ∧ ∀ x, ¬ d.Violated given x) ∧
      (∀ a, d.arguments given = .ok a →
        a.values.length = d.parameters.length ∧ a.values ++ a.variadic = given) ∧
      ∀ e, d.arguments given = .error e →
        (¬ d.Counts given ∧ e.argument = none) ∨
        (d.Counts given ∧ ∃ first rest,
          Lists Violation.position (d.Violated given) (first :: rest) ∧
            e.argument = some first.position ∧
            e.text.toList.splitOn '\n' = (first :: rest).map fun x => x.line.toList) := by
  have hsettles := d.settles_arguments given
  cases hresult : d.arguments given with
  | ok a =>
    rw [hresult] at hsettles
    cases hsettles with
    | dealt hcounts hnone hlength hall =>
      refine ⟨iff_of_true ⟨a, rfl⟩ ⟨hcounts, hnone⟩, ?_, nofun⟩
      intro b hb
      cases hb
      exact ⟨hlength, hall⟩
  | error e =>
    rw [hresult] at hsettles
    refine ⟨iff_of_false nofun ?_, nofun, ?_⟩
    · rintro ⟨hcounts, hnone⟩
      cases hsettles with
      | miscounted hwrong _ => exact hwrong hcounts
      | refused _ hlists _ _ => exact hnone _ ((hlists.mem_iff _).mp List.mem_cons_self)
    · intro e' he
      cases he
      cases hsettles with
      | miscounted hcounts hargument => exact .inl ⟨hcounts, hargument⟩
      | refused hcounts hlists hargument hlines =>
        exact .inr ⟨hcounts, _, _, hlists, hargument, hlines⟩

/-- Joins any number of parts. The limit may be left open, and the name of the parts has a line
break in it. -/
def joinParts : FunctionDefinition where
  parameters := [⟨"separator", .string, false, false, none⟩, ⟨"limit", .int64, true, true, none⟩]
  variadic := some ⟨"parts\nto join", .string, false, false, none⟩
  result := .string
  summary := none
  description := none
  deprecation := none

/-- Nothing is wrong with the first call. In the second the separator and two of three parts are
missing, and the third has too few arguments. -/
theorem joinParts_deals_and_tells :
    let complete := [.string ", ", .unknown, .string "a", .string "b"]
    let incomplete := [.null, .null, .string "a", .unknown, .null]
    (∃ a, joinParts.arguments complete = .ok a ∧ a.values.length = 2 ∧
      a.values ++ a.variadic = complete) ∧
    (∃ e, joinParts.arguments incomplete = .error e ∧ e.argument = some 0 ∧
      e.text.toList.splitOn '\n' =
        ["Invalid Null Function Argument: Parameter \"separator\" does not accept null values.",
          "Invalid Unknown Function Argument: Parameter \"parts\\nto join\" does not accept unknown values.",
          "Invalid Null Function Argument: Parameter \"parts\\nto join\" does not accept null values."].map
        String.toList) ∧
    ∃ e, joinParts.arguments [.null] = .error e ∧ e.argument = none := by
  intro complete incomplete
  refine ⟨?_, ?_, ?_⟩
  · obtain ⟨-, hdealt, -⟩ := arguments_exact joinParts complete
    obtain ⟨hlength, hall⟩ := hdealt _ rfl
    exact ⟨_, rfl, hlength, hall⟩
  · refine ⟨_, rfl, rfl, ?_⟩
    obtain ⟨-, -, hfails⟩ := arguments_exact joinParts incomplete
    rcases hfails _ rfl with ⟨hcounts, -⟩ | ⟨-, first, rest, hlists, -, hlines⟩
    · exact absurd ⟨by decide, nofun⟩ hcounts
    · rw [hlines, hlists.unique (joinParts.lists_violations incomplete)]
      rfl
  · obtain ⟨-, -, hfails⟩ := arguments_exact joinParts [.null]
    rcases hfails _ rfl with ⟨-, hargument⟩ | ⟨hcounts, -⟩
    · exact ⟨_, rfl, hargument⟩
    · exact absurd hcounts.enough (by decide)

end FunctionDefinition

end ProviderKit
