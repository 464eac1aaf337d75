import Std.Data.HashMap.Lemmas

/-!
# Variables and literals

A *variable* is known by its name, which may be any text. A *literal* is a
variable or its negation, written `x` or `~x`.

Names may be exchanged for numbers, which are quicker to compare. An `Interner`
gives each name the next free number when it meets it first, and the same number
ever after. So numbers are equal exactly if the names are, and to know a variable
by its name or by its number comes to the same.
-/

namespace GridSat

/-! ### Numbers for names -/

/-- How many numbers there are for names. -/
def numberLimit : Nat := 4294967296

/-- The names that have numbers. -/
structure Interner where
  /-- The numbers, by name. -/
  numbers : Std.HashMap String Nat
  /-- The names, each at the place of its number. -/
  names : Array String
  /-- A number is found for a name exactly if the name is found for the number. -/
  numbers_eq_some_iff : ∀ (name : String) (number : Nat),
    numbers[name]? = some number ↔ names[number]? = some name

namespace Interner

/-- No name has a number yet. -/
def empty : Interner where
  numbers := ∅
  names := #[]
  numbers_eq_some_iff := by simp

/-- Gives the next number to a name that has none. -/
def add (t : Interner) (name : String) (h : t.numbers[name]? = none) : Interner where
  numbers := t.numbers.insert name t.names.size
  names := t.names.push name
  numbers_eq_some_iff other number := by
    have hnew : t.names[number]? ≠ some name := fun hnumber => by
      rw [(t.numbers_eq_some_iff name number).2 hnumber] at h
      exact absurd h nofun
    rw [Std.HashMap.getElem?_insert, Array.getElem?_push]
    by_cases hname : name = other
    · subst hname
      simp only [beq_self_eq_true, if_true, Option.some.injEq]
      split
      · next hnumber => simp [hnumber]
      · next hnumber => exact iff_of_false (fun heq => hnumber heq.symm) hnew
    · simp only [beq_iff_eq, hname, if_false, t.numbers_eq_some_iff]
      split
      · next hnumber => simp [hnumber, hname]
      · exact Iff.rfl

/-- The number of a name, which is a new one if the name is new. There is none if
    all numbers are taken. -/
def intern (t : Interner) (name : String) : Option (Nat × Interner) :=
  match h : t.numbers[name]? with
  | some number => some (number, t)
  | none => if t.names.size < numberLimit then some (t.names.size, t.add name h) else none

/-- The numbers of names that are met one after the other. -/
def internAll (t : Interner) : List String → Option (List Nat × Interner)
  | [] => some ([], t)
  | name :: names =>
    match t.intern name with
    | none => none
    | some (number, t') =>
      match t'.internAll names with
      | none => none
      | some (numbers, t'') => some (number :: numbers, t'')

end Interner

/-! ### Variables -/

/-- A propositional variable. -/
structure Variable where
  /-- The name, which tells variables apart. -/
  name : String
deriving DecidableEq, Hashable, Inhabited

/-! ### Literals -/

/-- A variable or its negation. -/
structure Literal where
  /-- The value of the variable under which the literal holds. -/
  polarity : Bool
  /-- The variable. -/
  var : Variable
deriving DecidableEq, Hashable, Inhabited

namespace Literal

/-- The literal that holds if the variable does. -/
def positive (x : Variable) : Literal :=
  ⟨true, x⟩

/-- The literal that holds if the variable does not. -/
def negative (x : Variable) : Literal :=
  ⟨false, x⟩

/-- The positive literal of the variable of the given name. -/
def named (name : String) : Literal :=
  positive ⟨name⟩

/-- The literal of the same variable that holds in the other case. -/
def negated (l : Literal) : Literal :=
  ⟨!l.polarity, l.var⟩

/-- Whether the literal is the negation of its variable. -/
def isNegated (l : Literal) : Bool :=
  !l.polarity

/-- The value of the literal, given that of its variable. -/
def evalWith (l : Literal) (value : Bool) : Bool :=
  l.polarity == value

/-- The name of the variable, after a tilde if it is negated. -/
def render (l : Literal) : String :=
  if l.polarity then l.var.name else "~" ++ l.var.name

@[simp] theorem var_negated (l : Literal) : l.negated.var = l.var := rfl

@[simp] theorem polarity_negated (l : Literal) : l.negated.polarity = !l.polarity := rfl

@[simp] theorem negated_negated (l : Literal) : l.negated.negated = l := by
  simp [negated]

theorem negated_ne (l : Literal) : l.negated ≠ l := fun h => by
  simpa using congrArg polarity h

theorem evalWith_negated (l : Literal) (value : Bool) :
    l.negated.evalWith value = !l.evalWith value := by
  cases h : l.polarity <;> cases value <;> simp [evalWith, h]

end Literal

end GridSat
