import Std.Data.HashMap.Basic
import GridSat.Chain.Basic
import GridSat.Logic.Literal

/-!
# Environments

An *environment* gives values to some of the variables. It is the chain of its
bindings, newest first, and binds no variable twice: binding a variable again
to the value it has changes nothing, and binding it to the other value is
refused with a `Rebinding`.
-/

namespace GridSat

/-- An attempt to give a bound variable the other value. -/
structure Rebinding where
  /-- The bound variable. -/
  var : Variable
  /-- The value it has. -/
  current : Bool
  /-- The value it was to get. -/
  wanted : Bool
deriving DecidableEq

/-- What is wrong with a rebinding, in words. -/
def Rebinding.message (r : Rebinding) : String :=
  s!"variable {r.var.name} rebound from {r.current} to {r.wanted}"

/-- Values of some of the variables. -/
structure Environment where
  /-- The bindings, newest first. -/
  bindings : Chain (Variable × Bool)
  /-- No variable is bound twice. -/
  nodup : (bindings.toList.map Prod.fst).Nodup

namespace Environment

/-- An environment is determined by its bindings. -/
@[ext] theorem ext {e e' : Environment} (h : e.bindings = e'.bindings) : e = e' := by
  cases e
  cases e'
  cases h
  rfl

instance : DecidableEq Environment := fun e e' =>
  decidable_of_iff (e.bindings = e'.bindings) ⟨Environment.ext, congrArg bindings⟩

/-- The environment that binds nothing. -/
def empty : Environment :=
  ⟨.empty, List.nodup_nil⟩

instance : Inhabited Environment := ⟨empty⟩

/-- The bindings, newest first. -/
def toList (e : Environment) : List (Variable × Bool) :=
  e.bindings.toList

/-- The number of bound variables. -/
def length (e : Environment) : Nat :=
  e.bindings.length

/-- Whether nothing is bound. -/
def isEmpty (e : Environment) : Bool :=
  e.bindings.isEmpty

/-- The value of a variable, looked for from the newest binding on. -/
def get? (e : Environment) (x : Variable) : Option Bool :=
  e.bindings.findSome? fun (y, value) => if y = x then some value else none

/-- The value of a literal, if its variable is bound. -/
def literal? (e : Environment) (l : Literal) : Option Bool :=
  (e.get? l.var).map l.evalWith

theorem get?_eq_none_iff {e : Environment} {x : Variable} :
    e.get? x = none ↔ x ∉ e.toList.map Prod.fst := by
  simp only [get?, Chain.findSome?_eq, List.findSome?_eq_none_iff, toList, List.mem_map]
  constructor
  · rintro h ⟨⟨y, value⟩, hmem, rfl⟩
    simpa using h _ hmem
  · rintro h ⟨y, value⟩ hmem
    rw [if_neg]
    rintro rfl
    exact h ⟨_, hmem, rfl⟩

/-- Binds a variable. A bound variable keeps its binding if the value is the
    same, and it is an error to give it the other value. -/
def put (e : Environment) (x : Variable) (value : Bool) : Except Rebinding Environment :=
  match h : e.get? x with
  | some current => if current = value then .ok e else .error ⟨x, current, value⟩
  | none => .ok ⟨e.bindings.add (x, value), by
      simpa using ⟨by simpa [toList] using get?_eq_none_iff.1 h, e.nodup⟩⟩

theorem put_of_get?_eq_some {e : Environment} {x : Variable} {current : Bool}
    (h : e.get? x = some current) (value : Bool) :
    e.put x value = if current = value then .ok e else .error ⟨x, current, value⟩ := by
  unfold put
  split
  · next current' h' =>
    obtain rfl : current' = current := Option.some.inj (h'.symm.trans h)
    rfl
  · next h' => simp [h] at h'

/-- A variable that is not bound gets a binding in front of the others. -/
theorem exists_put_of_get?_eq_none {e : Environment} {x : Variable} (h : e.get? x = none)
    (value : Bool) : ∃ e', e.put x value = .ok e' ∧ e'.toList = (x, value) :: e.toList := by
  unfold put
  split
  · next h' => simp [h] at h'
  · exact ⟨_, rfl, Chain.toList_add ..⟩

/-- Binds the variable of a literal so that the literal holds. -/
def assign (e : Environment) (l : Literal) : Except Rebinding Environment :=
  e.put l.var l.polarity

/-- Makes bindings one after the other, starting from nothing. -/
def ofBindings (bindings : List (Variable × Bool)) : Except Rebinding Environment :=
  bindings.foldlM (fun e (x, value) => e.put x value) empty

/-- The variables that are true, newest first. -/
def trueVariables (e : Environment) : List Variable :=
  (e.toList.filter Prod.snd).map Prod.fst

/-- The bindings as a table for repeated lookup. -/
def toMap (e : Environment) : Std.HashMap Variable Bool :=
  e.bindings.foldl (fun table (x, value) => table.insert x value) ∅

/-- The bindings in braces, sorted by name whatever order they were made in. -/
def render (e : Environment) : String :=
  let sorted := e.toList.mergeSort fun (x, _) (y, _) => decide (x.name ≤ y.name)
  "\x7b" ++ String.intercalate ", " (sorted.map fun (x, value) => s!"{x.name}: {value}") ++ "\x7d"

end Environment

end GridSat
