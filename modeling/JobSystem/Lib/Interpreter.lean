import JobSystem.Lib.JsonSpace

/-!
# What the interpreter leaves open

`json.loads` has limits, on the nesting of a text and on the digits of an integer, and the standard
output can encode some characters only. Code that calls the one or prints takes them as parameters.

* `Loaded`: what `json.loads` does with a text; `library`: the function without limits;
* `Lawful`: what holds of the values under any limits; **`lawful_library`**; `ReadsLike`: the pieces of
  a text are read like those of the library;
* `Console`, `Console.prints`: the standard output.
-/

namespace PyJson

open PyText

/-- What `json.loads` does: `JSONDecodeError`, another exception, or a value. -/
inductive Loaded where
  | notJson
  | raises
  | value (v : Json)

/-- The value, if there is one. -/
def Loaded.value? : Loaded → Option Json
  | value v => some v
  | _ => none

@[simp] theorem Loaded.value?_eq_some {r : Loaded} {v : Json} :
    r.value? = some v ↔ r = .value v := by
  cases r <;> simp [Loaded.value?]

/-- `json.loads` without limits. -/
def library (ft : FloatText) (s : Str) : Loaded :=
  match loads ft s with
  | none => .notJson
  | some v => .value v

variable {ft : FloatText}

theorem library_eq_value {s : Str} {v : Json} : library ft s = .value v ↔ loads ft s = some v := by
  unfold library
  cases loads ft s <;> simp

/-- What every `json.loads` keeps to: nothing is no value, values can be written, and the white space
around an object does not count. -/
structure Lawful (ft : FloatText) (load : Str → Loaded) : Prop where
  nil : load [] = .notJson
  canonical : ∀ {s v}, load s = .value v → Canonical ft v
  strip : ∀ {s fields}, load s = .value (.obj fields) → load (strip s) = .value (.obj fields)

theorem lawful_library (ft : FloatText) : Lawful ft (library ft) where
  nil := rfl
  canonical h := canonical_of_loads (library_eq_value.mp h)
  strip h := library_eq_value.mpr (loads_strip (library_eq_value.mp h))

/-- What is cut from a text is read like the library reads it, where a value is returned. -/
def ReadsLike (ft : FloatText) (load : Str → Loaded) (text : Str) : Prop :=
  ∀ p, p <:+: text → ∀ v, load p = .value v → loads ft p = some v

theorem readsLike_library (ft : FloatText) (text : Str) : ReadsLike ft (library ft) text :=
  fun _ _ _ h => library_eq_value.mp h

/-- The standard output: `repr` of a float or a container, and the characters that it can encode. -/
structure Console where
  repr : Json → Str
  encodable : Char → Bool

/-- The print of a line does not raise. -/
def Console.prints (console : Console) (line : Str) : Bool := line.all console.encodable

end PyJson
