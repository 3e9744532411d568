import Apatchy.Foundations.Tables

/-!
# Plain objects as dictionaries

JavaScript code keeps dictionaries in plain objects. What is put under a key is a property
of the object itself; but a plain object also inherits properties from
`Object.prototype`, and both the operator `in` and a lookup find those as well. So a
lookup has three outcomes (`Apatchy.Property`): an own value, a property that every object
has, or nothing.

An object literal with a computed key makes an own property of any name
(`Apatchy.PlainObject.define`), and so does spreading one object into another
(`Apatchy.PlainObject.spread`). An assignment `obj[key] = value` does so for every name but
`__proto__`, which names the setter of the prototype, and a value that is not an object is
ignored there (`Apatchy.PlainObject.assign`).
-/

namespace Apatchy

/-- **A plain object**, by the values it has itself. -/
abbrev PlainObject (β : Type*) : Type _ := Table String β

/-- The names of the properties of `Object.prototype`. Their values are functions, but for
`__proto__`, whose value is an object. -/
def objectPrototype : List String :=
  ["constructor", "__defineGetter__", "__defineSetter__", "hasOwnProperty", "__lookupGetter__",
    "__lookupSetter__", "isPrototypeOf", "propertyIsEnumerable", "toString", "valueOf",
    "__proto__", "toLocaleString"]

/-- What a lookup finds. -/
inductive Property (β : Type*)
  /-- A value of the object itself. -/
  | own (value : β)
  /-- A property that every object has. -/
  | inherited
  /-- `undefined`. -/
  | missing
deriving DecidableEq, Repr

/-- Whether a property counts as true in a condition. -/
def Property.truthy : Property Bool → Bool
  | .own value => value
  | .inherited => true
  | .missing => false

namespace PlainObject

variable {β : Type*}

/-- `obj[key]`. -/
def get (obj : PlainObject β) (key : String) : Property β :=
  match obj key with
  | some value => .own value
  | none => if key ∈ objectPrototype then .inherited else .missing

/-- `key in obj`. -/
def has (obj : PlainObject β) (key : String) : Bool :=
  (obj key).isSome || decide (key ∈ objectPrototype)

/-- `{ ...obj, [key]: value }`. -/
def define (obj : PlainObject β) (key : String) (value : β) : PlainObject β := obj.set key value

/-- `obj[key] = value`, for a value that is not an object. -/
def assign (obj : PlainObject β) (key : String) (value : β) : PlainObject β :=
  if key = "__proto__" then obj else obj.set key value

/-- `{ ...prev, ...obj }`. -/
def spread (prev obj : PlainObject β) : PlainObject β := fun key => (obj key).or (prev key)

/-- `{}`. -/
def empty : PlainObject β := fun _ => none

variable {obj prev : PlainObject β} {key key' : String} {value : β}

@[simp] theorem has_empty : (empty : PlainObject β).has key = decide (key ∈ objectPrototype) :=
  rfl

@[simp] theorem get_define_self : (obj.define key value).get key = .own value := by
  simp [define, get, Table.set]

@[simp] theorem has_define_self : (obj.define key value).has key = true := by
  simp [define, has, Table.set]

theorem get_define_of_ne (h : key' ≠ key) : (obj.define key value).get key' = obj.get key' := by
  simp [define, get, Table.set, h]

theorem has_define_of_ne (h : key' ≠ key) : (obj.define key value).has key' = obj.has key' := by
  simp [define, has, Table.set, h]

theorem has_spread : (prev.spread obj).has key = (obj.has key || prev.has key) := by
  rcases hobj : obj key with _ | value
  · by_cases hproto : key ∈ objectPrototype <;> simp [has, spread, hobj, hproto]
  · simp [has, spread, hobj]

/-- What the own properties of a spread object are is found. -/
theorem get_spread_of_eq_some (h : obj key = some value) :
    (prev.spread obj).get key = .own value := by
  simp [get, spread, h]

theorem has_spread_of_eq_some (h : obj key = some value) :
    (prev.spread obj).has key = true := by
  simp [has, spread, h]

theorem get_spread_of_eq_none (h : obj key = none) : (prev.spread obj).get key = prev.get key := by
  simp [get, spread, h]

/-! ### Keys set in a loop -/

/-- `for (const key of keys) obj[key] = value`. -/
def assignAll (keys : List String) (value : β) (obj : PlainObject β) : PlainObject β :=
  keys.foldl (fun obj key => obj.assign key value) obj

theorem assign_apply (obj : PlainObject β) (key : String) (value : β) (key' : String) :
    obj.assign key value key' =
      if key' = key ∧ key' ≠ "__proto__" then some value else obj key' := by
  by_cases hproto : key = "__proto__"
  · subst hproto
    simp [assign]
  · by_cases hkey : key' = key
    · subst hkey
      simp [assign, hproto, Table.set]
    · simp [assign, hproto, Table.set, hkey]

/-- **Keys set in a loop are set, but for `__proto__`.** -/
theorem assignAll_apply (keys : List String) (value : β) (obj : PlainObject β) (key : String) :
    obj.assignAll keys value key =
      if key ∈ keys ∧ key ≠ "__proto__" then some value else obj key := by
  induction keys generalizing obj with
  | nil => simp [assignAll]
  | cons first keys ih =>
    have hrest := ih (obj.assign first value)
    rw [assignAll, List.foldl_cons, ← assignAll, hrest, assign_apply]
    by_cases hproto : key = "__proto__"
    · simp [hproto]
    · by_cases hkeys : key ∈ keys <;> simp [hproto, hkeys]

end PlainObject

end Apatchy
