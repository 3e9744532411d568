import Mathlib.Data.List.Basic

/-!
# Command lines

A program reads its arguments as options. Some stand alone; others take the next argument as
their value, whatever it looks like (`Apatchy.readOptions`). Which these are is a matter of the
program.

Options are printed as arguments (`Apatchy.printOptions`) and read back as they were, if they
fit the program (`Apatchy.readOptions_printOptions`).
-/

namespace Apatchy

/-- An option of a command. -/
inductive CommandOption
  /-- One argument. -/
  | alone (arg : String)
  /-- An option, and its value as the next argument. -/
  | valued (name value : String)
deriving DecidableEq

namespace CommandOption

/-- The arguments of an option. -/
def args : CommandOption → List String
  | alone arg => [arg]
  | valued name value => [name, value]

/-- **An option fits a program**, which takes it with a value or without. -/
def Fits (separate : String → Bool) : CommandOption → Prop
  | alone arg => separate arg = false
  | valued name _ => separate name = true

end CommandOption

/-- The arguments of some options. -/
def printOptions (options : List CommandOption) : List String :=
  options.flatMap CommandOption.args

/-- **Reading arguments as options.** -/
def readOptions (separate : String → Bool) : List String → List CommandOption
  | [] => []
  | [arg] => [.alone arg]
  | arg :: value :: args =>
    if separate arg then .valued arg value :: readOptions separate args
    else .alone arg :: readOptions separate (value :: args)

@[simp] theorem printOptions_nil : printOptions [] = [] := rfl

@[simp] theorem printOptions_alone (arg : String) (options : List CommandOption) :
    printOptions (.alone arg :: options) = arg :: printOptions options := rfl

@[simp] theorem printOptions_valued (name value : String) (options : List CommandOption) :
    printOptions (.valued name value :: options) = name :: value :: printOptions options := rfl

theorem printOptions_append (options options' : List CommandOption) :
    printOptions (options ++ options') = printOptions options ++ printOptions options' :=
  List.flatMap_append

theorem mem_printOptions {options : List CommandOption} {arg : String} :
    arg ∈ printOptions options ↔
      .alone arg ∈ options ∨ ∃ name value, .valued name value ∈ options ∧
        (arg = name ∨ arg = value) := by
  rw [printOptions, List.mem_flatMap]
  constructor
  · rintro ⟨option, hoption, harg⟩
    rcases option with word | ⟨name, value⟩
    · obtain rfl : arg = word := by simpa [CommandOption.args] using harg
      exact Or.inl hoption
    · exact Or.inr ⟨name, value, hoption, by simpa [CommandOption.args] using harg⟩
  · rintro (hoption | ⟨name, value, hoption, harg⟩)
    · exact ⟨_, hoption, List.mem_singleton_self arg⟩
    · exact ⟨_, hoption, by simpa [CommandOption.args] using harg⟩

variable {separate : String → Bool}

theorem readOptions_alone {arg : String} (h : separate arg = false) (args : List String) :
    readOptions separate (arg :: args) = .alone arg :: readOptions separate args := by
  rcases args with _ | ⟨value, args⟩
  · rfl
  · rw [readOptions, h, if_neg Bool.false_ne_true]

/-- **Options that fit are read back.** -/
theorem readOptions_printOptions {options : List CommandOption}
    (h : ∀ option ∈ options, option.Fits separate) :
    readOptions separate (printOptions options) = options := by
  induction options with
  | nil => rfl
  | cons option options ih =>
    have hfits := h option List.mem_cons_self
    have ih' := ih fun option' hoption' => h option' (List.mem_cons_of_mem _ hoption')
    rcases option with arg | ⟨name, value⟩
    · rw [printOptions_alone, readOptions_alone hfits, ih']
    · have hseparate : separate name = true := hfits
      rw [printOptions_valued, readOptions, if_pos hseparate, ih']

end Apatchy
