import Apatchy.Foundations.Choice
import Mathlib.Computability.ContextFreeGrammar
import Mathlib.Data.List.MinMax

/-!
# Seeds from a grammar

`GrammarSeedGenerator` expands the start symbol of a JSON grammar into a seed
(`Apatchy.Grammar.expand`, `Apatchy.Grammar.generate`). Its random choices are a
stream of draws, and the depth that its recursion counts up to `max_depth` is counted
down here.

What a grammar is for is its language, and that is Mathlib's
(`Apatchy.Grammar.toCFG`). The two are compared token by token
(`Apatchy.Grammar.tokens`): what is emitted is always a sentential form
(`Apatchy.Grammar.always_tokens_derives`), and it is a sentence unless a key is left
in it. At `max_depth` two more productions are tried, the shortest one and below it one
without keys, and if there is none of the latter the shortest again, which leaves its
keys as they are.
-/

namespace Apatchy

/-! ### Derivations -/

/-- A word derives what its symbols derive, one after the other. -/
theorem derives_flatten {T : Type} {cfg : ContextFreeGrammar T} {u : List (Symbol T cfg.NT)}
    {vs : List (List (Symbol T cfg.NT))}
    (h : List.Forall₂ (fun s v => cfg.Derives [s] v) u vs) : cfg.Derives u vs.flatten := by
  induction h with
  | nil => exact .refl _
  | @cons s v u vs hs _ ih =>
    have hhead : cfg.Derives ([s] ++ u) (v ++ u) := hs.append_right u
    have htail : cfg.Derives (v ++ u) (v ++ vs.flatten) := ih.append_left v
    exact hhead.trans htail

/-- The terminals of what is derived were there before or come from a rule. -/
theorem terminal_mem_of_derives {T : Type} {cfg : ContextFreeGrammar T}
    {u v : List (Symbol T cfg.NT)} (h : cfg.Derives u v) {t : T} (ht : .terminal t ∈ v) :
    .terminal t ∈ u ∨ ∃ rule ∈ cfg.rules, .terminal t ∈ rule.output := by
  induction h with
  | refl => exact .inl ht
  | tail _ hstep ih =>
    obtain ⟨rule, hrule, hrewrites⟩ := hstep
    obtain ⟨front, back, rfl, rfl⟩ := hrewrites.exists_parts
    rcases List.mem_append.mp ht with hfront | hback
    · rcases List.mem_append.mp hfront with hfront | hrule'
      · exact ih (by simp [hfront])
      · exact .inr ⟨rule, hrule, hrule'⟩
    · exact ih (by simp [hback])

/-- **A grammar**: for each of its keys, the non-terminal symbols, its productions. -/
structure Grammar where
  /-- The entries of the dict. -/
  entries : List (String × List (List String))
  /-- A dict has one entry for each key. -/
  nodup : (entries.map Prod.fst).Nodup

namespace Grammar

variable (g : Grammar)

/-! ### The generator -/

/-- `self.grammar[symbol]`, for a key. -/
def productions (symbol : String) : Option (List (List String)) := g.entries.lookup symbol

/-- `symbol in self.grammar`. -/
def isKey (symbol : String) : Bool := (g.productions symbol).isSome

/-- `min(productions, key=len)`: the first of the shortest productions. -/
def shortest (productions : List (List String)) : Script Draws (List String) :=
  match productions.argmin List.length with
  | some production => pure production
  | none => Script.fail "ValueError"

/-- The first production without keys. -/
def terminalProduction (productions : List (List String)) : Option (List String) :=
  productions.find? fun production => production.all fun t => !g.isKey t

/-- `GrammarSeedGenerator._expand_terminal`. -/
def expandTerminal (symbol : String) : Script Draws String :=
  match g.productions symbol with
  | none => pure symbol
  | some productions =>
    match g.terminalProduction productions with
    | some production => return String.join production
    | none => do
      -- no production of terminals only: its tokens are joined as they are
      let production ← shortest productions
      return String.join production

/-- `GrammarSeedGenerator._expand`, the depth given by how much of it is left. -/
def expand : ℕ → String → Script Draws String
  | 0, symbol =>
    match g.productions symbol with
    | none => pure symbol
    | some productions => do
      -- the depth is used up
      let production ← shortest productions
      return String.join (← Script.each g.expandTerminal production)
  | left + 1, symbol =>
    match g.productions symbol with
    | none => pure symbol
    | some productions => do
      let chosen ← Script.choice productions
      return String.join (← Script.each (expand left) chosen)

/-- The bytes of Latin-1 text. -/
def latin1 (s : String) : List UInt8 := s.toList.map fun c => UInt8.ofNat c.toNat

/-- `str.encode("latin-1")`. -/
def encodeLatin1 (s : String) : Except String (List UInt8) :=
  if s.toList.all (·.toNat < 256) then .ok (latin1 s) else .error "UnicodeEncodeError"

/-- `GrammarSeedGenerator.generate`, on the given draws. -/
def generate (maxDepth : ℕ) (draws : Draws) : Except String (List UInt8) := do
  encodeLatin1 (← ((g.expand maxDepth "<A>").run draws).1)

/-! ### The tokens of a seed -/

/-- The tokens that `_expand_terminal` joins. -/
def tokensTerminal (symbol : String) : Script Draws (List String) :=
  match g.productions symbol with
  | none => pure [symbol]
  | some productions =>
    match g.terminalProduction productions with
    | some production => pure production
    | none => shortest productions

/-- The tokens that `_expand` joins. -/
def tokens : ℕ → String → Script Draws (List String)
  | 0, symbol =>
    match g.productions symbol with
    | none => pure [symbol]
    | some productions => do
      let production ← shortest productions
      return (← Script.each g.tokensTerminal production).flatten
  | left + 1, symbol =>
    match g.productions symbol with
    | none => pure [symbol]
    | some productions => do
      let chosen ← Script.choice productions
      return (← Script.each (tokens left) chosen).flatten

theorem join_map_join (ws : List (List String)) :
    String.join (ws.map String.join) = String.join ws.flatten := by
  induction ws with
  | nil => rfl
  | cons w ws ih => simp [ih]

theorem expandTerminal_eq (symbol : String) :
    g.expandTerminal symbol = (do return String.join (← g.tokensTerminal symbol)) := by
  unfold expandTerminal tokensTerminal
  rcases g.productions symbol with _ | productions
  · simp
  · rcases h : g.terminalProduction productions with _ | production <;> simp [h]

/-- **The text of a seed is that of its tokens.** -/
theorem expand_eq (left : ℕ) (symbol : String) :
    g.expand left symbol = (do return String.join (← g.tokens left symbol)) := by
  induction left generalizing symbol with
  | zero =>
    unfold expand tokens
    rcases g.productions symbol with _ | productions
    · simp
    · simp [Script.each_map g.expandTerminal_eq, join_map_join]
  | succ left ih =>
    unfold expand tokens
    rcases g.productions symbol with _ | productions
    · simp
    · simp [Script.each_map ih, join_map_join]

/-! ### The language of a grammar -/

/-- A token, as a symbol. -/
def symbol (t : String) : Symbol String String :=
  if g.isKey t then .nonterminal t else .terminal t

/-- **The context-free grammar** that a grammar writes down. -/
abbrev toCFG : ContextFreeGrammar String where
  NT := String
  initial := "<A>"
  rules := (g.entries.flatMap fun entry =>
    entry.2.map fun production => ⟨entry.1, production.map g.symbol⟩).toFinset

/-- **The grammars that a generator is for**: the start symbol is a key, every key has a
production and derives a terminal string, and the terminals are Latin-1 text. -/
structure WellFormed : Prop where
  /-- The start symbol is a key. -/
  start : g.isKey "<A>"
  /-- Every key has a production. -/
  nonempty : ∀ X productions, g.productions X = some productions → productions ≠ []
  /-- Every key derives a terminal string. -/
  productive : ∀ X, g.isKey X → ∃ w : List String,
    g.toCFG.Derives [.nonterminal X] (w.map .terminal)
  /-- The terminals are Latin-1 text. -/
  latin1 : ∀ entry ∈ g.entries, ∀ production ∈ entry.2, ∀ t ∈ production,
    g.isKey t = false → t.toList.all (·.toNat < 256)

variable {g}

theorem mem_entries_of_productions {X : String} {productions : List (List String)}
    (h : g.productions X = some productions) : (X, productions) ∈ g.entries := by
  rw [Grammar.productions, List.lookup_eq_some_iff] at h
  obtain ⟨front, back, hentries, -⟩ := h
  rw [hentries]
  exact List.mem_append_right _ (List.mem_cons_self ..)

/-- A key derives each of its productions. -/
theorem derives_production {X : String} {productions : List (List String)}
    (h : g.productions X = some productions) {production : List String}
    (hmem : production ∈ productions) :
    g.toCFG.Derives [.nonterminal X] (production.map g.symbol) := by
  have hrule : (⟨X, production.map g.symbol⟩ : ContextFreeRule String String) ∈ g.toCFG.rules :=
    List.mem_toFinset.mpr (List.mem_flatMap.mpr
      ⟨_, mem_entries_of_productions h, List.mem_map_of_mem hmem⟩)
  exact .single ⟨_, hrule, ContextFreeRule.Rewrites.input_output⟩

/-- What a single symbol is rewritten to. -/
theorem produces_singleton {s : Symbol String String} {v : List (Symbol String String)}
    (h : g.toCFG.Produces [s] v) : ∃ entry ∈ g.entries, ∃ production ∈ entry.2,
      s = .nonterminal entry.1 ∧ v = production.map g.symbol := by
  obtain ⟨rule, hrule, hrewrites⟩ := h
  obtain ⟨entry, hentry, hrule⟩ := List.mem_flatMap.mp (List.mem_toFinset.mp hrule)
  obtain ⟨production, hproduction, rfl⟩ := List.mem_map.mp hrule
  refine ⟨entry, hentry, production, hproduction, ?_⟩
  cases hrewrites with
  | head => simp
  | cons _ hnil => cases hnil

theorem symbol_of_productions {X : String} {productions : List (List String)}
    (h : g.productions X = some productions) : g.symbol X = .nonterminal X := by
  simp [symbol, isKey, h]

theorem symbol_of_not_isKey {t : String} (h : g.isKey t = false) : g.symbol t = .terminal t := by
  simp [symbol, h]

/-- The symbols of tokens without keys. -/
theorem map_symbol_of_not_isKey {w : List String} (h : ∀ t ∈ w, g.isKey t = false) :
    w.map g.symbol = w.map .terminal :=
  List.map_congr_left fun t ht => symbol_of_not_isKey (h t ht)

theorem shortest_mem {productions : List (List String)} {production : List String}
    (h : productions.argmin List.length = some production) : production ∈ productions :=
  List.argmin_mem h

/-- A nonempty list of productions has a shortest one. -/
theorem exists_argmin {productions : List (List String)} (h : productions ≠ []) :
    ∃ production, productions.argmin List.length = some production := by
  rcases hmin : productions.argmin List.length with _ | production
  · exact absurd (List.argmin_eq_none.mp hmin) h
  · exact ⟨production, rfl⟩

theorem shortest_eq {productions : List (List String)} {production : List String}
    (h : productions.argmin List.length = some production) :
    shortest productions = pure production := by
  rw [shortest, h]

variable (g) in
/-- Nothing but terminals. -/
def KeyFree (w : List String) : Prop := ∀ t ∈ w, g.isKey t = false

theorem all_not_isKey (w : List String) : (w.all fun t => !g.isKey t) = true ↔ g.KeyFree w := by
  simp [KeyFree]

theorem terminalProduction_eq_some {productions : List (List String)} {production : List String}
    (h : g.terminalProduction productions = some production) :
    production ∈ productions ∧ g.KeyFree production := by
  rw [terminalProduction] at h
  have hfree := List.find?_some h
  exact ⟨List.mem_of_find?_eq_some h, (all_not_isKey production).mp hfree⟩

theorem terminalProduction_eq_none {productions : List (List String)} :
    g.terminalProduction productions = none ↔
      ∀ production ∈ productions, ¬ g.KeyFree production := by
  simp only [terminalProduction, List.find?_eq_none, all_not_isKey]

/-! ### What is emitted for a symbol -/

theorem tokensTerminal_of_none {t : String} (h : g.productions t = none) :
    g.tokensTerminal t = pure [t] := by
  rw [tokensTerminal, h]

theorem tokensTerminal_of_some {X : String} {productions : List (List String)}
    (h : g.productions X = some productions) {production : List String}
    (hterm : g.terminalProduction productions = some production) :
    g.tokensTerminal X = pure production := by
  simp only [tokensTerminal, h, hterm]

theorem tokensTerminal_of_shortest {X : String} {productions : List (List String)}
    (h : g.productions X = some productions) (hterm : g.terminalProduction productions = none)
    {production : List String} (hmin : productions.argmin List.length = some production) :
    g.tokensTerminal X = pure production := by
  simp only [tokensTerminal, h, hterm, shortest_eq hmin]

theorem tokens_of_none {t : String} (h : g.productions t = none) (left : ℕ) :
    g.tokens left t = pure [t] := by
  cases left <;> simp only [tokens, h]

theorem tokens_zero {X : String} {productions : List (List String)}
    (h : g.productions X = some productions) {production : List String}
    (hmin : productions.argmin List.length = some production) :
    g.tokens 0 X = (do return (← Script.each g.tokensTerminal production).flatten) := by
  simp only [tokens, h, shortest_eq hmin, pure_bind]

theorem tokens_succ {X : String} {productions : List (List String)}
    (h : g.productions X = some productions) (left : ℕ) :
    g.tokens (left + 1) X = (do
      let chosen ← Script.choice productions
      return (← Script.each (g.tokens left) chosen).flatten) := by
  simp only [tokens, h]

/-! ### What is emitted is a sentential form -/

/-- The tokens below the cut derive from the symbol they stand for. -/
theorem always_tokensTerminal_derives (hg : g.WellFormed) (t : String) :
    (g.tokensTerminal t).Always fun w => g.toCFG.Derives [g.symbol t] (w.map g.symbol) := by
  rcases hprods : g.productions t with _ | productions
  · rw [tokensTerminal_of_none hprods]
    exact Script.Always.pure (.refl _)
  rw [symbol_of_productions hprods]
  rcases hterm : g.terminalProduction productions with _ | production
  · obtain ⟨production, hmin⟩ := exists_argmin (hg.nonempty _ _ hprods)
    rw [tokensTerminal_of_shortest hprods hterm hmin]
    exact Script.Always.pure (derives_production hprods (shortest_mem hmin))
  · rw [tokensTerminal_of_some hprods hterm]
    exact Script.Always.pure (derives_production hprods (terminalProduction_eq_some hterm).1)

/-- The symbols of the tokens emitted for the tokens of a production. -/
theorem derives_map_flatten {production : List String} {ws : List (List String)}
    (h : List.Forall₂ (fun t w => g.toCFG.Derives [g.symbol t] (w.map g.symbol)) production ws) :
    g.toCFG.Derives (production.map g.symbol) (ws.flatten.map g.symbol) := by
  rw [List.map_flatten]
  refine derives_flatten ?_
  rw [List.forall₂_map_left_iff, List.forall₂_map_right_iff]
  exact h

/-- **What is emitted derives from the symbol expanded**, whatever is drawn and wherever
the expansion is cut. -/
theorem always_tokens_derives (hg : g.WellFormed) (left : ℕ) (t : String) :
    (g.tokens left t).Always fun w => g.toCFG.Derives [g.symbol t] (w.map g.symbol) := by
  induction left generalizing t with
  | zero =>
    rcases hprods : g.productions t with _ | productions
    · rw [tokens_of_none hprods]
      exact Script.Always.pure (.refl _)
    obtain ⟨production, hmin⟩ := exists_argmin (hg.nonempty _ _ hprods)
    rw [tokens_zero hprods hmin, symbol_of_productions hprods]
    have heach := Script.always_each fun u (_ : u ∈ production) =>
      always_tokensTerminal_derives hg u
    refine heach.bind fun ws hws => Script.Always.pure ?_
    exact (derives_production hprods (shortest_mem hmin)).trans (derives_map_flatten hws)
  | succ left ih =>
    rcases hprods : g.productions t with _ | productions
    · rw [tokens_of_none hprods]
      exact Script.Always.pure (.refl _)
    rw [tokens_succ hprods, symbol_of_productions hprods]
    refine (Script.always_choice (hg.nonempty _ _ hprods)).bind fun chosen hchosen => ?_
    refine (Script.always_each fun u _ => ih u).bind fun ws hws => Script.Always.pure ?_
    exact (derives_production hprods hchosen).trans (derives_map_flatten hws)

/-! ### Where the expansion is cut -/

variable (g) in
/-- A key is a token of a production of another. -/
def Step (X Y : String) : Prop :=
  ∃ productions, g.productions X = some productions ∧
    ∃ production ∈ productions, Y ∈ production ∧ g.isKey Y

variable (g) in
/-- The keys that are reached in a given number of expansions. -/
inductive Reaches : ℕ → String → String → Prop
  /-- A key itself. -/
  | refl (X : String) : Reaches 0 X X
  /-- A key of one of its productions, and on from there. -/
  | step {n : ℕ} {X Y Z : String} : g.Step X Y → Reaches n Y Z → Reaches (n + 1) X Z

variable (g) in
/-- The key has a production without keys. -/
def HasTerminalProduction (X : String) : Prop :=
  ∃ productions, g.productions X = some productions ∧
    ∃ production ∈ productions, g.KeyFree production

variable (g) in
/-- Every key of the shortest production of a key has a production without keys. -/
def Closes (X : String) : Prop :=
  ∀ productions production, g.productions X = some productions →
    productions.argmin List.length = some production →
    ∀ t ∈ production, g.isKey t → g.HasTerminalProduction t

variable (g) in
/-- **The cut at this depth leaves terminals only**: it closes every key that is reached
from the start symbol in as many expansions. -/
def ClosesAt (maxDepth : ℕ) : Prop := ∀ X, g.Reaches maxDepth "<A>" X → g.Closes X

theorem isKey_eq_false {t : String} (h : g.productions t = none) : g.isKey t = false := by
  simp [isKey, h]

theorem isKey_of_some {X : String} {productions : List (List String)}
    (h : g.productions X = some productions) : g.isKey X = true := by
  simp [isKey, h]

theorem keyFree_flatten {α : Type} {as : List α} {ws : List (List String)}
    (h : List.Forall₂ (fun _ w => g.KeyFree w) as ws) : g.KeyFree ws.flatten := by
  intro t ht
  obtain ⟨w, hw, htw⟩ := List.mem_flatten.mp ht
  exact Script.forall_mem_of_forall₂ h w hw t htw

/-! ### A cut that closes -/

/-- Below the cut, a key with a production without keys leaves terminals only. -/
theorem always_tokensTerminal_keyFree {t : String}
    (h : g.isKey t → g.HasTerminalProduction t) : (g.tokensTerminal t).Always g.KeyFree := by
  rcases hprods : g.productions t with _ | productions
  · rw [tokensTerminal_of_none hprods]
    exact Script.Always.pure (by simpa [KeyFree] using isKey_eq_false hprods)
  obtain ⟨productions', hprods', production, hmem, hfree⟩ := h (isKey_of_some hprods)
  obtain rfl : productions = productions' := Option.some.inj (hprods.symm.trans hprods')
  rcases hterm : g.terminalProduction productions with _ | first
  · exact absurd hfree (terminalProduction_eq_none.mp hterm production hmem)
  · rw [tokensTerminal_of_some hprods hterm]
    exact Script.Always.pure (terminalProduction_eq_some hterm).2

/-- **A cut that closes every key it meets leaves terminals only.** -/
theorem always_tokens_keyFree (hg : g.WellFormed) (left : ℕ) (t : String)
    (h : ∀ Y, g.Reaches left t Y → g.Closes Y) : (g.tokens left t).Always g.KeyFree := by
  induction left generalizing t with
  | zero =>
    rcases hprods : g.productions t with _ | productions
    · rw [tokens_of_none hprods]
      exact Script.Always.pure (by simpa [KeyFree] using isKey_eq_false hprods)
    obtain ⟨production, hmin⟩ := exists_argmin (hg.nonempty _ _ hprods)
    have hcloses := h t (.refl t) productions production hprods hmin
    -- the key is cut: its shortest production is taken, key by key
    rw [tokens_zero hprods hmin]
    refine (Script.always_each fun u hu => always_tokensTerminal_keyFree (hcloses u hu)).bind ?_
    exact fun ws hws => Script.Always.pure (keyFree_flatten hws)
  | succ left ih =>
    rcases hprods : g.productions t with _ | productions
    · rw [tokens_of_none hprods]
      exact Script.Always.pure (by simpa [KeyFree] using isKey_eq_false hprods)
    rw [tokens_succ hprods]
    refine (Script.always_choice (hg.nonempty _ _ hprods)).bind fun chosen hchosen => ?_
    -- what is reached from a token in the steps left is reached from the key in one more
    have heach : ∀ u ∈ chosen, (g.tokens left u).Always g.KeyFree := by
      intro u hu
      rcases hu' : g.productions u with _ | productions'
      · rw [tokens_of_none hu']
        exact Script.Always.pure (by simpa [KeyFree] using isKey_eq_false hu')
      have hstep : g.Step t u := ⟨productions, hprods, chosen, hchosen, hu, isKey_of_some hu'⟩
      exact ih u fun Y hY => h Y (.step hstep hY)
    exact (Script.always_each heach).bind fun ws hws => Script.Always.pure (keyFree_flatten hws)

/-! ### A cut that leaves a key -/

theorem exists_can_tokensTerminal (hg : g.WellFormed) (t : String) :
    ∃ w, (g.tokensTerminal t).Can w := by
  rcases hprods : g.productions t with _ | productions
  · exact ⟨[t], by rw [tokensTerminal_of_none hprods]; exact Script.Can.pure _⟩
  rcases hterm : g.terminalProduction productions with _ | production
  · obtain ⟨production, hmin⟩ := exists_argmin (hg.nonempty _ _ hprods)
    exact ⟨production, by
      rw [tokensTerminal_of_shortest hprods hterm hmin]
      exact Script.Can.pure _⟩
  · exact ⟨production, by rw [tokensTerminal_of_some hprods hterm]; exact Script.Can.pure _⟩

theorem exists_can_tokens (hg : g.WellFormed) (left : ℕ) (t : String) :
    ∃ w, (g.tokens left t).Can w := by
  induction left generalizing t with
  | zero =>
    rcases hprods : g.productions t with _ | productions
    · exact ⟨[t], by rw [tokens_of_none hprods]; exact Script.Can.pure _⟩
    obtain ⟨production, hmin⟩ := exists_argmin (hg.nonempty _ _ hprods)
    obtain ⟨ws, hws⟩ := Script.exists_can_each fun u (_ : u ∈ production) =>
      exists_can_tokensTerminal hg u
    exact ⟨ws.flatten, by rw [tokens_zero hprods hmin]; exact hws.bind (Script.Can.pure _)⟩
  | succ left ih =>
    rcases hprods : g.productions t with _ | productions
    · exact ⟨[t], by rw [tokens_of_none hprods]; exact Script.Can.pure _⟩
    obtain ⟨chosen, hchosen⟩ := List.exists_mem_of_ne_nil _ (hg.nonempty _ _ hprods)
    obtain ⟨ws, hws⟩ := Script.exists_can_each fun u (_ : u ∈ chosen) => ih u
    refine ⟨ws.flatten, ?_⟩
    rw [tokens_succ hprods]
    exact (Script.can_choice hchosen).bind (hws.bind (Script.Can.pure _))

/-- Below the cut, a key without such a production leaves a key. -/
theorem exists_key_of_tokensTerminal (hg : g.WellFormed) {t : String} (ht : g.isKey t)
    (h : ¬ g.HasTerminalProduction t) :
    ∃ w, (g.tokensTerminal t).Can w ∧ ¬ g.KeyFree w := by
  rcases hprods : g.productions t with _ | productions
  · simp [isKey_eq_false hprods] at ht
  have hfree : ∀ production ∈ productions, ¬ g.KeyFree production :=
    fun production hmem hfree => h ⟨productions, hprods, production, hmem, hfree⟩
  have hterm := terminalProduction_eq_none.mpr hfree
  obtain ⟨production, hmin⟩ := exists_argmin (hg.nonempty _ _ hprods)
  refine ⟨production, ?_, hfree production (shortest_mem hmin)⟩
  rw [tokensTerminal_of_shortest hprods hterm hmin]
  exact Script.Can.pure _

theorem not_keyFree_flatten {ws : List (List String)} {w : List String} (hw : w ∈ ws)
    (h : ¬ g.KeyFree w) : ¬ g.KeyFree ws.flatten :=
  fun hfree => h fun t ht => hfree t (List.mem_flatten.mpr ⟨w, hw, ht⟩)

/-- **A cut that does not close a key it meets leaves a key**, on some draws. -/
theorem exists_key_of_reaches (hg : g.WellFormed) {left : ℕ} {X Y : String}
    (hreach : g.Reaches left X Y) (h : ¬ g.Closes Y) :
    ∃ w, (g.tokens left X).Can w ∧ ¬ g.KeyFree w := by
  induction hreach with
  | refl X =>
    simp only [Closes, not_forall] at h
    obtain ⟨productions, production, hprods, hmin, t, ht, hkey, hclosed⟩ := h
    obtain ⟨w, hw, hleft⟩ := exists_key_of_tokensTerminal hg hkey hclosed
    obtain ⟨ws, hws, hmem⟩ := Script.exists_can_each_mem
      (fun u _ => exists_can_tokensTerminal hg u) ht hw
    refine ⟨ws.flatten, ?_, not_keyFree_flatten hmem hleft⟩
    rw [tokens_zero hprods hmin]
    exact hws.bind (Script.Can.pure _)
  | @step n X Y Z hstep _ ih =>
    obtain ⟨productions, hprods, chosen, hchosen, hY, -⟩ := hstep
    obtain ⟨w, hw, hleft⟩ := ih h
    obtain ⟨ws, hws, hmem⟩ := Script.exists_can_each_mem
      (fun u _ => exists_can_tokens hg n u) hY hw
    refine ⟨ws.flatten, ?_, not_keyFree_flatten hmem hleft⟩
    rw [tokens_succ hprods]
    exact (Script.can_choice hchosen).bind (hws.bind (Script.Can.pure _))

/-! ### Seeds and sentences -/

theorem mem_language_iff {w : List String} :
    w ∈ g.toCFG.language ↔ g.toCFG.Derives [.nonterminal "<A>"] (w.map .terminal) := Iff.rfl

/-- The terminals of a sentence are written in the productions. -/
theorem mem_production_of_mem_language {w : List String} (hw : w ∈ g.toCFG.language) {t : String}
    (ht : t ∈ w) : ∃ entry ∈ g.entries, ∃ production ∈ entry.2, t ∈ production ∧
      g.isKey t = false := by
  have hmem : (.terminal t : Symbol String String) ∈ w.map .terminal := List.mem_map_of_mem ht
  rcases terminal_mem_of_derives (mem_language_iff.mp hw) hmem with hstart | ⟨rule, hrule, hout⟩
  · simp at hstart
  obtain ⟨entry, hentry, hrule⟩ := List.mem_flatMap.mp (List.mem_toFinset.mp hrule)
  obtain ⟨production, hproduction, rfl⟩ := List.mem_map.mp hrule
  obtain ⟨u, hu, hsymbol⟩ := List.mem_map.mp hout
  refine ⟨entry, hentry, production, hproduction, ?_⟩
  rcases hkey : g.isKey u with _ | _
  · rw [symbol_of_not_isKey hkey] at hsymbol
    obtain rfl : u = t := Symbol.terminal.inj hsymbol
    exact ⟨hu, hkey⟩
  · simp [symbol, hkey] at hsymbol

/-- **A sentence is Latin-1 text.** -/
theorem encodeLatin1_of_mem_language (hg : g.WellFormed) {w : List String}
    (hw : w ∈ g.toCFG.language) : encodeLatin1 (String.join w) = .ok (latin1 (String.join w)) := by
  refine if_pos (List.all_eq_true.mpr fun c hc => ?_)
  rw [String.toList_join] at hc
  obtain ⟨t, ht, hct⟩ := List.mem_flatMap.mp hc
  obtain ⟨entry, hentry, production, hproduction, hmem, hkey⟩ :=
    mem_production_of_mem_language hw ht
  exact List.all_eq_true.mp (hg.latin1 entry hentry production hproduction t hmem hkey) c hct

/-- Tokens that derive from the start symbol and hold no key are a sentence. -/
theorem mem_language_of_keyFree (hg : g.WellFormed) {w : List String}
    (hw : g.toCFG.Derives [g.symbol "<A>"] (w.map g.symbol)) (hfree : g.KeyFree w) :
    w ∈ g.toCFG.language := by
  rw [map_symbol_of_not_isKey hfree] at hw
  have hstart : g.symbol "<A>" = .nonterminal "<A>" := by simp [symbol, hg.start]
  rwa [hstart] at hw

theorem generate_of_tokens {maxDepth : ℕ} {draws rest : Draws} {w : List String}
    (h : (g.tokens maxDepth "<A>").run draws = (.ok w, rest)) :
    g.generate maxDepth draws = encodeLatin1 (String.join w) := by
  have hexpand : (g.expand maxDepth "<A>").run draws = (.ok (String.join w), rest) := by
    rw [expand_eq, Script.run_bind_of_ok h]
    rfl
  rw [generate, hexpand]
  rfl

variable (g) in
/-- **The generator returns a sentence** on these draws: the tokens it emits are a sentence
of the grammar, without any key, and what it returns is their text in Latin-1. -/
def ReturnsSentence (maxDepth : ℕ) (draws : Draws) : Prop :=
  ∃ w ∈ g.toCFG.language, g.KeyFree w ∧
    ((g.tokens maxDepth "<A>").run draws).1 = .ok w ∧
    g.generate maxDepth draws = .ok (latin1 (String.join w))

/-- **Seeds are sentences exactly if the cut closes every key it meets.** -/
theorem returnsSentence_iff (hg : g.WellFormed) (maxDepth : ℕ) :
    (∀ draws, g.ReturnsSentence maxDepth draws) ↔ g.ClosesAt maxDepth := by
  constructor
  · intro hall X hX
    by_contra hopen
    obtain ⟨w, ⟨ds, hrun⟩, hkey⟩ := exists_key_of_reaches hg hX hopen
    obtain ⟨w', -, hfree, htokens, -⟩ := hall (Stream'.appendStream' ds (Stream'.const 0))
    rw [hrun] at htokens
    obtain rfl : w = w' := Except.ok.inj htokens
    exact hkey hfree
  · intro hcloses draws
    obtain ⟨w, rest, hrun, hderives⟩ := always_tokens_derives hg maxDepth "<A>" draws
    obtain ⟨w', rest', hrun', hfree⟩ := always_tokens_keyFree hg maxDepth "<A>" hcloses draws
    have hw : w' = w := by
      rw [hrun] at hrun'
      exact (Except.ok.inj (congrArg Prod.fst hrun')).symm
    subst hw
    have hmem := mem_language_of_keyFree hg hderives hfree
    refine ⟨w', hmem, hfree, by rw [hrun], ?_⟩
    rw [generate_of_tokens hrun, encodeLatin1_of_mem_language hg hmem]

/-- A grammar that calls itself, with a way out. -/
def recursive : Grammar where
  entries := [("<A>", [["<A>", "x"], ["y"]])]
  nodup := by decide

theorem recursive_wellFormed : recursive.WellFormed where
  start := by decide
  nonempty := by
    intro X productions h
    have hmem := mem_entries_of_productions h
    simp only [recursive, List.mem_singleton, Prod.mk.injEq] at hmem
    simp [hmem.2]
  productive := by
    intro X hX
    obtain ⟨productions, h⟩ := Option.isSome_iff_exists.mp hX
    have hmem := mem_entries_of_productions h
    simp only [recursive, List.mem_singleton, Prod.mk.injEq] at hmem
    have hy : ["y"] ∈ productions := by simp [hmem.2]
    exact ⟨["y"], derives_production h hy⟩
  latin1 := by decide

theorem recursive_closesAt : recursive.ClosesAt 5 := by
  intro X _ productions production h hmin t ht hkey
  have hmem := mem_entries_of_productions h
  simp only [recursive, List.mem_singleton, Prod.mk.injEq] at hmem
  obtain ⟨rfl, rfl⟩ := hmem
  obtain rfl : ["y"] = production := Option.some.inj hmin
  obtain rfl : t = "y" := by simpa using ht
  exact absurd hkey (by decide)

/-- **Seeds of a grammar that calls itself**, cut at depth five. -/
theorem returnsSentence_recursive :
    recursive.WellFormed ∧ ∀ draws, recursive.ReturnsSentence 5 draws :=
  ⟨recursive_wellFormed, (returnsSentence_iff recursive_wellFormed 5).mpr recursive_closesAt⟩

/-! ### A grammar whose seeds keep a key -/

/-- Three keys in a ring, and one way out. -/
def ring : Grammar where
  entries := [("<A>", [["<B>"]]), ("<B>", [["<C>"]]), ("<C>", [["<A>"], ["x"]])]
  nodup := by decide

theorem mem_ring {X : String} {productions : List (List String)}
    (h : ring.productions X = some productions) :
    (X = "<A>" ∧ productions = [["<B>"]]) ∨ (X = "<B>" ∧ productions = [["<C>"]]) ∨
      (X = "<C>" ∧ productions = [["<A>"], ["x"]]) := by
  simpa [ring] using mem_entries_of_productions h

theorem ring_productions_C : ring.productions "<C>" = some [["<A>"], ["x"]] := rfl

theorem ring_derives_C : ring.toCFG.Derives [.nonterminal "<C>"] [.terminal "x"] :=
  have hmem : ["x"] ∈ [["<A>"], ["x"]] := by decide
  derives_production ring_productions_C hmem

theorem ring_derives_B : ring.toCFG.Derives [.nonterminal "<B>"] [.terminal "x"] :=
  have hmem : ["<C>"] ∈ [["<C>"]] := by decide
  have hprods : ring.productions "<B>" = some [["<C>"]] := rfl
  (derives_production hprods hmem).trans ring_derives_C

theorem ring_derives_A : ring.toCFG.Derives [.nonterminal "<A>"] [.terminal "x"] :=
  have hmem : ["<B>"] ∈ [["<B>"]] := by decide
  have hprods : ring.productions "<A>" = some [["<B>"]] := rfl
  (derives_production hprods hmem).trans ring_derives_B

theorem ring_wellFormed : ring.WellFormed where
  start := by decide
  nonempty := by
    intro X productions h
    rcases mem_ring h with ⟨-, rfl⟩ | ⟨-, rfl⟩ | ⟨-, rfl⟩ <;> simp
  productive := by
    intro X hX
    obtain ⟨productions, h⟩ := Option.isSome_iff_exists.mp hX
    refine ⟨["x"], ?_⟩
    rcases mem_ring h with ⟨rfl, -⟩ | ⟨rfl, -⟩ | ⟨rfl, -⟩
    · exact ring_derives_A
    · exact ring_derives_B
    · exact ring_derives_C
  latin1 := by decide

/-- What the start symbol of the ring derives. -/
theorem ring_derives {v : List (Symbol String String)}
    (h : ring.toCFG.Derives [.nonterminal "<A>"] v) :
    v ∈ [[.nonterminal "<A>"], [.nonterminal "<B>"], [.nonterminal "<C>"],
      [.terminal "x"]] := by
  induction h with
  | refl => simp
  | @tail u v _ hstep ih =>
    obtain ⟨s, rfl⟩ : ∃ s, u = [s] := by
      simp only [List.mem_cons, List.not_mem_nil, or_false] at ih
      rcases ih with rfl | rfl | rfl | rfl <;> exact ⟨_, rfl⟩
    obtain ⟨entry, hentry, production, hproduction, -, rfl⟩ := produces_singleton hstep
    simp only [ring, List.mem_cons, List.not_mem_nil, or_false] at hentry
    rcases hentry with rfl | rfl | rfl <;> simp only [List.mem_cons, List.not_mem_nil, or_false]
      at hproduction
    · subst hproduction
      decide
    · subst hproduction
      decide
    · rcases hproduction with rfl | rfl <;> decide

/-- **The ring has one sentence and the generator returns another text**: with the default
depth and the first production chosen each time, the key `<C>` is the whole seed. -/
theorem ring_generate :
    ring.WellFormed ∧ ring.generate 12 (Stream'.const 0) = .ok (latin1 "<C>") ∧
      (∀ w ∈ ring.toCFG.language, latin1 (String.join w) ≠ latin1 "<C>") ∧
      ¬ ring.ReturnsSentence 12 (Stream'.const 0) := by
  have hsentence : ∀ w ∈ ring.toCFG.language, w = ["x"] := by
    intro w hw
    have hmem := ring_derives (mem_language_iff.mp hw)
    rcases w with _ | ⟨t, _ | ⟨u, w⟩⟩ <;> simp at hmem
    rw [hmem]
  have htext : ∀ w ∈ ring.toCFG.language, latin1 (String.join w) ≠ latin1 "<C>" := by
    intro w hw
    rw [hsentence w hw]
    decide
  refine ⟨ring_wellFormed, rfl, htext, ?_⟩
  rintro ⟨w, hw, -, -, hgenerate⟩
  exact htext w hw (Except.ok.inj hgenerate).symm

end Grammar

end Apatchy
