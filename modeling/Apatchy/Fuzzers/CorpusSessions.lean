import Apatchy.Foundations.AddedFiles
import Apatchy.Foundations.Machine
import Apatchy.Fuzzers.Grammar

/-!
# The corpus over many sessions

`FuzzManager.start_fuzzer` prepares a directory of seeds (`Apatchy.prepareCorpus`), which it may
fill from a grammar, copies the seeds to the queue of the fuzzer (`Apatchy.startFuzzer`), and
starts it. The queue is kept from session to session, so that what a session may do to it
matters for the later ones.

A call only adds files (`Apatchy.safe_fuzzCall`), wherever it is interrupted. In the queue these
are seeds, or the beginning of one if the call was cut off there; and when it returns, without
`resume` and for the engine that there is, every seed is in the queue. Since a name that is in
the queue is not copied again, the beginning of a seed that was left stays, and so does a seed
that has been changed since (`Apatchy.queue_history`).

The names of a directory are listed in some order, which is a part of a call, as are its random
choices.
-/

namespace Apatchy

/-! ### Seeds -/

/-- `f"grammar_{written:04d}.txt"`. -/
def grammarName (written : ℕ) : String :=
  let digits := (toString written).toList
  String.ofList ("grammar_".toList ++ List.replicate (4 - digits.length) '0' ++ digits ++
    ".txt".toList)

/-- `fnmatch(name, "grammar_*.txt")`. -/
def isGrammarName (name : String) : Bool :=
  "grammar_".toList.isPrefixOf name.toList && ".txt".toList.isSuffixOf name.toList &&
    12 ≤ name.toList.length

/-- `b"GET / HTTP/1.1\r\nHost: localhost\r\n\r\n"`. -/
def defaultSeed : List UInt8 :=
  Grammar.latin1 "GET / HTTP/1.1\r\nHost: localhost\r\n\r\n"

/-- The names that a call may give to seeds. -/
def ownNames : List String := "seed1.txt" :: (List.range 50).map grammarName

/-- The grammar of a call. -/
inductive GrammarArg
  /-- There is none. -/
  | absent
  /-- Its file is not there. -/
  | missing
  /-- Its file cannot be read. -/
  | unreadable
  /-- A grammar. -/
  | parsed (g : Grammar)

/-- An argument for a directory. -/
inductive DirArg
  /-- There is none. -/
  | absent
  /-- The empty text. -/
  | empty
  /-- A directory. -/
  | path (p : Path)
deriving DecidableEq

/-- `arg or default`. -/
def DirArg.orDefault : DirArg → Path → Path
  | path p, _ => p
  | _, default => default

/-- `ENGINES`. -/
def engines : List String := ["libfuzzer"]

/-- A call of `start_fuzzer`. -/
structure FuzzCall where
  /-- `engine`. -/
  engine : String := "libfuzzer"
  /-- `seed_dir`. -/
  seedDir : DirArg := .absent
  /-- `output_dir`. -/
  outputDir : DirArg := .path ["fuzz-output"]
  /-- `grammar`. -/
  grammar : GrammarArg := .absent
  /-- `resume`. -/
  resume : Bool := false
  /-- The random choices of the seeds, one after the other. -/
  draws : ℕ → Draws
  /-- The order in which names are listed. -/
  order : List String
  /-- The names that the call gives are listed. -/
  order_own : ∀ n ∈ ownNames, n ∈ order

namespace FuzzCall

/-- `seed_path`. -/
def seedPath (call : FuzzCall) : Path := call.seedDir.orDefault ["fuzz-seeds"]

/-- `output_path`. -/
def outputPath (call : FuzzCall) : Path := call.outputDir.orDefault ["fuzz-output"]

/-- `queue_dir`. -/
def queueDir (call : FuzzCall) : Path := call.outputPath ++ ["default", "queue"]

/-- `crashes_dir`. -/
def crashesDir (call : FuzzCall) : Path := call.outputPath ++ ["default", "crashes"]

/-- The order lists the seeds. -/
def Lists (call : FuzzCall) (t : FileTree) : Prop :=
  ∀ n, t (call.seedPath ++ [n]) ≠ none → n ∈ call.order

end FuzzCall

/-- The loop of `generate_seeds`, from the `i`-th try on. -/
def generateLoop (g : Grammar) (dir : Path) (draws : ℕ → Draws) :
    ℕ → ℕ → ℕ → List (List UInt8) → Task FileTree ℕ
  | 0, _, written, _ => pure written
  | tries + 1, i, written, seen =>
    if 50 ≤ written then pure written
    else
      match g.generate 12 (draws i) with
      | .error _ => Task.raise
      | .ok data =>
        -- a duplicate takes a try and no number
        if data ∈ seen then generateLoop g dir draws tries (i + 1) written seen
        else do
          writeFile (dir ++ [grammarName written]) data
          generateLoop g dir draws tries (i + 1) (written + 1) (data :: seen)

/-- **`generate_seeds`.** -/
def generateSeeds (grammar : GrammarArg) (dir : Path) (draws : ℕ → Draws) : Task FileTree ℕ :=
  match grammar with
  | .parsed g => if g.isKey "<A>" then generateLoop g dir draws (50 * 3) 0 0 [] else pure 0
  | _ => pure 0

/-- The default seed, for an empty directory that was not asked for. -/
def addDefaultSeed (call : FuzzCall) : Task FileTree Unit := do
  let t ← Task.get
  if call.seedDir = .absent ∧ ∀ n ∈ call.order, t (call.seedPath ++ [n]) = none then
    writeFile (call.seedPath ++ ["seed1.txt"]) defaultSeed
  else pure ()

/-- The seeds of the grammar, if there are none yet. -/
def addGrammarSeeds (call : FuzzCall) : Task FileTree Unit :=
  match call.grammar with
  | .absent => pure ()
  -- it is said that the file is missing, and the session goes on
  | .missing => pure ()
  | grammar => do
    let t ← Task.get
    if ∀ n ∈ call.order, isGrammarName n = true → t (call.seedPath ++ [n]) = none then do
      let _ ← generateSeeds grammar call.seedPath call.draws
      pure ()
    else pure ()

/-- **`prepare_corpus`.** -/
def prepareCorpus (call : FuzzCall) : Task FileTree Unit := do
  mkdir call.seedPath
  mkdir call.outputPath
  addDefaultSeed call
  addGrammarSeeds call

/-- The directories above a path, and the path. -/
def aboveAnd (p : Path) : List Path := p.inits.tail

/-- Whether a path leads to a file. -/
def FileTree.isFile (t : FileTree) (p : Path) : Bool :=
  match t p with
  | some (.file _) => true
  | _ => false

/-- One seed is copied, if no file of its name was in the queue. -/
def copySeed (call : FuzzCall) (existing : String → Bool) (name : String) :
    Task FileTree Unit := do
  let t ← Task.get
  match t (call.seedPath ++ [name]) with
  | some (.file data) =>
    if existing name then pure () else writeFile (call.queueDir ++ [name]) data
  | _ => pure ()

/-- **`LibFuzzer.start`**, up to the start of the harness. -/
def startFuzzer (call : FuzzCall) : Task FileTree Unit := do
  Task.forEach mkdir (aboveAnd call.queueDir)
  Task.forEach mkdir (aboveAnd call.crashesDir)
  let t ← Task.get
  if call.resume = false ∧ t call.seedPath ≠ none then
    Task.forEach (copySeed call fun n => t.isFile (call.queueDir ++ [n])) call.order
  else pure ()

/-- **`start_fuzzer`**, up to the start of the harness; for an engine that there is not, it only
says so. -/
def fuzzCall (call : FuzzCall) : Task FileTree Unit :=
  if call.engine ∈ engines then do
    prepareCorpus call
    startFuzzer call
  else pure ()

/-! ### What a call adds -/

namespace FuzzCall

variable (call : FuzzCall)

/-- **The call's own seeds**: the default seed, and what the grammar gives. -/
def OwnSeed (name : String) (data : List UInt8) : Prop :=
  (name = "seed1.txt" ∧ data = defaultSeed) ∨
    ∃ g, call.grammar = .parsed g ∧ ∃ i < 50, name = grammarName i ∧
      ∃ k, g.generate 12 (call.draws k) = .ok data

/-- A seed of the call, whole. -/
def WholeSeed (p : Path) (data : List UInt8) : Prop :=
  ∃ name, p = call.seedPath ++ [name] ∧ call.OwnSeed name data

/-- A seed of the call, or the beginning of one. -/
def PartSeed (p : Path) (data : List UInt8) : Prop :=
  ∃ name whole, p = call.seedPath ++ [name] ∧ call.OwnSeed name whole ∧ data <+: whole

/-- A copy of a seed in a tree. -/
def WholeCopy (t : FileTree) (p : Path) (data : List UInt8) : Prop :=
  ∃ name, p = call.queueDir ++ [name] ∧ t (call.seedPath ++ [name]) = some (.file data)

/-- A copy of a seed, or the beginning of one. -/
def PartCopy (t : FileTree) (p : Path) (data : List UInt8) : Prop :=
  ∃ name whole, p = call.queueDir ++ [name] ∧ t (call.seedPath ++ [name]) = some (.file whole) ∧
    data <+: whole

theorem partSeed_of_wholeSeed :
    ∀ p data, call.WholeSeed p data → call.PartSeed p data := by
  rintro p data ⟨name, hp, hown⟩
  exact ⟨name, data, hp, hown, List.prefix_refl data⟩

theorem partCopy_of_wholeCopy (t : FileTree) :
    ∀ p data, call.WholeCopy t p data → call.PartCopy t p data := by
  rintro p data ⟨name, hp, hseed⟩
  exact ⟨name, data, hp, hseed, List.prefix_refl data⟩

end FuzzCall

section Prepare

variable {call : FuzzCall} {t : FileTree}

theorem isGrammarName_grammarName (i : ℕ) : isGrammarName (grammarName i) = true := by
  have hfront : "grammar_".toList.length = 8 := by decide +kernel
  have hback : ".txt".toList.length = 4 := by decide +kernel
  unfold isGrammarName grammarName
  generalize "grammar_".toList = front at hfront ⊢
  generalize ".txt".toList = back at hback ⊢
  rw [String.toList_ofList, Bool.and_eq_true, Bool.and_eq_true, decide_eq_true_eq,
    List.isPrefixOf_iff_prefix, List.isSuffixOf_iff_suffix]
  refine ⟨⟨?_, List.suffix_append _ _⟩, ?_⟩
  · rw [List.append_assoc, List.append_assoc]
    exact List.prefix_append _ _
  · simp only [List.length_append, hfront, hback]
    omega

/-- **Seeds are generated** under names that are free. -/
theorem safe_generateLoop {g : Grammar} (hgrammar : call.grammar = .parsed g)
    (hfree : ∀ i, t (call.seedPath ++ [grammarName i]) = none) (tries i written : ℕ)
    (seen : List (List UInt8)) :
    Task.Safe (Grown call.WholeSeed t)
      (generateLoop g call.seedPath call.draws tries i written seen)
      (Grown call.PartSeed t) fun _ => Grown call.WholeSeed t := by
  have hmono : ∀ t', Grown call.WholeSeed t t' → Grown call.PartSeed t t' := fun t' ht =>
    ht.mono call.partSeed_of_wholeSeed
  -- the numbers of the seeds only go up, so that each name is free
  induction tries generalizing i written seen with
  | zero => exact Task.safe_pure fun _ ht => ht
  | succ tries ih =>
    rw [generateLoop]
    split_ifs with hfull
    · exact Task.safe_pure fun _ ht => ht
    · rcases hdata : g.generate 12 (call.draws i) with error | data
      · exact Task.safe_raise hmono
      · dsimp only
        split_ifs with hseen
        · exact ih _ _ _
        · -- a seed that was not seen is written, under the next number
          have hown : call.OwnSeed (grammarName written) data :=
            Or.inr ⟨g, hgrammar, written, by omega, rfl, i, hdata⟩
          have hnew : ∀ old, t (call.seedPath ++ [grammarName written]) ≠ some (.file old) :=
            fun old => by simp [hfree]
          have hbeginning : ∀ done, done <+: data →
              call.PartSeed (call.seedPath ++ [grammarName written]) done :=
            fun done hdone => ⟨_, data, rfl, hown, hdone⟩
          have hwrite := safe_addFile call.partSeed_of_wholeSeed hnew
            ⟨_, rfl, hown⟩ hbeginning
          exact hwrite.bind fun _ => ih _ _ _

/-- What is not listed as there was not there. -/
theorem free_of_grown {t' : FileTree} {name : String} (hlists : call.Lists t)
    (ht : Grown call.WholeSeed t t')
    (hname : name ∈ call.order → t' (call.seedPath ++ [name]) = none) :
    t (call.seedPath ++ [name]) = none := by
  by_contra hsome
  obtain ⟨node, hnode⟩ := Option.ne_none_iff_exists'.mp hsome
  have hnone := hname (hlists name hsome)
  rw [ht.keeps _ _ hnode] at hnone
  exact absurd hnone (by simp)

theorem safe_addDefaultSeed (hlists : call.Lists t) :
    Task.Safe (Grown call.WholeSeed t) (addDefaultSeed call) (Grown call.PartSeed t)
      fun _ => Grown call.WholeSeed t := by
  refine safe_get_bind fun t₁ ht₁ => ?_
  have hstart : ∀ t', t' = t₁ → Grown call.WholeSeed t t' := by
    rintro _ rfl
    exact ht₁
  split_ifs with hempty
  · have hnone := free_of_grown hlists ht₁ (hempty.2 "seed1.txt")
    have hown : call.OwnSeed "seed1.txt" defaultSeed := Or.inl ⟨rfl, rfl⟩
    have hnew : ∀ old, t (call.seedPath ++ ["seed1.txt"]) ≠ some (.file old) := fun old => by
      simp [hnone]
    have hbeginning : ∀ done, done <+: defaultSeed →
        call.PartSeed (call.seedPath ++ ["seed1.txt"]) done :=
      fun done hdone => ⟨_, defaultSeed, rfl, hown, hdone⟩
    have hwrite := safe_addFile call.partSeed_of_wholeSeed hnew ⟨_, rfl, hown⟩ hbeginning
    exact hwrite.weaken hstart fun _ _ h => h
  · exact Task.safe_pure hstart

theorem safe_generateSeeds {grammar : GrammarArg} (hgrammar : call.grammar = grammar)
    (hfree : ∀ i, t (call.seedPath ++ [grammarName i]) = none) :
    Task.Safe (Grown call.WholeSeed t) (generateSeeds grammar call.seedPath call.draws)
      (Grown call.PartSeed t) fun _ => Grown call.WholeSeed t := by
  rcases grammar with _ | _ | _ | g
  · exact Task.safe_pure fun _ ht => ht
  · exact Task.safe_pure fun _ ht => ht
  · exact Task.safe_pure fun _ ht => ht
  · rw [generateSeeds]
    split_ifs
    · exact safe_generateLoop hgrammar hfree _ _ _ _
    · exact Task.safe_pure fun _ ht => ht

theorem safe_addGrammarSeeds (hlists : call.Lists t) :
    Task.Safe (Grown call.WholeSeed t) (addGrammarSeeds call) (Grown call.PartSeed t)
      fun _ => Grown call.WholeSeed t := by
  have hsome : ∀ grammar, call.grammar = grammar →
      Task.Safe (Grown call.WholeSeed t) (do
        let t ← Task.get
        if ∀ n ∈ call.order, isGrammarName n = true → t (call.seedPath ++ [n]) = none then do
          let _ ← generateSeeds grammar call.seedPath call.draws
          pure ()
        else pure ()) (Grown call.PartSeed t) fun _ => Grown call.WholeSeed t := by
    intro grammar hgrammar
    refine safe_get_bind fun t₁ ht₁ => ?_
    have hstart : ∀ t', t' = t₁ → Grown call.WholeSeed t t' := by
      rintro _ rfl
      exact ht₁
    split_ifs with hnoSeeds
    · -- no seed of a grammar is listed, and so no such name is taken
      have hfree : ∀ i, t (call.seedPath ++ [grammarName i]) = none := fun i =>
        free_of_grown hlists ht₁ fun hmem => hnoSeeds _ hmem (isGrammarName_grammarName i)
      have hgenerate := safe_generateSeeds hgrammar hfree
      exact (hgenerate.weaken hstart fun _ _ h => h).bind fun _ => Task.safe_pure fun _ h => h
    · exact Task.safe_pure hstart
  rw [addGrammarSeeds]
  rcases hgrammar : call.grammar with _ | _ | _ | g
  · exact Task.safe_pure fun _ ht => ht
  · exact Task.safe_pure fun _ ht => ht
  · exact hsome _ hgrammar
  · exact hsome _ hgrammar

/-- **`prepare_corpus` adds seeds** to a tree whose seeds are listed, and leaves a directory for
them. -/
theorem safe_prepareCorpus (hlists : call.Lists t) :
    Task.Safe (fun t' => t' = t) (prepareCorpus call) (Grown call.PartSeed t)
      fun _ t' => Grown call.WholeSeed t t' ∧ t' call.seedPath ≠ none := by
  let Begun (t₁ : FileTree) : Prop :=
    Grown call.WholeSeed t t₁ ∧ t₁ call.seedPath = some .dir ∧ call.Lists t₁
  -- the directory of seeds is made first, and those that were listed still are
  have hmkdir : Task.Safe (fun t' => t' = t) (mkdir call.seedPath) (Grown call.PartSeed t)
      fun _ => Begun := by
    refine safe_mkdir (fun t' ht => ?_) (fun t' ht hnone => ?_) fun t' ht hdir => ?_
    · rw [ht]
      exact Grown.refl _ t
    · rw [ht] at hnone ⊢
      refine ⟨(Grown.refl _ t).write_dir hnone, FileTree.write_self .., fun n hn => ?_⟩
      rw [FileTree.write_of_ne _ (by simp)] at hn
      exact hlists n hn
    · rw [ht] at hdir ⊢
      exact ⟨Grown.refl _ t, hdir, hlists⟩
  refine hmkdir.bind fun _ t₁ faults ht₁ => ?_
  obtain ⟨hgrown, hdir, hlists₁⟩ := ht₁
  have hrest : Task.Safe (Grown call.WholeSeed t₁) (do
      mkdir call.outputPath
      addDefaultSeed call
      addGrammarSeeds call) (Grown call.PartSeed t₁) fun _ => Grown call.WholeSeed t₁ :=
    (safe_addDir call.partSeed_of_wholeSeed).bind fun _ =>
      (safe_addDefaultSeed hlists₁).bind fun _ => safe_addGrammarSeeds hlists₁
  refine hrest.conseq (fun _ h => h) (fun t' ht' => ?_) (fun _ t' ht' => ?_) t₁ faults
    (Grown.refl _ t₁)
  · exact (hgrown.mono call.partSeed_of_wholeSeed).trans ht'
  · exact ⟨hgrown.trans ht', by rw [ht'.keeps _ _ hdir]; simp⟩

end Prepare

/-! ### Copying -/

section Copy

variable {call : FuzzCall} {t : FileTree}

/-- The copies do not change the seeds. -/
theorem seed_of_copied {t' : FileTree} (ht : Grown (call.WholeCopy t) t t') {name : String}
    {data : List UInt8} (hseed : t' (call.seedPath ++ [name]) = some (.file data)) :
    t (call.seedPath ++ [name]) = some (.file data) := by
  rcases hold : t (call.seedPath ++ [name]) with _ | node
  · -- if the seeds are in the queue, none is new
    obtain ⟨name', heq, hwhole⟩ := ht.added _ _ hold hseed
    obtain ⟨hpath, hname⟩ := List.append_inj' heq rfl
    obtain rfl : name = name' := by simpa using hname
    rw [hold] at hwhole
    exact absurd hwhole (by simp)
  · rw [← ht.keeps _ _ hold, hseed]

/-- **What copying leaves**: only copies are new, and each seed that was done is there. -/
structure Copied (call : FuzzCall) (t : FileTree) (done : List String) (t' : FileTree) : Prop where
  /-- Only copies are new. -/
  grown : Grown (call.WholeCopy t) t t'
  /-- The seeds are in the queue. -/
  copied : ∀ name ∈ done, ∀ data, t (call.seedPath ++ [name]) = some (.file data) →
    t.isFile (call.queueDir ++ [name]) = true ∨
      t' (call.queueDir ++ [name]) = some (.file data)

/-- One seed more is done, if the other names of the queue are as they were. -/
theorem Copied.concat {done : List String} {t₁ t' : FileTree} {name : String}
    (h : Copied call t done t₁) (ht' : Grown (call.WholeCopy t) t t')
    (hold : ∀ name' ≠ name, t' (call.queueDir ++ [name']) = t₁ (call.queueDir ++ [name']))
    (hnew : ∀ data, t (call.seedPath ++ [name]) = some (.file data) →
      t.isFile (call.queueDir ++ [name]) = true ∨
        t' (call.queueDir ++ [name]) = some (.file data)) :
    Copied call t (done ++ [name]) t' where
  grown := ht'
  copied name' hname' data hseed := by
    by_cases hname : name' = name
    · subst hname
      exact hnew data hseed
    · rw [hold name' hname]
      refine h.copied name' ?_ data hseed
      simpa [hname] using hname'

/-- **One seed is copied**, or its name was in the queue. -/
theorem safe_copySeed (done : List String) (name : String) :
    Task.Safe (Copied call t done)
      (copySeed call (fun n => t.isFile (call.queueDir ++ [n])) name)
      (Grown (call.PartCopy t) t) fun _ => Copied call t (done ++ [name]) := by
  refine safe_get_bind fun t₁ ht₁ => ?_
  have hnothing : (∀ data, t (call.seedPath ++ [name]) = some (.file data) →
      t.isFile (call.queueDir ++ [name]) = true) →
      Task.Safe (fun t' => t' = t₁) (pure () : Task FileTree Unit) (Grown (call.PartCopy t) t)
        fun _ => Copied call t (done ++ [name]) := by
    intro hno
    refine Task.safe_pure fun t' ht' => ?_
    rw [ht']
    exact ht₁.concat ht₁.grown (fun _ _ => rfl) fun data hseed => Or.inl (hno data hseed)
  -- what is not a seed now was none
  have hnone : (∀ data, t₁ (call.seedPath ++ [name]) ≠ some (.file data)) →
      ∀ data, t (call.seedPath ++ [name]) ≠ some (.file data) :=
    fun hno data hseed => hno data (ht₁.grown.keeps _ _ hseed)
  rcases hseed : t₁ (call.seedPath ++ [name]) with _ | _ | data
  · exact hnothing fun data h => absurd h (hnone (by simp [hseed]) data)
  · exact hnothing fun data h => absurd h (hnone (by simp [hseed]) data)
  · have hseed' := seed_of_copied ht₁.grown hseed
    dsimp only
    split_ifs with hexisting
    · exact hnothing fun _ _ => hexisting
    · have hnew : ∀ old, t (call.queueDir ++ [name]) ≠ some (.file old) := fun old hold =>
        hexisting (by rw [FileTree.isFile, hold])
      have hbeginning : ∀ beginning, beginning <+: data →
          call.PartCopy t (call.queueDir ++ [name]) beginning :=
        fun beginning h => ⟨name, data, rfl, hseed', h⟩
      have hwrite := safe_addFile_to ht₁.grown (call.partCopy_of_wholeCopy t) hnew
        ⟨name, rfl, hseed'⟩ hbeginning
      refine hwrite.weaken (fun _ h => h) fun _ t' ht' => ht₁.concat ht'.1 (fun name' hname => ?_)
        fun data' hdata' => Or.inr ?_
      · rw [ht'.2, FileTree.write_of_ne]
        simpa using hname
      · rw [hseed'] at hdata'
        rw [ht'.2, FileTree.write_self, hdata']

/-- What `start` leaves of the tree it finds: copies, and if it returns, all of them. -/
theorem safe_copySeeds :
    Task.Safe (fun t' => t' = t)
      (Task.forEach (copySeed call fun n => t.isFile (call.queueDir ++ [n])) call.order)
      (Grown (call.PartCopy t) t) fun _ => Copied call t call.order := by
  refine (Task.safe_forEach (Copied call t) fun done name rest _ =>
    safe_copySeed done name).weaken (fun t' ht' => ?_) fun _ _ h => h
  rw [ht']
  exact ⟨Grown.refl _ t, by simp⟩

/-- No file. -/
def NoFile (_ : Path) (_ : List UInt8) : Prop := False

/-- **`start` adds copies of the seeds**, and if it returns and does not resume, each seed is
copied or was in the queue. -/
theorem safe_startFuzzer (hseed : t call.seedPath ≠ none) :
    Task.Safe (fun t' => t' = t) (startFuzzer call) (fun t' => Grown (call.PartCopy t') t t')
      fun _ t' => ∃ t₁, Grown NoFile t t₁ ∧ Grown (call.WholeCopy t₁) t₁ t' ∧
        (call.resume = false → Copied call t₁ call.order t') := by
  -- directories alone were made before the copying
  have hpart : ∀ t₁ t', Grown NoFile t t₁ → Grown (call.PartCopy t₁) t₁ t' →
      Grown (call.PartCopy t') t t' := by
    intro t₁ t' ht₁ ht'
    refine (ht₁.mono fun _ _ h => absurd h id).trans (ht'.mono fun p data h => ?_)
    obtain ⟨name, whole, hp, hwhole, hprefix⟩ := h
    exact ⟨name, whole, hp, ht'.keeps _ _ hwhole, hprefix⟩
  have hnothing : ∀ t₁, Grown NoFile t t₁ → Grown (call.PartCopy t₁) t t₁ := fun t₁ ht₁ =>
    hpart t₁ t₁ ht₁ (Grown.refl _ t₁)
  have hdirs : ∀ ps, Task.Safe (Grown NoFile t) (Task.forEach mkdir ps)
      (fun t' => Grown (call.PartCopy t') t t') fun _ => Grown NoFile t := fun ps =>
    (safe_addDirs (fun _ _ h => h) ps).conseq (fun _ h => h) hnothing fun _ _ h => h
  have hstart : ∀ t', t' = t → Grown NoFile t t' := by
    rintro _ rfl
    exact Grown.refl _ _
  refine ((hdirs _).weaken hstart fun _ _ h => h).bind fun _ => (hdirs _).bind fun _ =>
    safe_get_bind fun t₁ ht₁ => ?_
  split_ifs with hcopy
  · exact safe_copySeeds.conseq (fun _ h => h) (fun t' ht' => hpart t₁ t' ht₁ ht')
      fun _ t' ht' => ⟨t₁, ht₁, ht'.grown, fun _ => ht'⟩
  · -- nothing is copied: the session resumes, or there is no directory of seeds
    refine Task.safe_pure fun t' ht' => ?_
    rw [ht']
    refine ⟨t₁, ht₁, Grown.refl _ t₁, fun hresume => absurd ⟨hresume, ?_⟩ hcopy⟩
    obtain ⟨node, hnode⟩ := Option.ne_none_iff_exists'.mp hseed
    rw [ht₁.keeps _ _ hnode]
    simp

end Copy

/-! ### A call -/

section Call

variable {call : FuzzCall} {t : FileTree}

/-- What a call may add, to a tree that has these seeds in the end. -/
def FuzzCall.Adds (call : FuzzCall) (t' : FileTree) (p : Path) (data : List UInt8) : Prop :=
  call.PartSeed p data ∨ call.PartCopy t' p data

/-- What a call has added when it returns. -/
def FuzzCall.AddsWhole (call : FuzzCall) (t' : FileTree) (p : Path) (data : List UInt8) : Prop :=
  call.WholeSeed p data ∨ call.WholeCopy t' p data

/-- **A call has returned**: it has added its own seeds and copies of seeds, whole, and if it had
an engine and did not resume, every seed is in the queue, as it is if it was not there before. -/
structure Returned (call : FuzzCall) (t t' : FileTree) : Prop where
  /-- What it has added. -/
  grown : Grown (call.AddsWhole t') t t'
  /-- Every seed is in the queue. -/
  queued : call.engine = "libfuzzer" → call.resume = false → ∀ name data,
    t' (call.seedPath ++ [name]) = some (.file data) →
    ∃ old, t' (call.queueDir ++ [name]) = some (.file old) ∧
      (t (call.queueDir ++ [name]) = none → old = data)

/-- A seed that is there after the seeds were prepared is listed. -/
theorem mem_order_of_seed {t₁ : FileTree} (hlists : call.Lists t)
    (ht₁ : Grown call.WholeSeed t t₁) {name : String} {data : List UInt8}
    (hseed : t₁ (call.seedPath ++ [name]) = some (.file data)) : name ∈ call.order := by
  by_cases hold : t (call.seedPath ++ [name]) = none
  · obtain ⟨name', heq, hown⟩ := ht₁.added _ _ hold hseed
    obtain rfl : name = name' := by simpa using heq
    refine call.order_own name ?_
    rcases hown with ⟨rfl, -⟩ | ⟨g, -, i, hi, rfl, -⟩
    · exact List.mem_cons_self
    · exact List.mem_cons_of_mem _ (List.mem_map_of_mem (List.mem_range.mpr hi))
  · exact hlists name hold

/-- **A call only adds files**, wherever it is interrupted, and says which. -/
theorem safe_fuzzCall (hlists : call.Lists t) :
    Task.Safe (fun t' => t' = t) (fuzzCall call) (fun t' => Grown (call.Adds t') t t')
      fun _ => Returned call t := by
  rw [fuzzCall]
  split_ifs with hengine
  case neg =>
    refine Task.safe_pure fun t' ht' => ?_
    rw [ht']
    exact ⟨Grown.refl _ t, fun h => absurd (h ▸ List.mem_singleton_self _) hengine⟩
  refine ((safe_prepareCorpus hlists).conseq (fun _ h => h)
    (fun t' ht' => ht'.mono fun _ _ => Or.inl) fun _ _ h => h).bind fun _ t₁ faults ht₁ => ?_
  obtain ⟨hseeds, hdir⟩ := ht₁
  refine (safe_startFuzzer hdir).conseq (fun _ h => h) (fun t' ht' => ?_) (fun _ t' ht' => ?_)
    t₁ faults rfl
  · exact (hseeds.mono fun p data h => Or.inl (call.partSeed_of_wholeSeed p data h)).trans
      (ht'.mono fun _ _ => Or.inr)
  · obtain ⟨t₂, hdirs, hcopies, hcopied⟩ := ht'
    have hseeds₂ : Grown call.WholeSeed t t₂ := hseeds.trans (hdirs.mono fun _ _ h => absurd h id)
    constructor
    · refine (hseeds₂.mono fun _ _ => Or.inl).trans (hcopies.mono fun p data h => Or.inr ?_)
      obtain ⟨name, hp, hwhole⟩ := h
      exact ⟨name, hp, hcopies.keeps _ _ hwhole⟩
    · intro _ hresume name data hseed
      have hseed₂ := seed_of_copied hcopies hseed
      have horder := mem_order_of_seed hlists hseeds₂ hseed₂
      rcases (hcopied hresume).copied name horder data hseed₂ with hfile | hcopy
      · rcases hqueue : t₂ (call.queueDir ++ [name]) with _ | _ | old
        · simp [FileTree.isFile, hqueue] at hfile
        · simp [FileTree.isFile, hqueue] at hfile
        · refine ⟨old, hcopies.keeps _ _ hqueue, fun hnone => ?_⟩
          -- only if the seeds are in the queue was it added before
          obtain ⟨name', heq, -⟩ := hseeds₂.added _ _ hnone hqueue
          obtain ⟨hpath, hname⟩ := List.append_inj' heq rfl
          rw [hpath, hseed₂] at hqueue
          simpa using hqueue.symm
      · exact ⟨data, hcopy, fun _ => rfl⟩

end Call

/-- What a run of a call leaves. -/
theorem fuzzCall_leaves {call : FuzzCall} {t : FileTree} (hlists : call.Lists t)
    (faults : List (Option Fault)) :
    Grown (call.Adds ((fuzzCall call).run t faults).2.1) t ((fuzzCall call).run t faults).2.1 ∧
      (((fuzzCall call).run t faults).1 = .returned () →
        Returned call t ((fuzzCall call).run t faults).2.1) := by
  have hleaves := safe_fuzzCall hlists t faults rfl
  generalize (fuzzCall call).run t faults = result at hleaves ⊢
  rcases result with ⟨_ | _ | _, t', faults'⟩
  · have hreturned : Returned call t t' := hleaves
    refine ⟨hreturned.grown.mono fun p data h => ?_, fun _ => hreturned⟩
    rcases h with h | h
    · exact Or.inl (call.partSeed_of_wholeSeed p data h)
    · exact Or.inr (call.partCopy_of_wholeCopy t' p data h)
  · exact ⟨hleaves, fun h => absurd h (by simp)⟩
  · exact ⟨hleaves, fun h => absurd h (by simp)⟩

/-! ### Many sessions -/

/-- What happens to the corpus. -/
inductive CorpusEvent
  /-- A call, with the faults that hit it. -/
  | session (call : FuzzCall) (faults : List (Option Fault))
  /-- The harness writes a file to the queue. -/
  | found (name : String) (data : List UInt8)
  /-- Something else changes. -/
  | edit (p : Path) (node : Option Node)

/-- **The corpus**: the tree of files, with this queue. -/
def corpus (queue : Path) : Machine FileTree CorpusEvent (Ending Unit) where
  step t event :=
    match event with
    | .session call faults =>
      let result := (fuzzCall call).run t faults
      (result.1, result.2.1)
    | .found name data => (.returned (), t.write (queue ++ [name]) (.file data))
    | .edit p node => (.returned (), fun q => if q = p then node else t q)

/-- An event is fair: names are listed, and nothing else is changed in the queue. -/
def CorpusEvent.Fair (queue : Path) (t : FileTree) : CorpusEvent → Prop
  | .session call _ => call.Lists t
  | .found _ _ => True
  | .edit p _ => ¬ queue <+: p

section History

variable {queue : Path} {t : FileTree} {event : CorpusEvent} {name : String} {data : List UInt8}

/-- **One event keeps the files of the queue** that the harness does not write. -/
theorem corpus_keeps (hfair : event.Fair queue t) (hnot : ∀ d, event ≠ .found name d)
    (h : t (queue ++ [name]) = some (.file data)) :
    ((corpus queue).step t event).2 (queue ++ [name]) = some (.file data) := by
  rcases event with ⟨call, faults⟩ | ⟨name', data'⟩ | ⟨p, node⟩
  · exact (fuzzCall_leaves hfair faults).1.keeps _ _ h
  · have hne : name ≠ name' := fun heq => hnot data' (by rw [heq])
    show t.write (queue ++ [name']) _ (queue ++ [name]) = _
    rw [FileTree.write_of_ne _ (by simpa using hne), h]
  · show (if queue ++ [name] = p then node else t (queue ++ [name])) = _
    rw [if_neg, h]
    rintro rfl
    exact hfair (List.prefix_append _ _)

/-- **A call puts a seed into the queue**, or the beginning of one if it does not return. -/
structure PutBy (queue : Path) (t : FileTree) (call : FuzzCall) (faults : List (Option Fault))
    (name : String) (data : List UInt8) : Prop where
  /-- It was not there before. -/
  isNew : t (queue ++ [name]) = none
  /-- It is a seed. -/
  seed : ∃ whole, ((fuzzCall call).run t faults).2.1 (call.seedPath ++ [name]) =
    some (.file whole) ∧ data <+: whole ∧
      (((fuzzCall call).run t faults).1 = .returned () → data = whole)

/-- **What one event puts into the queue.** -/
theorem corpus_puts (hfair : event.Fair queue t)
    (h : ((corpus queue).step t event).2 (queue ++ [name]) = some (.file data)) :
    (t (queue ++ [name]) = some (.file data) ∧ ∀ d, event ≠ .found name d) ∨
      event = .found name data ∨
        ∃ call faults, event = .session call faults ∧ PutBy queue t call faults name data := by
  rcases event with ⟨call, faults⟩ | ⟨name', data'⟩ | ⟨p, node⟩
  · obtain ⟨hgrown, hreturned⟩ := fuzzCall_leaves hfair faults
    have hafter : ((fuzzCall call).run t faults).2.1 (queue ++ [name]) = some (.file data) := h
    rcases hold : t (queue ++ [name]) with _ | node
    · refine Or.inr (Or.inr ⟨call, faults, rfl, hold, ?_⟩)
      -- a seed in its own directory, which is the queue
      have hself : call.seedPath = queue → ∃ whole, ((fuzzCall call).run t faults).2.1
          (call.seedPath ++ [name]) = some (.file whole) ∧ data <+: whole ∧
            (((fuzzCall call).run t faults).1 = .returned () → data = whole) := fun hpath =>
        ⟨data, by rw [hpath, hafter], List.prefix_refl data, fun _ => rfl⟩
      rcases hgrown.added _ _ hold hafter with
        ⟨name', whole, heq, -⟩ | ⟨name', whole, heq, hseed, hprefix⟩
      · exact hself (List.append_inj' heq rfl).1.symm
      · obtain ⟨hpath, hname⟩ := List.append_inj' heq rfl
        obtain rfl : name = name' := by simpa using hname
        refine ⟨whole, hseed, hprefix, fun hend => ?_⟩
        rcases (hreturned hend).grown.added _ _ hold hafter with ⟨_, heq', -⟩ | ⟨_, heq', hcopy⟩
        · obtain ⟨hpath', -⟩ := List.append_inj' heq' rfl
          rw [← hpath', hafter] at hseed
          simpa using hseed
        · obtain ⟨-, hname'⟩ := List.append_inj' heq' rfl
          rw [← List.singleton_inj.mp hname', hseed] at hcopy
          simpa using hcopy.symm
    · refine Or.inl ⟨?_, by simp⟩
      rw [← hafter, hgrown.keeps _ _ hold]
  · by_cases hname : name = name'
    · subst hname
      have hwrite : t.write (queue ++ [name]) (.file data') (queue ++ [name]) =
        some (.file data) := h
      rw [FileTree.write_self] at hwrite
      obtain rfl : data' = data := by simpa using hwrite
      exact Or.inr (Or.inl rfl)
    · have hwrite : t.write (queue ++ [name']) (.file data') (queue ++ [name]) =
        some (.file data) := h
      rw [FileTree.write_of_ne _ (by simpa using hname)] at hwrite
      refine Or.inl ⟨hwrite, fun d heq => ?_⟩
      simp only [CorpusEvent.found.injEq] at heq
      exact hname heq.1.symm
  · refine Or.inl ⟨?_, by simp⟩
    have hedit : (if queue ++ [name] = p then node else t (queue ++ [name])) =
      some (.file data) := h
    rwa [if_neg] at hedit
    rintro rfl
    exact hfair (List.prefix_append _ _)

/-- **A history is fair** if each of its events is. -/
def FairHistory (queue : Path) (t : FileTree) (history : List CorpusEvent) : Prop :=
  ∀ before event after, history = before ++ event :: after →
    event.Fair queue ((corpus queue).run t before).2

/-- The harness does not write a file of the name. -/
def NotFound (name : String) (events : List CorpusEvent) : Prop := ∀ d, .found name d ∉ events

theorem FairHistory.of_append {before after : List CorpusEvent}
    (h : FairHistory queue t (before ++ after)) : FairHistory queue t before :=
  fun before' event after' heq => h before' event (after' ++ after) (by rw [heq]; simp)

/-- **What is in the queue stays**, until the harness writes a file of the name. -/
theorem queue_keeps {before after : List CorpusEvent}
    (h : FairHistory queue t (before ++ after)) (hafter : NotFound name after)
    (hdata : ((corpus queue).run t before).2 (queue ++ [name]) = some (.file data)) :
    ((corpus queue).run t (before ++ after)).2 (queue ++ [name]) = some (.file data) := by
  induction after using List.reverseRecOn with
  | nil => rwa [List.append_nil]
  | append_singleton after event ih =>
    rw [← List.append_assoc] at h ⊢
    rw [Machine.run_concat]
    refine corpus_keeps (h (before ++ after) event [] rfl) (fun d heq => ?_)
      (ih h.of_append fun d hd => hafter d (List.mem_append_left _ hd))
    exact hafter d (by rw [heq]; simp)

/-- **Where a file of the queue comes from.** -/
inductive Origin (queue : Path) (t : FileTree) (history : List CorpusEvent) (name : String)
    (data : List UInt8) : Prop
  /-- It was there in the beginning. -/
  | initial (h : t (queue ++ [name]) = some (.file data)) (hrest : NotFound name history)
  /-- The harness has written it. -/
  | found (before after : List CorpusEvent) (h : history = before ++ .found name data :: after)
      (hrest : NotFound name after)
  /-- A call has put it there. -/
  | put (before after : List CorpusEvent) (call : FuzzCall) (faults : List (Option Fault))
      (h : history = before ++ .session call faults :: after)
      (hput : PutBy queue ((corpus queue).run t before).2 call faults name data)
      (hrest : NotFound name after)

theorem NotFound.concat {events : List CorpusEvent} (h : NotFound name events)
    (hevent : ∀ d, event ≠ .found name d) : NotFound name (events ++ [event]) := by
  intro d hd
  rcases List.mem_append.mp hd with hd | hd
  · exact h d hd
  · exact hevent d (List.mem_singleton.mp hd).symm

theorem queue_origin {history : List CorpusEvent} (h : FairHistory queue t history)
    (hdata : ((corpus queue).run t history).2 (queue ++ [name]) = some (.file data)) :
    Origin queue t history name data := by
  induction history using List.reverseRecOn with
  | nil => exact .initial hdata fun d => by simp
  | append_singleton history event ih =>
    rw [Machine.run_concat] at hdata
    rcases corpus_puts (h history event [] rfl) hdata with
      ⟨hold, hnot⟩ | rfl | ⟨call, faults, rfl, hput⟩
    · rcases ih h.of_append hold with ⟨hinitial, hrest⟩ | ⟨before, after, heq, hrest⟩ |
        ⟨before, after, call, faults, heq, hput, hrest⟩
      · exact .initial hinitial (hrest.concat hnot)
      · exact .found before (after ++ [event]) (by rw [heq]; simp) (hrest.concat hnot)
      · exact .put before (after ++ [event]) call faults (by rw [heq]; simp) hput
          (hrest.concat hnot)
    · exact .found history [] rfl fun d => by simp
    · exact .put history [] call faults rfl hput fun d => by simp

/-- **The queue over many sessions.** In every fair history, with calls that are interrupted
anywhere: a file of the queue stays as it is until the harness writes one of its name; each file
was there, or was written by the harness, or was new when a call put it there, as a seed of its
name or, if the call did not return, the beginning of one; and behind each call for libFuzzer that
returns and does not resume, every seed is in the queue. -/
theorem queue_history (queue : Path) (t : FileTree) (history : List CorpusEvent)
    (h : FairHistory queue t history) :
    (∀ before after name data, history = before ++ after → NotFound name after →
        ((corpus queue).run t before).2 (queue ++ [name]) = some (.file data) →
        ((corpus queue).run t history).2 (queue ++ [name]) = some (.file data)) ∧
      (∀ name data, ((corpus queue).run t history).2 (queue ++ [name]) = some (.file data) →
        Origin queue t history name data) ∧
      ∀ before after call faults, history = before ++ .session call faults :: after →
        ((corpus queue).step ((corpus queue).run t before).2 (.session call faults)).1 =
          .returned () → call.engine = "libfuzzer" →
        call.outputPath ++ ["default", "queue"] = queue → call.resume = false →
        ∀ name data, ((corpus queue).run t (before ++ [.session call faults])).2
            (call.seedPath ++ [name]) = some (.file data) →
          ∃ old, ((corpus queue).run t (before ++ [.session call faults])).2 (queue ++ [name]) =
            some (.file old) ∧
              (((corpus queue).run t before).2 (queue ++ [name]) = none → old = data) := by
  refine ⟨?_, fun name data => queue_origin h, ?_⟩
  · rintro before after name data rfl hafter hdata
    exact queue_keeps h hafter hdata
  · intro before after call faults heq hreturned hengine hqueue hresume name data hseed
    rw [Machine.run_concat] at hseed ⊢
    -- the directory of seeds is listed as it is when the call begins
    have hfair : call.Lists ((corpus queue).run t before).2 := h before _ after heq
    have hleft := (fuzzCall_leaves hfair faults).2 hreturned
    have hqueued := hleft.queued hengine hresume name data hseed
    have hdir : call.queueDir = queue := hqueue
    rw [hdir] at hqueued
    exact hqueued

end History

/-- The queue of the default output directory. -/
def defaultQueue : Path := ["fuzz-output", "default", "queue"]

/-- A call with the default directories. -/
def plainCall : FuzzCall where
  draws _ := Stream'.const 0
  order := ownNames
  order_own _ h := h

/-- A file was found before there were any seeds, and then a call was made. -/
def firstHistory (faults : List (Option Fault)) : List CorpusEvent :=
  [.found "a" [1]] ++ [.session plainCall faults]

theorem fairHistory_firstHistory (faults : List (Option Fault)) :
    FairHistory defaultQueue (fun _ => none) (firstHistory faults) := by
  intro before event after heq
  rcases before with _ | ⟨first, _ | ⟨second, before⟩⟩
  · obtain ⟨rfl, -⟩ := List.cons_eq_cons.mp heq
    trivial
  · simp only [firstHistory, List.cons_append, List.nil_append, List.cons.injEq] at heq
    obtain ⟨rfl, rfl, -⟩ := heq
    -- nothing is in the directory of the seeds
    intro n hn
    refine absurd ?_ hn
    show FileTree.write (fun _ => none) (defaultQueue ++ ["a"]) (.file [1])
      (plainCall.seedPath ++ [n]) = none
    rw [FileTree.write_of_ne]
    intro hpath
    have hlength := congrArg List.length hpath
    simp [plainCall, FuzzCall.seedPath, DirArg.orDefault, defaultQueue] at hlength
  · have hlength := congrArg List.length heq
    simp [firstHistory] at hlength

/-- What was found is still there if the call is killed, and the default seed is in the queue if
it returns. -/
theorem queue_history_firstHistory :
    ((corpus defaultQueue).run (fun _ => none)
        (firstHistory [none, none, none, some .kill])).2 (defaultQueue ++ ["a"]) =
          some (.file [1]) ∧
      ((corpus defaultQueue).run (fun _ => none) (firstHistory [])).2
        (defaultQueue ++ ["seed1.txt"]) = some (.file defaultSeed) := by
  constructor
  · exact (queue_history defaultQueue (fun _ => none) _ (fairHistory_firstHistory _)).1
      [.found "a" [1]] _ "a" [1] rfl (fun d => by simp)
      (FileTree.write_self (fun _ => none) (defaultQueue ++ ["a"]) (.file [1]))
  · have hseed : ((corpus defaultQueue).run (fun _ => none)
        ([.found "a" [1]] ++ [.session plainCall []])).2 (plainCall.seedPath ++ ["seed1.txt"]) =
          some (.file defaultSeed) := by decide +kernel
    have hreturned : ((corpus defaultQueue).step
        ((corpus defaultQueue).run (fun _ => none) [.found "a" [1]]).2
          (.session plainCall [])).1 = .returned () := by decide +kernel
    obtain ⟨old, hold, hnew⟩ := (queue_history defaultQueue (fun _ => none) _
      (fairHistory_firstHistory [])).2.2 [.found "a" [1]] [] plainCall [] rfl hreturned rfl rfl
        rfl "seed1.txt" defaultSeed hseed
    have hnone : ((corpus defaultQueue).run (fun _ => none) [.found "a" [1]]).2
        (defaultQueue ++ ["seed1.txt"]) = none := by decide +kernel
    rw [hnew hnone] at hold
    exact hold

end Apatchy
