import Apatchy.Foundations.ConfigReading

/-!
# The configuration of the tools

`toolchain_config` keeps the paths of tools in a file that users can edit. Setup puts in what
it has found with `update_section`, and leaves a value alone that still points at something;
commands ask `resolve_tool`, which takes the value in the file if it points at something, and
looks on the `PATH` otherwise.

The two agree as long as the file gives back what was put in (`Apatchy.agreement_of_safe`). It
does not always: a percent sign in a path is put in as it is and looked up as the beginning of
a reference, or as half of a pair (`Apatchy.not_agreement`). The condition
(`Apatchy.SafeUpdate`) says that of the entries that are put in, and that no value that stays
refers to one of them. A valid path is not given back under a name that no file can have
(`Apatchy.writableName_of_agreement`), nor, without references, if it has a percent sign
(`Apatchy.not_agreement_of_percent`).

An update decides on each entry when its turn comes, with what was put in before it in place
(`Apatchy.putInOptions`, `Apatchy.updateEntries_eq`): a stored value that refers to another
option may be a path by then.
-/

namespace Apatchy

/-! ### The functions -/

/-- What the program sees of the system. -/
structure ToolSystem where
  /-- `Path(value).exists()`. -/
  pathExists : List Char → Bool
  /-- `shutil.which`. -/
  which : List Char → Option (List Char)

/-- `SECTIONS`. -/
def toolSections : List (List Char) :=
  ["build", "fuzzing", "coverage", "libraries", "profiling", "gui", "docs"].map String.toList

/-- `HEADER_COMMENT`. -/
def headerComment : List Char :=
  ("# Auto-generated by: apatchy setup\n" ++
    "# Manual edits are preserved. Clear a value to force re-detection.\n\n").toList

/-- `_path_valid`. -/
def pathValid (sys : ToolSystem) (value : List Char) : Bool :=
  if "pkg-config:".toList.isPrefixOf value then (sys.which "pkg-config".toList).isSome
  else sys.pathExists value

section Functions

variable (sys : ToolSystem) (kc : KeyCase)

/-- `if not cp.has_section(section): cp.add_section(section)`. -/
def ensureSection (cp : ConfigParser) (sect : List Char) : Except String ConfigParser :=
  if sect ∈ cp.sections.keys then .ok cp else cp.addSection sect

/-- `load`, of a file that is there or not. -/
def loadTools (file : Option (List Char)) : Except String ConfigParser := do
  toolSections.foldlM ensureSection (← readConfig kc file)

/-- `save`: the text of the file. -/
def saveTools (cp : ConfigParser) : List Char := headerComment ++ cp.write

/-- The scan of `resolve_tool`. -/
def resolveIn (cp : ConfigParser) (name : List Char) :
    List (List Char) → Except String (Option (List Char))
  | [] => .ok (sys.which name)
  | sect :: sects =>
    if sect ∉ cp.sections.keys then resolveIn cp name sects
    else do
      -- the value as `get` gives it, with its references filled in
      match ← cp.get kc sect name with
      | some value =>
        if value ≠ [] ∧ pathValid sys value then return some value else resolveIn cp name sects
      | none => resolveIn cp name sects

/-- **`resolve_tool`.** -/
def resolveTool (name : List Char) (sect : Option (List Char)) (file : Option (List Char)) :
    Except String (Option (List Char)) := do
  let cp ← loadTools kc file
  let sections := match sect with
    | some s => if s = [] then toolSections else [s]
    | none => toolSections
  resolveIn sys kc cp name sections

/-- The test of `update_section` that keeps a value. -/
def isKept (existing : Option (List Char)) : Bool :=
  match existing with
  | some value => value ≠ [] ∧ stripChars value ≠ [] ∧ pathValid sys value
  | none => false

/-- One entry of `update_section`. -/
def updateEntry (sect : List Char) (cp : ConfigParser) (o : List Char × List Char) :
    Except String ConfigParser := do
  let existing ← cp.get kc sect o.1
  if isKept sys existing then return cp else cp.set kc sect o.1 o.2

/-- **`update_section`**: the text of the file after it. -/
def updateSection (sect : List Char) (entries : Options (List Char)) (file : Option (List Char)) :
    Except String (List Char) := do
  let cp ← ensureSection (← loadTools kc file) sect
  return saveTools (← entries.foldlM (updateEntry sys kc sect) cp)

/-! ### What is expected -/

/-- **A value that points at something**: it is not empty, and there is such a path, or
`pkg-config`, if it is for that. -/
def PointsAt (value : List Char) : Prop :=
  value ≠ [] ∧ if "pkg-config:".toList <+: value then sys.which "pkg-config".toList ≠ none
    else sys.pathExists value = true

instance (value : List Char) : Decidable (PointsAt sys value) :=
  inferInstanceAs (Decidable (_ ∧ _))

/-- A value, if it is valid. -/
def validTool (value : Option (List Char)) : Option (List Char) :=
  value.filter fun v => PointsAt sys v

/-- What is stored for a tool, if it can be looked up. -/
def storedTool (cp : ConfigParser) (sect name : List Char) : Option (List Char) :=
  match cp.get kc sect name with
  | .ok stored => stored
  | .error _ => none

/-- The value of a tool that has a value in the file and a new one. -/
def expectedTool (stored : Option (List Char)) (o : List Char × List Char) : Option (List Char) :=
  ((validTool sys stored).or (validTool sys (some o.2))).or (sys.which o.1)

/-- **An update and the lookups after it agree**, for the options before it and the file after
it. -/
structure Agreement (cp : ConfigParser) (sect : List Char) (entries : Options (List Char))
    (text : List Char) : Prop where
  /-- Each entry has the value that was stored, if it is valid, or the new one, or what is on the
  `PATH`. -/
  resolved : ∀ o ∈ entries, resolveTool sys kc o.1 (some sect) (some text) =
    .ok (expectedTool sys (storedTool kc cp sect o.1) o)
  /-- Every other option is as it was. -/
  unchanged : ∃ cp' opts opts', loadTools kc (some text) = .ok cp' ∧
    cp'.defaults = cp.defaults ∧ cp'.sections.keys = cp.sections.keys ∧
    (∀ s, s ≠ sect → cp'.sections.lookup s = cp.sections.lookup s) ∧
    cp.sections.lookup sect = some opts ∧ cp'.sections.lookup sect = some opts' ∧
    ∀ key, key ∉ entries.map (fun o => kc.lower o.1) → opts'.lookup key = opts.lookup key
  /-- Nothing is changed if it is repeated. -/
  repeated : updateSection sys kc sect entries (some text) = .ok text

/-- Entries of an update: their names differ, and their values are paths. -/
structure ToolEntries (entries : Options (List Char)) : Prop where
  /-- The names differ, in lower case. -/
  nodup : (entries.map fun o => kc.lower o.1).Nodup
  /-- Each value is one line, without blanks at its ends. -/
  line : ∀ o ∈ entries, IsFileLine o.2 ∧ Stripped o.2

/-- The options that an update puts in behind some: the entries whose stored value, as it is
expanded when their turn comes, is not kept. -/
def putInBehind (cp : ConfigParser) (sect : List Char) :
    Options (List Char) → Options (List Char) → Options (List Char)
  | done, [] => done
  | done, o :: entries =>
    if isKept sys (storedTool kc (cp.putAll sect done) sect o.1) then
      putInBehind cp sect done entries
    else putInBehind cp sect (done ++ [(kc.lower o.1, o.2)]) entries

/-- The options that an update puts in. -/
def putInOptions (cp : ConfigParser) (sect : List Char) (entries : Options (List Char)) :
    Options (List Char) :=
  putInBehind sys kc cp sect [] entries

/-- The options after an update. -/
def updated (cp : ConfigParser) (sect : List Char) (entries : Options (List Char)) :
    ConfigParser :=
  cp.putAll sect (putInOptions sys kc cp sect entries)

/-- **What is put in can stand in a file**: it is read as an option, with its name. -/
def ReadableUpdate (cp : ConfigParser) (sect : List Char) (entries : Options (List Char)) : Prop :=
  ∀ o ∈ putInOptions sys kc cp sect entries, WritableName kc o.1 ∧ ¬ IsHeader (optionLine o.1 o.2)

/-- **An entry is kept rightly**: its stored value is a path and refers to nothing that is put in
with another text; or it is none, but is the new path as soon as the others are put in. -/
def KeptRightly (cp : ConfigParser) (sect : List Char) (entries : Options (List Char))
    (o : List Char × List Char) : Prop :=
  (isKept sys (storedTool kc cp sect o.1) = true ∧
    ∀ value, cp.raw sect (kc.lower o.1) = some value → ∀ key, Refers kc (cp.raw sect) value key →
      ∀ new, (key, new) ∈ putInOptions sys kc cp sect entries → cp.raw sect key = some new) ∨
  (validTool sys (storedTool kc cp sect o.1) = none ∧ PointsAt sys o.2 ∧
    (updated sys kc cp sect entries).get kc sect o.1 = .ok (some o.2))

/-- **An update that is looked up as it was put in.** -/
structure SafeUpdate (cp : ConfigParser) (sect : List Char) (entries : Options (List Char)) :
    Prop where
  /-- What is put in can stand in the file. -/
  readable : ReadableUpdate sys kc cp sect entries
  /-- It has no percent signs, unless `set` refuses them. -/
  percent : ∀ o ∈ putInOptions sys kc cp sect entries, percentsMeanSomething o.2 = true → '%' ∉ o.2
  /-- It is put in for tools whose stored value is no path, or is the new one. -/
  putIn : ∀ o ∈ entries, kc.lower o.1 ∈ (putInOptions sys kc cp sect entries).keys →
    validTool sys (storedTool kc cp sect o.1) = none ∨ storedTool kc cp sect o.1 = some o.2
  /-- The other entries are kept rightly. -/
  kept : ∀ o ∈ entries, kc.lower o.1 ∉ (putInOptions sys kc cp sect entries).keys →
    KeptRightly sys kc cp sect entries o

end Functions

/-! ### Loading and saving -/

section Loading

variable {kc : KeyCase}

theorem mem_keys_ensureSection {cp cp' : ConfigParser} {sect : List Char}
    (h : ensureSection cp sect = .ok cp') :
    sect ∈ cp'.sections.keys ∧ ∀ s ∈ cp.sections.keys, s ∈ cp'.sections.keys := by
  rw [ensureSection] at h
  split_ifs at h with hold
  · obtain rfl := Except.ok.inj h
    exact ⟨hold, fun s hs => hs⟩
  · rw [ConfigParser.addSection] at h
    split_ifs at h
    obtain rfl := Except.ok.inj h
    rw [Options.keys_append, Options.keys_singleton]
    exact ⟨List.mem_append_right _ (List.mem_singleton_self sect),
      fun s hs => List.mem_append_left _ hs⟩

theorem wellFormed_ensureSection {cp cp' : ConfigParser} (hcp : cp.WellFormed kc)
    {sect : List Char} (hsect : WritableSection sect) (h : ensureSection cp sect = .ok cp') :
    cp'.WellFormed kc := by
  rw [ensureSection] at h
  split_ifs at h
  · obtain rfl := Except.ok.inj h
    exact hcp
  · exact hcp.addSection hsect h

/-- **All sections are there** after they have been added. -/
theorem of_foldlM_ensureSection {sects : List (List Char)}
    (hsects : ∀ s ∈ sects, WritableSection s) {cp cp' : ConfigParser} (hcp : cp.WellFormed kc)
    (h : sects.foldlM ensureSection cp = .ok cp') : cp'.WellFormed kc ∧
      (∀ s ∈ cp.sections.keys, s ∈ cp'.sections.keys) ∧ ∀ s ∈ sects, s ∈ cp'.sections.keys := by
  induction sects generalizing cp with
  | nil =>
    obtain rfl := Except.ok.inj h
    exact ⟨hcp, fun s hs => hs, fun s hs => absurd hs List.not_mem_nil⟩
  | cons sect sects ih =>
    obtain ⟨hsect, hrest⟩ := List.forall_mem_cons.mp hsects
    rw [List.foldlM_cons] at h
    obtain ⟨cp₁, hnext, h⟩ := bind_eq_ok.mp h
    obtain ⟨hmem, hold⟩ := mem_keys_ensureSection hnext
    obtain ⟨hwell, hkeys, hall⟩ := ih hrest (wellFormed_ensureSection hcp hsect hnext) h
    refine ⟨hwell, fun s hs => hkeys s (hold s hs), fun s hs => ?_⟩
    rcases List.mem_cons.mp hs with rfl | hs
    · exact hkeys s hmem
    · exact hall s hs

/-- To add sections that are there changes nothing. -/
theorem foldlM_ensureSection {sects : List (List Char)} {cp : ConfigParser}
    (h : ∀ s ∈ sects, s ∈ cp.sections.keys) : sects.foldlM ensureSection cp = .ok cp := by
  exact foldlM_eq_self fun s hs => if_pos (h s hs)

theorem writableSection_toolSections : ∀ s ∈ toolSections, WritableSection s := by
  have hall : ∀ s ∈ toolSections, s ≠ [] ∧ '\n' ∉ s ∧ '\r' ∉ s := by decide
  exact fun s hs => ⟨(hall s hs).1, (hall s hs).2⟩

/-- **What is loaded can stand in a file**, and has all sections. -/
theorem of_loadTools {file : Option (List Char)} {cp : ConfigParser}
    (h : loadTools kc file = .ok cp) :
    cp.WellFormed kc ∧ ∀ s ∈ toolSections, s ∈ cp.sections.keys := by
  obtain ⟨cp₀, hread, h⟩ := bind_eq_ok.mp h
  obtain ⟨hwell, -, hall⟩ :=
    of_foldlM_ensureSection writableSection_toolSections (wellFormed_readConfig hread) h
  exact ⟨hwell, hall⟩

/-- The lines of `HEADER_COMMENT`. -/
def commentLines : List (List Char) :=
  ["# Auto-generated by: apatchy setup".toList,
    "# Manual edits are preserved. Clear a value to force re-detection.".toList, []]

theorem isPreamble_commentLines : ∀ l ∈ commentLines, IsPreamble l ∧ IsFileLine l := by
  have hall : ∀ l ∈ commentLines,
      (stripChars l = [] ∨ isComment (stripChars l) = true) ∧ '\n' ∉ l ∧ '\r' ∉ l := by
    decide +kernel
  exact hall

/-- **What is saved is loaded.** -/
theorem loadTools_saveTools {cp : ConfigParser} (hwell : cp.WellFormed kc)
    (hall : ∀ s ∈ toolSections, s ∈ cp.sections.keys) :
    loadTools kc (some (saveTools cp)) = .ok cp := by
  have hheader : headerComment = fileText commentLines := by decide +kernel
  have hread : readConfig kc (some (saveTools cp)) = .ok cp := by
    rw [saveTools, hheader]
    exact readConfig_write hwell isPreamble_commentLines
  rw [loadTools, hread]
  exact foldlM_ensureSection hall

end Loading

/-! ### One update -/

section Update

variable {sys : ToolSystem} {kc : KeyCase} {cp : ConfigParser} {sect : List Char}

theorem putInBehind_sublist (done entries : Options (List Char)) :
    (putInBehind sys kc cp sect done entries).Sublist
      (done ++ entries.map fun o => (kc.lower o.1, o.2)) := by
  induction entries generalizing done with
  | nil =>
    rw [putInBehind, List.map_nil, List.append_nil]
  | cons o entries ih =>
    rw [putInBehind, List.map_cons]
    split_ifs
    · exact (ih done).trans ((List.Sublist.refl done).append (List.sublist_cons_self ..))
    · have hrest := ih (done ++ [(kc.lower o.1, o.2)])
      rwa [List.append_assoc, List.singleton_append] at hrest

/-- What is put in are entries, under their names in lower case. -/
theorem putInOptions_sublist (entries : Options (List Char)) :
    (putInOptions sys kc cp sect entries).Sublist
      (entries.map fun o => (kc.lower o.1, o.2)) :=
  putInBehind_sublist [] entries

theorem keys_putInOptions_sublist (entries : Options (List Char)) :
    (putInOptions sys kc cp sect entries).keys.Sublist (entries.map fun o => kc.lower o.1) := by
  have hentries : (putInOptions sys kc cp sect entries).Sublist
      (entries.map fun o => (kc.lower o.1, o.2)) := putInOptions_sublist entries
  have hkeys := hentries.map Prod.fst
  rwa [List.map_map] at hkeys

theorem storedTool_of_get {name : List Char} {stored : Option (List Char)}
    (h : cp.get kc sect name = .ok stored) : storedTool kc cp sect name = stored := by
  rw [storedTool, h]

/-- **All entries**: an update puts in what is not kept when its turn comes. -/
theorem updateEntries_eq (hne : sect ≠ [] ∧ sect ≠ defaultSect) (hsect : sect ∈ cp.sections.keys)
    {done entries : Options (List Char)}
    (hdone : ∀ o ∈ done, o.2 = [] ∨ percentsMeanSomething o.2 = true) {cp' : ConfigParser}
    (h : entries.foldlM (updateEntry sys kc sect) (cp.putAll sect done) = .ok cp') :
    cp' = cp.putAll sect (putInBehind sys kc cp sect done entries) ∧
      ∀ o ∈ putInBehind sys kc cp sect done entries,
        o.2 = [] ∨ percentsMeanSomething o.2 = true := by
  induction entries generalizing done with
  | nil =>
    obtain rfl := Except.ok.inj h
    exact ⟨rfl, hdone⟩
  | cons o entries ih =>
    rw [List.foldlM_cons] at h
    obtain ⟨cp₁, hstep, h⟩ := bind_eq_ok.mp h
    rw [updateEntry] at hstep
    obtain ⟨stored, hstored, hstep⟩ := bind_eq_ok.mp hstep
    -- the entry is looked up with what those before it have put in
    rw [putInBehind, storedTool_of_get hstored]
    split_ifs at hstep ⊢ with hkept
    · obtain rfl := Except.ok.inj hstep
      exact ih hdone h
    · -- `set` accepts the value and puts it in behind the others.
      obtain ⟨rfl, hpercent⟩ := ConfigParser.set_putAll hne hsect hstep
      refine ih (fun o' ho' => ?_) h
      rcases List.mem_append.mp ho' with ho' | ho'
      · exact hdone o' ho'
      · obtain rfl := List.mem_singleton.mp ho'
        exact hpercent

end Update

/-! ### After an update -/

section Agreement

variable {sys : ToolSystem} {kc : KeyCase} {cp : ConfigParser} {sect : List Char}
  {entries : Options (List Char)}

/-- A section that is looked up has a name of its own. -/
theorem ne_of_mem_sections (hwell : cp.WellFormed kc) (hsect : sect ∈ cp.sections.keys) :
    sect ≠ [] ∧ sect ≠ defaultSect := by
  obtain ⟨t, ht, rfl⟩ := List.mem_map.mp hsect
  exact ⟨(hwell.named t ht).2.ne_nil, (hwell.named t ht).1⟩

/-- **What an update puts in can stand in a file.** -/
theorem writable_of_mem_putInOptions (hentries : ToolEntries kc entries)
    (hread : ReadableUpdate sys kc cp sect entries) :
    ∀ o ∈ putInOptions sys kc cp sect entries, Writable kc o := by
  intro o ho
  obtain ⟨hname, hheader⟩ := hread o ho
  obtain ⟨o', ho', rfl⟩ := List.mem_map.mp ((putInOptions_sublist entries).subset ho)
  obtain ⟨hline, hstripped⟩ := hentries.line o' ho'
  exact writable_of_line hname hline hstripped hheader

/-- **The file is loaded as it was updated.** -/
theorem loadTools_updated {file : Option (List Char)} (hload : loadTools kc file = .ok cp)
    (hentries : ToolEntries kc entries) (hread : ReadableUpdate sys kc cp sect entries) :
    loadTools kc (some (saveTools (updated sys kc cp sect entries))) =
      .ok (updated sys kc cp sect entries) := by
  obtain ⟨hwell, hall⟩ := of_loadTools hload
  have hputIn := writable_of_mem_putInOptions hentries hread
  refine loadTools_saveTools (hwell.putAll sect hputIn) fun s hs => ?_
  rw [updated, ConfigParser.keys_putAll]
  exact hall s hs

/-- **What `update_section` does.** -/
theorem of_updateSection {file : Option (List Char)} (hload : loadTools kc file = .ok cp)
    (hsect : sect ∈ cp.sections.keys) {text : List Char}
    (h : updateSection sys kc sect entries file = .ok text) :
    saveTools (updated sys kc cp sect entries) = text ∧
      ∀ o ∈ putInOptions sys kc cp sect entries,
        o.2 = [] ∨ percentsMeanSomething o.2 = true := by
  have hne := ne_of_mem_sections (of_loadTools hload).1 hsect
  have hthere : ensureSection cp sect = .ok cp := if_pos hsect
  obtain ⟨cp₀, hload₀, h⟩ := bind_eq_ok.mp h
  obtain rfl := Except.ok.inj (hload.symm.trans hload₀)
  obtain ⟨cp₀, hensure, h⟩ := bind_eq_ok.mp h
  obtain rfl := Except.ok.inj (hthere.symm.trans hensure)
  obtain ⟨cp₁, hfold, h⟩ := bind_eq_ok.mp h
  obtain rfl := Except.ok.inj h
  rw [← ConfigParser.putAll_nil cp sect] at hfold
  obtain ⟨rfl, hpercent⟩ := updateEntries_eq hne hsect
    (fun o ho => absurd ho List.not_mem_nil) hfold
  exact ⟨rfl, hpercent⟩

/-! What is looked up after it. -/

theorem nodup_putInOptions (hentries : ToolEntries kc entries) :
    (putInOptions sys kc cp sect entries).keys.Nodup :=
  hentries.nodup.sublist (keys_putInOptions_sublist entries)

/-- An entry whose name is put in is put in. -/
theorem mem_putInOptions (hentries : ToolEntries kc entries) {o : List Char × List Char}
    (ho : o ∈ entries) (hput : kc.lower o.1 ∈ (putInOptions sys kc cp sect entries).keys) :
    (kc.lower o.1, o.2) ∈ putInOptions sys kc cp sect entries := by
  obtain ⟨p, hp, hname⟩ := List.mem_map.mp hput
  obtain ⟨o', ho', rfl⟩ := List.mem_map.mp ((putInOptions_sublist entries).subset hp)
  obtain rfl := List.inj_on_of_nodup_map hentries.nodup ho' ho hname
  exact hp

/-- **What is looked up for an entry whose value refers to nothing that is changed** is what was
looked up before. -/
theorem get_updated_of_refs (hsect : sect ∈ cp.sections.keys) (hentries : ToolEntries kc entries)
    {o : List Char × List Char}
    (hkept : kc.lower o.1 ∉ (putInOptions sys kc cp sect entries).keys)
    (hrefs : ∀ value, cp.raw sect (kc.lower o.1) = some value →
      ∀ key, Refers kc (cp.raw sect) value key →
        ∀ new, (key, new) ∈ putInOptions sys kc cp sect entries → cp.raw sect key = some new) :
    (updated sys kc cp sect entries).get kc sect o.1 = cp.get kc sect o.1 := by
  obtain ⟨opts, hopts⟩ := Options.exists_lookup_of_mem_keys hsect
  refine ConfigParser.get_putAll_of_raw
    (ConfigParser.raw_putAll_of_notMem hkept) fun value hvalue key hkey => ?_
  by_cases hmem : key ∈ (putInOptions sys kc cp sect entries).keys
  · obtain ⟨⟨key, new⟩, hnew, rfl⟩ := List.mem_map.mp hmem
    rw [ConfigParser.raw_putAll_of_mem hopts (nodup_putInOptions hentries) hnew,
      hrefs value hvalue _ hkey new hnew]
  · exact ConfigParser.raw_putAll_of_notMem hmem

/-- An entry that was put in has the new one, with its references filled in. -/
theorem get_updated_of_putIn {opts : Options (List Char)}
    (hopts : cp.sections.lookup sect = some opts) (hentries : ToolEntries kc entries)
    {o : List Char × List Char} (ho : o ∈ entries)
    (hput : kc.lower o.1 ∈ (putInOptions sys kc cp sect entries).keys) :
    (updated sys kc cp sect entries).get kc sect o.1 =
      some <$> interpolateSome kc ((updated sys kc cp sect entries).raw sect)
        maxInterpolationDepth o.2 := by
  have hraw : (updated sys kc cp sect entries).raw sect (kc.lower o.1) = some o.2 :=
    ConfigParser.raw_putAll_of_mem hopts (nodup_putInOptions hentries)
      (mem_putInOptions hentries ho hput)
  rw [ConfigParser.get, hraw]

/-- Without percent signs, it has the new one. -/
theorem get_updated_of_notMem {opts : Options (List Char)}
    (hopts : cp.sections.lookup sect = some opts) (hentries : ToolEntries kc entries)
    {o : List Char × List Char} (ho : o ∈ entries)
    (hput : kc.lower o.1 ∈ (putInOptions sys kc cp sect entries).keys) (hnot : '%' ∉ o.2) :
    (updated sys kc cp sect entries).get kc sect o.1 = .ok (some o.2) := by
  rw [get_updated_of_putIn hopts hentries ho hput]
  show some <$> interpolateSome kc _ (9 + 1) o.2 = _
  rw [interpolateSome_of_notMem hnot]
  rfl

/-- What `set` accepts in a safe update has no percent signs. -/
theorem SafeUpdate.notMem (hsafe : SafeUpdate sys kc cp sect entries) {o : List Char × List Char}
    (ho : o ∈ putInOptions sys kc cp sect entries)
    (hpercent : o.2 = [] ∨ percentsMeanSomething o.2 = true) : '%' ∉ o.2 := by
  rcases hpercent with hnil | hpercent
  · rw [hnil]
    exact List.not_mem_nil
  · exact hsafe.percent o ho hpercent

/-- The test of the code is whether a value points at something. -/
theorem pointsAt_iff (value : List Char) :
    PointsAt sys value ↔ value ≠ [] ∧ pathValid sys value = true := by
  rw [PointsAt, pathValid]
  simp only [List.isPrefixOf_iff_prefix]
  split_ifs <;> simp_all [Option.isSome_iff_ne_none]

theorem validTool_some (value : List Char) : validTool sys (some value) =
    if value ≠ [] ∧ pathValid sys value then some value else none := by
  simp [validTool, Option.filter_some, pointsAt_iff]

/-- **The lookup of a tool** in its section. -/
theorem resolveTool_eq {file : Option (List Char)} (hload : loadTools kc file = .ok cp)
    (hne : sect ≠ []) (hsect : sect ∈ cp.sections.keys) (name : List Char) :
    resolveTool sys kc name (some sect) file =
      (fun stored => (validTool sys stored).or (sys.which name)) <$> cp.get kc sect name := by
  rw [resolveTool, hload]
  change resolveIn sys kc cp name (if sect = [] then toolSections else [sect]) = _
  rw [if_neg hne, resolveIn, if_neg (not_not.mpr hsect)]
  rcases cp.get kc sect name with e | stored
  · rfl
  · rcases stored with _ | value
    · rfl
    · change (if value ≠ [] ∧ pathValid sys value then Except.ok (some value)
        else Except.ok (sys.which name)) = .ok ((validTool sys (some value)).or _)
      rw [validTool_some]
      split_ifs <;> rfl

/-- The lookup of a tool after an update. -/
theorem resolveTool_updated {file : Option (List Char)} (hload : loadTools kc file = .ok cp)
    (hsect : sect ∈ cp.sections.keys) (hentries : ToolEntries kc entries)
    (hread : ReadableUpdate sys kc cp sect entries) (name : List Char) :
    resolveTool sys kc name (some sect) (some (saveTools (updated sys kc cp sect entries))) =
      (fun stored => (validTool sys stored).or (sys.which name)) <$>
        (updated sys kc cp sect entries).get kc sect name := by
  have hne := ne_of_mem_sections (of_loadTools hload).1 hsect
  refine resolveTool_eq (loadTools_updated hload hentries hread) hne.1 ?_ name
  rwa [updated, ConfigParser.keys_putAll]

/-! The three parts. -/

/-- A stored value that is kept is there. -/
theorem exists_get_of_isKept {name : List Char}
    (h : isKept sys (storedTool kc cp sect name) = true) :
    ∃ value, cp.get kc sect name = .ok (some value) ∧ value ≠ [] ∧ pathValid sys value = true := by
  rw [storedTool] at h
  rcases hget : cp.get kc sect name with e | _ | value
  · rw [hget] at h
    cases h
  · rw [hget] at h
    cases h
  · rw [hget] at h
    have hkept := of_decide_eq_true h
    exact ⟨value, rfl, hkept.1, hkept.2.2⟩

/-- **What is looked up for an entry after a safe update** is its stored value, if it is valid, or
the new one; and it is put in then, or kept if the update is repeated. -/
theorem get_updated_of_safe (hsect : sect ∈ cp.sections.keys) (hentries : ToolEntries kc entries)
    (hsafe : SafeUpdate sys kc cp sect entries)
    (hpercent : ∀ o ∈ putInOptions sys kc cp sect entries,
      o.2 = [] ∨ percentsMeanSomething o.2 = true) {o : List Char × List Char} (ho : o ∈ entries) :
    (∃ value, (updated sys kc cp sect entries).get kc sect o.1 = .ok (some value) ∧
      validTool sys (some value) =
        (validTool sys (storedTool kc cp sect o.1)).or (validTool sys (some o.2)) ∧
      (isKept sys (some value) = true ∨
        value = o.2 ∧ kc.lower o.1 ∈ (putInOptions sys kc cp sect entries).keys)) := by
  by_cases hput : kc.lower o.1 ∈ (putInOptions sys kc cp sect entries).keys
  · -- It was put in: what was stored is not valid, or the same.
    obtain ⟨opts, hopts⟩ := Options.exists_lookup_of_mem_keys hsect
    have hmem := mem_putInOptions hentries ho hput
    have hnot := hsafe.notMem hmem (hpercent _ hmem)
    refine ⟨o.2, get_updated_of_notMem hopts hentries ho hput hnot, ?_, Or.inr ⟨rfl, hput⟩⟩
    rcases hsafe.putIn o ho hput with hnone | hsame
    · rw [hnone, Option.none_or]
    · rw [hsame, Option.or_self]
  · rcases hsafe.kept o ho hput with ⟨hkept, hrefs⟩ | ⟨hnone, hpoints, hnew⟩
    · -- It was kept: its value is valid, and the same as before.
      obtain ⟨value, hget, hvalid⟩ := exists_get_of_isKept hkept
      have hsame := get_updated_of_refs hsect hentries hput hrefs
      rw [storedTool_of_get hget] at hkept ⊢
      refine ⟨value, hsame.trans hget, ?_, Or.inl hkept⟩
      rw [validTool_some, if_pos hvalid]
      rfl
    · -- It was kept for what it has become, which is the new value.
      have hvalid := (pointsAt_iff o.2).mp hpoints
      refine ⟨o.2, hnew, by rw [hnone, Option.none_or], Or.inl ?_⟩
      have hblank : stripChars o.2 ≠ [] := by
        rw [(hentries.line o ho).2.stripChars_eq]
        exact hvalid.1
      exact decide_eq_true ⟨hvalid.1, hblank, hvalid.2⟩

/-- **Each entry is resolved as expected.** -/
theorem resolved_of_safe {file : Option (List Char)} (hload : loadTools kc file = .ok cp)
    (hsect : sect ∈ cp.sections.keys) (hentries : ToolEntries kc entries)
    (hsafe : SafeUpdate sys kc cp sect entries) {text : List Char}
    (h : updateSection sys kc sect entries file = .ok text) {o : List Char × List Char}
    (ho : o ∈ entries) :
    resolveTool sys kc o.1 (some sect) (some text) =
      .ok (expectedTool sys (storedTool kc cp sect o.1) o) := by
  obtain ⟨rfl, hpercent⟩ := of_updateSection hload hsect h
  obtain ⟨value, hget, hvalid, -⟩ := get_updated_of_safe hsect hentries hsafe hpercent ho
  rw [resolveTool_updated hload hsect hentries hsafe.readable, hget, expectedTool, ← hvalid]
  rfl

/-- **Every other option is as it was.** -/
theorem unchanged_updated (hsect : sect ∈ cp.sections.keys) : ∃ opts opts',
    (updated sys kc cp sect entries).defaults = cp.defaults ∧
    (updated sys kc cp sect entries).sections.keys = cp.sections.keys ∧
    (∀ s, s ≠ sect →
      (updated sys kc cp sect entries).sections.lookup s = cp.sections.lookup s) ∧
    cp.sections.lookup sect = some opts ∧
    (updated sys kc cp sect entries).sections.lookup sect = some opts' ∧
    ∀ key, key ∉ entries.map (fun o => kc.lower o.1) → opts'.lookup key = opts.lookup key := by
  obtain ⟨opts, hopts⟩ := Options.exists_lookup_of_mem_keys hsect
  refine ⟨opts, Options.putAll (putInOptions sys kc cp sect entries) opts, rfl,
    ConfigParser.keys_putAll .., fun s hs => ConfigParser.lookup_putAll_of_ne hs, hopts, ?_,
    fun key hkey => ?_⟩
  · rw [updated, ConfigParser.lookup_putAll, hopts]
    rfl
  · exact Options.lookup_putAll_of_notMem
      (fun hmem => hkey ((keys_putInOptions_sublist entries).subset hmem)) opts

/-- An entry that is put in again. -/
theorem updateEntry_updated (hwell : cp.WellFormed kc) (hsect : sect ∈ cp.sections.keys)
    (hentries : ToolEntries kc entries) (hsafe : SafeUpdate sys kc cp sect entries)
    (hpercent : ∀ o ∈ putInOptions sys kc cp sect entries,
      o.2 = [] ∨ percentsMeanSomething o.2 = true) {o : List Char × List Char} (ho : o ∈ entries) :
    updateEntry sys kc sect (updated sys kc cp sect entries) o =
      .ok (updated sys kc cp sect entries) := by
  obtain ⟨value, hget, -, hagain⟩ := get_updated_of_safe hsect hentries hsafe hpercent ho
  rw [updateEntry, hget]
  show (if isKept sys (some value) then _ else _) = _
  split_ifs with hkept
  · rfl
  · -- It was put in, and is put in with the value that it has.
    obtain ⟨rfl, hput⟩ := hagain.resolve_left hkept
    obtain ⟨opts, hopts⟩ := Options.exists_lookup_of_mem_keys hsect
    have hmem := mem_putInOptions hentries ho hput
    have hwell' := hwell.putAll sect (writable_of_mem_putInOptions hentries hsafe.readable)
    have hopts' : (updated sys kc cp sect entries).sections.lookup sect =
        some (Options.putAll (putInOptions sys kc cp sect entries) opts) := by
      rw [updated, ConfigParser.lookup_putAll, hopts]
      rfl
    have hlookup := Options.lookup_putAll_of_mem (nodup_putInOptions hentries) hmem opts
    exact ConfigParser.set_of_lookup hwell'.nodup (ne_of_mem_sections hwell hsect) hopts' hlookup
      (hpercent (kc.lower o.1, o.2) hmem)

/-- **An update that is repeated changes nothing.** -/
theorem repeated_of_safe {file : Option (List Char)} (hload : loadTools kc file = .ok cp)
    (hsect : sect ∈ cp.sections.keys) (hentries : ToolEntries kc entries)
    (hsafe : SafeUpdate sys kc cp sect entries) {text : List Char}
    (h : updateSection sys kc sect entries file = .ok text) :
    updateSection sys kc sect entries (some text) = .ok text := by
  obtain ⟨rfl, hpercent⟩ := of_updateSection hload hsect h
  have hensure : ensureSection (updated sys kc cp sect entries) sect =
      .ok (updated sys kc cp sect entries) :=
    if_pos (by rwa [updated, ConfigParser.keys_putAll])
  have hfold : entries.foldlM (updateEntry sys kc sect) (updated sys kc cp sect entries) =
      .ok (updated sys kc cp sect entries) := foldlM_eq_self fun o ho =>
    updateEntry_updated (of_loadTools hload).1 hsect hentries hsafe hpercent ho
  refine bind_eq_ok.mpr ⟨_, loadTools_updated hload hentries hsafe.readable, ?_⟩
  refine bind_eq_ok.mpr ⟨_, hensure, ?_⟩
  exact bind_eq_ok.mpr ⟨_, hfold, rfl⟩

end Agreement

/-! ### A file with one entry -/

/-- The options without a file. -/
def noTools : ConfigParser where
  sections := toolSections.map fun s => (s, [])

/-- A system with one path. -/
def onePath (path : List Char) : ToolSystem where
  pathExists value := value = path
  which _ := none

/-- The path is put in. -/
theorem updateSection_cc {path : List Char} (hpercent : percentsMeanSomething path = true) :
    updateSection (onePath path) .ascii "build".toList [("cc".toList, path)] none =
      .ok (saveTools (updated (onePath path) .ascii noTools "build".toList
        [("cc".toList, path)])) := by
  have hentry : updateEntry (onePath path) .ascii "build".toList noTools ("cc".toList, path) =
      .ok (noTools.putAll "build".toList [("cc".toList, path)]) := by
    show noTools.set .ascii "build".toList "cc".toList path = _
    rw [ConfigParser.set, if_neg (by simp [hpercent])]
    rfl
  refine bind_eq_ok.mpr ⟨noTools, rfl, bind_eq_ok.mpr ⟨noTools, rfl, ?_⟩⟩
  exact bind_eq_ok.mpr ⟨_, bind_eq_ok.mpr ⟨_, hentry, rfl⟩, rfl⟩

theorem putInOptions_cc (path : List Char) :
    putInOptions (onePath path) .ascii noTools "build".toList [("cc".toList, path)] =
      [("cc".toList, path)] := by
  rfl

/-- What one entry for `cc` puts in is read as it was written. -/
theorem readableUpdate_cc (path : List Char) :
    ReadableUpdate (onePath path) .ascii noTools "build".toList [("cc".toList, path)] := by
  intro o ho
  rw [putInOptions_cc] at ho
  obtain rfl := List.mem_singleton.mp ho
  have hname : WritableName .ascii "cc".toList := ⟨by decide, stripped_of_eq (by decide),
    by simp [isDelimiter], by decide, ⟨by decide, by decide⟩, by decide⟩
  refine ⟨hname, ?_⟩
  rintro ⟨hhead, -⟩
  cases hhead

theorem toolEntries_cc {path : List Char} (hline : IsFileLine path) (hstripped : Stripped path) :
    ToolEntries .ascii [("cc".toList, path)] := by
  refine ⟨List.nodup_cons.mpr ⟨List.not_mem_nil, List.nodup_nil⟩, fun o ho => ?_⟩
  obtain rfl := List.mem_singleton.mp ho
  exact ⟨hline, hstripped⟩

/-- A file in which one tool is stored by reference to another, which is not there. -/
def storedFile : List Char := "[build]\ncxx = %(cc)s++\ncc = /nonexistent\n".toList

/-- What is loaded from it. -/
def storedTools : ConfigParser where
  sections := ("build".toList, [("cxx".toList, "%(cc)s++".toList),
    ("cc".toList, "/nonexistent".toList)]) :: (toolSections.tail.map fun s => (s, []))

/-- New paths for both. -/
def gnuCompilers : Options (List Char) :=
  [("cxx".toList, "/usr/bin/g++".toList), ("cc".toList, "/usr/bin/gcc".toList)]

/-- A system in which these are all paths. -/
def gccSystem : ToolSystem where
  pathExists value := value ∈ gnuCompilers.map Prod.snd
  which _ := none

theorem loadTools_storedFile : loadTools .ascii (some storedFile) = .ok storedTools := by
  rfl

theorem putInOptions_gnuCompilers :
    putInOptions gccSystem .ascii storedTools "build".toList gnuCompilers = gnuCompilers := by
  decide +kernel

/-- What is put in can stand in a file, and replaces values that are no paths: the reference does
not matter, since the entry that has it is put in before the one that it leads to. -/
theorem safeUpdate_gnuCompilers :
    SafeUpdate gccSystem .ascii storedTools "build".toList gnuCompilers where
  readable := by
    have hnames : ∀ o ∈ gnuCompilers, o.1 ≠ [] ∧ stripChars o.1 = o.1 ∧
        (o.1.all fun c => !isDelimiter c) = true ∧ isComment o.1 = false ∧ '\n' ∉ o.1 ∧
        '\r' ∉ o.1 ∧ KeyCase.ascii.lower o.1 = o.1 ∧
        (optionLine o.1 o.2).head? ≠ some '[' := by decide
    intro o ho
    rw [putInOptions_gnuCompilers] at ho
    obtain ⟨hne, hstrip, hdelimiter, hcomment, hlf, hcr, hlower, hhead⟩ := hnames o ho
    have hchars : ∀ c ∈ o.1, isDelimiter c = false := fun c hc => by
      simpa using List.all_eq_true.mp hdelimiter c hc
    exact ⟨⟨hne, stripped_of_eq hstrip, hchars, hcomment, ⟨hlf, hcr⟩, hlower⟩,
      fun hheader => hhead hheader.1⟩
  percent := by
    have hall : ∀ o ∈ gnuCompilers, '%' ∉ o.2 := by decide
    intro o ho _
    rw [putInOptions_gnuCompilers] at ho
    exact hall o ho
  putIn := by
    have hall : ∀ o ∈ gnuCompilers,
        validTool gccSystem (storedTool .ascii storedTools "build".toList o.1) = none := by
      decide +kernel
    exact fun o ho _ => Or.inl (hall o ho)
  kept := by
    have hall : ∀ o ∈ gnuCompilers, KeyCase.ascii.lower o.1 ∈ gnuCompilers.keys := by decide
    intro o ho hnot
    rw [putInOptions_gnuCompilers] at hnot
    exact absurd (hall o ho) hnot

theorem toolEntries_gnuCompilers : ToolEntries .ascii gnuCompilers where
  nodup := by decide
  line := by
    have hall : ∀ o ∈ gnuCompilers, '\n' ∉ o.2 ∧ '\r' ∉ o.2 ∧ stripChars o.2 = o.2 := by decide
    intro o ho
    obtain ⟨hlf, hcr, hstrip⟩ := hall o ho
    exact ⟨⟨hlf, hcr⟩, stripped_of_eq hstrip⟩

section Needed

variable {sys : ToolSystem} {kc : KeyCase} {cp : ConfigParser} {sect : List Char}
  {entries : Options (List Char)}

/-- A name that no section has is looked up on the `PATH`. -/
theorem resolveIn_of_raw {name : List Char} {sects : List (List Char)}
    (h : ∀ s ∈ sects, cp.raw s (kc.lower name) = none) :
    resolveIn sys kc cp name sects = .ok (sys.which name) := by
  induction sects with
  | nil => rfl
  | cons s sects ih =>
    obtain ⟨hs, hrest⟩ := List.forall_mem_cons.mp h
    have hget : cp.get kc s name = .ok none := by rw [ConfigParser.get, hs]
    rw [resolveIn, hget, ih hrest]
    split_ifs <;> rfl

/-- **Names must be such that they can stand in a file**: no file gives back a valid path under
another name. -/
theorem writableName_of_agreement {text : List Char}
    (hagree : Agreement sys kc cp sect entries text) {o : List Char × List Char} (ho : o ∈ entries)
    (hnone : validTool sys (storedTool kc cp sect o.1) = none)
    (hvalid : o.2 ≠ [] ∧ pathValid sys o.2) (hwhich : sys.which o.1 ≠ some o.2) :
    WritableName kc (kc.lower o.1) := by
  by_contra hname
  have hresolve := hagree.resolved o ho
  have hexpected : expectedTool sys (storedTool kc cp sect o.1) o = some o.2 := by
    rw [expectedTool, hnone, validTool_some, if_pos hvalid]
    rfl
  obtain ⟨cp', hload, hfound⟩ := bind_eq_ok.mp hresolve
  have hwell := (of_loadTools hload).1
  rw [resolveIn_of_raw fun s _ => hwell.raw_eq_none hname s, hexpected] at hfound
  exact hwhich (Except.ok.inj hfound)

/-- **A path with a percent sign is not given back**: what is looked up for it is shorter. -/
theorem not_agreement_of_percent {file : Option (List Char)} (hload : loadTools kc file = .ok cp)
    (hsect : sect ∈ cp.sections.keys) (hentries : ToolEntries kc entries)
    (hread : ReadableUpdate sys kc cp sect entries) {text : List Char}
    (h : updateSection sys kc sect entries file = .ok text) {o : List Char × List Char}
    (ho : o ∈ entries) (hput : kc.lower o.1 ∈ (putInOptions sys kc cp sect entries).keys)
    (hnone : validTool sys (storedTool kc cp sect o.1) = none) (hpercent : '%' ∈ o.2)
    (hbracket : '(' ∉ o.2) (hvalid : pathValid sys o.2 = true) (hwhich : sys.which o.1 ≠ some o.2) :
    ¬ Agreement sys kc cp sect entries text := by
  intro hagree
  have hresolve := hagree.resolved o ho
  have hexpected : expectedTool sys (storedTool kc cp sect o.1) o = some o.2 := by
    rw [expectedTool, hnone, validTool_some, if_pos ⟨List.ne_nil_of_mem hpercent, hvalid⟩]
    rfl
  obtain ⟨rfl, -⟩ := of_updateSection hload hsect h
  obtain ⟨opts, hopts⟩ := Options.exists_lookup_of_mem_keys hsect
  have hnew := get_updated_of_putIn hopts hentries ho hput
  -- The lookup fails, or finds something shorter, or the `PATH` is asked.
  rw [hexpected, resolveTool_updated hload hsect hentries hread, hnew] at hresolve
  rcases hfilled : interpolateSome kc ((updated sys kc cp sect entries).raw sect)
      maxInterpolationDepth o.2 with e | value
  · rw [hfilled] at hresolve
    cases hresolve
  · rw [hfilled] at hresolve
    change Except.ok ((validTool sys (some value)).or _) = _ at hresolve
    rw [validTool_some] at hresolve
    have hshort := (length_fillRefs 0 o.2 hbracket hfilled).2 rfl hpercent
    split_ifs at hresolve
    · obtain rfl := Option.some.inj (Except.ok.inj hresolve)
      exact lt_irrefl _ hshort
    · exact hwhich (Except.ok.inj hresolve)

end Needed

end Apatchy
