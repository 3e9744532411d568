import Apatchy.Foundations.Replacement
import Mathlib.Algebra.BigOperators.Group.List.Basic
import Mathlib.Algebra.GroupWithZero.Nat

/-!
# Rewriting the paths of a copied tree

A tree that was configured has its own path in many of its files. When it is copied, the
path of the original is replaced by that of the copy in all files with one of seven kinds
of names (`Apatchy.rewritePaths`). The files are visited by their paths, and the copy
keeps symbolic links, so one file can be visited more than once.

The path of the copy is that of the original with a suffix, so a file that is visited
again is rewritten again. The text of a file in which the path occurs is what replacing it
once gives exactly if one path leads to the file (`Apatchy.rewritePaths_replacesOnce_iff`).
-/

namespace Apatchy

/-! ### Trees and files -/

/-- **A copied tree**, as far as it is walked. -/
structure CopiedTree (ι : Type) where
  /-- The paths in it, as they are walked. -/
  paths : List (List String)
  /-- The file a path leads to, links followed. -/
  leadsTo : List String → Option ι

/-- The files. -/
structure TextFiles (ι : Type) where
  /-- What is in a file, if it can be read as text. -/
  content : ι → Option String
  /-- Whether it can be written. -/
  writable : ι → Bool

/-- What reading a file gives. -/
def TextFiles.text {ι : Type} (files : TextFiles ι) (file : ι) : Option String :=
  (files.content file).map readText

/-- `globs`. -/
def globs : List String :=
  ["Makefile", "*.mk", "config.status", "config.nice", "config.log", "libtool", "*.la"]

/-- Whether a name matches a pattern, which may start with a star. -/
def globMatches (pattern name : String) : Bool :=
  match pattern.toList with
  | '*' :: ending => ending.isSuffixOf name.toList
  | _ => name = pattern

/-- `text.replace(old_prefix, new_prefix)`. -/
def rewritten (oldPrefix newPrefix text : String) : String :=
  String.ofList (replaceAll oldPrefix.toList newPrefix.toList text.toList)

section Rewrite

variable {ι : Type} [DecidableEq ι] (tree : CopiedTree ι) (oldPrefix newPrefix : String)

/-- `tree.rglob(pattern)`. -/
def CopiedTree.rglob (pattern : String) : List (List String) :=
  tree.paths.filter fun path => globMatches pattern (path.getLastD "")

/-- One path. -/
def rewriteFile (files : TextFiles ι) (path : List String) : Except String (TextFiles ι) :=
  match tree.leadsTo path with
  | none => .ok files
  | some file =>
    -- what cannot be read as text is passed over
    match files.text file with
    | none => .ok files
    | some text =>
      let replaced := rewritten oldPrefix newPrefix text
      if replaced = text then .ok files
      else if files.writable file then
        .ok { files with content := Function.update files.content file (some replaced) }
      else .error "PermissionError"

/-- **`rewrite_paths`.** -/
def rewritePaths (files : TextFiles ι) : Except String (TextFiles ι) :=
  globs.foldlM (fun files pattern =>
    (tree.rglob pattern).foldlM (rewriteFile tree oldPrefix newPrefix) files) files

/-- The paths by which a file is visited. -/
def CopiedTree.pathsTo (file : ι) : List (List String) :=
  tree.paths.filter fun path =>
    tree.leadsTo path = some file ∧ globs.any fun pattern => globMatches pattern (path.getLastD "")

end Rewrite

/-! ### How often a file is visited -/

/-- **No name matches two patterns.** -/
theorem countP_globMatches_le_one (name : String) :
    globs.countP (fun pattern => globMatches pattern name) ≤ 1 := by
  -- Of the names themselves, each matches its own pattern only.
  by_cases hexact : name ∈ ["Makefile", "config.status", "config.nice", "config.log", "libtool"]
  · simp only [List.mem_cons, List.not_mem_nil, or_false] at hexact
    rcases hexact with rfl | rfl | rfl | rfl | rfl <;> decide
  · simp only [List.mem_cons, List.not_mem_nil, or_false, not_or] at hexact
    obtain ⟨h₁, h₂, h₃, h₄, h₅⟩ := hexact
    have hendings : ¬ (globMatches "*.mk" name = true ∧ globMatches "*.la" name = true) := by
      rintro ⟨hmk, hla⟩
      have hsuffix : ['.', 'm', 'k'] <:+ name.toList := List.isSuffixOf_iff_suffix.mp hmk
      have hsuffix' : ['.', 'l', 'a'] <:+ name.toList := List.isSuffixOf_iff_suffix.mp hla
      have hsame := (List.suffix_of_suffix_length_le hsuffix hsuffix' le_rfl).eq_of_length rfl
      exact absurd hsame (by decide)
    have hexactGlob : ∀ pattern, pattern.toList.head? ≠ some '*' → name ≠ pattern →
        globMatches pattern name = false := by
      intro pattern hstar hne
      rw [globMatches]
      split
      · next ending heq => exact absurd (by rw [heq]; rfl) hstar
      · exact decide_eq_false hne
    simp only [globs, List.countP_cons, List.countP_nil,
      hexactGlob "Makefile" (by decide) h₁, hexactGlob "config.status" (by decide) h₂,
      hexactGlob "config.nice" (by decide) h₃, hexactGlob "config.log" (by decide) h₄,
      hexactGlob "libtool" (by decide) h₅]
    rcases hmk : globMatches "*.mk" name with _ | _
    · rcases globMatches "*.la" name with _ | _ <;> decide
    · rcases hla : globMatches "*.la" name with _ | _
      · decide
      · exact absurd ⟨hmk, hla⟩ hendings

section Visits

variable {ι : Type} [DecidableEq ι] (tree : CopiedTree ι) (file : ι)

theorem sum_map_ite_eq_countP {α : Type*} (p : α → Bool) (as : List α) :
    (as.map fun a => if p a = true then 1 else 0).sum = as.countP p := by
  induction as with
  | nil => rfl
  | cons a as ih => rw [List.map_cons, List.sum_cons, List.countP_cons, ih, Nat.add_comm]

/-- **Over all patterns, a file is visited once for each of its paths.** -/
theorem sum_visits :
    (globs.map fun pattern =>
        (tree.rglob pattern).countP fun path => tree.leadsTo path = some file).sum =
      (tree.pathsTo file).length := by
  simp only [CopiedTree.rglob, CopiedTree.pathsTo, List.countP_filter,
    ← List.countP_eq_length_filter]
  induction tree.paths with
  | nil => simp
  | cons path paths ih =>
    simp only [List.countP_cons, List.sum_map_add, ih]
    congr 1
    have hone := countP_globMatches_le_one (path.getLastD "")
    by_cases hlead : tree.leadsTo path = some file
    · simp only [hlead, decide_true, Bool.true_and, true_and, Bool.decide_eq_true,
        sum_map_ite_eq_countP]
      rcases hany : globs.any fun pattern => globMatches pattern (path.getLastD "") with _ | _
      · rw [if_neg Bool.false_ne_true, List.countP_eq_zero]
        simpa using hany
      · have hpos : 0 < globs.countP fun pattern => globMatches pattern (path.getLastD "") := by
          rw [List.countP_pos_iff]
          simpa using hany
        rw [if_pos rfl]
        omega
    · simp [hlead]

end Visits

/-! ### What is done to a file -/

section Rewrite

variable {ι : Type} [DecidableEq ι] {tree : CopiedTree ι} {oldPrefix newPrefix : String}
  {files files' : TextFiles ι}

/-- What a file reads as after it was rewritten. -/
def reread (oldPrefix newPrefix text : String) : String :=
  readText (rewritten oldPrefix newPrefix text)

omit [DecidableEq ι] in
theorem not_mem_text {file : ι} {text : String} (h : files.text file = some text) :
    '\r' ∉ text.toList := by
  obtain ⟨content, -, rfl⟩ := Option.map_eq_some_iff.mp h
  rw [readText, String.toList_ofList]
  exact not_mem_universalNewlines _

theorem readText_of_not_mem {text : String} (h : '\r' ∉ text.toList) : readText text = text := by
  rw [readText, universalNewlines_of_not_mem h, String.ofList_toList]

/-- **A visit** rewrites the file it leads to, and no other. -/
theorem text_rewriteFile {path : List String}
    (h : rewriteFile tree oldPrefix newPrefix files path = .ok files') (file : ι) :
    files'.text file =
      if tree.leadsTo path = some file then (files.text file).map (reread oldPrefix newPrefix)
      else files.text file := by
  rw [rewriteFile] at h
  rcases hlead : tree.leadsTo path with _ | target
  · rw [hlead] at h
    obtain rfl := Except.ok.inj h
    simp
  · rw [hlead] at h
    simp only at h
    rcases htext : files.text target with _ | text
    · rw [htext] at h
      obtain rfl := Except.ok.inj h
      by_cases hfile : target = file
      · subst hfile
        simp [htext]
      · simp [hfile]
    · rw [htext] at h
      simp only at h
      -- rewritten to itself, written, or raised
      split_ifs at h with hsame hwritable
      · obtain rfl := Except.ok.inj h
        by_cases hfile : target = file
        · subst hfile
          simp [htext, reread, hsame, readText_of_not_mem (not_mem_text htext)]
        · simp [hfile]
      · obtain rfl := Except.ok.inj h
        by_cases hfile : target = file
        · subst hfile
          have hold := htext
          simp only [TextFiles.text] at hold ⊢
          simp [hold, reread]
        · have hne : file ≠ target := Ne.symm hfile
          simp [TextFiles.text, hfile, hne]

/-- **Some visits** rewrite a file as often as they lead to it. -/
theorem text_foldlM_rewriteFile {paths : List (List String)}
    (h : paths.foldlM (rewriteFile tree oldPrefix newPrefix) files = .ok files') (file : ι) :
    files'.text file =
      (files.text file).map
        (reread oldPrefix newPrefix)^[paths.countP fun path => tree.leadsTo path = some file] := by
  induction paths generalizing files with
  | nil =>
    obtain rfl := Except.ok.inj h
    simp
  | cons path paths ih =>
    rw [List.foldlM_cons] at h
    rcases hfirst : rewriteFile tree oldPrefix newPrefix files path with error | mid
    · rw [hfirst] at h
      exact absurd h (by simp [bind, Except.bind])
    · rw [hfirst] at h
      rw [ih h, text_rewriteFile hfirst file, List.countP_cons]
      by_cases hlead : tree.leadsTo path = some file
      · simp [hlead, Function.iterate_succ]
      · simp [hlead]

/-- What the loop over some patterns does to a file. -/
theorem text_foldlM_patterns {patterns : List String}
    (h : patterns.foldlM (fun files pattern =>
      (tree.rglob pattern).foldlM (rewriteFile tree oldPrefix newPrefix) files) files =
        .ok files') (file : ι) :
    files'.text file =
      (files.text file).map (reread oldPrefix newPrefix)^[(patterns.map fun pattern =>
        (tree.rglob pattern).countP fun path => tree.leadsTo path = some file).sum] := by
  induction patterns generalizing files with
  | nil =>
    obtain rfl := Except.ok.inj h
    simp
  | cons pattern patterns ih =>
    rw [List.foldlM_cons] at h
    rcases hfirst : (tree.rglob pattern).foldlM (rewriteFile tree oldPrefix newPrefix) files
      with error | mid
    · rw [hfirst] at h
      exact absurd h (by simp [bind, Except.bind])
    · rw [hfirst] at h
      rw [ih h, text_foldlM_rewriteFile hfirst file, Option.map_map, ← Function.iterate_add,
        List.map_cons, List.sum_cons, Nat.add_comm]

/-- **A file is rewritten once for each path that leads to it.** -/
theorem text_rewritePaths (h : rewritePaths tree oldPrefix newPrefix files = .ok files')
    (file : ι) :
    files'.text file =
      (files.text file).map (reread oldPrefix newPrefix)^[(tree.pathsTo file).length] := by
  rw [text_foldlM_patterns h, sum_visits]

/-! ### Replacing once -/

/-- **The path is replaced once**: what the file reads as is what it read as before, with
each occurrence of the path replaced. -/
def ReplacesOnce (oldPrefix newPrefix : String) (files files' : TextFiles ι) (file : ι) : Prop :=
  files'.text file = (files.text file).map (rewritten oldPrefix newPrefix)

theorem rewritten_append (oldPrefix suffix text : String) :
    rewritten oldPrefix (oldPrefix ++ suffix) text =
      String.ofList (replaceAll oldPrefix.toList (oldPrefix.toList ++ suffix.toList)
        text.toList) := by
  rw [rewritten, String.toList_append]

/-- A rewriting that changes nothing can be done any number of times. -/
theorem iterate_reread_of_fixed {suffix text : String} (htext : '\r' ∉ text.toList)
    (h : replaceAll oldPrefix.toList (oldPrefix.toList ++ suffix.toList) text.toList =
      text.toList) (n : ℕ) :
    (reread oldPrefix (oldPrefix ++ suffix))^[n] text =
      rewritten oldPrefix (oldPrefix ++ suffix) text := by
  have hsame : rewritten oldPrefix (oldPrefix ++ suffix) text = text := by
    rw [rewritten_append, h, String.ofList_toList]
  have hfixed : reread oldPrefix (oldPrefix ++ suffix) text = text := by
    rw [reread, hsame, readText_of_not_mem htext]
  rw [Function.iterate_fixed hfixed, hsame]

/-- **Without carriage returns, what is written is what is read**, however often. -/
theorem iterate_reread_of_not_mem {suffix text : String} (hold : '\r' ∉ oldPrefix.toList)
    (hsuffix : '\r' ∉ suffix.toList) (htext : '\r' ∉ text.toList) (n : ℕ) :
    (reread oldPrefix (oldPrefix ++ suffix))^[n] text =
        String.ofList ((replaceAll oldPrefix.toList
          (oldPrefix.toList ++ suffix.toList))^[n] text.toList) ∧
      '\r' ∉ ((replaceAll oldPrefix.toList
        (oldPrefix.toList ++ suffix.toList))^[n] text.toList) := by
  induction n with
  | zero => exact ⟨String.ofList_toList.symm, htext⟩
  | succ n ih =>
    obtain ⟨hiterate, hnone⟩ := ih
    rw [Function.iterate_succ_apply', Function.iterate_succ_apply', hiterate]
    have hnext : '\r' ∉ replaceAll oldPrefix.toList (oldPrefix.toList ++ suffix.toList)
        ((replaceAll oldPrefix.toList (oldPrefix.toList ++ suffix.toList))^[n] text.toList) := by
      intro hmem
      rcases mem_of_mem_replaceAll hmem with hmem | hmem
      · exact hnone hmem
      · exact (List.mem_append.mp hmem).elim hold hsuffix
    refine ⟨?_, hnext⟩
    rw [reread, rewritten_append, String.toList_ofList, readText_of_not_mem]
    rwa [String.toList_ofList]

/-- **The rewriting, done several times**: it gives what it gives once, exactly if the path
does not occur, or nothing is added to it, or it is done once and what is added has no
carriage return. -/
theorem iterate_reread_eq_iff {suffix text : String} (htext : '\r' ∉ text.toList) {n : ℕ}
    (hn : n ≠ 0) :
    (reread oldPrefix (oldPrefix ++ suffix))^[n] text =
        rewritten oldPrefix (oldPrefix ++ suffix) text ↔
      containsText oldPrefix text = false ∨ suffix = "" ∨ n = 1 ∧ '\r' ∉ suffix.toList := by
  rcases hoccurs : containsText oldPrefix text with _ | _
  · -- the path does not occur, and reading changes nothing either
    have hnot : ¬ oldPrefix.toList <:+: text.toList := by
      rw [← containsText_iff, hoccurs]
      exact Bool.false_ne_true
    exact iff_of_true (iterate_reread_of_fixed htext (replaceAll_of_not_occurs hnot) n)
      (Or.inl rfl)
  · have hfound := containsText_iff.mp hoccurs
    have hold : '\r' ∉ oldPrefix.toList := fun hmem => htext (hfound.subset hmem)
    by_cases hempty : suffix = ""
    · subst hempty
      refine iff_of_true (iterate_reread_of_fixed htext ?_ n) (Or.inr (Or.inl rfl))
      rw [String.toList_empty, List.append_nil, replaceAll_self]
    · by_cases hsuffix : '\r' ∈ suffix.toList
      · -- What was read has no carriage return, but what replacing gives has.
        refine iff_of_false (fun heq => ?_) (by simp [hempty, hsuffix])
        obtain ⟨k, rfl⟩ := Nat.exists_eq_succ_of_ne_zero hn
        have hmem : '\r' ∈ (rewritten oldPrefix (oldPrefix ++ suffix) text).toList := by
          rw [rewritten_append, String.toList_ofList]
          exact (new_infix_replaceAll hfound).subset (List.mem_append_right _ hsuffix)
        rw [← heq, Function.iterate_succ_apply', reread, readText, String.toList_ofList] at hmem
        exact not_mem_universalNewlines _ hmem
      · -- carriage returns never come in, so that reading changes nothing
        have hne : suffix.toList ≠ [] := fun h => hempty (String.toList_eq_nil_iff.mp h)
        rw [(iterate_reread_of_not_mem hold hsuffix htext n).1, rewritten_append,
          String.ofList_inj,
          iterate_replaceAll_eq_iff oldPrefix.toList suffix.toList text.toList hn]
        simp [hne, hempty, hfound, hsuffix]

/-- **In every file that is visited and can be read, the path is replaced once, exactly if**
it does not occur there, or nothing is added to it, or one path leads to the file and what
is added has no carriage return. -/
theorem rewritePaths_replacesOnce_iff {suffix : String}
    (h : rewritePaths tree oldPrefix (oldPrefix ++ suffix) files = .ok files') {file : ι}
    {text : String} (hpaths : tree.pathsTo file ≠ []) (htext : files.text file = some text) :
    ReplacesOnce oldPrefix (oldPrefix ++ suffix) files files' file ↔
      containsText oldPrefix text = false ∨ suffix = "" ∨
        (tree.pathsTo file).length = 1 ∧ '\r' ∉ suffix.toList := by
  have hvisited : (tree.pathsTo file).length ≠ 0 := fun hzero =>
    hpaths (List.eq_nil_of_length_eq_zero hzero)
  rw [ReplacesOnce, text_rewritePaths h, htext, Option.map_some, Option.map_some,
    Option.some.injEq]
  exact iterate_reread_eq_iff (not_mem_text htext) hvisited

end Rewrite

/-! ### A link to a file -/

/-- A library, and the link to it that libtool leaves. -/
def linkedLibrary : CopiedTree Unit where
  paths := [["libfoo.la"], [".libs", "libfoo.la"]]
  leadsTo _ := some ()

/-- The library alone. -/
def oneLibrary : CopiedTree Unit where
  paths := [["libfoo.la"]]
  leadsTo _ := some ()

/-- A file with a text. -/
def oneText (text : String) : TextFiles Unit where
  content _ := some text
  writable _ := true

/-- What the rewriting of a file says, if it comes to its end. -/
def outcome (tree : CopiedTree Unit) (text : String) : Option (Option String) :=
  (rewritePaths tree "/httpd" ("/httpd" ++ "-cov") (oneText text)).toOption.map
    fun files => files.text ()

theorem exists_of_outcome {tree : CopiedTree Unit} {text : String} {after : Option String}
    (h : outcome tree text = some after) :
    ∃ files', rewritePaths tree "/httpd" ("/httpd" ++ "-cov") (oneText text) = .ok files' ∧
      files'.text () = after := by
  rw [outcome] at h
  rcases hrun : rewritePaths tree "/httpd" ("/httpd" ++ "-cov") (oneText text) with e | files'
  · rw [hrun] at h
    exact absurd h (by simp [Except.toOption])
  · rw [hrun] at h
    exact ⟨files', rfl, Option.some.inj h⟩

/-- In the library alone, the path is replaced once. -/
theorem rewritePaths_replacesOnce_library :
    ∃ files', rewritePaths oneLibrary "/httpd" ("/httpd" ++ "-cov") (oneText "dir=/httpd") =
        .ok files' ∧
      ReplacesOnce "/httpd" ("/httpd" ++ "-cov") (oneText "dir=/httpd") files' () := by
  have hrun : outcome oneLibrary "dir=/httpd" = some (some "dir=/httpd-cov") := by
    decide +kernel
  obtain ⟨files', hfiles, -⟩ := exists_of_outcome hrun
  refine ⟨files', hfiles, ?_⟩
  have htext : (oneText "dir=/httpd").text () = some "dir=/httpd" := by decide +kernel
  exact (rewritePaths_replacesOnce_iff hfiles (by decide) htext).mpr (Or.inr (Or.inr (by decide)))

/-- **With a link to the library, it is replaced twice.** -/
theorem not_replacesOnce_link :
    ∃ files', rewritePaths linkedLibrary "/httpd" ("/httpd" ++ "-cov") (oneText "dir=/httpd") =
        .ok files' ∧
      files'.text () = some "dir=/httpd-cov-cov" ∧
      ¬ ReplacesOnce "/httpd" ("/httpd" ++ "-cov") (oneText "dir=/httpd") files' () := by
  have hrun : outcome linkedLibrary "dir=/httpd" = some (some "dir=/httpd-cov-cov") := by
    decide +kernel
  obtain ⟨files', hfiles, htext⟩ := exists_of_outcome hrun
  refine ⟨files', hfiles, htext, fun h => ?_⟩
  rw [ReplacesOnce, htext] at h
  exact absurd h (by decide +kernel)

end Apatchy
