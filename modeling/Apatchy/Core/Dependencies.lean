import Apatchy.Core.DownloadTrees

/-!
# The dependencies of httpd

Each of APR, APR-Util and Expat is unpacked beside the place where it belongs, and moved
there (`Apatchy.safe_dependency`). What is proved here is that all of it keeps the
invariant of `Apatchy.Progress` wherever it is interrupted, and that the three trees are
complete when it returns (`Apatchy.safe_downloadDependencies`). The one dependency inside
another is Expat, in the directory of APR-Util: it must not be there when APR-Util is
moved.
-/

namespace Apatchy

variable {web : Web} {version : String} {archives : Archives}
  {done : List (Path × List Member)}

/-! ### One dependency -/

/-- **A dependency keeps the invariant**, and its tree is complete when it returns: where it
is unpacked is apart from the trees, and where it is moved to is apart from the other
ones, or brings none. -/
theorem safe_dependency {url : String} {ms : List Member} (parent : Path)
    (filename top name : String) (hfilename : lastPart url = filename)
    (htop : replaceText ".tar.gz" "" filename = top) (hne : top ≠ name) (hparent : parent ≠ [])
    (hhead : filename.toList.head? ≠ some 'h')
    (hget : ∀ body, web.get url = some body → web.untar body = some ms)
    (hms : TopDirectory top ms) (hown : (parent ++ [name], ms) ∈ archives.trees version)
    (hstage : ∀ x ∈ archives.trees version, Apart (parent ++ [top]) x)
    (hplace : ∀ x ∈ archives.trees version, x = (parent ++ [name], ms) ∨
      Apart (parent ++ [name]) x ∨ ∀ t : FileTree, t (bundledExpat version) = none →
        t.move (parent ++ [top]) (parent ++ [name]) x.1 = none)
    (hdone : ∀ x ∈ done, x ∈ archives.trees version ∧ Apart (parent ++ [name]) x)
    (hwrite : ∀ m ∈ ms, ∀ q, top :: q <+: m.path → bundledExpat version ≠ parent ++ top :: q)
    (hmove : ∀ t : FileTree, t (bundledExpat version) = none →
      t.move (parent ++ [top]) (parent ++ [name]) (bundledExpat version) = none) :
    Task.Safe (Progress version (archives.trees version) done)
      (downloadMissing web url (parent ++ [name]))
      (Progress version (archives.trees version) done)
      fun _ => Progress version (archives.trees version) ((parent ++ [name], ms) :: done) := by
  have hfile : ∀ x ∈ archives.trees version, Apart [filename] x :=
    apart_tarball_trees (ne_httpd hhead)
  have hload : Task.Safe
      (fun t => Progress version (archives.trees version) done t ∧ t (parent ++ [name]) = none)
      (downloadAndExtract web url (parent ++ [name]))
      (Progress version (archives.trees version) done)
      fun _ t => Progress version (archives.trees version) done t ∧
        HasTree (parent ++ [name]) ms t := by
    refine safe_downloadAndExtract hfilename htop hne hparent hget hms ?_ ?_ ?_ ?_
    · -- the tarball lies apart from every tree
      intro t data ht
      refine ht.write_below hfile (fun x hx => hfile x (hdone x hx).1) (List.prefix_refl _) ?_ _
      simp [bundledExpat]
    · intro t ht
      exact ht.erase_below hfile (fun x hx => hfile x (hdone x hx).1) (List.prefix_refl _)
    · -- so does the directory in which it is unpacked
      rintro t q n ht ⟨m, hm, hq⟩
      refine ht.write_below hstage (fun x hx => hstage x (hdone x hx).1) ?_ (hwrite m hm q hq) n
      exact ⟨q, by simp⟩
    · -- the move puts the whole tree in its place at once
      intro t ht htree
      refine ht.move htree (fun x hx => ?_) (fun x hx => ?_) (hmove t ht.unbundled)
      · rcases hplace x hx with hx' | hx' | hx'
        · exact Or.inl hx'
        · exact Or.inr (Or.inl ⟨hstage x hx, hx'⟩)
        · exact Or.inr (Or.inr (hx' t ht.unbundled))
      · exact ⟨hstage x (hdone x hx).1, (hdone x hx).2⟩
  have hthere : ∀ t, Progress version (archives.trees version) done t →
      t (parent ++ [name]) ≠ none → HasTree (parent ++ [name]) ms t :=
    fun t ht => ht.claimed _ hown
  exact (safe_downloadMissing hthere hload).weaken (fun _ h => h) fun _ t ht => ht.1.add ht.2

/-- A directory that is the top of no tree is made, or was there. -/
theorem safe_mkdir_progress {p : Path} (htrees : ∀ x ∈ archives.trees version, x.1 ≠ p)
    (hdone : done ⊆ archives.trees version) (hne : bundledExpat version ≠ p) :
    Task.Safe (Progress version (archives.trees version) done) (mkdir p)
      (Progress version (archives.trees version) done)
      fun _ => Progress version (archives.trees version) done :=
  safe_mkdir (fun _ ht => ht)
    (fun _ ht hnone => ht.write_new htrees (fun x hx => htrees x (hdone hx)) hnone hne .dir)
    fun _ ht _ => ht

/-! ### All of them -/

section Dependencies

variable (hweb : web.Publishes version archives)

include hweb

/-- **APR.** -/
theorem safe_apr :
    Task.Safe (Progress version (archives.trees version) [archives.httpdTree version])
      (downloadMissing web aprUrl ["httpd-" ++ version, "srclib", "apr"])
      (Progress version (archives.trees version) [archives.httpdTree version])
      fun _ => Progress version (archives.trees version)
        [archives.aprTree version, archives.httpdTree version] := by
  refine safe_dependency ["httpd-" ++ version, "srclib"] "apr-1.7.6.tar.gz" "apr-1.7.6" "apr"
    (by decide +kernel) (by decide) (by decide) (by simp) (by decide) hweb.apr hweb.tops.2.1
    ?_ ?_ ?_ ?_ ?_ ?_
  · exact aprTree_mem
  · exact forall_trees (apart_httpdTree hweb (by simp) []) (apart_of_ne (by decide) [] [] _)
      (apart_of_ne (by decide) [] [] _) (apart_of_ne (by decide) [] _ _)
  · exact forall_trees (Or.inr (Or.inl (apart_httpdTree hweb (by simp) []))) (Or.inl rfl)
      (Or.inr (Or.inl (apart_of_ne (by decide) [] [] _)))
      (Or.inr (Or.inl (apart_of_ne (by decide) [] _ _)))
  · intro x hx
    obtain rfl := List.mem_singleton.mp hx
    exact ⟨httpdTree_mem, apart_httpdTree hweb (by simp) []⟩
  · intro m _ q _
    simp [bundledExpat]
  · intro t ht
    rw [FileTree.move_of_not, ht] <;> simp [bundledExpat, List.cons_prefix_cons]

/-- **APR-Util**, whose archive brings no Expat. -/
theorem safe_aprUtil :
    Task.Safe (Progress version (archives.trees version)
        [archives.aprTree version, archives.httpdTree version])
      (downloadMissing web aprUtilUrl ["httpd-" ++ version, "srclib", "apr-util"])
      (Progress version (archives.trees version)
        [archives.aprTree version, archives.httpdTree version])
      fun _ => Progress version (archives.trees version)
        [archives.aprUtilTree version, archives.aprTree version, archives.httpdTree version] := by
  refine safe_dependency ["httpd-" ++ version, "srclib"] "apr-util-1.6.3.tar.gz"
    "apr-util-1.6.3" "apr-util" (by decide +kernel) (by decide) (by decide) (by simp) (by decide)
    hweb.aprUtil hweb.tops.2.2.1 ?_ ?_ ?_ ?_ ?_ ?_
  · exact aprUtilTree_mem
  · exact forall_trees (apart_httpdTree hweb (by simp) []) (apart_of_ne (by decide) [] [] _)
      (apart_of_ne (by decide) [] [] _) (apart_of_ne (by decide) [] _ _)
  · -- its place is apart from the other trees, but for that of Expat, which is inside
    refine forall_trees (Or.inr (Or.inl (apart_httpdTree hweb (by simp) [])))
      (Or.inr (Or.inl (apart_of_ne (by decide) [] [] _))) (Or.inl rfl)
      (Or.inr (Or.inr fun t ht => ?_))
    have hexpat := FileTree.move_dst t ["httpd-" ++ version, "srclib", "apr-util-1.6.3"]
      ["httpd-" ++ version, "srclib", "apr-util"] ["xml", "expat"]
    exact hexpat.trans ht
  · -- APR and httpd are done, and apart from it
    intro x hx
    simp only [List.mem_cons, List.not_mem_nil, or_false] at hx
    rcases hx with rfl | rfl
    · exact ⟨aprTree_mem, apart_of_ne (by decide) [] [] _⟩
    · exact ⟨httpdTree_mem, apart_httpdTree hweb (by simp) []⟩
  · -- the archive brings no Expat, and the move none
    rintro m hm q hq hsame
    obtain rfl : ["xml", "expat"] = q := by simpa [bundledExpat] using hsame
    exact hweb.aprUtil_free m hm "expat" (by simp) hq
  · intro t _
    have hnot : ¬ ["httpd-" ++ version, "srclib", "apr-util"] <+: bundledExpat version := by
      simp [bundledExpat, List.cons_prefix_cons]
    have hbelow : ["httpd-" ++ version, "srclib", "apr-util-1.6.3"] <+: bundledExpat version := by
      simp [bundledExpat, List.cons_prefix_cons]
    exact FileTree.move_src hnot hbelow

/-- **Expat.** -/
theorem safe_expat :
    Task.Safe (Progress version (archives.trees version)
        [archives.aprUtilTree version, archives.aprTree version, archives.httpdTree version])
      (downloadMissing web expatUrl ["httpd-" ++ version, "srclib", "apr-util", "xml", "expat"])
      (Progress version (archives.trees version)
        [archives.aprUtilTree version, archives.aprTree version, archives.httpdTree version])
      fun _ => Progress version (archives.trees version)
        [archives.expatTree version, archives.aprUtilTree version, archives.aprTree version,
          archives.httpdTree version] := by
  refine safe_dependency ["httpd-" ++ version, "srclib", "apr-util", "xml"]
    "expat-2.6.4.tar.gz" "expat-2.6.4" "expat" (by decide +kernel) (by decide) (by decide)
    (by simp) (by decide) hweb.expat hweb.tops.2.2.2 ?_ ?_ ?_ ?_ ?_ ?_
  · exact expatTree_mem
  · refine forall_trees (apart_httpdTree hweb (by simp) _) (apart_of_ne (by decide) _ [] _)
      (apart_aprUtilTree hweb (by simp)) ?_
    simp [Apart, Archives.expatTree, List.cons_prefix_cons]
  · -- its place is within that of APR-Util, which brings nothing there
    exact forall_trees (Or.inr (Or.inl (apart_httpdTree hweb (by simp) _)))
      (Or.inr (Or.inl (apart_of_ne (by decide) _ [] _)))
      (Or.inr (Or.inl (apart_aprUtilTree hweb (by simp)))) (Or.inl rfl)
  · intro x hx
    simp only [List.mem_cons, List.not_mem_nil, or_false] at hx
    rcases hx with rfl | rfl | rfl
    · exact ⟨aprUtilTree_mem, apart_aprUtilTree hweb (by simp)⟩
    · exact ⟨aprTree_mem, apart_of_ne (by decide) _ [] _⟩
    · exact ⟨httpdTree_mem, apart_httpdTree hweb (by simp) _⟩
  · -- its own tree is not the one that APR-Util could bring
    intro m _ q _
    simp [bundledExpat]
  · intro t ht
    rw [FileTree.move_of_not, ht] <;> simp [bundledExpat, List.cons_prefix_cons]

/-- **The dependencies.** -/
theorem safe_downloadDependencies :
    Task.Safe (Progress version (archives.trees version) [archives.httpdTree version])
      (downloadDependencies web ["httpd-" ++ version])
      (Progress version (archives.trees version) [])
      fun _ => Progress version (archives.trees version) (archives.trees version) := by
  have hsrclib : Task.Safe
      (Progress version (archives.trees version) [archives.httpdTree version])
      (mkdir ["httpd-" ++ version, "srclib"])
      (Progress version (archives.trees version) [archives.httpdTree version])
      fun _ => Progress version (archives.trees version) [archives.httpdTree version] := by
    refine safe_mkdir_progress (forall_trees ?_ ?_ ?_ ?_) ?_ (by simp [bundledExpat]) <;>
      simp [Archives.trees, Archives.httpdTree, Archives.aprTree, Archives.aprUtilTree,
        Archives.expatTree]
  have hxml : Task.Safe
      (Progress version (archives.trees version)
        [archives.aprUtilTree version, archives.aprTree version, archives.httpdTree version])
      (mkdir ["httpd-" ++ version, "srclib", "apr-util", "xml"])
      (Progress version (archives.trees version)
        [archives.aprUtilTree version, archives.aprTree version, archives.httpdTree version])
      fun _ => Progress version (archives.trees version)
        [archives.aprUtilTree version, archives.aprTree version, archives.httpdTree version] := by
    refine safe_mkdir_progress (forall_trees ?_ ?_ ?_ ?_) ?_ (by simp [bundledExpat]) <;>
      simp [Archives.trees, Archives.httpdTree, Archives.aprTree, Archives.aprUtilTree,
        Archives.expatTree]
  -- wherever it is cut off, the trees that are there are complete
  refine (hsrclib.conseq (fun _ h => h) (fun _ h => h.forget) fun _ _ h => h).bind fun _ => ?_
  refine ((safe_apr hweb).conseq (fun _ h => h) (fun _ h => h.forget) fun _ _ h => h).bind
    fun _ => ?_
  refine ((safe_aprUtil hweb).conseq (fun _ h => h) (fun _ h => h.forget) fun _ _ h => h).bind
    fun _ => ?_
  refine (hxml.conseq (fun _ h => h) (fun _ h => h.forget) fun _ _ h => h).bind fun _ => ?_
  refine (safe_expat hweb).conseq (fun _ h => h) (fun _ h => h.forget) fun _ t h => ?_
  exact ⟨h.claimed, forall_trees (h.done _ (by simp)) (h.done _ (by simp)) (h.done _ (by simp))
    (h.done _ (by simp)), h.unbundled⟩

end Dependencies

end Apatchy
