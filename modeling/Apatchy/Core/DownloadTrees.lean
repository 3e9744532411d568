import Apatchy.Core.Downloader

/-!
# What a download leaves behind

A call of `download_apache` that is interrupted leaves a tree in which some archives are
unpacked, some are not, and one may be in between. What matters for the next call is the
directories it looks for: a dependency whose directory is there must be complete
(`Apatchy.Progress`).

The tasks of the program are taken one by one. What they write is either apart from what
is complete (`Apatchy.Apart`), so that it keeps it (`Apatchy.KeepsTree`), or it is a
complete tree that is moved to where it belongs.
-/

namespace Apatchy

/-! ### Unpacking a dependency -/

variable {web : Web}

/-- A step in front of a task. -/
theorem safe_downloadFile {I : FileTree → Prop} {url filename : String}
    (hfile : ∀ t data, I t → I (t.write [filename] (.file data))) :
    Task.Safe I (downloadFile web url filename) I fun _ t =>
      I t ∧ ∃ body, web.get url = some body ∧ t [filename] = some (.file body) := by
  have hrequest : Task.Safe I (Task.step id) I fun _ t => I t :=
    Task.safe_step (fun _ ht => ht) fun _ ht => ht
  refine hrequest.bind fun _ => ?_
  rcases hbody : web.get url with _ | body
  · exact Task.safe_raise fun _ ht => ht
  · exact (safe_writeFile hfile body).weaken (fun _ ht => ht) fun _ t ht =>
      ⟨ht.1, body, rfl, ht.2⟩

/-- An archive that was just fetched is opened. -/
theorem safe_openTar {I : FileTree → Prop} {url filename : String} {ms : List Member}
    (hget : ∀ body, web.get url = some body → web.untar body = some ms) :
    Task.Safe (fun t => I t ∧ ∃ body, web.get url = some body ∧ t [filename] = some (.file body))
      (openTar web filename) I fun members t => members = ms ∧ I t := by
  intro t faults ht
  obtain ⟨hI, body, hbody, hfile⟩ := ht
  have hopen : (openTar web filename).run t faults = (.returned ms, t, faults) := by
    rw [openTar, Task.run_bind, Task.run_get]
    simp only [hfile, hget body hbody, Task.run_pure]
  rw [hopen]
  exact ⟨rfl, hI⟩

/-- The directory that was unpacked is moved to where it belongs, where nothing is. -/
theorem safe_moveExtracted {I J : FileTree → Prop} {src dst : Path} {ms : List Member}
    (hne : src ≠ dst) (hsrc : ∀ t, I t → ms ≠ [] → t src ≠ none)
    (hdst : ∀ t, I t → t dst = none) (htree : ∀ t, I t → HasTree src ms t)
    (hcrash : ∀ t, I t → J t) (hmove : ∀ t, I t → J (t.move src dst)) :
    Task.Safe I (moveExtracted src dst) J fun _ t => J t ∧ HasTree dst ms t := by
  intro t faults ht
  have hrun : (moveExtracted src dst).run t faults =
      if t src = none then (.returned (), t, faults)
      else (Task.step fun t : FileTree => t.move src dst).run t faults := by
    rcases hextracted : t src with _ | node
    · simp [moveExtracted, pathExists, Task.run_bind, hextracted]
    · simp [moveExtracted, pathExists, Task.run_bind, hextracted, hdst t ht, hne]
  rw [hrun]
  by_cases hextracted : t src = none
  · rw [if_pos hextracted]
    refine ⟨hcrash t ht, fun m hm => ?_⟩
    exact absurd hextracted (hsrc t ht (List.ne_nil_of_mem hm))
  · rw [if_neg hextracted]
    have hstep : Task.Safe I (Task.step fun t : FileTree => t.move src dst) J
        fun _ t => J t ∧ HasTree dst ms t := by
      refine Task.safe_step hcrash fun t ht => ⟨hmove t ht, fun m hm => ?_⟩
      rw [FileTree.move_dst]
      exact htree t ht m hm
    exact hstep t faults ht

/-! ### The directory at the top of an archive -/

section TopDirectory

variable {top : String} {root : Path} {ms : List Member} {t : FileTree}

/-- What is unpacked is the tree of the directory at the top. -/
theorem Unpacked.hasTree (h : Unpacked root ms t) (hms : TopDirectory top ms) :
    HasTree (root ++ [top]) ms t := by
  intro m hm
  obtain ⟨rest, hpath⟩ := hms.below m hm
  have hnode := (h m hm).1
  rw [hpath] at hnode
  simpa [hpath] using hnode

/-- The directory at the top is there, if anything was unpacked. -/
theorem Unpacked.top_ne_none (h : Unpacked root ms t) (hms : TopDirectory top ms)
    (hne : ms ≠ []) : t (root ++ [top]) ≠ none := by
  obtain ⟨m, hm⟩ := List.exists_mem_of_ne_nil ms hne
  obtain ⟨rest, hpath⟩ := hms.below m hm
  exact (h m hm).2 [top] (by simp) (by simp [hpath])

/-- **What every write below the directory at the top keeps, unpacking keeps.** -/
theorem safe_extractTop {I : FileTree → Prop} (hms : TopDirectory top ms)
    (hwrite : ∀ t q n, I t → (∃ m ∈ ms, top :: q <+: m.path) → I (t.write (root ++ top :: q) n)) :
    Task.Safe I (extractAll root ms) I fun _ t => I t ∧ Unpacked root ms t := by
  refine safe_extractAll (fun m hm => ?_) hms.nodup (fun t m q ht hm hq hfront _ => ?_)
    fun t m data ht hm => ?_
  · obtain ⟨rest, hpath⟩ := hms.below m hm
    simp [hpath]
  · obtain ⟨rest, hpath⟩ := hms.below m hm
    rcases q with _ | ⟨c, q⟩
    · exact absurd rfl hq
    · have hc : c = top := by
        rw [hpath, List.cons_prefix_cons] at hfront
        exact hfront.1
      subst hc
      exact hwrite t q .dir ht ⟨m, hm, hfront⟩
  · obtain ⟨rest, hpath⟩ := hms.below m hm
    rw [hpath]
    exact hwrite t rest _ ht ⟨m, hm, hpath ▸ List.prefix_refl _⟩

end TopDirectory

/-- A tarball at the top is removed; a tree further down stays. -/
theorem safe_removeTarball {I : FileTree → Prop} {filename : String} {dir : Path}
    {ms : List Member} (hdir : ∀ q, dir ++ q ≠ [filename])
    (herase : ∀ t, I t → I (t.erase [filename])) :
    Task.Safe (fun t => I t ∧ HasTree dir ms t) (removeFile [filename]) I
      fun _ t => I t ∧ HasTree dir ms t := by
  refine Task.safe_step (fun t ht => ht.1) fun t ht => ⟨herase t ht.1, fun m hm => ?_⟩
  rw [FileTree.erase, if_neg (hdir m.path.tail)]
  exact ht.2 m hm

/-- **A dependency**: what the fetched archive, every directory and beginning of a file on
the way, and the move keep holds at every point; and when it returns, the dependency is
where it belongs. -/
theorem safe_downloadAndExtract {I : FileTree → Prop} {url filename top name : String}
    {parent : Path} {ms : List Member} (hfilename : lastPart url = filename)
    (htop : replaceText ".tar.gz" "" filename = top) (hne : top ≠ name) (hparent : parent ≠ [])
    (hget : ∀ body, web.get url = some body → web.untar body = some ms)
    (hms : TopDirectory top ms)
    (hfile : ∀ t data, I t → I (t.write [filename] (.file data)))
    (herase : ∀ t, I t → I (t.erase [filename]))
    (hwrite : ∀ t q n, I t → (∃ m ∈ ms, top :: q <+: m.path) →
      I (t.write (parent ++ top :: q) n))
    (hmove : ∀ t, I t → HasTree (parent ++ [top]) ms t →
      I (t.move (parent ++ [top]) (parent ++ [name]))) :
    Task.Safe (fun t => I t ∧ t (parent ++ [name]) = none)
      (downloadAndExtract web url (parent ++ [name])) I
      fun _ t => I t ∧ HasTree (parent ++ [name]) ms t := by
  have hlength : ∀ q : Path, parent ++ [name] ++ q ≠ [filename] := by
    intro q hq
    have hpos := List.length_pos_iff.mpr hparent
    have hcount := congrArg List.length hq
    simp only [List.length_append, List.length_cons, List.length_nil] at hcount
    omega
  have hother : ∀ q, parent ++ [name] ≠ parent ++ top :: q := by
    intro q hq
    exact hne (List.cons.inj (List.append_cancel_left hq)).1.symm
  simp only [downloadAndExtract, hfilename, htop, List.dropLast_concat]
  -- Until the move there is nothing where the dependency belongs.
  let N (t : FileTree) : Prop := I t ∧ t (parent ++ [name]) = none
  have hfetch : Task.Safe N (downloadFile web url filename) N fun _ t =>
      N t ∧ ∃ body, web.get url = some body ∧ t [filename] = some (.file body) := by
    refine safe_downloadFile fun t data ht => ⟨hfile t data ht.1, ?_⟩
    rw [FileTree.write_of_ne _ (by simpa using hlength []), ht.2]
  have hextract : Task.Safe N (extractAll parent ms) N fun _ t => N t ∧ Unpacked parent ms t := by
    refine safe_extractTop hms fun t q n ht hq => ⟨hwrite t q n ht.1 hq, ?_⟩
    rw [FileTree.write_of_ne n (hother q), ht.2]
  have hmoved : Task.Safe (fun t => N t ∧ Unpacked parent ms t)
      (moveExtracted (parent ++ [top]) (parent ++ [name])) I
      fun _ t => I t ∧ HasTree (parent ++ [name]) ms t :=
    safe_moveExtracted (by simpa using hne) (fun t ht => ht.2.top_ne_none hms)
      (fun t ht => ht.1.2) (fun t ht => ht.2.hasTree hms) (fun t ht => ht.1.1)
      fun t ht => hmove t ht.1.1 (ht.2.hasTree hms)
  have hcrash : ∀ t, N t → I t := fun t ht => ht.1
  refine (hfetch.conseq (fun _ h => h) hcrash fun _ _ h => h).bind fun _ => ?_
  refine ((safe_openTar hget).conseq (fun _ h => h) hcrash fun _ _ h => h).bind fun members => ?_
  refine Task.safe_of_imp fun hmembers => ?_
  rw [hmembers]
  refine (hextract.conseq (fun _ h => h) hcrash fun _ _ h => h).bind fun _ => ?_
  exact hmoved.bind fun _ => safe_removeTarball hlength herase

/-- **A dependency, unless it is there**: what is in its place is complete. -/
theorem safe_downloadMissing {I : FileTree → Prop} {url : String} {dir : Path} {ms : List Member}
    (hthere : ∀ t, I t → t dir ≠ none → HasTree dir ms t)
    (hload : Task.Safe (fun t => I t ∧ t dir = none) (downloadAndExtract web url dir) I
      fun _ t => I t ∧ HasTree dir ms t) :
    Task.Safe I (downloadMissing web url dir) I fun _ t => I t ∧ HasTree dir ms t := by
  intro t faults ht
  have hrun : (downloadMissing web url dir).run t faults =
      if t dir = none then (downloadAndExtract web url dir).run t faults
      else (.returned (), t, faults) := by
    rcases hdir : t dir with _ | node <;>
      simp [downloadMissing, pathExists, Task.run_bind, hdir]
  rw [hrun]
  by_cases hdir : t dir = none
  · rw [if_pos hdir]
    exact hload t faults ⟨ht, hdir⟩
  · rw [if_neg hdir]
    exact ⟨ht, hthere t ht hdir⟩

/-! ### Steps that keep a tree -/

/-- A path is not above any part of a tree, nor in it. -/
def Apart (s : Path) (x : Path × List Member) : Prop :=
  ¬ s <+: x.1 ∧ ∀ m ∈ x.2, ¬ s <+: x.1 ++ m.path.tail

/-- A step keeps what is there of a tree, and does not make its directory. -/
structure KeepsTree (x : Path × List Member) (t t' : FileTree) : Prop where
  /-- The directory was there. -/
  dir : t' x.1 ≠ none → t x.1 ≠ none
  /-- The members are still there. -/
  members : ∀ m ∈ x.2, t (x.1 ++ m.path.tail) = some m.node →
    t' (x.1 ++ m.path.tail) = some m.node

variable {x : Path × List Member} {t : FileTree} {s d q : Path}

theorem Apart.ne (h : Apart s x) (hq : s <+: q) : x.1 ≠ q ∧ ∀ m ∈ x.2, x.1 ++ m.path.tail ≠ q := by
  constructor
  · rintro rfl
    exact h.1 hq
  · rintro m hm rfl
    exact h.2 m hm hq

theorem keeps_write (h : Apart s x) (hq : s <+: q) (n : Node) : KeepsTree x t (t.write q n) where
  dir := by rw [FileTree.write_of_ne n (h.ne hq).1]; exact id
  members m hm := by rw [FileTree.write_of_ne n ((h.ne hq).2 m hm)]; exact id

theorem keeps_erase (h : Apart s x) (hq : s <+: q) : KeepsTree x t (t.erase q) where
  dir := by rw [FileTree.erase, if_neg (h.ne hq).1]; exact id
  members m hm := by rw [FileTree.erase, if_neg ((h.ne hq).2 m hm)]; exact id

theorem keeps_write_new (hq : t q = none) (hne : x.1 ≠ q) (n : Node) :
    KeepsTree x t (t.write q n) where
  dir := by rw [FileTree.write_of_ne n hne]; exact id
  members _ _ := FileTree.write_eq_some hq

theorem keeps_move (hs : Apart s x) (hd : Apart d x) : KeepsTree x t (t.move s d) where
  dir := by rw [FileTree.move_of_not hd.1 hs.1]; exact id
  members m hm := by rw [FileTree.move_of_not (hd.2 m hm) (hs.2 m hm)]; exact id

/-! ### What an interruption leaves -/

/-- Where the Expat of an archive of APR-Util would be while that is unpacked. -/
def bundledExpat (version : String) : Path :=
  ["httpd-" ++ version, "srclib", "apr-util-1.6.3", "xml", "expat"]

/-- **The invariant**: of some trees, those whose directory is there are complete; some
others are complete for certain; and no Expat comes with APR-Util. -/
structure Progress (version : String) (claimed done : List (Path × List Member))
    (t : FileTree) : Prop where
  /-- A directory that is there is complete. -/
  claimed : ∀ x ∈ claimed, t x.1 ≠ none → HasTree x.1 x.2 t
  /-- The trees that are complete. -/
  done : ∀ x ∈ done, HasTree x.1 x.2 t
  /-- No Expat comes with APR-Util. -/
  unbundled : t (bundledExpat version) = none

variable {version : String} {claimed done : List (Path × List Member)} {t' : FileTree}

theorem HasTree.keeps (h : HasTree x.1 x.2 t) (hkeeps : KeepsTree x t t') : HasTree x.1 x.2 t' :=
  fun m hm => hkeeps.members m hm (h m hm)

/-- A step that keeps the trees keeps the invariant. -/
theorem Progress.keeps (h : Progress version claimed done t)
    (hclaimed : ∀ x ∈ claimed, KeepsTree x t t') (hdone : ∀ x ∈ done, KeepsTree x t t')
    (hunbundled : t' (bundledExpat version) = none) : Progress version claimed done t' where
  claimed x hx hdir := (h.claimed x hx ((hclaimed x hx).dir hdir)).keeps (hclaimed x hx)
  done x hx := (h.done x hx).keeps (hdone x hx)
  unbundled := hunbundled

/-! ### The four trees -/

variable {archives : Archives}

/-- The parts of `srclib` are apart from httpd. -/
theorem apart_httpdTree (hweb : web.Publishes version archives) {name : String}
    (hname : name ∈ ["apr", "apr-1.7.6", "apr-util", "apr-util-1.6.3"]) (rest : Path) :
    Apart (("httpd-" ++ version) :: "srclib" :: name :: rest) (archives.httpdTree version) := by
  refine ⟨fun h => ?_, fun m hm h => ?_⟩
  · have hlength := h.length_le
    simp [Archives.httpdTree] at hlength
  · obtain ⟨tail, hpath⟩ := hweb.tops.1.below m hm
    refine hweb.httpd_free m hm name hname ?_
    have hfront : ["httpd-" ++ version, "srclib", name] <+:
        ("httpd-" ++ version) :: "srclib" :: name :: rest := ⟨rest, rfl⟩
    have hm' : (archives.httpdTree version).1 ++ m.path.tail = m.path := by
      simp [Archives.httpdTree, hpath]
    rw [hm'] at h
    exact hfront.trans h

/-- Parts of `srclib` with different names are apart. -/
theorem apart_of_ne {name name' : String} (hne : name ≠ name') (rest rest' : Path)
    (ms : List Member) :
    Apart (("httpd-" ++ version) :: "srclib" :: name :: rest)
      (("httpd-" ++ version) :: "srclib" :: name' :: rest', ms) := by
  simp [Apart, List.cons_prefix_cons, hne]

/-- Expat is apart from APR-Util. -/
theorem apart_aprUtilTree (hweb : web.Publishes version archives) {name : String}
    (hname : name ∈ ["expat", "expat-2.6.4"]) :
    Apart ["httpd-" ++ version, "srclib", "apr-util", "xml", name]
      (archives.aprUtilTree version) := by
  refine ⟨fun h => ?_, fun m hm h => ?_⟩
  · have hlength := h.length_le
    simp [Archives.aprUtilTree] at hlength
  · obtain ⟨tail, hpath⟩ := hweb.tops.2.2.1.below m hm
    refine hweb.aprUtil_free m hm name hname ?_
    simp only [Archives.aprUtilTree, List.cons_append, List.nil_append, List.cons_prefix_cons,
      true_and] at h
    rw [hpath] at h ⊢
    exact List.cons_prefix_cons.mpr ⟨rfl, h⟩

/-- A file at the top is apart from everything in the tree. -/
theorem apart_tarball {filename : String} (hne : filename ≠ "httpd-" ++ version) (rest : Path)
    (ms : List Member) : Apart [filename] (("httpd-" ++ version) :: rest, ms) := by
  simp [Apart, List.cons_prefix_cons, hne]

/-- The rule for the four trees. -/
theorem forall_trees {P : Path × List Member → Prop} (hhttpd : P (archives.httpdTree version))
    (hapr : P (archives.aprTree version)) (haprUtil : P (archives.aprUtilTree version))
    (hexpat : P (archives.expatTree version)) : ∀ x ∈ archives.trees version, P x := by
  intro x hx
  simp only [Archives.trees, List.mem_cons, List.not_mem_nil, or_false] at hx
  rcases hx with rfl | rfl | rfl | rfl
  · exact hhttpd
  · exact hapr
  · exact haprUtil
  · exact hexpat

theorem httpdTree_mem : archives.httpdTree version ∈ archives.trees version := by
  simp [Archives.trees]

theorem aprTree_mem : archives.aprTree version ∈ archives.trees version := by
  simp [Archives.trees]

theorem aprUtilTree_mem : archives.aprUtilTree version ∈ archives.trees version := by
  simp [Archives.trees]

theorem expatTree_mem : archives.expatTree version ∈ archives.trees version := by
  simp [Archives.trees]

/-! ### Steps that keep the invariant -/

theorem Progress.write_below (h : Progress version claimed done t)
    (hclaimed : ∀ x ∈ claimed, Apart s x) (hdone : ∀ x ∈ done, Apart s x) (hq : s <+: q)
    (hne : bundledExpat version ≠ q) (n : Node) :
    Progress version claimed done (t.write q n) :=
  h.keeps (fun x hx => keeps_write (hclaimed x hx) hq n) (fun x hx => keeps_write (hdone x hx) hq n)
    (by rw [FileTree.write_of_ne n hne, h.unbundled])

theorem Progress.erase_below (h : Progress version claimed done t)
    (hclaimed : ∀ x ∈ claimed, Apart s x) (hdone : ∀ x ∈ done, Apart s x) (hq : s <+: q) :
    Progress version claimed done (t.erase q) := by
  refine h.keeps (fun x hx => keeps_erase (hclaimed x hx) hq)
    (fun x hx => keeps_erase (hdone x hx) hq) ?_
  rw [FileTree.erase, h.unbundled, ite_self]

/-- A directory that was not there is made, and is not the directory of a tree. -/
theorem Progress.write_new (h : Progress version claimed done t)
    (hclaimed : ∀ x ∈ claimed, x.1 ≠ q) (hdone : ∀ x ∈ done, x.1 ≠ q) (hq : t q = none)
    (hne : bundledExpat version ≠ q) (n : Node) :
    Progress version claimed done (t.write q n) :=
  h.keeps (fun x hx => keeps_write_new hq (hclaimed x hx) n)
    (fun x hx => keeps_write_new hq (hdone x hx) n)
    (by rw [FileTree.write_of_ne n hne, h.unbundled])

/-- A complete tree is moved to where it belongs; the others stay apart, or do not come to
be there. -/
theorem Progress.move {ms : List Member} (h : Progress version claimed done t)
    (htree : HasTree s ms t)
    (hclaimed : ∀ x ∈ claimed, x = (d, ms) ∨ (Apart s x ∧ Apart d x) ∨ t.move s d x.1 = none)
    (hdone : ∀ x ∈ done, Apart s x ∧ Apart d x)
    (hunbundled : t.move s d (bundledExpat version) = none) :
    Progress version claimed done (t.move s d) where
  claimed x hx hdir := by
    rcases hclaimed x hx with rfl | hapart | hnone
    · intro m hm
      rw [FileTree.move_dst]
      exact htree m hm
    · have hkeeps : KeepsTree x t (t.move s d) := keeps_move hapart.1 hapart.2
      exact (h.claimed x hx (hkeeps.dir hdir)).keeps hkeeps
    · exact absurd hnone hdir
  done x hx := (h.done x hx).keeps (keeps_move (hdone x hx).1 (hdone x hx).2)
  unbundled := hunbundled

theorem Progress.add (h : Progress version claimed done t) (hx : HasTree x.1 x.2 t) :
    Progress version claimed (x :: done) t where
  claimed := h.claimed
  done := List.forall_mem_cons.mpr ⟨hx, h.done⟩
  unbundled := h.unbundled

/-- What is complete may be forgotten. -/
theorem Progress.forget (h : Progress version claimed done t) : Progress version claimed [] t :=
  ⟨h.claimed, by simp, h.unbundled⟩

/-! ### Tarballs -/

theorem ne_httpd {s : String} (h : s.toList.head? ≠ some 'h') : s ≠ "httpd-" ++ version := by
  rintro rfl
  rw [String.toList_append] at h
  exact h rfl

/-- The tarball of httpd has another name than its directory. -/
theorem tarball_ne (version : String) :
    "httpd-" ++ version ++ ".tar.gz" ≠ "httpd-" ++ version := by
  intro h
  have hlength := congrArg String.length h
  simp at hlength

/-- A tarball is apart from the trees. -/
theorem apart_tarball_trees {filename : String} (hne : filename ≠ "httpd-" ++ version) :
    ∀ x ∈ archives.trees version, Apart [filename] x :=
  forall_trees (apart_tarball hne _ _) (apart_tarball hne _ _) (apart_tarball hne _ _)
    (apart_tarball hne _ _)

end Apatchy
