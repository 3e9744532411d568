import Apatchy.Core.Dependencies

/-!
# Downloads that are interrupted

Unpacking httpd in place does not keep the invariant of `Apatchy.Progress`, since the next
call finds its directory and takes it for complete. A call keeps it if this unpacking
returns, or does not begin (`Apatchy.downloadApache_spec`), and so a run in which no call
is cut off there leaves a complete tree whenever a call returns
(`Apatchy.downloads_returnsComplete`). A run in which one is cut off there is
`Apatchy.downloads_not_returnsComplete`.
-/

namespace Apatchy

variable {web : Web} {version : String} {archives : Archives} {t : FileTree} {q : Path}

/-! ### httpd -/

/-- The archive of httpd is there as a server has it, and nothing is unpacked of it yet. -/
def Fetched (web : Web) (archives : Archives) (version server : String) (t : FileTree) : Prop :=
  Progress version (archives.trees version) [] t ∧
    ∃ body, web.get (server ++ "/" ++ ("httpd-" ++ version ++ ".tar.gz")) = some body ∧
      t ["httpd-" ++ version ++ ".tar.gz"] = some (.file body)

/-- **The archive of httpd is fetched** from one of the servers. -/
theorem safe_fetchHttpd (web : Web) :
    Task.Safe (Progress version (archives.trees version) []) (fetchHttpd web version)
      (Progress version (archives.trees version) [])
      fun _ t => ∃ server ∈ [apacheMirror, apacheArchive],
        Fetched web archives version server t := by
  have hfile : ∀ x ∈ archives.trees version, Apart ["httpd-" ++ version ++ ".tar.gz"] x :=
    apart_tarball_trees (tarball_ne version)
  have hload : ∀ server ∈ [apacheMirror, apacheArchive],
      Task.Safe (Progress version (archives.trees version) [])
        (downloadFile web (server ++ "/" ++ ("httpd-" ++ version ++ ".tar.gz"))
          ("httpd-" ++ version ++ ".tar.gz"))
        (Progress version (archives.trees version) [])
        fun _ t => ∃ server ∈ [apacheMirror, apacheArchive],
          Fetched web archives version server t := by
    intro server hserver
    have hkeep : ∀ t data, Progress version (archives.trees version) [] t →
        Progress version (archives.trees version) []
          (t.write ["httpd-" ++ version ++ ".tar.gz"] (.file data)) := fun t data ht =>
      ht.write_below hfile (by simp) (List.prefix_refl _) (by simp [bundledExpat]) _
    exact (safe_downloadFile hkeep).weaken (fun _ h => h) fun _ t ht => ⟨server, hserver, ht⟩
  exact (hload apacheMirror (by simp)).attempt (hload apacheArchive (by simp))

section Httpd

variable (hweb : web.Publishes version archives)

include hweb

/-- What unpacking httpd writes is apart from the dependencies. -/
theorem keepsTree_httpd {m : Member} (hm : m ∈ archives.httpd) (hq : q <+: m.path) {name : String}
    (hname : name ∈ ["apr", "apr-1.7.6", "apr-util", "apr-util-1.6.3"]) (rest : Path)
    (ms : List Member) (n : Node) :
    KeepsTree (("httpd-" ++ version) :: "srclib" :: name :: rest, ms) t (t.write q n) := by
  have hne : ∀ rest' : Path, ("httpd-" ++ version) :: "srclib" :: name :: rest' ≠ q := by
    rintro rest' rfl
    have hfront : ["httpd-" ++ version, "srclib", name] <+:
        ("httpd-" ++ version) :: "srclib" :: name :: rest' := ⟨rest', rfl⟩
    exact hweb.httpd_free m hm name hname (hfront.trans hq)
  constructor
  · rw [FileTree.write_of_ne n (hne rest)]
    exact id
  · intro m' _ hm'
    rw [FileTree.write_of_ne n]
    · exact hm'
    · exact hne (rest ++ m'.path.tail)

/-- **The archive of httpd is unpacked** beside what there is of the dependencies. -/
theorem safe_extractHttpd {server : String} (hserver : server ∈ [apacheMirror, apacheArchive]) :
    Task.Safe (Fetched web archives version server) (extractHttpd web version) (fun _ => True)
      fun _ => Progress version (archives.trees version) [archives.httpdTree version] := by
  let I : FileTree → Prop := Progress version [archives.aprTree version,
    archives.aprUtilTree version, archives.expatTree version] []
  -- no member of the archive of httpd is inside the tree of a dependency
  have hwrite : ∀ t m q n, I t → m ∈ archives.httpd → q <+: m.path → I (t.write q n) := by
    intro t m q n ht hm hq
    refine ht.keeps (fun x hx => ?_) (by simp) ?_
    · simp only [List.mem_cons, List.not_mem_nil, or_false] at hx
      rcases hx with rfl | rfl | rfl
      · exact keepsTree_httpd hweb hm hq (by simp) [] _ n
      · exact keepsTree_httpd hweb hm hq (by simp) [] _ n
      · exact keepsTree_httpd hweb hm hq (by simp) _ _ n
    · rw [FileTree.write_of_ne n, ht.unbundled]
      rintro rfl
      refine hweb.httpd_free m hm "apr-util-1.6.3" (by simp) (List.IsPrefix.trans ?_ hq)
      exact ⟨["xml", "expat"], rfl⟩
  have hextract : Task.Safe I (extractAll [] archives.httpd) I
      fun _ t => I t ∧ Unpacked [] archives.httpd t := by
    refine safe_extractTop hweb.tops.1 fun t q n ht hbelow => ?_
    obtain ⟨m, hm, hq⟩ := hbelow
    exact hwrite t m _ n ht hm hq
  have hopen : Task.Safe (Fetched web archives version server)
      (openTar web ("httpd-" ++ version ++ ".tar.gz"))
      (Progress version (archives.trees version) [])
      fun members t => members = archives.httpd ∧ Progress version (archives.trees version) [] t :=
    safe_openTar (hweb.httpd server hserver)
  -- the tree of httpd is claimed only when all of it is there
  refine (hopen.conseq (fun _ h => h) (fun _ _ => trivial) fun _ _ h => h).bind fun members => ?_
  refine Task.safe_of_imp fun hmembers => ?_
  rw [hmembers]
  refine hextract.conseq (fun t ht => ?_) (fun _ _ => trivial) fun _ t ht => ?_
  · exact ⟨fun x hx => ht.claimed x (List.mem_cons_of_mem _ hx), by simp, ht.unbundled⟩
  · have hhttpd : HasTree ["httpd-" ++ version] archives.httpd t := ht.2.hasTree hweb.tops.1
    refine ⟨forall_trees (fun _ => hhttpd) (ht.1.claimed _ (by simp)) (ht.1.claimed _ (by simp))
      (ht.1.claimed _ (by simp)), ?_, ht.1.unbundled⟩
    intro x hx
    obtain rfl := List.mem_singleton.mp hx
    exact hhttpd

/-- What comes after the unpacking of httpd. -/
theorem safe_afterExtract :
    Task.Safe (Progress version (archives.trees version) [archives.httpdTree version])
      (do
        removeFile ["httpd-" ++ version ++ ".tar.gz"]
        downloadDependencies web ["httpd-" ++ version]
        return ["httpd-" ++ version])
      (Progress version (archives.trees version) [])
      fun _ => Progress version (archives.trees version) (archives.trees version) := by
  have hfile : ∀ x ∈ archives.trees version, Apart ["httpd-" ++ version ++ ".tar.gz"] x :=
    apart_tarball_trees (tarball_ne version)
  have hremove : Task.Safe (Progress version (archives.trees version) [archives.httpdTree version])
      (removeFile ["httpd-" ++ version ++ ".tar.gz"])
      (Progress version (archives.trees version) [])
      fun _ => Progress version (archives.trees version) [archives.httpdTree version] := by
    refine Task.safe_step (fun t ht => ht.forget) fun t ht => ?_
    refine ht.erase_below hfile (fun x hx => ?_) (List.prefix_refl _)
    rw [List.mem_singleton.mp hx]
    exact hfile _ (List.mem_cons_self ..)
  exact hremove.bind fun _ => (safe_downloadDependencies hweb).bind fun _ =>
    Task.safe_pure fun _ ht => ht

end Httpd

/-! ### Calls -/

theorem inert_extractHttpd (web : Web) (version : String) :
    Task.Inert (extractHttpd web version) := by
  refine Task.Inert.bind (Task.inert_get.bind fun t => ?_) fun members =>
    inert_extractAll [] members
  split
  · split
    · exact Task.inert_pure _
    · exact Task.inert_raise
  · exact Task.inert_raise

/-- **The call goes on from a fetched archive**, if unpacking it returns or is hit at once. -/
theorem extract_spec (hweb : web.Publishes version archives) {server : String}
    (hserver : server ∈ [apacheMirror, apacheArchive]) {faults : List (Option Fault)}
    (ht : Fetched web archives version server t)
    (hspared : match (extractHttpd web version).run t faults with
      | (.returned _, _, _) => True
      | _ => hitAtOnce faults = true) :
    Task.Leaves ((do
        extractHttpd web version
        removeFile ["httpd-" ++ version ++ ".tar.gz"]
        downloadDependencies web ["httpd-" ++ version]
        return ["httpd-" ++ version] : Task FileTree Path).run t faults)
      (Progress version (archives.trees version) [])
      fun _ => Progress version (archives.trees version) (archives.trees version) := by
  have hextract := safe_extractHttpd hweb hserver t faults ht
  -- An interruption hits the first step, and leaves what the fetching left.
  have hsame : hitAtOnce faults = true → ((extractHttpd web version).run t faults).2.1 = t :=
    fun hhit => (inert_extractHttpd web version).state_eq hhit t
  rw [Task.run_bind]
  generalize (extractHttpd web version).run t faults = result at hextract hspared hsame ⊢
  rcases result with ⟨_ | _ | _, t', faults'⟩
  · exact safe_afterExtract hweb t' faults' hextract
  · obtain rfl : t' = t := hsame hspared
    exact ht.1
  · obtain rfl : t' = t := hsame hspared
    exact ht.1

/-- What a call does if the directory of httpd is not there. -/
theorem run_downloadApache_of_none (web : Web) {version : Option String}
    (hthere : t ["httpd-" ++ chosenVersion version] = none) (faults : List (Option Fault)) :
    (downloadApache web version).run t faults = (do
      fetchHttpd web (chosenVersion version)
      extractHttpd web (chosenVersion version)
      removeFile ["httpd-" ++ chosenVersion version ++ ".tar.gz"]
      downloadDependencies web ["httpd-" ++ chosenVersion version]
      return ["httpd-" ++ chosenVersion version] : Task FileTree Path).run t faults := by
  simp [downloadApache, pathExists, Task.run_bind, hthere]

/-- What a call does if the directory of httpd is there. -/
theorem run_downloadApache_of_ne_none (web : Web) {version : Option String}
    (hthere : t ["httpd-" ++ chosenVersion version] ≠ none) (faults : List (Option Fault)) :
    (downloadApache web version).run t faults =
      if (t ["httpd-" ++ chosenVersion version, "srclib", "apr"]).isSome &&
          (t ["httpd-" ++ chosenVersion version, "srclib", "apr-util"]).isSome &&
          (t ["httpd-" ++ chosenVersion version, "srclib", "apr-util", "xml", "expat"]).isSome then
        (.returned ["httpd-" ++ chosenVersion version], t, faults)
      else (do
        downloadDependencies web ["httpd-" ++ chosenVersion version]
        return ["httpd-" ++ chosenVersion version] : Task FileTree Path).run t faults := by
  obtain ⟨node, hnode⟩ := Option.ne_none_iff_exists'.mp hthere
  simp only [downloadApache, pathExists, Task.run_bind, Task.run_get, Task.run_pure, hnode,
    Option.isSome_some, if_true, List.cons_append, List.nil_append]
  split <;> rfl

/-- **One call** that is not cut off in the middle of unpacking httpd keeps the invariant,
and leaves a complete tree if it returns. -/
theorem downloadApache_spec {version : Option String}
    (hweb : web.Publishes (chosenVersion version) archives) {faults : List (Option Fault)}
    (ht : Progress (chosenVersion version) (archives.trees (chosenVersion version)) [] t)
    (hspared : cutOffInside web (chosenVersion version) t faults = false) :
    Task.Leaves ((downloadApache web version).run t faults)
      (Progress (chosenVersion version) (archives.trees (chosenVersion version)) [])
      fun _ => Progress (chosenVersion version) (archives.trees (chosenVersion version))
        (archives.trees (chosenVersion version)) := by
  by_cases hthere : t ["httpd-" ++ chosenVersion version] = none
  · rw [run_downloadApache_of_none web hthere, Task.run_bind]
    generalize chosenVersion version = v at hweb ht hspared hthere ⊢
    have hfetch := safe_fetchHttpd web t faults ht
    rcases hf : (fetchHttpd web v).run t faults with ⟨_ | _ | _, t₁, faults₁⟩ <;>
      rw [hf] at hfetch
    · obtain ⟨server, hserver, ht₁⟩ := hfetch
      refine extract_spec hweb hserver ht₁ ?_
      rcases he : (extractHttpd web v).run t₁ faults₁ with ⟨_ | _ | _, t₂, faults₂⟩
      · trivial
      · simpa [cutOffInside, hthere, hf, he] using hspared
      · simpa [cutOffInside, hthere, hf, he] using hspared
    · exact hfetch
    · exact hfetch
  · rw [run_downloadApache_of_ne_none web hthere]
    generalize chosenVersion version = v at hweb ht hspared hthere ⊢
    -- The directory is there, and so is every member of httpd.
    have hhttpd : Progress v (archives.trees v) [archives.httpdTree v] t := by
      refine ⟨ht.claimed, fun x hx => ?_, ht.unbundled⟩
      rw [List.mem_singleton.mp hx]
      exact ht.claimed _ httpdTree_mem hthere
    split_ifs with hdeps
    · simp only [Bool.and_eq_true, Option.isSome_iff_ne_none] at hdeps
      exact ⟨ht.claimed, forall_trees (ht.claimed _ httpdTree_mem hthere)
        (ht.claimed _ aprTree_mem hdeps.1.1) (ht.claimed _ aprUtilTree_mem hdeps.1.2)
        (ht.claimed _ expatTree_mem hdeps.2), ht.unbundled⟩
    · have hfinish : Task.Safe (Progress v (archives.trees v) [archives.httpdTree v])
          (do
            downloadDependencies web ["httpd-" ++ v]
            return ["httpd-" ++ v] : Task FileTree Path)
          (Progress v (archives.trees v) [])
          fun _ => Progress v (archives.trees v) (archives.trees v) :=
        (safe_downloadDependencies hweb).bind fun _ => Task.safe_pure fun _ h => h
      exact hfinish t faults hhttpd

/-- **A call that returns leaves a complete tree**, in a run in which no call is cut off in
the middle of unpacking httpd: wherever else the calls are interrupted, the tree has every
member of httpd, APR, APR-Util and Expat when one of them returns. -/
theorem downloads_returnsComplete {version : Option String}
    (hweb : web.Publishes (chosenVersion version) archives) (t : FileTree)
    (hnew : ∀ rest, t (("httpd-" ++ chosenVersion version) :: rest) = none)
    (calls : List (List (Option Fault)))
    (hspared : ∀ e ∈ (downloads web version).trace t calls,
      cutOffInside web (chosenVersion version) e.pre e.input = false) :
    ∀ e ∈ (downloads web version).trace t calls,
      ReturnsComplete archives (chosenVersion version) e := by
  -- where there is no directory, nothing is claimed
  have hstart : Progress (chosenVersion version) (archives.trees (chosenVersion version)) [] t := by
    refine ⟨forall_trees ?_ ?_ ?_ ?_, by simp, hnew _⟩ <;>
      exact fun hdir => absurd (hnew _) hdir
  have hstep : ∀ t faults,
      Progress (chosenVersion version) (archives.trees (chosenVersion version)) [] t →
      cutOffInside web (chosenVersion version) t faults = false →
      Progress (chosenVersion version) (archives.trees (chosenVersion version)) []
        ((downloads web version).step t faults).2 := by
    intro t faults ht hspared
    have hcall := downloadApache_spec hweb ht hspared
    simp only [downloads]
    generalize (downloadApache web version).run t faults = result at hcall ⊢
    rcases result with ⟨_ | _ | _, t', faults'⟩
    · exact Progress.forget hcall
    · exact hcall
    · exact hcall
  -- what a call that returns has made is complete; the others only keep the invariant
  have hentry : ∀ t faults,
      Progress (chosenVersion version) (archives.trees (chosenVersion version)) [] t →
      cutOffInside web (chosenVersion version) t faults = false →
      ReturnsComplete archives (chosenVersion version) ⟨t, faults,
        ((downloads web version).step t faults).1, ((downloads web version).step t faults).2⟩ := by
    intro t faults ht hspared p hp
    have hcall := downloadApache_spec hweb ht hspared
    simp only [downloads] at hp ⊢
    generalize (downloadApache web version).run t faults = result at hcall hp ⊢
    rcases result with ⟨_ | _ | _, t', faults'⟩
    · exact Progress.done hcall
    · exact absurd hp (by simp)
    · exact absurd hp (by simp)
  exact (downloads web version).forall_mem_trace hstep hentry hstart hspared

/-! ### Small archives -/

/-- Archives of a directory and a file each. -/
def smallArchives : Archives where
  httpd := [⟨["httpd-2.4.62"], .dir⟩, ⟨["httpd-2.4.62", "configure"], .file [1]⟩]
  apr := [⟨["apr-1.7.6"], .dir⟩, ⟨["apr-1.7.6", "configure"], .file [2]⟩]
  aprUtil := [⟨["apr-util-1.6.3"], .dir⟩, ⟨["apr-util-1.6.3", "configure"], .file [3]⟩]
  expat := [⟨["expat-2.6.4"], .dir⟩, ⟨["expat-2.6.4", "configure"], .file [4]⟩]

/-- Servers that have them. -/
def smallWeb : Web where
  get url :=
    if url = aprUrl then some [2]
    else if url = aprUtilUrl then some [3]
    else if url = expatUrl then some [4]
    else some [1]
  untar data :=
    if data = [1] then some smallArchives.httpd
    else if data = [2] then some smallArchives.apr
    else if data = [3] then some smallArchives.aprUtil
    else if data = [4] then some smallArchives.expat
    else none

theorem smallWeb_publishes : smallWeb.Publishes "2.4.62" smallArchives where
  httpd server hserver body hbody := by
    have hget : smallWeb.get (server ++ "/" ++ ("httpd-" ++ "2.4.62" ++ ".tar.gz")) = some [1] := by
      simp only [List.mem_cons, List.not_mem_nil, or_false] at hserver
      rcases hserver with rfl | rfl <;> decide +kernel
    obtain rfl : [1] = body := Option.some.inj (hget.symm.trans hbody)
    rfl
  apr body hbody := by
    have hget : smallWeb.get aprUrl = some [2] := by decide +kernel
    obtain rfl : [2] = body := Option.some.inj (hget.symm.trans hbody)
    rfl
  aprUtil body hbody := by
    have hget : smallWeb.get aprUtilUrl = some [3] := by decide +kernel
    obtain rfl : [3] = body := Option.some.inj (hget.symm.trans hbody)
    rfl
  expat body hbody := by
    have hget : smallWeb.get expatUrl = some [4] := by decide +kernel
    obtain rfl : [4] = body := Option.some.inj (hget.symm.trans hbody)
    rfl
  tops := by
    refine ⟨⟨?_, ?_⟩, ⟨?_, ?_⟩, ⟨?_, ?_⟩, ⟨?_, ?_⟩⟩ <;> simp [smallArchives]
  httpd_free := by
    simp [smallArchives, List.cons_prefix_cons]
  aprUtil_free := by
    simp [smallArchives, List.cons_prefix_cons]

/-- **Three calls**: one is killed while it fetches httpd, and one while it unpacks APR. -/
theorem downloads_returnsComplete_three :
    smallWeb.Publishes "2.4.62" smallArchives ∧
    ∀ e ∈ (downloads smallWeb (some "2.4.62")).trace (fun _ => none)
        [[none, some .kill], List.replicate 12 none ++ [some .kill], []],
      ReturnsComplete smallArchives "2.4.62" e := by
  have hspared : ((downloads smallWeb (some "2.4.62")).trace (fun _ => none)
      [[none, some .kill], List.replicate 12 none ++ [some .kill], []]).all
        (fun e => !cutOffInside smallWeb "2.4.62" e.pre e.input) = true := by
    decide +kernel
  refine ⟨smallWeb_publishes, downloads_returnsComplete smallWeb_publishes _ (fun _ => rfl) _ ?_⟩
  intro e he
  have hentry := List.all_eq_true.mp hspared e he
  rwa [Bool.not_eq_true'] at hentry

/-- **A call that is killed in the middle of unpacking httpd**: the next one returns, and a
member is missing. -/
theorem downloads_not_returnsComplete :
    smallWeb.Publishes "2.4.62" smallArchives ∧
    ((downloads smallWeb (some "2.4.62")).run (fun _ => none)
      [List.replicate 4 none ++ [some .kill], []]).1 =
        [.killed, .returned ["httpd-2.4.62"]] ∧
    ¬ ∀ e ∈ (downloads smallWeb (some "2.4.62")).trace (fun _ => none)
        [List.replicate 4 none ++ [some .kill], []],
      ReturnsComplete smallArchives "2.4.62" e := by
  obtain ⟨hanswers, hmissing⟩ : ((downloads smallWeb (some "2.4.62")).run (fun _ => none)
      [List.replicate 4 none ++ [some .kill], []]).1 =
        [.killed, .returned ["httpd-2.4.62"]] ∧
      ((downloads smallWeb (some "2.4.62")).run (fun _ => none)
        [List.replicate 4 none ++ [some .kill], []]).2 ["httpd-2.4.62", "configure"] = none := by
    decide +kernel
  refine ⟨smallWeb_publishes, hanswers, fun h => ?_⟩
  have hlast := h _ (List.mem_cons_of_mem _ (List.mem_cons_self ..)) ["httpd-2.4.62"]
    (by decide +kernel)
  have hfile := hlast (smallArchives.httpdTree "2.4.62") httpdTree_mem
    ⟨["httpd-2.4.62", "configure"], .file [1]⟩ (by simp [Archives.httpdTree, smallArchives])
  have hnone := hmissing.symm.trans hfile
  exact absurd hnone (by simp)

end Apatchy
