import Apatchy.Foundations.FileTree

/-!
# Tasks that only add files

A tree has grown (`Apatchy.Grown`) if all that was there is there as it was, and each new file
is one that may be added. A task that makes directories, and writes only files that were not
there, leaves a tree that has grown from the one it began with, wherever it is interrupted; but
then the file it was writing may hold only the beginning of its data, so what may be added is
said twice, of whole files and of their beginnings (`Apatchy.safe_addFile`).

Growing from one tree to the next composes (`Apatchy.Grown.trans`).
-/

namespace Apatchy

/-- **A tree has grown**: what was there is there, and each new file may be added. -/
structure Grown (Added : Path → List UInt8 → Prop) (t t' : FileTree) : Prop where
  /-- What was there is there as it was. -/
  keeps : ∀ p n, t p = some n → t' p = some n
  /-- Each new file may be added. -/
  added : ∀ p data, t p = none → t' p = some (.file data) → Added p data

namespace Grown

variable {Added Added' : Path → List UInt8 → Prop} {t t' t'' : FileTree} {p : Path}
  {data : List UInt8}

theorem refl (Added : Path → List UInt8 → Prop) (t : FileTree) : Grown Added t t where
  keeps _ _ h := h
  added p data hnone hfile := by
    rw [hnone] at hfile
    exact absurd hfile (by simp)

theorem mono (h : Grown Added t t') (hadded : ∀ p data, Added p data → Added' p data) :
    Grown Added' t t' where
  keeps := h.keeps
  added p data hnone hfile := hadded p data (h.added p data hnone hfile)

/-- What was not there and is there now was added on the way. -/
theorem trans (h : Grown Added t t') (h' : Grown Added t' t'') : Grown Added t t'' where
  keeps p n hn := h'.keeps p n (h.keeps p n hn)
  added p data hnone hfile := by
    rcases hp : t' p with _ | n
    · exact h'.added p data hp hfile
    · rw [h'.keeps p n hp] at hfile
      exact h.added p data hnone (hp.trans hfile)

/-- A directory is made. -/
theorem write_dir (h : Grown Added t t') (hp : t' p = none) :
    Grown Added t (t'.write p .dir) where
  keeps q n hn := FileTree.write_eq_some hp (h.keeps q n hn)
  added q data hnone hfile := by
    by_cases hq : q = p
    · subst hq
      rw [FileTree.write_self] at hfile
      exact absurd hfile (by simp)
    · rw [FileTree.write_of_ne _ hq] at hfile
      exact h.added q data hnone hfile

/-- A file that was not there is written. -/
theorem write_file (h : Grown Added t t') (hp : t p = none) (hadded : Added p data) :
    Grown Added t (t'.write p (.file data)) where
  keeps q n hn := by
    rw [FileTree.write_of_ne]
    · exact h.keeps q n hn
    · rintro rfl
      rw [hp] at hn
      exact absurd hn (by simp)
  added q data' hnone hfile := by
    by_cases hq : q = p
    · subst hq
      rw [FileTree.write_self] at hfile
      obtain rfl : data = data' := by simpa using hfile
      exact hadded
    · rw [FileTree.write_of_ne _ hq] at hfile
      exact h.added q data' hnone hfile

end Grown

/-- A file that is written again has what was written last. -/
theorem FileTree.write_write (t : FileTree) (p : Path) (n n' : Node) :
    (t.write p n).write p n' = t.write p n' := by
  funext q
  by_cases hq : q = p
  · rw [hq, FileTree.write_self, FileTree.write_self]
  · rw [FileTree.write_of_ne _ hq, FileTree.write_of_ne _ hq, FileTree.write_of_ne _ hq]

/-- **The rule for the beginnings of a file**: at every point one of them is written to the
tree that was there, which has no directory in the place. -/
theorem safe_writeFile_beginning {P C : FileTree → Prop} {p : Path} {data : List UInt8}
    (hC : ∀ t, P t → C t)
    (hpart : ∀ t done, P t → t p ≠ some .dir → done <+: data → C (t.write p (.file done))) :
    Task.Safe P (writeFile p data) C fun _ t' =>
      ∃ t, P t ∧ t p ≠ some .dir ∧ t' = t.write p (.file data) := by
  have hget : Task.Safe P Task.get C fun t t' => t = t' ∧ P t :=
    Task.safe_get fun t ht => ⟨rfl, ht⟩
  refine hget.bind fun t => ?_
  have hstart : ∀ t', t = t' ∧ P t → C t' := by
    rintro _ ⟨rfl, ht⟩
    exact hC t ht
  -- the loop has written the beginning that it has gone through
  have hwrite : t p ≠ some .dir → Task.Safe (fun t' => t = t' ∧ P t) (do
      Task.step fun t => t.write p (.file [])
      Task.forEach (fun b => Task.step fun t => t.append p [b]) data) C
      fun _ t' => ∃ t, P t ∧ t p ≠ some .dir ∧ t' = t.write p (.file data) := by
    intro hdir
    let Written (done : List UInt8) (t' : FileTree) : Prop :=
      P t ∧ t' = t.write p (.file done)
    have hnew : Task.Safe (fun t' => t = t' ∧ P t)
        (Task.step fun t : FileTree => t.write p (.file [])) C fun _ => Written [] :=
      Task.safe_step hstart fun t' ht => ⟨ht.2, by rw [← ht.1]⟩
    have hloop : Task.Safe (Written [])
        (Task.forEach (fun b => Task.step fun t : FileTree => t.append p [b]) data) C
        fun _ => Written data := by
      refine Task.safe_forEach Written fun done b rest hsplit => ?_
      refine Task.safe_step (fun t' ht => ?_) fun t' ht => ⟨ht.1, ?_⟩
      · rw [ht.2]
        exact hpart t done ht.1 hdir ⟨b :: rest, hsplit.symm⟩
      · rw [ht.2, FileTree.append_eq (FileTree.write_self ..), FileTree.write_write]
    exact (hnew.bind fun _ => hloop).weaken (fun _ h => h) fun _ t' ht =>
      ⟨t, ht.1, hdir, ht.2⟩
  -- only where there is a directory for it, and none in its place, is a file opened
  by_cases hin : t.inDirectory p
  · simp only [hin, if_true]
    rcases hp : t p with _ | _ | old
    · exact hwrite (by simp [hp])
    · exact Task.safe_raise hstart
    · exact hwrite (by simp [hp])
  · simp only [hin]
    rcases t p with _ | _ | old <;> exact Task.safe_raise hstart

/-- The rule for a task that depends on what is there. -/
theorem safe_get_bind {σ α : Type} {P C : σ → Prop} {Q : α → σ → Prop} {task : σ → Task σ α}
    (h : ∀ st, P st → Task.Safe (fun st' => st' = st) (task st) C Q) :
    Task.Safe P (Task.get >>= task) C Q :=
  (Task.safe_get fun _ hst => ⟨hst, rfl⟩ : Task.Safe P Task.get C
    fun st st' => P st ∧ st' = st).bind fun st => Task.safe_of_imp fun hst => h st hst

section Rules

variable {Whole Part : Path → List UInt8 → Prop} {t : FileTree} {p : Path}

/-- The rule for a directory that is made. -/
theorem safe_addDir (hpart : ∀ p data, Whole p data → Part p data) :
    Task.Safe (Grown Whole t) (mkdir p) (Grown Part t) fun _ => Grown Whole t :=
  safe_mkdir (fun _ ht => ht.mono hpart) (fun _ ht hnone => ht.write_dir hnone)
    fun _ ht _ => ht

/-- The rule for directories that are made. -/
theorem safe_addDirs (hpart : ∀ p data, Whole p data → Part p data) (ps : List Path) :
    Task.Safe (Grown Whole t) (Task.forEach mkdir ps) (Grown Part t) fun _ => Grown Whole t :=
  Task.safe_forEach (fun _ => Grown Whole t) fun _ _ _ _ => safe_addDir hpart

/-- **The rule for a file that is added** to a tree: one that was not there in the beginning,
and that may be added whole, and its beginnings as beginnings. -/
theorem safe_addFile_to {t₁ : FileTree} {data : List UInt8} (ht₁ : Grown Whole t t₁)
    (hpart : ∀ p data, Whole p data → Part p data)
    (hnew : ∀ old, t p ≠ some (.file old)) (hwhole : Whole p data)
    (hbeginning : ∀ done, done <+: data → Part p done) :
    Task.Safe (fun t' => t' = t₁) (writeFile p data) (Grown Part t)
      fun _ t' => Grown Whole t t' ∧ t' = t₁.write p (.file data) := by
  -- if no directory is there now, nothing was there
  have hnone : t₁ p ≠ some .dir → t p = none := by
    intro hdir
    rcases hp : t p with _ | _ | old
    · rfl
    · exact absurd (ht₁.keeps p .dir hp) hdir
    · exact absurd hp (hnew old)
  refine (safe_writeFile_beginning (fun t' ht => ?_) fun t' done ht hdir hdone => ?_).weaken
    (fun _ h => h) fun _ t' ht => ?_
  · rw [ht]
    exact ht₁.mono hpart
  · rw [ht] at hdir ⊢
    exact (ht₁.mono hpart).write_file (hnone hdir) (hbeginning done hdone)
  · obtain ⟨_, rfl, hdir, rfl⟩ := ht
    exact ⟨ht₁.write_file (hnone hdir) hwhole, rfl⟩

/-- The rule for a file that is added. -/
theorem safe_addFile {data : List UInt8} (hpart : ∀ p data, Whole p data → Part p data)
    (hnew : ∀ old, t p ≠ some (.file old)) (hwhole : Whole p data)
    (hbeginning : ∀ done, done <+: data → Part p done) :
    Task.Safe (Grown Whole t) (writeFile p data) (Grown Part t) fun _ => Grown Whole t :=
  fun t₁ faults ht₁ => ((safe_addFile_to ht₁ hpart hnew hwhole hbeginning).weaken (fun _ h => h)
    fun _ _ h => h.1) t₁ faults rfl

end Rules

end Apatchy
